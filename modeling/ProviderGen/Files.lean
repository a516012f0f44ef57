import ProviderGen.Error

/-!
What the program asks of a file system. Every request is answered or refused; the three plain
questions have an answer for every path, and links are followed in them.
-/

namespace ProviderGen

class Files (m : Type → Type) where
  read : Path → m (Except Refusal ByteArray)
  /-- A file with these bytes where there is nothing yet. -/
  createNew : Path → ByteArray → m (Except Refusal Unit)
  /-- A file with these bytes, whether there was one or not. -/
  write : Path → ByteArray → m (Except Refusal Unit)
  makeDirectory : Path → m (Except Refusal Unit)
  /-- Removes a directory with all that it holds; links in it are removed, not followed. -/
  removeTree : Path → m (Except Refusal Unit)
  /-- The names in a directory. -/
  list : Path → m (Except Refusal (List String))
  /-- What lies below a directory and is none itself, in directory order. -/
  walk : Path → m (Except Refusal (List Path))
  /-- The absolute path without links. -/
  canonical : Path → m (Except Refusal Path)
  isFile : Path → m Bool
  isDirectory : Path → m Bool
  isThere : Path → m Bool

namespace Files

variable {m : Type → Type} [Monad m] {α : Type}

/-- The answer to a request about a path, where a refusal ends the matter. -/
def orRefused (p : Path) (answer : m (Except Refusal α)) : ExceptT Error m α := do
  match ← ExceptT.lift answer with
  | .ok a => pure a
  | .error r => throw (.refused p r)

def textOf (bytes : ByteArray) : Except Refusal String :=
  match String.fromUTF8? bytes with
  | some s => .ok s
  | none => .error .notText

@[simp] theorem textOf_toUTF8 (s : String) : textOf s.toUTF8 = .ok s := by
  simp [textOf, String.fromUTF8?, String.fromUTF8, s.isValidUTF8]

/-- A directory that is there already is as good as a new one. -/
def orThere [Files m] (p : Path) : Except Refusal Unit → m (Except Refusal Unit)
  | .ok _ => pure (.ok ())
  | .error r => do pure (if ← isDirectory p then .ok () else .error r)

/-- Makes a directory and, where its parent is missing, first the parent, the first of `up`. The
parents made stay if the directory itself is refused. -/
def makeFrom [Files m] (p : Path) (up : List Path) : m (Except Refusal Unit) := do
  if p.text = "" then pure (.ok ())
  else
    match ← makeDirectory p with
    | .error .notFound =>
      match up with
      | [] => pure (.error (.other "failed to create whole tree"))
      | q :: rest =>
        match ← makeFrom q rest with
        | .ok _ => orThere p (← makeDirectory p)
        | .error r => pure (.error r)
    | answer => orThere p answer

/-- Makes a directory, and its parents before it where they are missing. -/
def makeDirectories [Files m] (p : Path) : m (Except Refusal Unit) := makeFrom p p.ancestors

def readText [Files m] (p : Path) : m (Except Refusal String) := do
  pure ((← read p).bind textOf)

end Files

end ProviderGen
