import ProviderGen.Files

/-!
Archives: files under names relative to a root. Nothing is skipped. A file that cannot be read
ends the matter, and what has been entered before it is still told; a path that opens but has no
bytes to read leaves an empty entry behind.
-/

namespace ProviderGen

namespace Archive

structure Entry where
  name : String
  bytes : ByteArray

/-- The entries made, and what made an end of it. -/
structure Assembly where
  entries : List Entry
  failure : Option Error

namespace Assembly

def done (es : List Entry) : Assembly := ⟨es, none⟩

def failed (es : List Entry) (e : Error) : Assembly := ⟨es, some e⟩

def result (a : Assembly) : Except Error (List Entry) :=
  match a.failure with
  | none => .ok a.entries
  | some e => .error e

end Assembly

@[simp] theorem Assembly.result_done (es : List Entry) : (done es).result = .ok es := rfl

@[simp] theorem Assembly.result_failed (es : List Entry) (e : Error) :
    (failed es e).result = .error e := rfl

/-- The components of a path below the root, with slashes between them. -/
def entryName (root path : Path) : Except Error String :=
  match path.below? root with
  | some cs => .ok ("/".intercalate (cs.map Path.Component.text))
  | none => .error (.refused path .outsideRoot)

variable {m : Type → Type} [Monad m] [Files m]

def ofFile (root path : Path) : m Assembly := do
  match entryName root path with
  | .error e => pure (.failed [] e)
  | .ok name =>
    match ← Files.read path with
    | .ok bytes => pure (.done [⟨name, bytes⟩])
    | .error .isDirectory => pure (.failed [⟨name, .empty⟩] (.refused path .isDirectory))
    | .error r => pure (.failed [] (.refused path r))

/-- The entries of all `parts`, one after the other, up to a failure. -/
def ofAll {α : Type} (entry : α → m Assembly) : List α → m Assembly
  | [] => pure (.done [])
  | x :: rest => do
    let first ← entry x
    match first.failure with
    | some _ => pure first
    | none =>
      let others ← ofAll entry rest
      pure ⟨first.entries ++ others.entries, others.failure⟩

def ofTree (root dir : Path) : m Assembly := do
  match ← Files.walk dir with
  | .ok files => ofAll (ofFile root) files
  | .error r => pure (.failed [] (.refused dir r))

/-- A directory stands for all that is below it. -/
def ofPath (root path : Path) : m Assembly := do
  if ← Files.isDirectory path then ofTree root path else ofFile root path

def assemble (root : Path) (paths : List Path) : m Assembly := ofAll (ofPath root) paths

end Archive

end ProviderGen
