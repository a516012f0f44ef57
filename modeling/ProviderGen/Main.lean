import ProviderGen.Command

/-!
The program: the file system of the machine behind the requests, and the command line in front
of them.
-/

namespace ProviderGen

/-! ### The file system -/

/-- The refusal with a number of the operating system's, which may come with a minus. -/
def Refusal.ofCode (code : UInt32) (details : String) : Refusal :=
  match min code (0 - code) with
  | 2 => .notFound
  | 17 => .occupied
  | 20 => .notDirectory
  | 21 => .isDirectory
  | 36 => .nameTooLong
  | 40 => .tooManyLinks
  | code => .other (details ++ " (os error " ++ toString code ++ ")")

def Refusal.ofError : IO.Error → Refusal
  | .alreadyExists _ code details => .ofCode code details
  | .otherError code details => .ofCode code details
  | .resourceBusy code details => .ofCode code details
  | .unsupportedOperation code details => .ofCode code details
  | .hardwareFault code details => .ofCode code details
  | .unsatisfiedConstraints code details => .ofCode code details
  | .illegalOperation code details => .ofCode code details
  | .noFileOrDirectory _ code details => .ofCode code details
  | .invalidArgument _ code details => .ofCode code details
  | .permissionDenied _ code details => .ofCode code details
  | .resourceExhausted _ code details => .ofCode code details
  | .inappropriateType _ code details => .ofCode code details
  | .noSuchThing _ code details => .ofCode code details
  | e => .other (toString e)

namespace Machine

def attempt {α : Type} (p : Path) (act : IO α) : IO (Except Refusal α) := do
  if p.text.toList.contains '\x00' then pure (.error .nulInName)
  else
    match ← act.toBaseIO with
    | .ok a => pure (.ok a)
    | .error e => pure (.error (.ofError e))

def entry (p : Path) : IO.FS.DirEntry := ⟨".", p.text⟩

/-- What is at a path, a link being a link. -/
def typeOf (p : Path) : IO IO.FS.FileType := do
  pure (← (entry p).path.symlinkMetadata).type

/-- What a path leads to. -/
def targetType? (p : Path) : IO (Option IO.FS.FileType) := do
  match ← (entry p).path.metadata.toBaseIO with
  | .ok facts => pure (some facts.type)
  | .error _ => pure none

def namesIn (p : Path) : IO (List String) := do
  pure ((← (entry p).path.readDir).toList.map (·.fileName))

partial def remove (p : Path) : IO Unit := do
  if (← typeOf p) == .dir then
    for name in ← namesIn p do
      remove (p / name)
    IO.FS.removeDir p.text
  else
    IO.FS.removeFile p.text

def removeTree (p : Path) : IO Unit := do
  match ← typeOf p with
  | .dir => remove p
  | .symlink => remove p
  | _ => IO.FS.removeDir p.text

partial def filesBelow (p : Path) : IO (List Path) := do
  let names := (← namesIn p).mergeSort fun a b => decide (a ≤ b)
  let parts ← names.mapM fun name => do
    if (← typeOf (p / name)) == .dir then filesBelow (p / name) else pure [p / name]
  pure parts.flatten

def walk (p : Path) : IO (List Path) := do
  if (← typeOf p) == .dir then filesBelow p
  else if (← targetType? p) == some .dir then pure (p :: (← filesBelow p))
  else pure [p]

instance : Files IO where
  read p := attempt p (IO.FS.readBinFile p.text)
  createNew p bytes := attempt p (IO.FS.withFile p.text .writeNew (·.write bytes))
  write p bytes := attempt p (IO.FS.writeBinFile p.text bytes)
  makeDirectory p := attempt p (IO.FS.createDir p.text)
  removeTree p := attempt p (removeTree p)
  list p := attempt p (namesIn p)
  walk p := attempt p (walk p)
  canonical p := attempt p do pure ⟨toString (← IO.FS.realPath p.text)⟩
  isFile p := do pure ((← targetType? p) == some .file)
  isDirectory p := do pure ((← targetType? p) == some .dir)
  isThere p := do pure (← targetType? p).isSome

end Machine

/-! ### The command line -/

def perform (root : Path) (action : Command.Action) : IO UInt8 := do
  match ← (Command.perform (m := IO) root action).run with
  | .ok line =>
    IO.println line
    pure 0
  | .error e =>
    (Command.complaint (Command.told e) e).forM fun line => IO.eprintln line
    pure e.kind.exitCode

def answer : Command.Request → IO UInt8
  | .help => do
    Command.usage.forM fun line => IO.println line
    pure 0
  | .version => do
    IO.println Command.versionLine
    pure 0
  | .misuse => do
    Command.usage.forM fun line => IO.eprintln line
    pure Command.misuseCode
  | .run root _ action => perform root action

end ProviderGen

def main (args : List String) : IO UInt32 := do
  pure (← ProviderGen.answer (.ofArguments args)).toUInt32
