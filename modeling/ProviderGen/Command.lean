import ProviderGen.Command.Arguments
import ProviderGen.Project.Generate
import ProviderGen.Project.Pack
import ProviderGen.Project.Scaffold

/-!
What the program does when it is asked, and what it says: one line on success, and on failure the
error, its cause and some advice.
-/

namespace ProviderGen.Command

def versionLine : String := Layout.executable ++ " 0.1.0-alpha.1"

def usage : List String := [
  "Usage: " ++ Layout.executable ++ " [--root <dir>] [--verbose] <command>",
  "",
  "Commands:",
  "  init --type-name <name> [--namespace <package>]",
  "  generate",
  "  package [--output <file>]",
  "  help [<command>]"]

/-- A wrong command line has the status of a wrong value. -/
def misuseCode : UInt8 := Error.Kind.exitCode .validation

variable {m : Type → Type} [Monad m] [Files m]

def initialized (p : Project) : Except Error String := do
  let k ← p.package
  .ok ("Initialized " ++ p.typeName ++ " in " ++ p.root.text ++ " (package " ++ k.dotted ++ ")")

def newProject (root : Path) (typeName : String) (package : Option String) :
    Except Error Project := do
  let p ← Project.new root typeName
  match package with
  | some chosen => p.withPackage chosen
  | none => .ok p

/-- The archive, where no other is asked for. -/
def defaultArchive (p : Project) : Path := p.root / (p.hyphenated ++ ".zip")

/-- Does what is asked for; the line to print. -/
def perform (root : Path) (action : Action) : ExceptT Error m String := do
  match action with
  | .init typeName package =>
    let p ← newProject root typeName package
    let (r, p) ← ExceptT.lift p.init
    let _ ← r
    initialized p
  | .generate =>
    let p ← Project.load root
    let written ← p.generate
    pure ("Generated " ++ toString written.length ++ " files under " ++
      (Layout.generatedRoot p.root).text)
  | .pack output =>
    let p ← Project.load root
    let archive := output.getD (defaultArchive p)
    p.pack archive
    pure ("Packaged " ++ archive.text)

/-- The message of an error; a cause that has a text of its own is told once more. -/
def told (e : Error) : String :=
  match e with
  | .refused .. | .entryFailed .. | .badDocument .. => e.message ++ ": " ++ e.cause?.getD ""
  | e => e.message

def advice (e : Error) : List String :=
  match e.remedy? with
  | some remedy => [remedy]
  | none =>
    if e.kind = .internal then
      ["This looks like a bug or an inconsistent build tree (" ++ e.kind.name ++ ")."]
    else []

/-- What is said about an error whose message is `message`. -/
def complaint (message : String) (e : Error) : List String := ("error: " ++ message) :: advice e

end ProviderGen.Command
