import ProviderGen.Files
import ProviderGen.Glob.Reader
import ProviderGen.Project.Layout

/-!
Finding what the build has made. Exactly one file of the build directory has to match the
pattern of the project's name; links to files count as files.
-/

namespace ProviderGen.Artifact

open Files (orRefused)

def directory (root : Path) : Path := root / Layout.buildDirectory

/-- The pattern for a name; characters of the name that mean something in a pattern keep it. -/
def patternOf (hyphenated : String) : Except Error Glob.Pattern :=
  (Glob.parse (Layout.artifactPattern hyphenated)).mapError fun f =>
    .badTypeName hyphenated (f.message (Layout.artifactPattern hyphenated))

def only (dir : Path) (pattern : String) : List Path → Except Error Path
  | [] => .error (.artifactMissing dir pattern)
  | [p] => .ok p
  | ps => .error (.artifactAmbiguous ps)

variable {m : Type → Type} [Monad m] [Files m]

/-- The names in the build directory, none if it is not there. -/
def built (dir : Path) : ExceptT Error m (List String) := do
  match ← Files.list (m := m) dir with
  | .ok names => pure names
  | .error .notFound => pure []
  | .error r => throw (.refused dir r)

def find (root : Path) (hyphenated : String) : ExceptT Error m Path := do
  let pattern ← patternOf hyphenated
  let dir := directory root
  let names := (← built dir).filter pattern.accepts
  let files ← names.filterM fun n => ExceptT.lift (Files.isFile (m := m) (dir / n))
  let sorted := (files.mergeSort fun a b => decide (a ≤ b)).map (dir / ·)
  only dir (Layout.artifactPattern hyphenated) sorted

end ProviderGen.Artifact
