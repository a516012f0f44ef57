import ProviderGen.Document.Reader
import ProviderGen.Files.Write
import ProviderGen.Project

/-!
A project and its files: loading and saving the settings, and reading the schema.
-/

namespace ProviderGen.Project

open Files (orRefused readText overwrite safeWrite)

variable {m : Type → Type} [Monad m] [Files m]

def ofText (root : Path) (text : String) : Except Error Project :=
  match Settings.read text with
  | .ok s => ofSettings root s
  | .error f => .error (.badSettings (root / Layout.settingsFile) f.message)

def load (root : Path) : ExceptT Error m Project := do
  let path := root / Layout.settingsFile
  match ← readText (m := m) path with
  | .ok text => ofText root text
  | .error .notFound => throw (.notInitialized path)
  | .error r => throw (.refused path r)

def save (p : Project) : ExceptT Error m Unit := overwrite p.settingsPath p.settings.text

def loadSchema (p : Project) : ExceptT Error m Document := do
  let text ← orRefused p.schemaPath (readText p.schemaPath)
  match Document.parse? text with
  | some d => pure d
  | none => throw (.badDocument p.schemaPath "malformed document")

/-- Writes a schema to start with unless there is one; whether it was written. -/
def writeExampleIfMissing (p : Project) (text : String) : ExceptT Error m Bool := do
  if ← Files.isThere (m := m) p.schemaPath then pure false
  else
    safeWrite p.schemaPath text
    pure true

end ProviderGen.Project
