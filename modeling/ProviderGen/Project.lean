import ProviderGen.Error
import ProviderGen.Project.Layout
import ProviderGen.Project.Settings
import ProviderGen.TypeName

/-!
Projects: a root directory, settings, and the segments of the type name in the settings. The
package is looked up anew each time: one chosen in the settings wins, else it is derived from the
segments.
-/

namespace ProviderGen

open ProviderGen.Java (Package)

structure Project where
  root : Path
  settings : Settings
  segments : List String
  segments_eq : TypeName.segments settings.typeName = .ok segments

namespace Project

def ofSettings (root : Path) (s : Settings) : Except Error Project :=
  match h : TypeName.segments s.typeName with
  | .ok segments => .ok ⟨root, s, segments, h⟩
  | .error f => .error (.badTypeName s.typeName f.message)

/-- A project that nothing is written of yet. -/
def new (root : Path) (typeName : String) : Except Error Project :=
  ofSettings root (.ofTypeName typeName)

def typeName (p : Project) : String := p.settings.typeName

def hyphenated (p : Project) : String := TypeName.hyphenated p.segments

def settingsPath (p : Project) : Path := p.root / Layout.settingsFile

def schemaFile (p : Project) : String :=
  p.settings.schemaFile.getD (TypeName.schemaFile p.segments)

def schemaPath (p : Project) : Path := p.root / p.schemaFile

def readPackage (value : String) : Except Error Package :=
  (Package.read value).mapError (Error.ofPackageFault value)

def package (p : Project) : Except Error Package :=
  match p.settings.package with
  | some chosen => readPackage chosen
  | none => .ok (Package.derive p.segments)

def withRuntime (p : Project) (runtime : String) : Project :=
  { p with settings := { p.settings with runtime := some runtime } }

def withEntrypoint (p : Project) (entrypoint : String) : Project :=
  { p with settings := { p.settings with entrypoint := some entrypoint } }

/-- The project with a chosen package. -/
def withPackage (p : Project) (chosen : String) : Except Error Project := do
  let _ ← readPackage chosen
  .ok { p with settings := { p.settings with package := some chosen } }

@[simp] theorem package_withRuntime (p : Project) (r : String) :
    (p.withRuntime r).package = p.package := rfl

@[simp] theorem package_withEntrypoint (p : Project) (e : String) :
    (p.withEntrypoint e).package = p.package := rfl

/-- The project with the runtime, and with the entrypoint of its package. -/
def declared (p : Project) : Project :=
  match p.package with
  | .ok k => (p.withRuntime Layout.runtime).withEntrypoint (Layout.entrypoint k)
  | .error _ => p

end Project

end ProviderGen
