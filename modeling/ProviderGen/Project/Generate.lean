import ProviderGen.Java.ResourceKey
import ProviderGen.Project.Store
import ProviderGen.Schema.Walk
import ProviderGen.Template.Source

/-!
Generating the sources that follow from the schema. What is to be written is settled before
anything is deleted; then the generated root is removed and built anew, so that nothing stays
behind of what an older schema asked for.
-/

namespace ProviderGen.Project

open Files (orRefused overwrite makeDirectories removeTree)
open Java (JavaClass Operation Package ResourceKeys rootClassName)
open Schema (Graph)
open Template (Lines render)

/-- The classes of a schema, and its keys with the accessors of these classes. -/
def modelOf (k : Package) (schema : Document) : Except Error (List JavaClass × ResourceKeys) := do
  let graph ← (Graph.ofDocument schema).mapError Error.ofDefect
  let classes ← (Java.classesOf rootClassName k graph).mapError Error.ofDangling
  let keys ← (ResourceKeys.ofDocument schema).mapError Error.ofDefect
  .ok (classes, keys.bindTo classes)

/-- The files of the generated package, by their names there and in the order of writing. -/
def generatedFiles (typeName : String) (k : Package) (classes : List JavaClass)
    (keys : ResourceKeys) : List (String × Lines) := [
    ("HandlerWrapper.java", Template.handlerWrapper k.dotted rootClassName Operation.all),
    ("BaseConfiguration.java", Template.baseConfiguration k.dotted),
    ("BaseHandler.java", Template.baseHandler k.dotted rootClassName)] ++
  classes.map fun c => (c.name ++ ".java", Template.model typeName c keys)

def generatedPackage (root : Path) (k : Package) : Path :=
  Layout.generatedRoot root / Layout.packagePath k

variable {m : Type → Type} [Monad m] [Files m]

/-- Removes the generated root if there is one. -/
def removeGenerated (root : Path) : ExceptT Error m Unit := do
  match ← removeTree (m := m) (Layout.generatedRoot root) with
  | .ok _ => pure ()
  | .error .notFound => pure ()
  | .error r => throw (.refused (Layout.generatedRoot root) r)

/-- Writes a file into a directory; its path. -/
def emit (dir : Path) (f : String × Lines) : ExceptT Error m Path := do
  overwrite (dir / f.1) (render f.2)
  pure (dir / f.1)

/-- The paths written, in the order of writing. -/
def generate (p : Project) : ExceptT Error m (List Path) := do
  let k ← p.package
  let schema ← p.loadSchema
  let (classes, keys) ← modelOf k schema
  removeGenerated p.root
  let dir := generatedPackage p.root k
  orRefused dir (makeDirectories dir)
  (generatedFiles p.typeName k classes keys).mapM (emit dir)

end ProviderGen.Project
