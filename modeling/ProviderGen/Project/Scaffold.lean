import ProviderGen.Java.Class
import ProviderGen.Java.Operation
import ProviderGen.Project.Store
import ProviderGen.Template.Scaffold
import ProviderGen.Template.Stub

/-!
The scaffold of a new project. All of its files are written safely, the first one that is in the
user's way ends the matter, and the settings are saved last.
-/

namespace ProviderGen.Project

open Files (orRefused safeWrite makeDirectories)
open Java (Operation Package rootClassName)
open Template (Lines render)

variable {m : Type → Type} [Monad m] [Files m]

def buildDescriptor (p : Project) (k : Package) : Lines :=
  Template.buildDescriptor {
    groupId := k.dotted
    artifactId := Layout.artifactId p.hyphenated
    executable := Layout.executable
    generatedSources := "/".intercalate Layout.generatedSegments
    schemaFile := p.schemaFile }

def deploymentDescriptor (p : Project) (k : Package) : Lines :=
  Template.deploymentDescriptor {
    resourceType := p.typeName
    handler := Layout.entrypoint k
    runtime := Layout.runtime
    codeUri := Layout.codeUri p.hyphenated }

/-- The files that describe the build. -/
def descriptors (p : Project) (k : Package) : List (Path × Lines) := [
  (p.root / Layout.buildDescriptorFile, p.buildDescriptor k),
  (p.root / "lombok.config", Template.lombokConfig),
  (p.root / "template.yml", p.deploymentDescriptor k)]

def sourceFile (className : String) : String := className ++ ".java"

/-- A handler and its test. -/
def stubs (p : Project) (k : Package) (op : Operation) : List (Path × Lines) := [
  (Layout.mainSources p.root k / sourceFile op.handlerClass,
    Template.handler k.dotted op rootClassName),
  (Layout.testSources p.root k / sourceFile op.testClass,
    Template.handlerTest k.dotted op rootClassName)]

def companions (p : Project) (k : Package) : List (Path × Lines) := [
  (Layout.mainSources p.root k / "CallbackContext.java", Template.callbackContext k.dotted),
  (Layout.mainSources p.root k / "Configuration.java",
    Template.configuration k.dotted p.schemaFile),
  (p.root / "README.md", Template.readme p.typeName p.schemaFile Layout.executable)]

/-- What is written once the source directories are there, in this order. -/
def scaffoldFiles (p : Project) (k : Package) : List (Path × Lines) :=
  p.descriptors k ++ Operation.all.flatMap (p.stubs k) ++ p.companions k

def writeSafely (f : Path × Lines) : ExceptT Error m Unit := safeWrite f.1 (render f.2)

def makeSources (dir : Path) : ExceptT Error m Unit := orRefused dir (makeDirectories dir)

def scaffold (p : Project) : ExceptT Error m Unit := do
  let k ← p.package
  writeSafely (p.root / ".gitignore", Template.ignoredFiles)
  makeSources (Layout.mainSources p.root k)
  makeSources (Layout.testSources p.root k)
  (p.scaffoldFiles k).forM writeSafely
  let _ ← p.writeExampleIfMissing (render (Template.exampleSchema p.typeName))
  p.save

/-- Writes the scaffold of the declared project. The project stays declared even if that fails. -/
def init (p : Project) : m (Except Error Unit × Project) := do
  let r ← p.declared.scaffold.run
  pure (r, p.declared)

end ProviderGen.Project
