import ProviderGen.Path
import ProviderGen.Java.Package

/-!
Where things lie in a project, and the names by which descriptors refer to them.
-/

namespace ProviderGen.Layout

open ProviderGen.Java (Package)

def settingsFile : String := ".cfn-java.toml"

def executable : String := "cfn-java-gen"

def runtime : String := "java8"

def buildDescriptorFile : String := "pom.xml"

def buildDirectory : String := "target"

/-- The generated root below the project, which belongs to the generator alone. -/
def generatedSegments : List String := ["target", "generated-sources", "rpdk"]

/-- The method that the runtime calls. -/
def entrypoint (p : Package) : String := p.dotted ++ ".HandlerWrapper::handleRequest"

/-- The built artifact, as the deployment descriptor refers to it. -/
def codeUri (hyphenated : String) : String :=
  "./target/" ++ hyphenated ++ "-handler-1.0-SNAPSHOT.jar"

def artifactId (hyphenated : String) : String := hyphenated ++ "-handler"

/-- The file names that the built artifact may have. -/
def artifactPattern (hyphenated : String) : String := hyphenated ++ "-*-SNAPSHOT.jar"

def packagePath (p : Package) : String := (p.segments.foldl (· / ·) (⟨""⟩ : Path)).text

def generatedRoot (root : Path) : Path := generatedSegments.foldl (· / ·) root

def mainSources (root : Path) (p : Package) : Path :=
  root / "src" / "main" / "java" / packagePath p

def testSources (root : Path) (p : Package) : Path :=
  root / "src" / "test" / "java" / packagePath p

end ProviderGen.Layout
