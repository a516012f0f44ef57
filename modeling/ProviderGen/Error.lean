import ProviderGen.Path
import ProviderGen.Refusal
import ProviderGen.Schema.Defect
import ProviderGen.Java.Class
import ProviderGen.Text.Quoted

/-!
Everything that can go wrong, by its cause. The kind of an error says whose turn it is: a
malformed value can be corrected, a missing step can be taken, an inconsistency has to be
looked into, and the file system may refuse. Kinds fix the exit status.
-/

namespace ProviderGen

inductive Error where
  | badPackage (value reason : String)
  | badTypeName (value reason : String)
  | badSchema (pointer reason : String)
  | notInitialized (settings : Path)
  | artifactMissing (directory : Path) (pattern : String)
  | artifactAmbiguous (candidates : List Path)
  | archiveInsideSources (archive : Path)
  | objectUndefined (owner missing : String)
  | fileExists (path : Path)
  | refused (path : Path) (cause : Refusal)
  | entryFailed (entry reason : String)
  | badSettings (path : Path) (reason : String)
  | badDocument (path : Path) (reason : String)
  deriving DecidableEq

namespace Error

inductive Kind where
  | validation
  | precondition
  | internal
  | io
  deriving DecidableEq

def Kind.name : Kind → String
  | validation => "validation error"
  | precondition => "precondition failed"
  | internal => "internal error"
  | io => "i/o error"

def Kind.exitCode : Kind → UInt8
  | validation => 2
  | precondition => 3
  | internal => 70
  | io => 74

/-- Whether a simple instruction can help the user. -/
def Kind.isActionable : Kind → Bool
  | validation | precondition => true
  | internal | io => false

def kind : Error → Kind
  | badPackage .. | badTypeName .. | badSchema .. | archiveInsideSources .. => .validation
  | notInitialized .. | artifactMissing .. => .precondition
  | artifactAmbiguous .. | objectUndefined .. => .internal
  | fileExists .. | refused .. | entryFailed .. | badSettings .. | badDocument .. => .io

def quoted (p : Path) : String := Text.quote p.text

/-- The message up to the cause that another reader or the file system gave. -/
def summary : Error → String
  | badPackage v r => "invalid namespace '" ++ v ++ "': " ++ r
  | badTypeName v r => "invalid resource type name '" ++ v ++ "': " ++ r
  | badSchema p r => "invalid resource schema at '" ++ p ++ "': " ++ r
  | notInitialized p => "no project settings found at " ++ quoted p
  | artifactMissing d p =>
    "no build artifact matching '" ++ p ++ "' was found in " ++ quoted d
  | artifactAmbiguous ps =>
    "multiple build artifacts match: " ++ ", ".intercalate (ps.map Path.text)
  | archiveInsideSources p =>
    "refusing to write archive " ++ quoted p ++ " over or inside a packaged path"
  | objectUndefined o m => "object '" ++ o ++ "' references undefined object '" ++ m ++ "'"
  | fileExists p => "file already exists, not overwriting " ++ quoted p
  | refused p _ => "i/o failure on " ++ quoted p
  | entryFailed e _ => "failed to write archive entry '" ++ e ++ "'"
  | badSettings p _ => "failed to read project settings " ++ quoted p
  | badDocument p _ => "failed to parse " ++ quoted p

/-- The cause that another reader or the file system gave. -/
def cause? : Error → Option String
  | refused _ c => some c.message
  | entryFailed _ r | badSettings _ r | badDocument _ r => some r
  | _ => none

def message (e : Error) : String :=
  match e.cause? with
  | some c => e.summary ++ ": " ++ c
  | none => e.summary

/-- What the user can do about an error, where that is simple. -/
def remedy? : Error → Option String
  | artifactMissing .. => some
      "Please run 'mvn package' or the equivalent command in your IDE to compile and package the code."
  | notInitialized .. => some
      "Run 'cfn-java-gen init --type-name <Vendor::Service::Resource>' first."
  | fileExists .. => some
      "Move or delete the existing file if you want it to be re-created."
  | archiveInsideSources .. => some
      "Choose an --output path outside 'src/' and 'target/generated-sources/'."
  | _ => none

def ofDefect (d : Schema.Defect) : Error := badSchema d.place.text d.fault.message

def ofDangling (d : Java.Dangling) : Error := objectUndefined d.owner d.missing.text

def ofPackageFault (value : String) (f : Java.Package.Fault) : Error :=
  badPackage value f.message

end Error

end ProviderGen
