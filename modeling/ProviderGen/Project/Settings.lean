import ProviderGen.Toml.Reader
import ProviderGen.Toml.Spelling

/-!
What a project remembers between runs. Settings are written as one line per value, absent ones
left out, and are read from any settings text whose keys of these names hold texts; other keys
are ignored.
-/

namespace ProviderGen

structure Settings where
  typeName : String
  language : String
  runtime : Option String
  entrypoint : Option String
  package : Option String
  schemaFile : Option String
  deriving DecidableEq

namespace Settings

def defaultLanguage : String := "java"

/-- The settings of a new project. -/
def ofTypeName (typeName : String) : Settings :=
  ⟨typeName, defaultLanguage, none, none, none, none⟩

/-- The values by their keys, in the order in which they are written. -/
def fields (s : Settings) : List (String × Option String) := [
  ("type_name", some s.typeName),
  ("language", some s.language),
  ("runtime", s.runtime),
  ("entrypoint", s.entrypoint),
  ("namespace", s.package),
  ("schema_file", s.schemaFile)]

def line (key value : String) : String := key ++ " = " ++ Toml.spell value ++ "\n"

def text (s : Settings) : String :=
  String.join (s.fields.filterMap fun (key, value?) => value?.map (line key))

/-- Why settings cannot be read. -/
inductive Fault where
  | malformed
  | missing (key : String)
  | notText (key : String)
  deriving DecidableEq

def Fault.message : Fault → String
  | malformed => "malformed settings"
  | missing key => "missing '" ++ key ++ "'"
  | notText key => "'" ++ key ++ "' is not a text"

/-- The text under a key, if there is anything. -/
def text? (ms : Toml.Members) (key : String) : Except Fault (Option String) :=
  match ms.lookup key with
  | none => .ok none
  | some (.text s) => .ok (some s)
  | some _ => .error (.notText key)

def ofMembers (ms : Toml.Members) : Except Fault Settings := do
  let some typeName ← text? ms "type_name" | .error (.missing "type_name")
  let language ← text? ms "language"
  let runtime ← text? ms "runtime"
  let entrypoint ← text? ms "entrypoint"
  let package ← text? ms "namespace"
  let schemaFile ← text? ms "schema_file"
  .ok ⟨typeName, language.getD defaultLanguage, runtime, entrypoint, package, schemaFile⟩

def read (s : String) : Except Fault Settings :=
  match Toml.parse? s with
  | some ms => ofMembers ms
  | none => .error .malformed

end Settings

end ProviderGen
