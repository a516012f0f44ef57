import ProviderGen.Java.Word
import ProviderGen.Schema.Key

/-!
Identifiers made from schema names. Every character that the language does not allow becomes an
underscore, so an identifier is ASCII whatever the name was, and only ASCII letters ever change
their case.
-/

namespace ProviderGen.Java

open ProviderGen.Schema (Key)

def isWordChar (c : Char) : Bool := c.isAlphanum || c == '_' || c == '$'

def legalChars (cs : List Char) : List Char := cs.map fun c => if isWordChar c then c else '_'

def upperFirst : List Char → List Char
  | [] => []
  | c :: r => c.toUpper :: r

def lowerFirst : List Char → List Char
  | [] => []
  | c :: r => c.toLower :: r

/-- No name is empty or starts with a digit; an underscore in front sees to that. -/
def withStart : List Char → List Char
  | [] => ['_']
  | c :: r => if c.isDigit then '_' :: c :: r else c :: r

/-- The field that holds the property of the given name. -/
def fieldName (name : String) : String :=
  guard (String.ofList (lowerFirst (withStart (legalChars name.toList))))

/-- The part of an accessor's name behind get or set. -/
def accessor (field : String) : String := String.ofList (upperFirst field.toList)

def getter (field : String) : String := "get" ++ accessor field ++ "()"

/-- The base name of the class of an object that has no name of its own. -/
def anonymousClass : String := "Object"

/-- The capitalised words of a name run together. -/
def capitalised (name : String) : List Char :=
  (name.toList.splitOnP fun c => !c.isAlphanum).flatMap upperFirst

/-- The name that the class of the object at `key` asks for. -/
def className (key : Key) : String :=
  match capitalised (key.baseName?.getD anonymousClass) with
  | [] => anonymousClass
  | cs => String.ofList (withStart cs)

end ProviderGen.Java
