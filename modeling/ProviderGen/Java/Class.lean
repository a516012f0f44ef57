import ProviderGen.Schema.Graph
import ProviderGen.Java.FreeName
import ProviderGen.Java.Identifier
import ProviderGen.Java.Operation
import ProviderGen.Java.Package

/-!
Classes for the objects of a graph, one per object and in the graph's order. The root class has
the name it is given; every other class is named after its object, with a number behind the
name where that is taken. References become the names of the classes they lead to, and a
reference to an object that is not in the graph has none.
-/

namespace ProviderGen.Java

open ProviderGen.Schema (Key FlatType Property Object Graph)

inductive JavaType where
  | string
  | integer
  | double
  | boolean
  | object
  | named (name : String)
  | list (item : JavaType)
  | set (item : JavaType)
  | map (value : JavaType)
  deriving DecidableEq, Inhabited

def JavaType.text : JavaType → String
  | string => "String"
  | integer => "Integer"
  | double => "Double"
  | boolean => "Boolean"
  | object => "Object"
  | named name => name
  | list item => "List<" ++ item.text ++ ">"
  | set item => "Set<" ++ item.text ++ ">"
  | map value => "Map<String, " ++ value.text ++ ">"

/-- A field of a class. The name is the property's own, the identifier is the field's. -/
structure JavaField where
  name : String
  identifier : String
  type : JavaType
  required : Bool
  deriving DecidableEq, Inhabited

namespace JavaField

def accessor (f : JavaField) : String := Java.accessor f.identifier

def literalChar (c : Char) : List Char :=
  if c = '\\' then ['\\', '\\'] else if c = '"' then ['\\', '"'] else [c]

/-- The property's name as it stands between the quotes of a string literal. -/
def literal (f : JavaField) : String := String.ofList (f.name.toList.flatMap literalChar)

end JavaField

structure JavaClass where
  name : String
  package : Package
  key : Key
  fields : List JavaField
  deriving DecidableEq, Inhabited

def JavaClass.isRoot (c : JavaClass) : Bool := c.key.isRoot

def rootClassName : String := "ResourceModel"

/-- Types that generated sources use by their simple names, and classes generated beside. -/
def occupiedNames : List String := [
  "ArrayList", "BaseConfiguration", "BaseHandler", "Boolean", "CallbackContext",
  "Configuration", "Double", "HandlerWrapper", "Integer", "JSONObject", "List", "Map",
  "Object", "Set", "String"]

/-- The names that no class may take, unless the root is to be called so. -/
def takenNames (rootName : String) : List String :=
  (occupiedNames ++ Operation.all.flatMap fun op => [op.handlerClass, op.testClass]).filter
    (· != rootName)

def wantedName (rootName : String) (key : Key) : String :=
  if key.isRoot then rootName else className key

/-- The class name of each object, in the order of the objects. -/
def classNames (rootName : String) (g : Graph) : List (Key × String) :=
  g.keys.zip (freeNames (takenNames rootName) (g.keys.map (wantedName rootName)))

/-- A reference without an object, met in the class `owner`. -/
structure Dangling where
  owner : String
  missing : Key
  deriving DecidableEq

def typeOf (names : List (Key × String)) (owner : String) : FlatType → Except Dangling JavaType
  | .string => .ok .string
  | .integer => .ok .integer
  | .number => .ok .double
  | .boolean => .ok .boolean
  | .any => .ok .object
  | .object key =>
    match names.lookup key with
    | some name => .ok (.named name)
    | none => .error ⟨owner, key⟩
  | .list t => (typeOf names owner t).map .list
  | .set t => (typeOf names owner t).map .set
  | .map t => (typeOf names owner t).map .map

/-- The identifiers of an object's fields. -/
def identifiersOf (properties : List Property) : List String :=
  freeNames [] (properties.map fun p => fieldName p.name)

def fieldOf (names : List (Key × String)) (owner : String) (p : Property)
    (identifier : String) : Except Dangling JavaField := do
  let type ← typeOf names owner p.type
  .ok ⟨p.name, identifier, type, p.required⟩

def fieldsOf (names : List (Key × String)) (owner : String) (properties : List Property) :
    Except Dangling (List JavaField) :=
  (properties.zip (identifiersOf properties)).mapM fun (p, i) => fieldOf names owner p i

def classOf (names : List (Key × String)) (package : Package) (o : Object) (name : String) :
    Except Dangling JavaClass := do
  let fields ← fieldsOf names name o.properties
  .ok ⟨name, package, o.key, fields⟩

/-- The classes of a graph, or the first reference that leads nowhere. -/
def classesOf (rootName : String) (package : Package) (g : Graph) :
    Except Dangling (List JavaClass) :=
  let names := classNames rootName g
  (g.objects.zip (names.map Prod.snd)).mapM fun (o, name) => classOf names package o name

/-- Finds a class by its name. -/
def find? (classes : List JavaClass) (name : String) : Option JavaClass :=
  classes.find? (·.name == name)

end ProviderGen.Java
