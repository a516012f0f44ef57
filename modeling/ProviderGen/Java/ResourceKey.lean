import ProviderGen.Document
import ProviderGen.Schema.Defect
import ProviderGen.Java.Class

/-!
The identifiers that a schema declares for its resource: the primary one and any number of
additional ones, each a list of pointers to properties. A pointer gives a constant, and a chain
of getters that starts at the root class. The getters follow from the pointer alone until they
are bound to the fields that the classes really have; a pointer that leads through something
other than classes stays unbound.
-/

namespace ProviderGen.Java

open ProviderGen.Schema (Key Fault Defect)

structure ResourceKey where
  pointer : String
  constant : String
  getters : List String
  deriving DecidableEq, Inhabited

structure KeyGroup where
  method : String
  keys : List ResourceKey
  deriving DecidableEq, Inhabited

structure ResourceKeys where
  primary : List ResourceKey
  additional : List KeyGroup
  deriving DecidableEq, Inhabited

def chain (getters : List String) : String := "this." ++ ".".intercalate getters

namespace ResourceKey

/-- The value of the identifier. -/
def getterChain (k : ResourceKey) : String := chain k.getters

/-- One test for each step of the chain, the shortest first. -/
def nullChecks (k : ResourceKey) : String :=
  " && ".intercalate
    ((List.range k.getters.length).map fun i => chain (k.getters.take (i + 1)) ++ " != null")

def pointerStart : String := "/properties/"

/-- The property names along a pointer; empty pieces between slashes are skipped. -/
def path? (pointer : String) : Option (List String) :=
  if pointerStart.toList.isPrefixOf pointer.toList then
    let names := ((pointer.toList.drop pointerStart.length).splitOn '/').filter (!·.isEmpty)
    if names.isEmpty then none else some (names.map String.ofList)
  else none

def constantWord (name : String) : String :=
  String.ofList ((legalChars name.toList).map Char.toUpper)

def constantOf (path : List String) : String :=
  "IDENTIFIER_KEY_" ++ "_".intercalate (path.map constantWord)

def ofPointer? (pointer : String) : Option ResourceKey :=
  (path? pointer).map fun path =>
    ⟨pointer, constantOf path, path.map fun name => getter (fieldName name)⟩

/-- The text behind the last slash. -/
def lastPiece (pointer : String) : List Char := ((pointer.toList.splitOn '/').getLast?).getD []

/-- The getters for the properties `path`, starting in the class `c`. -/
def follow? (classes : List JavaClass) (c : JavaClass) : List String → Option (List String)
  | [] => some []
  | name :: rest => do
    let field ← c.fields.find? (·.name == name)
    match rest, field.type with
    | [], _ => some [getter field.identifier]
    | _ :: _, .named next =>
      let next ← find? classes next
      let getters ← follow? classes next rest
      some (getter field.identifier :: getters)
    | _ :: _, _ => none

/-- The key with the getters that the classes really have, where its path can be followed. -/
def bindTo (classes : List JavaClass) (root : JavaClass) (k : ResourceKey) : ResourceKey :=
  match (path? k.pointer).bind (follow? classes root) with
  | some getters => { k with getters }
  | none => k

end ResourceKey

namespace ResourceKeys

open ResourceKey

/-- The keys of one list of pointers, which stands at `place`. -/
def keysAt (place : Key) (d : Document) : Except Defect (List ResourceKey) :=
  match d with
  | .list pointers => pointers.mapM fun p =>
    match p with
    | .text pointer =>
      match ofPointer? pointer with
      | some k => .ok k
      | none => .error ⟨place, .pointerElsewhere pointer⟩
    | _ => .error ⟨place, .pointerNotText⟩
  | _ => .error ⟨place, .notPointerList⟩

def methodOf (keys : List ResourceKey) : String :=
  keys.foldl (fun name k => name ++ "_" ++ String.ofList (upperFirst
    (legalChars (lastPiece k.pointer)))) "getIdentifier"

def primaryPlace : Key := ⟨["primaryIdentifier"]⟩

def additionalPlace : Key := ⟨["additionalIdentifiers"]⟩

/-- The groups of additional identifiers, the first of which has the number `i`. -/
def groupsFrom (i : Nat) : List Document → Except Defect (List KeyGroup)
  | [] => .ok []
  | d :: r => do
    let keys ← keysAt (additionalPlace.child (toString i)) d
    let groups ← groupsFrom (i + 1) r
    .ok (⟨methodOf keys, keys⟩ :: groups)

def additionalOf : Option Document → Except Defect (List KeyGroup)
  | none => .ok []
  | some (.list groups) => groupsFrom 0 groups
  | some _ => .error ⟨additionalPlace, .notGroupList⟩

def primaryOf : Option Document → Except Defect (List ResourceKey)
  | none => .ok []
  | some d => keysAt primaryPlace d

def ofDocument (schema : Document) : Except Defect ResourceKeys := do
  let primary ← primaryOf (schema.member? "primaryIdentifier")
  let additional ← additionalOf (schema.member? "additionalIdentifiers")
  .ok ⟨primary, additional⟩

def bindTo (classes : List JavaClass) (ks : ResourceKeys) : ResourceKeys :=
  match classes.find? JavaClass.isRoot with
  | none => ks
  | some root =>
    ⟨ks.primary.map (·.bindTo classes root),
      ks.additional.map fun g => ⟨g.method, g.keys.map (·.bindTo classes root)⟩⟩

/-- The keys whose constant is new, in their order. -/
def distinctBy (seen : List String) : List ResourceKey → List ResourceKey
  | [] => []
  | k :: r =>
    if k.constant ∈ seen then distinctBy seen r else k :: distinctBy (k.constant :: seen) r

/-- Every key once, the primary ones first; the constants to declare. -/
def all (ks : ResourceKeys) : List ResourceKey :=
  distinctBy [] (ks.primary ++ ks.additional.flatMap KeyGroup.keys)

end ResourceKeys

end ProviderGen.Java
