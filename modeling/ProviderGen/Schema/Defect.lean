import ProviderGen.Schema.Key

/-!
What can be wrong with a schema, and where. A defect names the place of the offending node.
-/

namespace ProviderGen.Schema

inductive Fault where
  | rootNotRecord
  | nodeNotRecord
  | propertiesNotRecord
  | referenceNotText
  | referenceElsewhere (reference : String)
  | referenceNested (reference : String)
  | typeUnknown (name : String)
  | notPointerList
  | pointerNotText
  | pointerElsewhere (pointer : String)
  | notGroupList
  deriving DecidableEq

structure Defect where
  place : Key
  fault : Fault
  deriving DecidableEq

def Fault.message : Fault → String
  | rootNotRecord => "schema must be an object"
  | nodeNotRecord => "schema node must be an object"
  | propertiesNotRecord => "'properties' must be an object"
  | referenceNotText => "'$ref' must be a string"
  | referenceElsewhere r =>
    "unsupported '$ref' '" ++ r ++ "', expected '#/definitions/<name>'"
  | referenceNested r => "'$ref' '" ++ r ++ "' must name a top-level definition"
  | typeUnknown t => "unsupported type '" ++ t ++ "'"
  | notPointerList => "must be a list of JSON pointers"
  | pointerNotText => "identifier must be a string"
  | pointerElsewhere p => "identifier '" ++ p ++ "' must start with /properties/"
  | notGroupList => "must be a list of identifier lists"

end ProviderGen.Schema
