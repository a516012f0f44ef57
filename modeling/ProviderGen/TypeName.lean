import ProviderGen.Error
import ProviderGen.Text.LowerCase

/-!
Names of resource types. A name is cut at its colons and dots, and the pieces that are not
empty are its segments: at least one, and each of 2 to 64 letters and digits.
-/

namespace ProviderGen.TypeName

open ProviderGen.Text (lower)

def isSeparator (c : Char) : Bool := c == ':' || c == '.'

def pieces (name : String) : List String :=
  ((name.toList.splitOnP isSeparator).filter (!·.isEmpty)).map String.ofList

def isSegment (s : String) : Bool :=
  s.toList.all Char.isAlphanum && 2 ≤ s.toList.length && s.toList.length ≤ 64

inductive Fault where
  | noSegment
  | badSegment (segment : String)
  deriving DecidableEq

def Fault.message : Fault → String
  | noSegment => "expected segments like 'Vendor::Service::Resource'"
  | badSegment s => "segment '" ++ s ++ "' must be 2-64 alphanumeric characters"

def segments (name : String) : Except Fault (List String) :=
  if (pieces name).isEmpty then .error .noSegment
  else match (pieces name).find? (!isSegment ·) with
    | some s => .error (.badSegment s)
    | none => .ok (pieces name)

theorem isSegment_of_segments {name : String} {found : List String}
    (h : segments name = .ok found) : ∀ s ∈ found, isSegment s = true := by
  unfold segments at h
  split at h
  · cases h
  · split at h
    · cases h
    · rename_i hnone
      obtain rfl := Except.ok.inj h
      simpa using List.find?_eq_none.1 hnone

def read (name : String) : Except Error (List String) :=
  (segments name).mapError fun f => .badTypeName name f.message

/-- The segments in lower case with hyphens between them. -/
def hyphenated (segments : List String) : String := lower ("-".intercalate segments)

/-- The file that holds the schema of a type, unless a project says otherwise. -/
def schemaFile (segments : List String) : String :=
  String.ofList ((hyphenated segments).toList.filter (· != '-')) ++ ".json"

end ProviderGen.TypeName
