/-!
Keys: the place of an object within a schema, as the member names that lead to it. A key is
printed as a pointer that starts with a number sign; within a segment a tilde is written as
tilde zero and a slash as tilde one, so that slashes only separate.
-/

namespace ProviderGen.Schema

structure Key where
  segments : List String
  deriving DecidableEq, Inhabited

namespace Key

def root : Key := ⟨[]⟩

def definition (name : String) : Key := ⟨["definitions", name]⟩

def child (k : Key) (segment : String) : Key := ⟨k.segments ++ [segment]⟩

def isRoot (k : Key) : Bool := k.segments.isEmpty

def escapeChar (c : Char) : List Char :=
  if c = '~' then ['~', '0'] else if c = '/' then ['~', '1'] else [c]

def escape (segment : String) : List Char := segment.toList.flatMap escapeChar

def chars (k : Key) : List Char :=
  '#' :: k.segments.flatMap fun s => '/' :: escape s

/-- The printed form. -/
def text (k : Key) : String := String.ofList k.chars

/-- Whether the segment after this one is the name of a property or of a definition. -/
def introducesName (segment : String) : Bool :=
  segment == "properties" || segment == "definitions"

def lastName? : List String → Option String
  | a :: b :: r => (lastName? (b :: r)).or (if introducesName a then some b else none)
  | _ => none

/-- The last property or definition name on the way, if there is one. -/
def baseName? (k : Key) : Option String := lastName? k.segments

@[simp] theorem segments_root : root.segments = [] := rfl

@[simp] theorem segments_child (k : Key) (s : String) :
    (k.child s).segments = k.segments ++ [s] := rfl

@[simp] theorem toList_text (k : Key) : k.text.toList = k.chars := by simp [text]

theorem isRoot_iff {k : Key} : k.isRoot ↔ k = root := by
  obtain ⟨s⟩ := k
  simp [isRoot, root]

end Key

end ProviderGen.Schema
