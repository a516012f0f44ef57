import ProviderGen.Document.Token

/-!
Reading a document from its text. The tokens drive a machine that keeps the containers which
are still open, innermost first; a document is read when its one value has ended with all
containers closed. A repeated member keeps its first place and takes its last value, and no
more than 127 containers may be open at once.
-/

namespace ProviderGen.Document

/-- A container that is still open; items are kept last first. -/
inductive Frame where
  | list (items : List Document)
  | record (members : Members)
  | field (members : Members) (name : String)

inductive Awaited where
  | value
  | valueOrEnd
  | name
  | nameOrEnd
  | colon
  | ended

structure Reading where
  frames : List Frame
  awaited : Awaited
  root : Option Document

namespace Reading

def depthLimit : Nat := 127

def start : Reading := ⟨[], .value, none⟩

/-- A value has ended: it goes into the innermost container. -/
def close (frames : List Frame) (v : Document) : Option Reading :=
  match frames with
  | [] => some ⟨[], .ended, some v⟩
  | .list items :: fs => some ⟨.list (v :: items) :: fs, .ended, none⟩
  | .field members name :: fs => some ⟨.record (members.put name v) :: fs, .ended, none⟩
  | .record _ :: _ => none

def enter (frames : List Frame) (f : Frame) (awaited : Awaited) : Option Reading :=
  if frames.length < depthLimit then some ⟨f :: frames, awaited, none⟩ else none

/-- A token where a value may begin. -/
def value (frames : List Frame) : Token → Option Reading
  | .openRecord => enter frames (.record []) .nameOrEnd
  | .openList => enter frames (.list []) .valueOrEnd
  | .text s => close frames (.text s)
  | .plain v => close frames v
  | _ => none

/-- A token behind a value. -/
def afterValue : List Frame → Token → Option Reading
  | .list items :: fs, .comma => some ⟨.list items :: fs, .value, none⟩
  | .list items :: fs, .closeList => close fs (.list items.reverse)
  | .record members :: fs, .comma => some ⟨.record members :: fs, .name, none⟩
  | .record members :: fs, .closeRecord => close fs (.record members)
  | _, _ => none

def step (s : Reading) (t : Token) : Option Reading :=
  match s.awaited, s.frames, t with
  | .value, fs, t => value fs t
  | .valueOrEnd, .list [] :: fs, .closeList => close fs (.list [])
  | .valueOrEnd, fs, t => value fs t
  | .name, .record members :: fs, .text s => some ⟨.field members s :: fs, .colon, none⟩
  | .nameOrEnd, .record members :: fs, .text s => some ⟨.field members s :: fs, .colon, none⟩
  | .nameOrEnd, .record members :: fs, .closeRecord => close fs (.record members)
  | .colon, fs, .colon => some ⟨fs, .value, none⟩
  | .ended, fs, t => afterValue fs t
  | _, _, _ => none

end Reading

def ofTokens? (ts : List Token) : Option Document := do
  let s ← ts.foldlM Reading.step Reading.start
  s.root

def parse? (s : String) : Option Document := do
  let ts ← tokens? s.toList
  ofTokens? ts

end ProviderGen.Document
