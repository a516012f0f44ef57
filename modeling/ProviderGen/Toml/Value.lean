import ProviderGen.Toml.Scalar
import ProviderGen.Toml.Table
import ProviderGen.Toml.Token

/-!
Keys and values. A key is a run of names with dots between them. A value is read by a machine
that keeps the brackets and braces which are still open, innermost first; within these, line
breaks count for nothing, except that a key does not go on behind one.
-/

namespace ProviderGen.Toml

/-! ### Keys -/

inductive KeyPart where
  | dot
  | name (name : String)
  deriving DecidableEq

def isBare (c : Char) : Bool := c.isAlphanum || c == '_' || c == '-'

/-- The parts of a word, which is cut at its dots. -/
def partsOfPieces? : List (List Char) → Option (List KeyPart)
  | [] => some []
  | piece :: rest => do
    if !piece.all isBare then none
    let own := if piece.isEmpty then [] else [.name (String.ofList piece)]
    let behind ← partsOfPieces? rest
    some (own ++ (if rest.isEmpty then [] else .dot :: behind))

def partsOf? : Token → Option (List KeyPart)
  | .space => some []
  | .word w => partsOfPieces? (w.splitOn '.')
  | .text s => some [.name s]
  | _ => none

/-- Names with a dot between every two of them. -/
def names? : List KeyPart → Option (List String)
  | [.name n] => some [n]
  | .name n :: .dot :: rest => (names? rest).map (n :: ·)
  | _ => none

/-- The names that a key may have. -/
def keyLimit : Nat := 80

/-- The names of a key: the way to its table, and its name there. -/
def key? (ts : List Token) : Option (List String × String) := do
  let parts ← ts.mapM partsOf?
  let names ← names? parts.flatten
  if keyLimit < names.length then none
  match names.getLast? with
  | some last => some (names.dropLast, last)
  | none => none

/-! ### Values -/

/-- What is still open. -/
inductive Frame where
  | list
  | table (members : Members)
  | entry (members : Members) (path : List String) (key : String)

inductive Awaited where
  | value
  | item
  | entry (tokens : List Token)
  | equals (key : List Token)
  | comma
  | ended (value : Node)

structure Pending where
  frames : List Frame
  awaited : Awaited

namespace Pending

def depthLimit : Nat := 80

def start : Pending := ⟨[], .value⟩

/-- A value has ended: it goes into what is open. -/
def close (frames : List Frame) (n : Node) : Option Pending :=
  match frames with
  | [] => some ⟨[], .ended n⟩
  | .list :: fs => some ⟨.list :: fs, .comma⟩
  | .entry members path key :: fs => do
    let (_, members) ← members.assign path key n .inline
    some ⟨.table members :: fs, .comma⟩
  | .table _ :: _ => none

def enter (frames : List Frame) (f : Frame) (awaited : Awaited) : Option Pending :=
  if frames.length < depthLimit then some ⟨f :: frames, awaited⟩ else none

/-- A token where a value begins. -/
def value (frames : List Frame) : Token → Option Pending
  | .word w => if isScalar w then close frames .plain else none
  | .text s => close frames (.text s)
  | .block s => close frames (.text s)
  | .openBracket => enter frames .list .item
  | .openBrace => enter frames (.table []) (.entry [])
  | _ => none

def endList : List Frame → Option Pending
  | .list :: fs => close fs .list
  | _ => none

def endTable : List Frame → Option Pending
  | .table members :: fs => close fs (.table .inline members)
  | _ => none

/-- The key of an entry is complete. -/
def enterEntry (ts : List Token) : List Frame → Option Pending
  | .table members :: fs => do
    let (path, key) ← key? ts
    some ⟨.entry members path key :: fs, .value⟩
  | _ => none

def afterValue : Token → List Frame → Option Pending
  | .newline, fs => some ⟨fs, .comma⟩
  | .comma, .list :: fs => some ⟨.list :: fs, .item⟩
  | .comma, .table members :: fs => some ⟨.table members :: fs, .entry []⟩
  | .closeBracket, fs => endList fs
  | .closeBrace, fs => endTable fs
  | _, _ => none

def step (s : Pending) (t : Token) : Option Pending :=
  if t = .space then some s
  else
    match s.awaited, t with
    | .value, .newline => if s.frames.isEmpty then none else some s
    | .value, t => value s.frames t
    | .item, .newline => some s
    | .item, .closeBracket => endList s.frames
    | .item, t => value s.frames t
    | .entry [], .newline => some s
    | .entry [], .closeBrace => endTable s.frames
    | .entry ts, .newline => some ⟨s.frames, .equals ts.reverse⟩
    | .entry ts, .equals => enterEntry ts.reverse s.frames
    | .entry ts, t => some ⟨s.frames, .entry (t :: ts)⟩
    | .equals _, .newline => some s
    | .equals key, .equals => enterEntry key s.frames
    | .equals _, _ => none
    | .comma, t => afterValue t s.frames
    | .ended _, _ => none

end Pending

def value? (ts : List Token) : Option Node := do
  let s ← ts.foldlM Pending.step Pending.start
  match s.awaited with
  | .ended n => some n
  | _ => none

end ProviderGen.Toml
