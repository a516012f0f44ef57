import ProviderGen.Glob

/-!
Reading a pattern, character by character. Two stars in a row stand for directories where they
fill the room between slashes, and for two single stars elsewhere; groups in braces may hold
groups, and a branch that stands for nothing is left out.
-/

namespace ProviderGen.Glob

inductive Fault where
  | openSet
  | badRange (low high : Char)
  | closedTooMuch
  | openGroup
  | openEscape
  deriving DecidableEq

def Fault.text : Fault → String
  | openSet => "unclosed character class; missing ']'"
  | badRange a b => "invalid range; '" ++ String.singleton a ++ "' > '" ++ String.singleton b ++ "'"
  | closedTooMuch =>
    "unopened alternate group; missing '\x7b' (maybe escape '\x7d' with '[\x7d]'?)"
  | openGroup => "unclosed alternate group; missing '\x7d' (maybe escape '\x7b' with '[\x7b]'?)"
  | openEscape => "dangling '\\'"

def Fault.message (pattern : String) (f : Fault) : String :=
  "error parsing glob '" ++ pattern ++ "': " ++ f.text

/-- Characters in brackets that are being read. Ranges are kept last first. -/
structure PartialSet where
  negated : Bool
  ranges : List (Char × Char)
  inRange : Bool

/-- What the next character is read as. -/
inductive Mode where
  | plain
  | escaped
  /-- Behind a star; with the character in front of it. -/
  | star (before : Option Char)
  | twoStars (before : Option Char)
  | setStart
  | set (s : PartialSet)

/-- The branches that are open, innermost first and their tokens last first; and for each open
group how many branches there were in front of it. -/
structure Reading where
  mode : Mode
  latest : Option Char
  own : List Token
  outer : List (List Token)
  groups : List Nat

namespace Reading

def start : Reading := ⟨.plain, none, [], [], []⟩

def push (s : Reading) (t : Token) : Reading := { s with own := t :: s.own }

def isGrouped (s : Reading) : Bool := !s.outer.isEmpty

def openBranch (s : Reading) : Reading := { s with own := [], outer := s.own :: s.outer }

def openGroup (s : Reading) : Reading :=
  { s.openBranch with groups := (s.outer.length + 1) :: s.groups }

/-- Whether a token stands for something. -/
def counts : Token → Bool
  | .oneOf [] => false
  | _ => true

/-- The branches as the tokens of a group. -/
def groupOf (branches : List (List Token)) : Token :=
  .oneOf ((branches.reverse.map List.reverse).filter (·.any counts))

def closeGroup (s : Reading) : Except Fault Reading :=
  match s.groups with
  | [] => .error .closedTooMuch
  | n :: groups =>
    let all := s.own :: s.outer
    let size := all.length - n
    match all.drop size with
    | own :: outer =>
      .ok { s with own := groupOf (all.take size) :: own, outer := outer, groups := groups }
    | [] => .error .closedTooMuch

/-- A character that is read by itself. -/
def plain (s : Reading) (c : Char) : Except Fault Reading :=
  match c with
  | '?' => .ok (s.push .anyByte)
  | '*' => .ok { s with mode := .star s.latest }
  | '[' => .ok { s with mode := .setStart }
  | '{' => .ok s.openGroup
  | '}' => s.closeGroup
  | ',' => .ok (if s.groups.isEmpty then s.push (.literal ',') else s.openBranch)
  | '\\' => .ok { s with mode := .escaped }
  | c => .ok (s.push (.literal c))

/-- Directories at the end or in the middle; the token in front of them is taken in. -/
def directories (s : Reading) (t : Token) : Reading :=
  match s.own with
  | .leading :: r => { s with own := .leading :: r }
  | .trailing :: r => { s with own := .trailing :: r }
  | _ :: r => { s with own := t :: r }
  | [] => { s with own := [t] }

/-- Whether two stars start a part of a path: behind a slash, or at the start of a branch. -/
def startsPart (s : Reading) (before : Option Char) : Bool :=
  before == some '/' || (s.isGrouped && (before == some ',' || before == some '{'))

def twoSingleStars (s : Reading) : Reading := (s.push .star).push .star

/-- Two stars, from what comes behind them; whether that belongs to them. -/
def twoStars (s : Reading) (before next : Option Char) : Reading × Bool :=
  let s := { s with mode := .plain }
  if s.own.isEmpty then
    if next == none || next == some '/' then (s.push .leading, true)
    else (s.twoSingleStars, false)
  else if !s.startsPart before then (s.twoSingleStars, false)
  else if next == none || (s.isGrouped && (next == some ',' || next == some '}')) then
    (s.directories .trailing, false)
  else if next == some '/' then (s.directories .between, true)
  else (s.twoSingleStars, false)

def endSet (s : Reading) (p : PartialSet) : Reading :=
  let ranges := if p.inRange then ('-', '-') :: p.ranges else p.ranges
  { s.push (.set ⟨p.negated, ranges.reverse⟩) with mode := .plain }

/-- A character that belongs to a set. -/
def member (s : Reading) (p : PartialSet) (c : Char) : Except Fault Reading :=
  match p.inRange, p.ranges with
  | true, (a, _) :: r =>
    if c < a then .error (.badRange a c)
    else .ok { s with mode := .set ⟨p.negated, (a, c) :: r, false⟩ }
  | _, r => .ok { s with mode := .set ⟨p.negated, (c, c) :: r, false⟩ }

/-- A character between brackets; right behind the opening one all but a negation is a member. -/
def inSet (s : Reading) (p : PartialSet) (c : Char) : Except Fault Reading :=
  if p.ranges.isEmpty then s.member p c
  else if c = ']' then .ok (s.endSet p)
  else if c = '-' && !p.inRange then .ok { s with mode := .set { p with inRange := true } }
  else s.member p c

def atSetStart (s : Reading) (c : Char) : Except Fault Reading :=
  if c = '!' || c = '^' then .ok { s with mode := .set ⟨true, [], false⟩ }
  else s.member ⟨false, [], false⟩ c

def read (s : Reading) (c : Char) : Except Fault Reading :=
  match s.mode with
  | .plain => s.plain c
  | .escaped => .ok { s.push (.literal c) with mode := .plain }
  | .star before =>
    if c = '*' then .ok { s with mode := .twoStars before }
    else { s.push .star with mode := .plain }.plain c
  | .twoStars before =>
    match s.twoStars before (some c) with
    | (s, true) => .ok s
    | (s, false) => s.plain c
  | .setStart => s.atSetStart c
  | .set p => s.inSet p c

def step (s : Reading) (c : Char) : Except Fault Reading := do
  let s ← s.read c
  .ok { s with latest := some c }

def finish (s : Reading) : Except Fault Pattern :=
  let close (s : Reading) : Except Fault Pattern :=
    if s.isGrouped then .error .openGroup else .ok s.own.reverse
  match s.mode with
  | .plain => close s
  | .escaped => .error .openEscape
  | .star _ => close (s.push .star)
  | .twoStars before => close (s.twoStars before none).1
  | .setStart => .error .openSet
  | .set _ => .error .openSet

end Reading

def parse (s : String) : Except Fault Pattern := do
  (← s.toList.foldlM Reading.step Reading.start).finish

end ProviderGen.Glob
