import ProviderGen.Toml.Value

/-!
Reading a settings text. The tokens are cut into statements at the line breaks outside all
brackets and braces; a statement is a heading, or a key with its value, or nothing at all. What
is read is the table at the top.
-/

namespace ProviderGen.Toml

/-! ### Statements -/

def depthAfter (depth : Nat) : Token → Nat
  | .openBracket => depth + 1
  | .openBrace => depth + 1
  | .closeBracket => depth - 1
  | .closeBrace => depth - 1
  | _ => depth

/-- The statements of a text, of which `current`, last token first, is the one begun. -/
def statementsFrom (depth : Nat) (current : List Token) : List Token → List (List Token)
  | [] => [current.reverse]
  | t :: r =>
    if t = .newline ∧ depth = 0 then current.reverse :: statementsFrom 0 [] r
    else statementsFrom (depthAfter depth t) (t :: current) r

def statements (ts : List Token) : List (List Token) := statementsFrom 0 [] ts

def withoutSpaces (ts : List Token) : List Token :=
  ((ts.dropWhile (· == .space)).reverse.dropWhile (· == .space)).reverse

/-! ### Reading -/

/-- The table at the top, and the way to the one under the latest heading. -/
structure Reading where
  top : Members
  heading : List String

namespace Reading

def start : Reading := ⟨[], []⟩

/-- The reading with the top changed as `change` says. -/
def change (s : Reading) (change : Made → Members → Option (Made × Members)) : Option Reading :=
  (change .written s.top).map fun (_, top) => { s with top }

def entry (s : Reading) (key value : List Token) : Option Reading := do
  let (path, key) ← key? key
  s.change (Members.within false (Members.assign path key (← value? value)) s.heading)

def heading? (s : Reading) (key : List Token)
    (change : List String → String → Made → Members → Option (Made × Members)) :
    Option Reading := do
  let (path, key) ← key? key
  let s ← s.change (change path key)
  some { s with heading := path ++ [key] }

/-- The tokens between brackets. -/
def within? : List Token → Option (List Token)
  | .openBracket :: r => if r.getLast? = some .closeBracket then some r.dropLast else none
  | _ => none

def statement (s : Reading) (ts : List Token) : Option Reading :=
  match withoutSpaces ts with
  | [] => some s
  | .openBracket :: .openBracket :: r => do
    let inner ← within? (.openBracket :: .openBracket :: r)
    s.heading? (← within? inner) Members.headOfList
  | .openBracket :: r => do s.heading? (← within? (.openBracket :: r)) Members.head
  | ts =>
    let key := ts.takeWhile (· != .equals)
    if key.length < ts.length then s.entry key (ts.drop (key.length + 1)) else none

end Reading

/-- The characters without a byte order mark at their front. -/
def withoutMark : List Char → List Char
  | '\ufeff' :: r => r
  | cs => cs

/-- The table that a text writes down, or nothing if some part of it is malformed. -/
def parse? (s : String) : Option Members := do
  let ts ← tokens? (withoutMark s.toList)
  let s ← (statements ts).foldlM Reading.statement Reading.start
  some s.top

end ProviderGen.Toml
