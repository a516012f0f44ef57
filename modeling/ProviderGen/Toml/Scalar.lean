import ProviderGen.Text.Hexadecimal

/-!
Which words stand for a value: truth values, whole numbers, numbers with a point or a power of
ten, and moments. Only whether a word is a value is asked here, since no setting is a number or
a moment; but a word that is none spoils the text it stands in.
-/

namespace ProviderGen.Toml

open ProviderGen.Text (hexValue?)

/-! ### Digits -/

def isHexDigit (c : Char) : Bool := (hexValue? c).isSome

/-- Digits, between any two of which one underscore may stand. -/
def areDigits (p : Char → Bool) (cs : List Char) : Bool :=
  (cs.splitOn '_').all fun piece => !piece.isEmpty && piece.all p

/-- The number that digits to a base make, underscores left out. -/
def numberOf (base : Nat) (cs : List Char) : Nat :=
  (cs.filterMap hexValue?).foldl (fun n d => n * base + d) 0

/-- The word without a sign, and whether the sign was a minus. -/
def unsigned : List Char → Bool × List Char
  | '+' :: r => (false, r)
  | '-' :: r => (true, r)
  | r => (false, r)

/-! ### Whole numbers -/

/-- Decimal digits without a leading zero. -/
def isWhole (cs : List Char) : Bool :=
  areDigits Char.isDigit cs && (cs == ['0'] || cs.head? != some '0')

def integerLimit : Nat := Nat.pow 2 128

/-- Below the limit; with a minus, down to half of it. -/
def isInteger (cs : List Char) : Bool :=
  let (negative, ds) := unsigned cs
  let n := numberOf 10 ds
  isWhole ds && (if negative then 2 * n ≤ integerLimit else n < integerLimit)

def isBased : List Char → Bool
  | '0' :: 'x' :: r => areDigits isHexDigit r && numberOf 16 r < integerLimit
  | '0' :: 'o' :: r => areDigits (fun c => '0' ≤ c && c ≤ '7') r && numberOf 8 r < integerLimit
  | '0' :: 'b' :: r => areDigits (fun c => c == '0' || c == '1') r && numberOf 2 r < integerLimit
  | _ => false

/-! ### Numbers with a point or a power of ten -/

/-- The least number that is rounded to infinity. -/
def doubleLimit : Nat := Nat.pow 2 1024 - Nat.pow 2 970

/-- Whether `n` times ten to the power `e` is in the range of doubles. The count of its digits
settles all but the closest cases. -/
def isFinite (n : Nat) (e : Int) : Bool :=
  let digits : Int := (Nat.toDigits 10 n).length
  if n = 0 || digits + e ≤ 308 then true
  else if 310 < digits + e then false
  else if 0 ≤ e then n * Nat.pow 10 e.toNat < doubleLimit
  else n < doubleLimit * Nat.pow 10 (-e).toNat

/-- The power of ten behind its letter. -/
def exponent? : List Char → Option Int
  | [] => some 0
  | _ :: r =>
    let (negative, ds) := unsigned r
    if areDigits Char.isDigit ds then
      some (if negative then -(numberOf 10 ds : Int) else numberOf 10 ds)
    else none

/-- The digits behind the point. -/
def fraction? : List Char → Option (List Char)
  | [] => some []
  | _ :: r => if areDigits Char.isDigit r then some (r.filter (· != '_')) else none

def isFloat (cs : List Char) : Bool :=
  let (_, body) := unsigned cs
  let significand := body.takeWhile fun c => c != 'e' && c != 'E'
  let whole := significand.takeWhile (· != '.')
  whole.length < body.length && isWhole whole &&
    match fraction? (significand.drop whole.length), exponent? (body.drop significand.length) with
    | some f, some e => isFinite (numberOf 10 (whole ++ f)) (e - f.length)
    | _, _ => false

def isLimit (cs : List Char) : Bool :=
  (unsigned cs).2 == ['i', 'n', 'f'] || (unsigned cs).2 == ['n', 'a', 'n']

/-! ### Moments -/

def isLeapYear (y : Nat) : Bool := y % 4 = 0 && (y % 100 ≠ 0 || y % 400 = 0)

def daysIn (y m : Nat) : Nat :=
  if m = 2 then (if isLeapYear y then 29 else 28)
  else if m = 4 || m = 6 || m = 9 || m = 11 then 30
  else 31

/-- The number that the next `n` digits make. -/
def digits? (n : Nat) (cs : List Char) : Option (Nat × List Char) :=
  if (cs.take n).length = n && (cs.take n).all Char.isDigit then
    some (numberOf 10 (cs.take n), cs.drop n)
  else none

/-- The text behind the mark `c`. -/
def behind? (c : Char) : List Char → Option (List Char)
  | [] => none
  | d :: r => if c = d then some r else none

/-- What follows a date. -/
def afterDate? (cs : List Char) : Option (List Char) := do
  let (y, r) ← digits? 4 cs
  let (m, r) ← digits? 2 (← behind? '-' r)
  let (d, r) ← digits? 2 (← behind? '-' r)
  if 1 ≤ m && m ≤ 12 && 1 ≤ d && d ≤ daysIn y m then some r else none

/-- What follows a part of a second. -/
def afterPart? : List Char → Option (List Char)
  | '.' :: r =>
    if (r.takeWhile Char.isDigit).isEmpty then none else some (r.dropWhile Char.isDigit)
  | r => some r

/-- What follows the seconds, which may be left out. -/
def afterSecond? : List Char → Option (List Char)
  | ':' :: r => do
    let (s, r) ← digits? 2 r
    if s ≤ 60 then afterPart? r else none
  | r => some r

/-- What follows hours and minutes. -/
def afterMinute? (cs : List Char) : Option (List Char) := do
  let (h, r) ← digits? 2 cs
  let (m, r) ← digits? 2 (← behind? ':' r)
  if h ≤ 23 && m ≤ 59 then some r else none

def afterTime? (cs : List Char) : Option (List Char) := (afterMinute? cs).bind afterSecond?

def isOffset : List Char → Bool
  | [] => true
  | [c] => c == 'Z' || c == 'z'
  | c :: r => (c == '+' || c == '-') && afterMinute? r == some []

def isMoment (cs : List Char) : Bool :=
  match afterDate? cs with
  | some [] => true
  | some (c :: r) =>
    (c == 'T' || c == 't' || c == ' ') &&
      match afterTime? r with
      | some rest => isOffset rest
      | none => false
  | none => afterTime? cs == some []

/-! ### Words -/

def isTruthValue (cs : List Char) : Bool :=
  cs == ['t', 'r', 'u', 'e'] || cs == ['f', 'a', 'l', 's', 'e']

/-- Whether a word stands for a value. -/
def isScalar (cs : List Char) : Bool :=
  isTruthValue cs || isInteger cs || isBased cs || isFloat cs || isLimit cs || isMoment cs

end ProviderGen.Toml
