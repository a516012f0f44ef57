/-!
Numerals: an optional sign, digits without a leading zero, an optional fraction and an optional
power of ten. A numeral whose value is beyond the range of a double is refused. The value is
taken as the significand, rounded, times the power of ten, rounded.
-/

namespace ProviderGen

structure Numeral where
  negative : Bool
  whole : List Char
  fraction : List Char
  exponent : Int
  deriving DecidableEq, Inhabited

namespace Numeral

def digitValue (c : Char) : Nat := c.toNat - '0'.toNat

/-- A significand below 2^64, the power of ten it is scaled by, and whether it is full. -/
structure Significand where
  value : Nat
  scale : Int
  full : Bool

namespace Significand

def limit : Nat := Nat.pow 2 64

def start : Significand := ⟨0, 0, false⟩

/-- Once the significand is full, a digit before the point only scales it. -/
def addDigit (s : Significand) (c : Char) : Significand :=
  let next := s.value * 10 + digitValue c
  if s.full || limit ≤ next then { s with scale := s.scale + 1, full := true }
  else { s with value := next }

/-- Once the significand is full, a digit behind the point is dropped. -/
def addFraction (s : Significand) (c : Char) : Significand :=
  let next := s.value * 10 + digitValue c
  if s.full || limit ≤ next then { s with full := true }
  else { s with value := next, scale := s.scale - 1 }

def ofDigits (whole fraction : List Char) : Significand :=
  let s := whole.foldl addDigit start
  fraction.foldl addFraction { s with full := false }

/-- Whether the significand times ten to the power `e` is beyond every double. -/
def tooLarge (s : Significand) (e : Int) : Bool :=
  let power := s.scale + e
  if s.value = 0 || power < 0 then false
  else if 308 < power then true
  else (Float.ofNat s.value * Float.ofScientific 1 false power.toNat).isInf

end Significand

/-- An exponent beyond 31 bits counts as such, however long it is. -/
def exponentOf (negative : Bool) (digits : List Char) : Int :=
  let n := digits.foldl (fun n c => min (n * 10 + digitValue c) (Nat.pow 2 31)) 0
  if negative then -(n : Int) else n

def whole? : List Char → Option (List Char × List Char)
  | '0' :: r => some (['0'], r)
  | c :: r =>
    if c.isDigit then some (c :: r.takeWhile Char.isDigit, r.dropWhile Char.isDigit) else none
  | [] => none

def fraction? : List Char → Option (List Char × List Char)
  | '.' :: r =>
    if (r.takeWhile Char.isDigit).isEmpty then none
    else some (r.takeWhile Char.isDigit, r.dropWhile Char.isDigit)
  | r => some ([], r)

/-- The sign and the digits of an exponent, if there is one. -/
def exponent? (cs : List Char) : Option (Int × List Char) :=
  match cs with
  | c :: r =>
    if c = 'e' || c = 'E' then
      let (negative, ds) := match r with
        | '+' :: r => (false, r)
        | '-' :: r => (true, r)
        | r => (false, r)
      if (ds.takeWhile Char.isDigit).isEmpty then none
      else some (exponentOf negative (ds.takeWhile Char.isDigit), ds.dropWhile Char.isDigit)
    else some (0, cs)
  | [] => some (0, [])

def unsigned : List Char → List Char
  | '-' :: r => r
  | r => r

/-- The numeral at the front of a text, and what follows it. -/
def read? (cs : List Char) : Option (Numeral × List Char) := do
  let (w, r) ← whole? (unsigned cs)
  let (f, r) ← fraction? r
  let (e, r) ← exponent? r
  if (Significand.ofDigits w f).tooLarge e then none
  else some (⟨cs.head? == some '-', w, f, e⟩, r)

theorem length_dropWhile_le (p : Char → Bool) (cs : List Char) :
    (cs.dropWhile p).length ≤ cs.length :=
  (List.dropWhile_sublist p).length_le

theorem length_of_whole? {cs w r : List Char} (h : whole? cs = some (w, r)) :
    r.length < cs.length := by
  unfold whole? at h
  split at h
  · simp only [Option.some.injEq, Prod.mk.injEq] at h
    simp [← h.2]
  · rename_i c r' _
    split at h
    · simp only [Option.some.injEq, Prod.mk.injEq] at h
      have := length_dropWhile_le Char.isDigit r'
      simp only [← h.2, List.length_cons]
      omega
    · simp at h
  · simp at h

theorem length_of_fraction? {cs f r : List Char} (h : fraction? cs = some (f, r)) :
    r.length ≤ cs.length := by
  unfold fraction? at h
  split at h
  · rename_i r'
    split at h
    · simp at h
    · simp only [Option.some.injEq, Prod.mk.injEq] at h
      have := length_dropWhile_le Char.isDigit r'
      simp only [← h.2, List.length_cons]
      omega
  · simp only [Option.some.injEq, Prod.mk.injEq] at h
    simp [h.2]

theorem length_of_exponent? {cs r : List Char} {e : Int} (h : exponent? cs = some (e, r)) :
    r.length ≤ cs.length := by
  unfold exponent? at h
  split at h
  · rename_i c r'
    split at h
    · split at h
      rename_i neg ds hd
      have hl : ds.length ≤ r'.length := by
        split at hd <;> simp only [Prod.mk.injEq] at hd <;> simp [← hd.2]
      split at h
      · simp at h
      · simp only [Option.some.injEq, Prod.mk.injEq] at h
        have := length_dropWhile_le Char.isDigit ds
        simp only [← h.2, List.length_cons]
        omega
    · simp only [Option.some.injEq, Prod.mk.injEq] at h
      simp [← h.2]
  · simp only [Option.some.injEq, Prod.mk.injEq] at h
    simp [← h.2]

theorem length_unsigned (cs : List Char) : (unsigned cs).length ≤ cs.length := by
  unfold unsigned
  split <;> simp

/-- A numeral is never empty. -/
theorem length_of_read? {cs r : List Char} {n : Numeral} (h : read? cs = some (n, r)) :
    r.length < cs.length := by
  simp only [read?, Option.bind_eq_bind, Option.bind_eq_some_iff, Prod.exists] at h
  obtain ⟨w, r₁, h₁, f, r₂, h₂, e, r₃, h₃, h₄⟩ := h
  split at h₄
  · simp at h₄
  · simp only [Option.some.injEq, Prod.mk.injEq] at h₄
    have a := length_of_whole? h₁
    have b := length_of_fraction? h₂
    have c := length_of_exponent? h₃
    have d := length_unsigned cs
    rw [← h₄.2]
    omega

end Numeral

end ProviderGen
