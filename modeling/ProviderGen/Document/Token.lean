import ProviderGen.Document
import ProviderGen.Text.Hexadecimal

/-!
The tokens of a document's text. Blanks between tokens are dropped; in a text token the escapes
are already undone, and a pair of surrogate escapes has become the one character it stands for.
Numerals and the three words are tokens that hold their value.
-/

namespace ProviderGen.Document

open ProviderGen.Text (hexNumber?)

inductive Token where
  | openRecord
  | closeRecord
  | openList
  | closeList
  | colon
  | comma
  | text (value : String)
  | plain (value : Document)

/-- The unit that four hexadecimal digits at the front of a text stand for. -/
def unit? : List Char → Option (Nat × List Char)
  | a :: b :: c :: d :: r => (hexNumber? [a, b, c, d]).map (·, r)
  | _ => none

def isHighSurrogate (n : Nat) : Bool := 0xd800 ≤ n && n ≤ 0xdbff

def isLowSurrogate (n : Nat) : Bool := 0xdc00 ≤ n && n ≤ 0xdfff

/-- The character of a numeric escape, read from behind its first letter. -/
def unicodeEscape? (cs : List Char) : Option (Char × List Char) := do
  let (n, r) ← unit? cs
  if isLowSurrogate n then none
  else if isHighSurrogate n then
    match r with
    | '\\' :: 'u' :: r =>
      let (m, r) ← unit? r
      if isLowSurrogate m then
        some (Char.ofNat (0x10000 + (n - 0xd800) * 0x400 + (m - 0xdc00)), r)
      else none
    | _ => none
  else some (Char.ofNat n, r)

/-- The character of an escape, read from behind its backslash. -/
def escape? : List Char → Option (Char × List Char)
  | '"' :: r => some ('"', r)
  | '\\' :: r => some ('\\', r)
  | '/' :: r => some ('/', r)
  | 'b' :: r => some ('\x08', r)
  | 'f' :: r => some ('\x0c', r)
  | 'n' :: r => some ('\n', r)
  | 'r' :: r => some ('\r', r)
  | 't' :: r => some ('\t', r)
  | 'u' :: r => unicodeEscape? r
  | _ => none

theorem length_of_unit? {cs r : List Char} {n : Nat} (h : unit? cs = some (n, r)) :
    r.length ≤ cs.length := by
  unfold unit? at h
  split at h
  · simp only [Option.map_eq_some_iff, Prod.mk.injEq] at h
    obtain ⟨_, _, _, rfl⟩ := h
    simp only [List.length_cons]
    omega
  · simp at h

theorem length_of_unicodeEscape? {cs r : List Char} {c : Char}
    (h : unicodeEscape? cs = some (c, r)) : r.length ≤ cs.length := by
  simp only [unicodeEscape?, Option.bind_eq_bind, Option.bind_eq_some_iff, Prod.exists] at h
  obtain ⟨n, r₁, h₁, h₂⟩ := h
  have a := length_of_unit? h₁
  split at h₂
  · simp at h₂
  · split at h₂
    · split at h₂
      · simp only [Option.bind_eq_some_iff, Prod.exists] at h₂
        obtain ⟨m, r₂, h₃, h₄⟩ := h₂
        have b := length_of_unit? h₃
        split at h₄
        · simp only [Option.some.injEq, Prod.mk.injEq] at h₄
          simp only [List.length_cons] at a
          rw [← h₄.2]
          omega
        · simp at h₄
      · simp at h₂
    · simp only [Option.some.injEq, Prod.mk.injEq] at h₂
      rw [← h₂.2]
      exact a

theorem length_of_escape? {cs r : List Char} {c : Char} (h : escape? cs = some (c, r)) :
    r.length ≤ cs.length := by
  unfold escape? at h
  split at h
  case h_9 => exact Nat.le_succ_of_le (length_of_unicodeEscape? h)
  case h_10 => simp at h
  all_goals
    simp only [Option.some.injEq, Prod.mk.injEq] at h
    simp [← h.2]

/-- The characters up to the closing quote, and what follows it. -/
def quoted? : List Char → Option (List Char × List Char)
  | [] => none
  | '"' :: r => some ([], r)
  | '\\' :: r =>
    match _h : escape? r with
    | some (c, r') => (quoted? r').map fun (cs, rest) => (c :: cs, rest)
    | none => none
  | c :: r =>
    if c.toNat < 32 then none else (quoted? r).map fun (cs, rest) => (c :: cs, rest)
termination_by cs => cs.length
decreasing_by
  · have := length_of_escape? _h
    simp only [List.length_cons]
    omega
  · simp

theorem length_of_quoted? {cs s r : List Char} (h : quoted? cs = some (s, r)) :
    r.length < cs.length := by
  fun_induction quoted? cs generalizing s r with
  | case1 => simp at h
  | case2 r' =>
    simp only [Option.some.injEq, Prod.mk.injEq] at h
    simp [← h.2]
  | case3 r' c r₁ h₁ ih =>
    simp only [Option.map_eq_some_iff, Prod.exists, Prod.mk.injEq] at h
    obtain ⟨a, b, hq, _, rfl⟩ := h
    have x := ih hq
    have y := length_of_escape? h₁
    simp only [List.length_cons]
    omega
  | case4 => simp at h
  | case5 => simp at h
  | case6 c r' _ _ _ ih =>
    simp only [Option.map_eq_some_iff, Prod.exists, Prod.mk.injEq] at h
    obtain ⟨a, b, hq, _, rfl⟩ := h
    exact Nat.lt_succ_of_lt (ih hq)

def isSpace (c : Char) : Bool := c == ' ' || c == '\t' || c == '\n' || c == '\r'

/-- The tokens of a text, or nothing if some part of it is none. -/
def tokens? (cs : List Char) : Option (List Token) :=
  match cs with
  | [] => some []
  | 't' :: 'r' :: 'u' :: 'e' :: r => (tokens? r).map (.plain (.bool true) :: ·)
  | 'f' :: 'a' :: 'l' :: 's' :: 'e' :: r => (tokens? r).map (.plain (.bool false) :: ·)
  | 'n' :: 'u' :: 'l' :: 'l' :: r => (tokens? r).map (.plain .null :: ·)
  | '{' :: r => (tokens? r).map (.openRecord :: ·)
  | '}' :: r => (tokens? r).map (.closeRecord :: ·)
  | '[' :: r => (tokens? r).map (.openList :: ·)
  | ']' :: r => (tokens? r).map (.closeList :: ·)
  | ':' :: r => (tokens? r).map (.colon :: ·)
  | ',' :: r => (tokens? r).map (.comma :: ·)
  | '"' :: r =>
    match _h : quoted? r with
    | some (s, r') => (tokens? r').map (.text (String.ofList s) :: ·)
    | none => none
  | c :: r =>
    if isSpace c then tokens? r
    else
      match _h : Numeral.read? (c :: r) with
      | some (n, r') => (tokens? r').map (.plain (.number n) :: ·)
      | none => none
termination_by cs.length
decreasing_by
  all_goals first
    | exact Nat.lt_succ_of_lt (length_of_quoted? _h)
    | exact Numeral.length_of_read? _h
    | (simp only [List.length_cons]; omega)

end ProviderGen.Document
