import ProviderGen.Text.Hexadecimal

/-!
The tokens of a settings text. Comments are dropped, and texts have their escapes undone. A word
is a run of characters that mean nothing by themselves: bare keys, numerals and moments are
words, and a date and a time with one space between them are one word.
-/

namespace ProviderGen.Toml

open ProviderGen.Text (hexNumber?)

inductive Token where
  | space
  | newline
  | word (chars : List Char)
  | text (value : String)
  | block (value : String)
  | equals
  | comma
  | openBracket
  | closeBracket
  | openBrace
  | closeBrace
  deriving DecidableEq

def doubleQuote : Char := '\x22'

def singleQuote : Char := '\x27'

/-- The characters that may stand for themselves within a line. -/
def isPlain (c : Char) : Bool := c == '\t' || (32 ≤ c.toNat && c.toNat != 127)

/-! ### Escapes -/

/-- The character with the number `n`; surrogates and larger numbers have none. -/
def charOf? (n : Nat) : Option Char :=
  if n < 0xd800 || (0xdfff < n && n < 0x110000) then some (Char.ofNat n) else none

/-- The character whose number is written in the next `n` digits. -/
def numbered? (n : Nat) (cs : List Char) : Option (Char × List Char) :=
  if (cs.take n).length = n then
    ((hexNumber? (cs.take n)).bind charOf?).map (·, cs.drop n)
  else none

/-- The character of an escape, read from behind its backslash. -/
def escape? : List Char → Option (Char × List Char)
  | '"' :: r => some ('"', r)
  | '\\' :: r => some ('\\', r)
  | 'b' :: r => some ('\x08', r)
  | 't' :: r => some ('\t', r)
  | 'n' :: r => some ('\n', r)
  | 'f' :: r => some ('\x0c', r)
  | 'r' :: r => some ('\r', r)
  | 'e' :: r => some ('\x1b', r)
  | 'x' :: r => numbered? 2 r
  | 'u' :: r => numbered? 4 r
  | 'U' :: r => numbered? 8 r
  | _ => none

theorem length_of_numbered? {n : Nat} {cs r : List Char} {c : Char}
    (h : numbered? n cs = some (c, r)) : r.length ≤ cs.length := by
  unfold numbered? at h
  split at h
  · simp only [Option.map_eq_some_iff, Prod.mk.injEq] at h
    obtain ⟨_, _, _, rfl⟩ := h
    simp
  · simp at h

theorem length_of_escape? {cs r : List Char} {c : Char} (h : escape? cs = some (c, r)) :
    r.length ≤ cs.length := by
  unfold escape? at h
  split at h
  case h_9 => exact Nat.le_succ_of_le (length_of_numbered? h)
  case h_10 => exact Nat.le_succ_of_le (length_of_numbered? h)
  case h_11 => exact Nat.le_succ_of_le (length_of_numbered? h)
  case h_12 => simp at h
  all_goals
    simp only [Option.some.injEq, Prod.mk.injEq] at h
    simp [← h.2]

/-! ### Texts on one line -/

/-- The characters up to the closing double quote, and what follows it. -/
def quoted? : List Char → Option (List Char × List Char)
  | [] => none
  | c :: r =>
    if c = doubleQuote then some ([], r)
    else if c = '\\' then
      match _h : escape? r with
      | some (c', r') => (quoted? r').map fun (s, t) => (c' :: s, t)
      | none => none
    else if isPlain c then (quoted? r).map fun (s, t) => (c :: s, t)
    else none
termination_by cs => cs.length
decreasing_by
  · have := length_of_escape? _h
    simp only [List.length_cons]
    omega
  · simp

/-- The characters up to the closing single quote, all of which stand for themselves. -/
def literal? (cs : List Char) : Option (List Char × List Char) :=
  let s := cs.takeWhile (· != singleQuote)
  if s.all isPlain && s.length < cs.length then some (s, cs.drop (s.length + 1)) else none

theorem length_of_quoted? {cs s r : List Char} (h : quoted? cs = some (s, r)) :
    r.length ≤ cs.length := by
  fun_induction quoted? cs generalizing s r with
  | case1 => simp at h
  | case2 r' =>
    simp only [Option.some.injEq, Prod.mk.injEq] at h
    simp [← h.2]
  | case3 r' c r₁ h₁ _ ih =>
    simp only [Option.map_eq_some_iff, Prod.exists, Prod.mk.injEq] at h
    obtain ⟨a, b, hq, _, rfl⟩ := h
    have x := ih hq
    have y := length_of_escape? h₁
    simp only [List.length_cons]
    omega
  | case4 => simp at h
  | case5 c r' _ _ _ ih =>
    simp only [Option.map_eq_some_iff, Prod.exists, Prod.mk.injEq] at h
    obtain ⟨a, b, hq, _, rfl⟩ := h
    exact Nat.le_succ_of_le (ih hq)
  | case6 => simp at h

theorem length_of_literal? {cs s r : List Char} (h : literal? cs = some (s, r)) :
    r.length ≤ cs.length := by
  unfold literal? at h
  simp only at h
  split at h
  · simp only [Option.some.injEq, Prod.mk.injEq] at h
    simp [← h.2]
  · simp at h

/-! ### Texts over several lines -/

/-- The text without a line break at its front. -/
def afterBreak : List Char → List Char
  | '\n' :: r => r
  | '\r' :: '\n' :: r => r
  | cs => cs

/-- The text without the blanks and line breaks at its front. -/
def afterBlanks : List Char → List Char
  | ' ' :: r => afterBlanks r
  | '\t' :: r => afterBlanks r
  | '\n' :: r => afterBlanks r
  | '\r' :: '\n' :: r => afterBlanks r
  | cs => cs

/-- What follows a backslash that is the last mark on its line; the break and all blanks behind
it are left out. -/
def continued? (cs : List Char) : Option (List Char) :=
  let r := cs.dropWhile fun c => c == ' ' || c == '\t'
  if (afterBreak r).length < r.length then some (afterBlanks r) else none

/-- Three quotes close a text, and up to two more in front of them belong to it. -/
def closing? (quote : Char) (cs : List Char) : Option (List Char × List Char) :=
  let n := ((cs.take 5).takeWhile (· == quote)).length
  if 3 ≤ n then some (List.replicate (n - 3) quote, cs.drop n) else none

/-- Whether a character in front of `r` stands for itself in a text over several lines. -/
def standsBefore (r : List Char) (c : Char) : Bool :=
  isPlain c || c == '\n' || (c == '\r' && r.head? == some '\n')

theorem length_afterBlanks (cs : List Char) : (afterBlanks cs).length ≤ cs.length := by
  fun_induction afterBlanks cs <;> (try simp only [List.length_cons]) <;> omega

theorem length_of_continued? {cs r : List Char} (h : continued? cs = some r) :
    r.length ≤ cs.length := by
  unfold continued? at h
  simp only at h
  split at h
  · simp only [Option.some.injEq] at h
    have a := length_afterBlanks (cs.dropWhile fun c => c == ' ' || c == '\t')
    have b := (List.dropWhile_sublist (fun c => c == ' ' || c == '\t') (l := cs)).length_le
    rw [← h]
    omega
  · simp at h

theorem length_of_closing? {q : Char} {cs s r : List Char} (h : closing? q cs = some (s, r)) :
    r.length ≤ cs.length := by
  unfold closing? at h
  simp only at h
  split at h
  · simp only [Option.some.injEq, Prod.mk.injEq] at h
    simp [← h.2]
  · simp at h

/-- The characters up to the closing quotes, and what follows them. -/
def block? (escapes : Bool) (quote : Char) (cs : List Char) : Option (List Char × List Char) :=
  match closing? quote cs with
  | some end? => some end?
  | none =>
    match cs with
    | [] => none
    | c :: r =>
      if escapes && c == '\\' then
        match _h : continued? r with
        | some r' => block? escapes quote r'
        | none =>
          match _h : escape? r with
          | some (c', r') => (block? escapes quote r').map fun (s, t) => (c' :: s, t)
          | none => none
      else if standsBefore r c then (block? escapes quote r).map fun (s, t) => (c :: s, t)
      else none
termination_by cs.length
decreasing_by
  · have := length_of_continued? _h
    simp only [List.length_cons]
    omega
  · have := length_of_escape? _h
    simp only [List.length_cons]
    omega
  · simp

theorem length_of_block? {escapes : Bool} {q : Char} {cs s r : List Char}
    (h : block? escapes q cs = some (s, r)) : r.length ≤ cs.length := by
  fun_induction block? escapes q cs generalizing s r with
  | case1 cs e he =>
    simp only [Option.some.injEq] at h
    exact length_of_closing? (h ▸ he)
  | case2 => simp at h
  | case3 c r' _ r₁ h₁ _ ih =>
    have x := ih h
    have y := length_of_continued? h₁
    simp only [List.length_cons]
    omega
  | case4 c r' _ h₀ c₁ r₁ h₁ _ ih =>
    simp only [Option.map_eq_some_iff, Prod.exists, Prod.mk.injEq] at h
    obtain ⟨a, b, hq, _, rfl⟩ := h
    have x := ih hq
    have y := length_of_escape? h₁
    simp only [List.length_cons]
    omega
  | case5 => simp at h
  | case6 c r' _ _ _ ih =>
    simp only [Option.map_eq_some_iff, Prod.exists, Prod.mk.injEq] at h
    obtain ⟨a, b, hq, _, rfl⟩ := h
    exact Nat.le_succ_of_le (ih hq)
  | case7 => simp at h

/-! ### Words -/

def isWordChar (c : Char) : Bool :=
  !([' ', '\t', '\r', '\n', '=', ',', '[', ']', '{', '}', '#', doubleQuote,
    singleQuote].contains c)

/-- Ten characters in the shape of a date. -/
def isDateShaped : List Char → Bool
  | [a, b, c, d, '-', e, f, '-', g, h] => [a, b, c, d, e, f, g, h].all Char.isDigit
  | _ => false

/-- The word at the front of a text, and what follows it. -/
def word (cs : List Char) : List Char × List Char :=
  let w := cs.takeWhile isWordChar
  match cs.drop w.length with
  | ' ' :: d :: r =>
    if isDateShaped w && d.isDigit then
      let v := (d :: r).takeWhile isWordChar
      (w ++ ' ' :: v, (d :: r).drop v.length)
    else (w, ' ' :: d :: r)
  | r => (w, r)

theorem length_word (cs : List Char) : (word cs).2.length ≤ cs.length := by
  have h : (cs.drop (cs.takeWhile isWordChar).length).length ≤ cs.length := by simp
  unfold word
  simp only
  split
  · rename_i d r hd
    rw [hd] at h
    split
    · simp only [List.length_drop, List.length_cons] at h ⊢
      omega
    · exact h
  · exact h

theorem length_word_cons {c : Char} {r : List Char} (h : isWordChar c) :
    (word (c :: r)).2.length ≤ r.length := by
  have h' : ((c :: r).drop ((c :: r).takeWhile isWordChar).length).length ≤ r.length := by
    simp [h]
  unfold word
  simp only
  split
  · rename_i d r' hd
    rw [hd] at h'
    split
    · simp only [List.length_drop, List.length_cons] at h' ⊢
      omega
    · exact h'
  · exact h'

/-! ### Tokens -/

def symbol? : Char → Option Token
  | ' ' => some .space
  | '\t' => some .space
  | '\n' => some .newline
  | '=' => some .equals
  | ',' => some .comma
  | '[' => some .openBracket
  | ']' => some .closeBracket
  | '{' => some .openBrace
  | '}' => some .closeBrace
  | _ => none

/-- A text that starts with the quote `q`, read from behind it; three quotes in a row start a
text over several lines. -/
def textAt? (q : Char) (r : List Char) : Option (Token × List Char) :=
  if r.take 2 = [q, q] then
    (block? (q == doubleQuote) q (afterBreak (r.drop 2))).map fun (s, t) =>
      (.block (String.ofList s), t)
  else
    (if q = doubleQuote then quoted? r else literal? r).map fun (s, t) =>
      (.text (String.ofList s), t)

def isLineEnd (c : Char) : Bool := c == '\n' || c == '\r'

/-- The tokens that the character `c` starts in front of `r`, and what follows them. A comment
is none. -/
def tokensAt? (c : Char) (r : List Char) : Option (List Token × List Char) :=
  match symbol? c with
  | some t => some ([t], r)
  | none =>
    if c = '\r' then
      if r.head? = some '\n' then some ([], r) else none
    else if c = '#' then
      let s := r.takeWhile (!isLineEnd ·)
      if s.all isPlain then some ([], r.drop s.length) else none
    else if c = doubleQuote || c = singleQuote then
      (textAt? c r).map fun (t, rest) => ([t], rest)
    else some ([.word (word (c :: r)).1], (word (c :: r)).2)

theorem length_afterBreak (cs : List Char) : (afterBreak cs).length ≤ cs.length := by
  unfold afterBreak
  split <;> (try simp only [List.length_cons]) <;> omega

theorem length_of_textAt? {q : Char} {cs r : List Char} {t : Token}
    (h : textAt? q cs = some (t, r)) : r.length ≤ cs.length := by
  unfold textAt? at h
  split at h
  · simp only [Option.map_eq_some_iff, Prod.exists, Prod.mk.injEq] at h
    obtain ⟨s, u, hb, _, rfl⟩ := h
    have a := length_of_block? hb
    have b := length_afterBreak (cs.drop 2)
    simp only [List.length_drop] at b
    omega
  · simp only [Option.map_eq_some_iff, Prod.exists, Prod.mk.injEq] at h
    obtain ⟨s, u, hb, _, rfl⟩ := h
    split at hb
    · exact length_of_quoted? hb
    · exact length_of_literal? hb

theorem isWordChar_of_symbol?_eq_none {c : Char} (h : symbol? c = none) (hr : c ≠ '\r')
    (hc : c ≠ '#') (hq : c ≠ doubleQuote) (hs : c ≠ singleQuote) : isWordChar c := by
  unfold symbol? at h
  split at h <;> simp_all [isWordChar]

theorem length_of_tokensAt? {c : Char} {cs r : List Char} {ts : List Token}
    (h : tokensAt? c cs = some (ts, r)) : r.length ≤ cs.length := by
  unfold tokensAt? at h
  split at h
  · simp only [Option.some.injEq, Prod.mk.injEq] at h
    simp [← h.2]
  · rename_i hn
    split at h
    · split at h
      · simp only [Option.some.injEq, Prod.mk.injEq] at h
        simp [← h.2]
      · simp at h
    · rename_i hr
      split at h
      · simp only at h
        split at h
        · simp only [Option.some.injEq, Prod.mk.injEq] at h
          simp [← h.2]
        · simp at h
      · rename_i hc
        split at h
        · simp only [Option.map_eq_some_iff, Prod.exists, Prod.mk.injEq] at h
          obtain ⟨t, u, ht, _, rfl⟩ := h
          exact length_of_textAt? ht
        · rename_i hq
          simp only [Bool.or_eq_true, decide_eq_true_eq, not_or] at hq
          simp only [Option.some.injEq, Prod.mk.injEq] at h
          rw [← h.2]
          exact length_word_cons (isWordChar_of_symbol?_eq_none hn hr hc hq.1 hq.2)

/-- The tokens of a text, or nothing if some part of it is none. -/
def tokens? (cs : List Char) : Option (List Token) :=
  match cs with
  | [] => some []
  | c :: r =>
    match _h : tokensAt? c r with
    | some (ts, r') => (tokens? r').map (ts ++ ·)
    | none => none
termination_by cs.length
decreasing_by
  have := length_of_tokensAt? _h
  simp only [List.length_cons]
  omega

end ProviderGen.Toml
