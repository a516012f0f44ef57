import ProviderGen.Java.Class
import ProviderGen.Text.Hexadecimal
import Mathlib.Data.List.Basic
import Mathlib.Tactic.Common

/-!
The string literals of a source, as the language reads them. Unicode escapes are translated
wherever they stand, and what comes out is read as code, comments and literals; all of that goes
by UTF-16 code units. A text has no reading if a literal goes over the end of a line or an escape
in it is none of the language. A text that is put together from pieces that begin and end in code
has the literals of its pieces.
-/

namespace ProviderGen.Java.Scanner

/-! ### Scanning -/

/-- The code units of a character. -/
def unitsOf (c : Char) : List ℕ :=
  if c.toNat < 0x10000 then [c.toNat]
  else [0xD800 + (c.toNat - 0x10000) / 0x400, 0xDC00 + (c.toNat - 0x10000) % 0x400]

def unitsOfList (cs : List Char) : List ℕ := cs.flatMap unitsOf

def units (text : String) : List ℕ := unitsOfList text.toList

/-- Where the translation of Unicode escapes stands: at no backslash, behind one that may begin
an escape, or behind the marks and some of the digits of an escape. -/
inductive Raw where
  | plain
  | slash
  | digits (count value : ℕ)

def Raw.step : Raw → Char → Option (Raw × List ℕ)
  | plain, c => some (if c = '\\' then (slash, []) else (plain, unitsOf c))
  | slash, c => some (if c = 'u' then (digits 0 0, []) else (plain, '\\'.toNat :: unitsOf c))
  | digits count value, c =>
    if c = 'u' ∧ count = 0 then some (digits 0 0, [])
    else (Text.hexValue? c).map fun d =>
      if count = 3 then (plain, [value * 16 + d]) else (digits (count + 1) (value * 16 + d), [])

/-- What is left over at the end of the text. -/
def Raw.rest? : Raw → Option (List ℕ)
  | plain => some []
  | slash => some ['\\'.toNat]
  | digits _ _ => none

/-- Where the reading stands. A literal has the quote that ends it, and an octal escape may have
`more` digits. -/
inductive Mode where
  | code
  | slash
  | line
  | block
  | star
  | text (quote : ℕ)
  | escape (quote : ℕ)
  | octal (quote more value : ℕ)

structure Lexer where
  mode : Mode
  /-- What the literal says so far. -/
  value : List ℕ
  /-- The string literals before it. -/
  done : List (List ℕ)

def isBreak (x : ℕ) : Bool := x == '\n'.toNat || x == '\r'.toNat

def isOctal (x : ℕ) : Bool := '0'.toNat ≤ x && x ≤ '7'.toNat

/-- The escapes of one character. -/
def escapes : List (ℕ × ℕ) := [
  ('b'.toNat, 8), ('t'.toNat, 9), ('n'.toNat, 10), ('f'.toNat, 12), ('r'.toNat, 13),
  ('"'.toNat, '"'.toNat), ('\x27'.toNat, '\x27'.toNat), ('\\'.toNat, '\\'.toNat)]

namespace Lexer

def inCode (s : Lexer) (x : ℕ) : Option Lexer :=
  if x = '"'.toNat ∨ x = '\x27'.toNat then some { s with mode := .text x }
  else if x = '/'.toNat then some { s with mode := .slash }
  else if x = '\\'.toNat then none
  else some { s with mode := .code }

def push (s : Lexer) (quote x : ℕ) : Lexer :=
  { s with mode := .text quote, value := s.value ++ [x] }

/-- A character literal has one unit, and is not kept. -/
def close (s : Lexer) (quote : ℕ) : Option Lexer :=
  if quote = '"'.toNat then some ⟨.code, [], s.done ++ [s.value]⟩
  else if s.value.length = 1 then some ⟨.code, [], s.done⟩
  else none

def inText (s : Lexer) (quote x : ℕ) : Option Lexer :=
  if x = quote then s.close quote
  else if x = '\\'.toNat then some { s with mode := .escape quote }
  else if isBreak x then none
  else some (s.push quote x)

def inEscape (s : Lexer) (quote x : ℕ) : Option Lexer :=
  if isOctal x then
    some { s with mode := .octal quote (if x ≤ '3'.toNat then 2 else 1) (x - '0'.toNat) }
  else (escapes.lookup x).map (s.push quote)

def step (s : Lexer) (x : ℕ) : Option Lexer :=
  match s.mode with
  | .code => s.inCode x
  | .slash =>
    if x = '/'.toNat then some { s with mode := .line }
    else if x = '*'.toNat then some { s with mode := .block }
    else s.inCode x
  | .line => some (if isBreak x then { s with mode := .code } else s)
  | .block => some (if x = '*'.toNat then { s with mode := .star } else s)
  | .star => some (
    if x = '/'.toNat then { s with mode := .code }
    else if x = '*'.toNat then s
    else { s with mode := .block })
  | .text quote => s.inText quote x
  | .escape quote => s.inEscape quote x
  | .octal quote more value =>
    if 0 < more ∧ isOctal x then
      some { s with mode := .octal quote (more - 1) (value * 8 + (x - '0'.toNat)) }
    else (s.push quote value).inText quote x

/-- A text may end in code and in a comment that ends with its line. -/
def result? (s : Lexer) : Option (List (List ℕ)) :=
  match s.mode with
  | .code => some s.done
  | .slash => some s.done
  | .line => some s.done
  | _ => none

end Lexer

structure State where
  raw : Raw
  lexer : Lexer

def feed (s : State) (c : Char) : Option State := do
  let (raw, us) ← s.raw.step c
  let lexer ← us.foldlM Lexer.step s.lexer
  some ⟨raw, lexer⟩

def scan (s : State) (cs : List Char) : Option State := cs.foldlM feed s

/-- In code, behind these literals. -/
def inCode (done : List (List ℕ)) : State := ⟨.plain, .code, [], done⟩

/-- In a string literal that says this so far. -/
def inString (value : List ℕ) (done : List (List ℕ)) : State :=
  ⟨.plain, .text '"'.toNat, value, done⟩

/-- The string literals of a text, in their order. -/
def literals? (text : String) : Option (List (List ℕ)) := do
  let s ← scan (inCode []) text.toList
  let us ← s.raw.rest?
  let lexer ← us.foldlM Lexer.step s.lexer
  lexer.result?

example : literals? "f(\"a\\\"\\u0062\\\\u0062\", \"\\101\") // \"" =
    some [units "a\"b\\u0062", units "A"] := by decide +kernel

example : literals? "f(\"a\nb\")" = none := by decide +kernel

/-! ### Code units -/

/-- Units below the surrogates are characters by themselves. -/
lemma toNat_of_mem_unitsOf {c : Char} {x : ℕ} (h : x ∈ unitsOf c) (hx : x < 0xD800) :
    c.toNat = x := by
  unfold unitsOf at h
  split at h
  · exact (List.mem_singleton.1 h).symm
  · simp only [List.mem_cons, List.not_mem_nil, or_false] at h
    omega

lemma unitsOf_ne_nil (c : Char) : unitsOf c ≠ [] := by
  unfold unitsOf
  split
  · simp
  · simp

lemma ne_of_mem_unitsOf {c d : Char} {x : ℕ} (h : x ∈ unitsOf c) (hc : c ≠ d)
    (hd : d.toNat < 0xD800) : x ≠ d.toNat := by
  rintro rfl
  exact hc (Char.toNat_inj.1 (toNat_of_mem_unitsOf h hd))

@[simp] lemma unitsOfList_nil : unitsOfList [] = [] := rfl

@[simp] lemma unitsOfList_cons (c : Char) (r : List Char) :
    unitsOfList (c :: r) = unitsOf c ++ unitsOfList r := List.flatMap_cons

/-! ### Steps -/

variable {s s' : State} {c : Char} {cs : List Char} {us : List ℕ} {x : ℕ}

@[simp] lemma scan_nil (s : State) : scan s [] = some s := rfl

@[simp] lemma scan_cons (s : State) (c : Char) (r : List Char) :
    scan s (c :: r) = (feed s c).bind fun s => scan s r := List.foldlM_cons ..

lemma scan_append (s : State) (cs r : List Char) :
    scan s (cs ++ r) = (scan s cs).bind fun s => scan s r := List.foldlM_append ..

lemma feed_eq_some : feed s c = some s' ↔ ∃ us, s.raw.step c = some (s'.raw, us) ∧
    us.foldlM Lexer.step s.lexer = some s'.lexer := by
  obtain ⟨raw', lexer'⟩ := s'
  simp only [feed, Option.bind_eq_bind, Option.bind_eq_some_iff, Option.some.injEq,
    State.mk.injEq, Prod.exists]
  refine ⟨?_, ?_⟩
  · rintro ⟨raw, us, hraw, lexer, hus, rfl, rfl⟩
    exact ⟨us, hraw, hus⟩
  · rintro ⟨us, hraw, hus⟩
    exact ⟨raw', us, hraw, lexer', hus, rfl, rfl⟩

lemma feed_plain (h : c ≠ '\\') (l : Lexer) :
    feed ⟨.plain, l⟩ c = ((unitsOf c).foldlM Lexer.step l).map fun l => ⟨.plain, l⟩ := by
  simp only [feed, Raw.step, if_neg h, Option.bind_eq_bind, Option.bind_some]
  rw [Option.map_eq_bind]
  rfl

lemma foldlM_fixed {α σ : Type} {f : σ → α → Option σ} {t : σ} {as : List α}
    (h : ∀ a ∈ as, f t a = some t) : as.foldlM f t = some t := by
  induction as with
  | nil => rfl
  | cons a as ih =>
    rw [List.forall_mem_cons] at h
    rw [List.foldlM_cons, h.1]
    exact ih h.2

lemma scan_fixed (h : ∀ c ∈ cs, feed s c = some s) : scan s cs = some s := foldlM_fixed h

/-! ### Pieces that can be read -/

/-- A piece of text with these literals. -/
def Reads (cs : List Char) (vs : List (List ℕ)) : Prop :=
  ∀ done, scan (inCode done) cs = some (inCode (done ++ vs))

lemma Reads.nil : Reads [] [] := fun done => by simp

lemma Reads.append {cs cs' : List Char} {vs vs' : List (List ℕ)} (h : Reads cs vs)
    (h' : Reads cs' vs') : Reads (cs ++ cs') (vs ++ vs') := fun done => by
  rw [scan_append, h done, Option.bind_some, h', List.append_assoc]

/-- A character that begins neither a comment nor a literal nor an escape. -/
def IsPlain (c : Char) : Prop := c ≠ '"' ∧ c ≠ '\x27' ∧ c ≠ '/' ∧ c ≠ '\\'

instance (c : Char) : Decidable (IsPlain c) :=
  inferInstanceAs (Decidable (c ≠ '"' ∧ c ≠ '\x27' ∧ c ≠ '/' ∧ c ≠ '\\'))

lemma feed_code (h : IsPlain c) (done : List (List ℕ)) :
    feed (inCode done) c = some (inCode done) := by
  obtain ⟨hdouble, hsingle, hslash, hback⟩ := h
  have hfixed : ∀ x ∈ unitsOf c, Lexer.step ⟨.code, [], done⟩ x = some ⟨.code, [], done⟩ := by
    intro x hx
    have hquote : ¬ (x = '"'.toNat ∨ x = '\x27'.toNat) :=
      not_or.2 ⟨ne_of_mem_unitsOf hx hdouble (by decide), ne_of_mem_unitsOf hx hsingle (by decide)⟩
    rw [Lexer.step]
    dsimp only
    rw [Lexer.inCode, if_neg hquote, if_neg (ne_of_mem_unitsOf hx hslash (by decide)),
      if_neg (ne_of_mem_unitsOf hx hback (by decide))]
  rw [inCode, feed_plain hback, foldlM_fixed hfixed]
  rfl

lemma Reads.plain (h : ∀ c ∈ cs, IsPlain c) : Reads cs [] := fun done => by
  rw [List.append_nil]
  exact scan_fixed fun c hc => feed_code (h c hc) done

/-- What holds of the characters of a fixed text can be tested. -/
lemma forall_of_all {P : Char → Prop} [DecidablePred P]
    (h : cs.all (fun c => decide (P c)) = true) : ∀ c ∈ cs, P c := by
  simpa using h

/-- A character of a comment, or of a literal, that neither ends it nor begins an escape. -/
def IsInline (c : Char) : Prop := c ≠ '\n' ∧ c ≠ '\r' ∧ c ≠ '\\'

instance (c : Char) : Decidable (IsInline c) :=
  inferInstanceAs (Decidable (c ≠ '\n' ∧ c ≠ '\r' ∧ c ≠ '\\'))

lemma not_isBreak (hline : c ≠ '\n') (hreturn : c ≠ '\r') (hx : x ∈ unitsOf c) :
    isBreak x = false := by
  rw [isBreak, Bool.or_eq_false_iff, beq_eq_false_iff_ne, beq_eq_false_iff_ne]
  exact ⟨ne_of_mem_unitsOf hx hline (by decide), ne_of_mem_unitsOf hx hreturn (by decide)⟩

lemma Reads.comment (h : ∀ c ∈ cs, IsInline c) : Reads ('/' :: '/' :: cs ++ ['\n']) [] := by
  intro done
  have hopen : scan (inCode done) ['/', '/'] = some ⟨.plain, .line, [], done⟩ := rfl
  have hfixed : ∀ c ∈ cs, feed ⟨.plain, .line, [], done⟩ c = some ⟨.plain, .line, [], done⟩ := by
    intro c hc
    obtain ⟨hline, hreturn, hback⟩ := h c hc
    rw [feed_plain hback, foldlM_fixed fun x hx => by
      simp [Lexer.step, not_isBreak hline hreturn hx]]
    rfl
  rw [show '/' :: '/' :: cs ++ ['\n'] = ['/', '/'] ++ (cs ++ ['\n']) from rfl, scan_append, hopen,
    Option.bind_some, scan_append, scan_fixed hfixed, List.append_nil]
  rfl

/-! ### Literals that can be read -/

/-- Characters that say this between the quotes of a literal. -/
def Spells (cs : List Char) (us : List ℕ) : Prop :=
  ∀ value done, scan (inString value done) cs = some (inString (value ++ us) done)

lemma Spells.append {cs' : List Char} {us' : List ℕ} (h : Spells cs us) (h' : Spells cs' us') :
    Spells (cs ++ cs') (us ++ us') := fun value done => by
  rw [scan_append, h value done, Option.bind_some, h', List.append_assoc]

lemma Spells.flatMap {f : Char → List Char} (h : ∀ c ∈ cs, Spells (f c) (unitsOf c)) :
    Spells (cs.flatMap f) (unitsOfList cs) := by
  induction cs with
  | nil => exact fun value done => by simp
  | cons c r ih =>
    rw [List.forall_mem_cons] at h
    rw [List.flatMap_cons, unitsOfList_cons]
    exact h.1.append (ih h.2)

/-- A character that stands for itself between the quotes of a literal. -/
def IsBare (c : Char) : Prop := c ≠ '"' ∧ IsInline c

instance (c : Char) : Decidable (IsBare c) :=
  inferInstanceAs (Decidable (c ≠ '"' ∧ IsInline c))

lemma Spells.bare (h : IsBare c) : Spells [c] (unitsOf c) := by
  intro value done
  obtain ⟨hquote, hline, hreturn, hback⟩ := h
  have hpush : ∀ us : List ℕ, (∀ x ∈ us, x ∈ unitsOf c) → ∀ value,
      us.foldlM Lexer.step ⟨.text '"'.toNat, value, done⟩ =
        some ⟨.text '"'.toNat, value ++ us, done⟩ := by
    intro us
    induction us with
    | nil => simp
    | cons x us ih =>
      intro hus value
      rw [List.forall_mem_cons] at hus
      rw [List.foldlM_cons, Lexer.step]
      dsimp only
      rw [Lexer.inText, if_neg (ne_of_mem_unitsOf hus.1 hquote (by decide)),
        if_neg (ne_of_mem_unitsOf hus.1 hback (by decide)), not_isBreak hline hreturn hus.1]
      have hrest := ih hus.2 (value ++ [x])
      rw [List.append_assoc] at hrest
      exact hrest
  rw [scan_cons, inString, feed_plain hback, hpush _ fun _ h => h]
  rfl

lemma Spells.escaped (hline : c ≠ '\n') (hreturn : c ≠ '\r') :
    Spells (JavaField.literalChar c) (unitsOf c) := by
  unfold JavaField.literalChar
  split
  · rename_i h
    subst h
    exact fun value done => rfl
  · split
    · rename_i h
      subst h
      exact fun value done => rfl
    · rename_i hback hquote
      exact .bare ⟨hquote, hline, hreturn, hback⟩

lemma scan_quote (done : List (List ℕ)) (r : List Char) :
    scan (inCode done) ('"' :: r) = scan (inString [] done) r := rfl

lemma Reads.literal (h : Spells cs us) : Reads ('"' :: cs ++ ['"']) [us] := by
  intro done
  rw [List.cons_append, scan_quote, scan_append, h, Option.bind_some]
  rfl

end ProviderGen.Java.Scanner
