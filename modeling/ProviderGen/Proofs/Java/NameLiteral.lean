import ProviderGen.Proofs.Java.Straying
import ProviderGen.Proofs.Text.Replace

/-!
The literal of a property's name. Doubling the backslashes and then putting one in front of each
quote makes a text in which every quote and every backslash belongs to a pair. So wherever the
scanner is in it, it is in the literal, and it takes no backslash for the beginning of a Unicode
escape. What it reads is the name, in code units, and these tell the characters; so the literal
tells the name.
-/

namespace ProviderGen.Java

namespace Scanner

/-- The body of a literal: characters that stand for themselves, and pairs of a backslash with a
backslash or a quote. -/
inductive Body : List Char → Prop where
  | nil : Body []
  | bare {c : Char} {r : List Char} (h : IsBare c) (hr : Body r) : Body (c :: r)
  | pair {c : Char} {r : List Char} (h : c = '\\' ∨ c = '"') (hr : Body r) : Body ('\\' :: c :: r)

/-- In a string literal behind these ones, and behind a backslash at most, but in no Unicode
escape. -/
inductive InLiteral (done : List (List ℕ)) : State → Prop where
  | between (value : List ℕ) : InLiteral done (inString value done)
  | slash (value : List ℕ) : InLiteral done ⟨.slash, .text '"'.toNat, value, done⟩

variable {c d : Char} {cs ds body front : List Char} {us vs : List ℕ}

/-! ### Code units -/

/-- A character is told from the units at the front, and so is what stands behind it. -/
lemma unitsOf_append_inj (h : unitsOf c ++ us = unitsOf d ++ vs) : c = d ∧ us = vs := by
  have hc : c.toNat < 0xD800 ∨ 0xDFFF < c.toNat ∧ c.toNat < 0x110000 := c.valid
  have hd : d.toNat < 0xD800 ∨ 0xDFFF < d.toNat ∧ d.toNat < 0x110000 := d.valid
  unfold unitsOf at h
  by_cases hsingle : c.toNat < 0x10000
  · by_cases hsingle' : d.toNat < 0x10000
    · rw [if_pos hsingle, if_pos hsingle'] at h
      obtain ⟨he, hr⟩ := List.cons.inj h
      exact ⟨Char.toNat_inj.1 he, hr⟩
    · -- no character is the first half of a pair
      rw [if_pos hsingle, if_neg hsingle'] at h
      have he := (List.cons.inj h).1
      omega
  · by_cases hsingle' : d.toNat < 0x10000
    · rw [if_neg hsingle, if_pos hsingle'] at h
      have he := (List.cons.inj h).1
      omega
    · rw [if_neg hsingle, if_neg hsingle'] at h
      obtain ⟨hhigh, h⟩ := List.cons.inj h
      obtain ⟨hlow, hr⟩ := List.cons.inj h
      exact ⟨Char.toNat_inj.1 (by omega), hr⟩

lemma unitsOfList_inj (h : unitsOfList cs = unitsOfList ds) : cs = ds := by
  induction cs generalizing ds with
  | nil =>
    cases ds with
    | nil => rfl
    | cons d ds => exact absurd (List.append_eq_nil_iff.1 h.symm).1 (unitsOf_ne_nil d)
  | cons c cs ih =>
    cases ds with
    | nil => exact absurd (List.append_eq_nil_iff.1 h).1 (unitsOf_ne_nil c)
    | cons d ds =>
      obtain ⟨rfl, hr⟩ := unitsOf_append_inj h
      rw [ih hr]

lemma units_inj {s t : String} : units s = units t ↔ s = t :=
  ⟨fun h => String.toList_inj.1 (unitsOfList_inj h), fun h => h ▸ rfl⟩

/-! ### Bodies -/

lemma Spells.pair (h : c = '\\' ∨ c = '"') : Spells ['\\', c] (unitsOf c) := by
  rcases h with rfl | rfl
  · exact fun value done => rfl
  · exact fun value done => rfl

/-- The scanner does not leave a literal in its body. -/
lemma Body.inLiteral (h : Body body) (hfront : front <+: body) (value : List ℕ)
    (done : List (List ℕ)) :
    ∃ s, scan (inString value done) front = some s ∧ InLiteral done s := by
  induction h generalizing front value with
  | nil =>
    obtain rfl := List.prefix_nil.1 hfront
    exact ⟨_, rfl, .between value⟩
  | @bare c r hc _ ih =>
    cases front with
    | nil => exact ⟨_, rfl, .between value⟩
    | cons x front =>
      obtain ⟨rfl, hr⟩ := List.cons_prefix_cons.1 hfront
      rw [← List.singleton_append, scan_append, Spells.bare hc, Option.bind_some]
      exact ih hr _
  | @pair c r hc _ ih =>
    cases front with
    | nil => exact ⟨_, rfl, .between value⟩
    | cons x front =>
      obtain ⟨rfl, hpair⟩ := List.cons_prefix_cons.1 hfront
      cases front with
      | nil => exact ⟨_, rfl, .slash value⟩
      | cons y front =>
        obtain ⟨rfl, hr⟩ := List.cons_prefix_cons.1 hpair
        rw [show '\\' :: y :: front = ['\\', y] ++ front from rfl, scan_append, Spells.pair hc,
          Option.bind_some]
        exact ih hr _

lemma body_flatMap_literalChar (h : ∀ c ∈ cs, c ≠ '\n' ∧ c ≠ '\r') :
    Body (cs.flatMap JavaField.literalChar) := by
  induction cs with
  | nil => exact .nil
  | cons c r ih =>
    rw [List.forall_mem_cons] at h
    rw [List.flatMap_cons, JavaField.literalChar]
    split
    · rename_i hback
      exact .pair (Or.inl rfl) (ih h.2)
    · split
      · exact .pair (Or.inr rfl) (ih h.2)
      · rename_i hback hquote
        exact .bare ⟨hquote, h.1.1, h.1.2, hback⟩ (ih h.2)

end Scanner

open Scanner (Body InLiteral Reads Spells units units_inj inString scan literals?)
open Text (replace replace_replace)

variable {f f' : JavaField} {text : String}

/-! ### Names -/

/-- A name that stands on one line. -/
def IsOneLine (name : String) : Prop := ∀ c ∈ name.toList, c ≠ '\n' ∧ c ≠ '\r'

/-- The literal with its quotes. -/
def JavaField.quoted (f : JavaField) : String := "\"" ++ f.literal ++ "\""

lemma literal_eq_replace (f : JavaField) : f.literal.toList =
    replace '"' ['\\', '"'] (replace '\\' ['\\', '\\'] f.name.toList) := by
  rw [JavaField.literal, String.toList_ofList]
  exact (replace_replace (by decide) _).symm

lemma toList_quoted (f : JavaField) :
    f.quoted.toList = '"' :: f.name.toList.flatMap JavaField.literalChar ++ ['"'] := by
  simp [JavaField.quoted, JavaField.literal]

lemma reads_quoted (h : IsOneLine f.name) : Reads f.quoted.toList [units f.name] := by
  rw [toList_quoted]
  exact .literal (.flatMap fun c hc => .escaped (h c hc).1 (h c hc).2)

lemma Scanner.Reads.literals? {vs : List (List ℕ)} (h : Reads text.toList vs) :
    literals? text = some vs := by
  rw [Scanner.literals?, h []]
  rfl

lemma literals?_of_break (h : ¬ IsOneLine f.name) : literals? f.quoted = none := by
  have hbreak : ∃ c ∈ f.name.toList, c = '\n' ∨ c = '\r' := by
    by_contra hnone
    exact h fun c hc => ⟨fun e => hnone ⟨c, hc, Or.inl e⟩, fun e => hnone ⟨c, hc, Or.inr e⟩⟩
  rw [Scanner.literals?, toList_quoted, List.cons_append, Scanner.scan_quote,
    Scanner.scan_break hbreak]
  rfl

/-- A literal that can be read is the literal of one name only. -/
lemma name_of_literal (h : IsOneLine f.name) (he : f'.literal = f.literal) : f'.name = f.name := by
  have hquoted : literals? f'.quoted = some [units f.name] := by
    rw [JavaField.quoted, he]
    exact (reads_quoted h).literals?
  by_cases h' : IsOneLine f'.name
  · rw [(reads_quoted h').literals?] at hquoted
    exact units_inj.1 (List.singleton_inj.1 (Option.some.inj hquoted))
  · rw [literals?_of_break h'] at hquoted
    cases hquoted

/-- **The literal of a name on one line is what it should be.** Its quotes and backslashes belong
to pairs, and the scanner stays in it from one end to the other without coming to a Unicode escape;
so it can stand between quotes wherever code can, and what it says there is the name and nothing
else. Names that differ have literals that differ. -/
theorem literal_of_name (h : IsOneLine f.name) :
    f.literal.toList = replace '"' ['\\', '"'] (replace '\\' ['\\', '\\'] f.name.toList) ∧
    Body f.literal.toList ∧
    (∀ front, front <+: f.literal.toList → ∀ value done,
      ∃ s, scan (inString value done) front = some s ∧ InLiteral done s) ∧
    Reads f.quoted.toList [units f.name] ∧
    (∀ name, literals? f.quoted = some [units name] ↔ name = f.name) ∧
    ∀ f' : JavaField, f'.literal = f.literal ↔ f'.name = f.name := by
  have hbody : Body f.literal.toList := by
    rw [JavaField.literal, String.toList_ofList]
    exact Scanner.body_flatMap_literalChar h
  refine ⟨literal_eq_replace f, hbody, fun front hfront => hbody.inLiteral hfront, reads_quoted h,
    fun name => ?_, fun f' => ⟨name_of_literal h, fun hname => ?_⟩⟩
  · rw [(reads_quoted h).literals?, Option.some_inj, List.singleton_inj, units_inj, eq_comm]
  · rw [JavaField.literal, hname, JavaField.literal]

/-- Backslashes in front of a quote and of what would be a Unicode escape. -/
def thorn : JavaField := ⟨"a\\\\\"\\u0041\"", "a", .string, false⟩

theorem literal_of_thorn : IsOneLine thorn.name ∧
    thorn.literal = "a\\\\\\\\\\\"\\\\u0041\\\"" ∧ Body thorn.literal.toList ∧
    literals? thorn.quoted = some [units "a\\\\\"\\u0041\""] := by
  have h : IsOneLine thorn.name := Scanner.forall_of_all (by decide)
  obtain ⟨-, hbody, -, -, htold, -⟩ := literal_of_name h
  exact ⟨h, by decide, hbody, (htold _).2 rfl⟩

end ProviderGen.Java
