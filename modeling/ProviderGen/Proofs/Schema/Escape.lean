import ProviderGen.Schema.Shape
import ProviderGen.Proofs.Text.Join

/-!
Names as they are written in the printed form of a key. A written name has no slash, and it is the
name itself just if the name has neither a slash nor a tilde.
-/

namespace ProviderGen.Schema

/-- The name needs no escape. -/
def IsPlainName (name : String) : Prop := '~' ∉ name.toList ∧ '/' ∉ name.toList

instance (name : String) : Decidable (IsPlainName name) :=
  inferInstanceAs (Decidable ('~' ∉ name.toList ∧ '/' ∉ name.toList))

/-- The name as it is written in a key. -/
def written (name : String) : String := String.ofList (Key.escape name)

variable {name : String} {c : Char} {cs : List Char}

lemma one_le_length_escapeChar (c : Char) : 1 ≤ (Key.escapeChar c).length := by
  unfold Key.escapeChar
  split
  · simp
  · split
    · simp
    · simp

lemma length_le_flatMap_escapeChar (cs : List Char) :
    cs.length ≤ (cs.flatMap Key.escapeChar).length := by
  induction cs with
  | nil => exact Nat.le_refl 0
  | cons c r ih =>
    have hc := one_le_length_escapeChar c
    rw [List.flatMap_cons, List.length_append, List.length_cons]
    omega

lemma flatMap_escapeChar_eq_iff : cs.flatMap Key.escapeChar = cs ↔ '~' ∉ cs ∧ '/' ∉ cs := by
  induction cs with
  | nil => simp
  | cons c r ih =>
    rw [List.flatMap_cons]
    by_cases hc : c = '~' ∨ c = '/'
    · -- an escape makes the text longer
      have hlong : (Key.escapeChar c ++ r.flatMap Key.escapeChar).length ≠ (c :: r).length := by
        have hr := length_le_flatMap_escapeChar r
        have h : (Key.escapeChar c).length = 2 := by
          rcases hc with rfl | rfl
          · rfl
          · rfl
        rw [List.length_append, List.length_cons, h]
        omega
      refine iff_of_false (fun h => hlong (congrArg List.length h)) ?_
      rintro ⟨htilde, hslash⟩
      rcases hc with rfl | rfl
      · exact htilde List.mem_cons_self
      · exact hslash List.mem_cons_self
    · rw [not_or] at hc
      have h : Key.escapeChar c = [c] := by rw [Key.escapeChar, if_neg hc.1, if_neg hc.2]
      rw [h, List.singleton_append, List.cons_inj_right, ih, List.mem_cons, List.mem_cons,
        not_or, not_or, and_iff_right (Ne.symm hc.1), and_iff_right (Ne.symm hc.2)]

lemma written_eq_iff : written name = name ↔ IsPlainName name := by
  rw [written, ← String.toList_inj, String.toList_ofList]
  exact flatMap_escapeChar_eq_iff

lemma noSlash_written (name : String) : '/' ∉ (written name).toList := by
  rw [written, String.toList_ofList, Key.escape, List.mem_flatMap]
  rintro ⟨c, -, hc⟩
  unfold Key.escapeChar at hc
  split at hc
  · simp at hc
  · split at hc
    · simp at hc
    · rename_i hne
      exact hne (List.mem_singleton.1 hc).symm

lemma written_ne_empty (h : name ≠ "") : written name ≠ "" := by
  intro he
  have hle := length_le_flatMap_escapeChar name.toList
  rw [written, ← String.toList_inj, String.toList_ofList, Key.escape] at he
  rw [he] at hle
  exact h (String.toList_eq_nil_iff.1 (List.length_eq_zero_iff.1 (Nat.le_zero.1 hle)))

/-- The printed form of the key of a definition. -/
lemma text_definition (name : String) :
    (Key.definition name).text = referencePrefix ++ written name := by
  rw [← String.toList_inj, Key.toList_text, String.toList_append, written, String.toList_ofList]
  simp [Key.chars, Key.definition, referencePrefix, Key.escape, Key.escapeChar]

/-- Where the printed form of a key is read as a reference, it names what is written there. -/
lemma referenceName_text (h : name ≠ "") :
    referenceName (Key.definition name).text = .ok (written name) := by
  have hprefix : referencePrefix.toList.isPrefixOf
      (referencePrefix ++ written name).toList = true := Text.isPrefixOf_append _ _
  have hdrop : (referencePrefix ++ written name).toList.drop referencePrefix.length =
      (written name).toList := Text.drop_append _ _
  have hne : (written name).toList ≠ [] := by
    simpa using written_ne_empty h
  have hnested : ((written name).toList.isEmpty || (written name).toList.contains '/') = false := by
    simp [hne, noSlash_written]
  rw [text_definition, referenceName, if_pos hprefix, hdrop]
  dsimp only
  rw [hnested, String.ofList_toList]
  rfl

end ProviderGen.Schema
