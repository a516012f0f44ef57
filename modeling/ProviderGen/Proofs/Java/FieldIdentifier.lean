import ProviderGen.Proofs.Java.MethodName

/-!
The identifiers of the fields of a class. Each is the one that its property asks for, or that with
a number behind it, as the fields before it leave it; none is reserved, and neither two identifiers
nor two accessors are the same.
-/

namespace ProviderGen.Java

open Schema (Graph)

variable {rootName : String} {package : Package} {g : Graph} {classes : List JavaClass}
  {c : JavaClass} {names : List String} {name word : String}

/-- What a field asks for is free to use, whatever its property is called. -/
lemma isReserved_fieldName (name : String) : isReserved (fieldName name) = false :=
  isReserved_guard _

/-- No reserved word ends with a number. -/
lemma isReserved_numbered (name : String) (k : Nat) : isReserved (numbered name k) = false := by
  refine Bool.eq_false_iff.2 fun h => ?_
  obtain ⟨x, hx⟩ : ∃ x, (numbered name k).toList.getLast? = some x := by
    refine ⟨_, List.getLast?_eq_some_getLast ?_⟩
    simp [numbered]
  have hdigit := isDigit_last_numbered name k x hx
  have halpha := isAlpha_of_isReserved h x hx
  unfold Char.isDigit at hdigit
  unfold Char.isAlpha Char.isUpper Char.isLower at halpha
  grind

/-- How the fields of a class are named. -/
structure WellNamed (fields : List JavaField) : Prop where
  identifiers : (fields.map JavaField.identifier).Nodup
  accessors : (fields.map JavaField.accessor).Nodup
  free : ∀ f ∈ fields, isReserved f.identifier = false
  /-- A field has the next free word that the fields before it leave. -/
  next : ∀ before f after, fields = before ++ f :: after →
    NextFree (before.map JavaField.identifier) (fieldName f.name) f.identifier
  /-- The first field that asks for a word has it, unless a number has made it another's. -/
  first : ∀ before f after, fields = before ++ f :: after →
    (∀ p ∈ before, fieldName p.name ≠ fieldName f.name) →
    f.identifier = fieldName f.name ∨
      ∃ p ∈ before, p.identifier = fieldName f.name ∧
        ∃ k, 1 ≤ k ∧ p.identifier = numbered (fieldName p.name) k

lemma nextFree_of_fields {fields before after : List JavaField} {f : JavaField}
    (h : fields.map JavaField.identifier = freeNames [] (fields.map fun f => fieldName f.name))
    (hf : fields = before ++ f :: after) :
    NextFree (before.map JavaField.identifier) (fieldName f.name) f.identifier := by
  rw [hf, List.map_append, List.map_append, freeNames_append, List.map_cons, List.map_cons,
    freeNames] at h
  obtain ⟨hbefore, hrest⟩ := List.append_inj h (by simp)
  rw [(List.cons.inj hrest).1, hbefore]
  exact (nextFree_freeName _ _).congr (by simp)

/-- **The fields of every class are well named**: their identifiers are different and not reserved,
their accessors are different, and each identifier is what the property's name gives, with the
smallest number behind it that is needed to keep it apart from those before it. -/
theorem wellNamed_of_classes (h : classesOf rootName package g = .ok classes) :
    ∀ c ∈ classes, WellNamed c.fields := by
  intro c hc
  obtain ⟨hnodup, hlow⟩ := identifiers_ok h hc
  have hnext : ∀ before f after, c.fields = before ++ f :: after →
      NextFree (before.map JavaField.identifier) (fieldName f.name) f.identifier :=
    fun _ _ _ => nextFree_of_fields (identifiers_of_classes h c hc)
  refine ⟨hnodup, ?_, fun f hf => ?_, hnext, fun before f after hfields hfirst => ?_⟩
  · refine List.pairwise_map.2 ?_
    refine (List.pairwise_map.1 hnodup).imp_of_mem fun {a b} ha hb hne e => hne ?_
    exact ((hlow a ha).accessor_inj (hlow b hb)).1 e
  · obtain ⟨before, after, hfields⟩ := List.append_of_mem hf
    rcases (hnext before f after hfields).eq_or_number with e | ⟨k, -, e⟩
    · exact e ▸ isReserved_fieldName f.name
    · exact e ▸ isReserved_numbered _ k
  · by_cases htaken : fieldName f.name ∈ before.map JavaField.identifier
    · obtain ⟨p, hp, e⟩ := List.mem_map.1 htaken
      obtain ⟨first, rest, rfl⟩ := List.append_of_mem hp
      refine Or.inr ⟨p, hp, e, ?_⟩
      rcases (hnext first p (rest ++ f :: after) (by simp [hfields])).eq_or_number with e' | hnumber
      · exact absurd (e'.symm.trans e) (hfirst p hp)
      · exact hnumber
    · exact Or.inl ((hnext before f after hfields).eq_of_free htaken)

/-- A root whose properties ask for one word three times, once with a number of their own, and for
a keyword. -/
def badge : Graph :=
  ⟨[⟨.root, [⟨"Name", .string, true⟩, ⟨"name", .string, false⟩, ⟨"name1", .string, false⟩,
    ⟨"Enum", .string, false⟩]⟩], by simp⟩

theorem badge_wellNamed : ∃ c, classesOf rootClassName ⟨[]⟩ badge = .ok [c] ∧
    c.fields.map JavaField.identifier = ["name", "name1", "name11", "enum_"] ∧
    WellNamed c.fields := by
  have hc : classesOf rootClassName ⟨[]⟩ badge = .ok [_] := rfl
  refine ⟨_, hc, ?_, wellNamed_of_classes hc _ List.mem_cons_self⟩
  rw [identifiers_of_classes hc _ List.mem_cons_self]
  decide

end ProviderGen.Java
