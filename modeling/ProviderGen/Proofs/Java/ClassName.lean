import ProviderGen.Proofs.Java.Copy
import ProviderGen.Proofs.Path

/-!
The characters of class names. Whatever an object is called in its schema, the name of its class
consists of ASCII letters, digits and underscores, with or without a number behind it.
-/

namespace ProviderGen.Java

open Schema (Key Graph)

/-- A character that class names are made of. -/
def IsClassChar (c : Char) : Prop := c.isAlphanum = true ∨ c = '_'

instance (c : Char) : Decidable (IsClassChar c) :=
  inferInstanceAs (Decidable (c.isAlphanum = true ∨ c = '_'))

variable {taken names : List String} {name : String} {cs : List Char}

lemma isAlphanum_toUpper {c : Char} (h : c.isAlphanum = true) : c.toUpper.isAlphanum = true := by
  unfold Char.toUpper
  split
  · unfold Char.isAlphanum Char.isAlpha Char.isUpper Char.isLower Char.isDigit at h ⊢
    simp only [Bool.or_eq_true, Bool.and_eq_true, decide_eq_true_eq] at h ⊢
    grind
  · exact h

lemma isAlphanum_upperFirst (h : ∀ c ∈ cs, c.isAlphanum = true) :
    ∀ c ∈ upperFirst cs, c.isAlphanum = true := by
  cases cs with
  | nil => exact h
  | cons c r =>
    rw [List.forall_mem_cons] at h
    exact List.forall_mem_cons.2 ⟨isAlphanum_toUpper h.1, h.2⟩

lemma isAlphanum_capitalised (name : String) : ∀ c ∈ capitalised name, c.isAlphanum = true := by
  unfold capitalised
  rw [List.forall_mem_flatMap]
  intro l hl
  refine isAlphanum_upperFirst fun c hc => ?_
  simpa using Path.not_of_mem_splitOnP hl hc

lemma isClassChar_withStart (h : ∀ c ∈ cs, IsClassChar c) : ∀ c ∈ withStart cs, IsClassChar c := by
  unfold withStart
  split
  · simp [IsClassChar]
  · split
    · exact List.forall_mem_cons.2 ⟨Or.inr rfl, h⟩
    · exact h

lemma isClassChar_className (key : Key) : ∀ c ∈ (className key).toList, IsClassChar c := by
  have h := isAlphanum_capitalised (key.baseName?.getD anonymousClass)
  unfold className
  split
  · simp [anonymousClass, IsClassChar]
  · rw [String.toList_ofList]
    exact isClassChar_withStart fun c hc => Or.inl (h c hc)

section

variable {P : Char → Prop}

lemma forall_numbered (hdigit : ∀ c : Char, c.isDigit = true → P c) (h : ∀ c ∈ name.toList, P c)
    (k : Nat) : ∀ c ∈ (numbered name k).toList, P c := by
  rw [numbered, String.toList_append, Nat.toString_eq_ofList_toDigits, String.toList_ofList,
    List.forall_mem_append]
  exact ⟨h, fun c hc => hdigit c (Nat.isDigit_of_mem_toDigits (by decide) (by decide) hc)⟩

lemma forall_freeName (hdigit : ∀ c : Char, c.isDigit = true → P c)
    (h : ∀ c ∈ name.toList, P c) : ∀ c ∈ (freeName taken name).toList, P c := by
  rcases (nextFree_freeName taken name).eq_or_number with e | ⟨i, -, e⟩
  · rwa [e]
  · rw [e]
    exact forall_numbered hdigit h i

/-- Free names have the characters of the names that were asked for, and digits. -/
lemma forall_freeNames (hdigit : ∀ c : Char, c.isDigit = true → P c)
    (h : ∀ n ∈ names, ∀ c ∈ n.toList, P c) :
    ∀ n ∈ freeNames taken names, ∀ c ∈ n.toList, P c := by
  induction names generalizing taken with
  | nil => simp [freeNames]
  | cons name r ih =>
    rw [List.forall_mem_cons] at h
    rw [freeNames, List.forall_mem_cons]
    exact ⟨forall_freeName hdigit h.1, ih h.2⟩

end

/-- The names given to the objects of a graph are free, and consist of such characters. -/
lemma names_ok {g : Graph} {k : Key} (h : Names rootClassName g k name) :
    name ∉ takenNames rootClassName ∧ ∀ c ∈ name.toList, IsClassChar c := by
  have hwanted : ∀ n ∈ g.keys.map (wantedName rootClassName), ∀ c ∈ n.toList, IsClassChar c := by
    intro n hn
    obtain ⟨key, -, rfl⟩ := List.mem_map.1 hn
    unfold wantedName
    split
    · simp [rootClassName, IsClassChar]
    · exact isClassChar_className key
  have hmem : name ∈ freeNames (takenNames rootClassName)
      (g.keys.map (wantedName rootClassName)) := by
    rw [← map_snd_classNames]
    exact List.mem_map_of_mem h
  exact ⟨(freeNames_nodup _ _).2 name hmem,
    forall_freeNames (fun c hc => Or.inl (by simp [Char.isAlphanum, hc])) hwanted name hmem⟩

/-- The classes have the free names that their objects are given. -/
lemma names_of_classes {g : Graph} {package : Package} {classes : List JavaClass}
    (h : classesOf rootClassName package g = .ok classes) :
    classes.map JavaClass.name =
      freeNames (takenNames rootClassName) (g.keys.map (wantedName rootClassName)) := by
  have hr := classesOf_result rootClassName package g
  rw [h] at hr
  rw [← map_snd_classNames, ← hr.2.1, List.map_map]
  rfl

/-- And they are different. -/
lemma classNames_ok {g : Graph} {package : Package} {classes : List JavaClass}
    (h : classesOf rootClassName package g = .ok classes) :
    (classes.map JavaClass.name).Nodup ∧ ∀ c ∈ classes,
      c.name ∉ takenNames rootClassName ∧ ∀ x ∈ c.name.toList, IsClassChar x := by
  have hr := classesOf_result rootClassName package g
  rw [h] at hr
  refine ⟨?_, fun c hc => names_ok (g := g) (k := c.key) ?_⟩
  · rw [names_of_classes h]
    exact (freeNames_nodup _ _).1
  · unfold Names
    rw [← hr.2.1]
    exact List.mem_map_of_mem (f := fun c => (c.key, c.name)) hc

end ProviderGen.Java
