import ProviderGen.Proofs.Java.DerivedPackage
import ProviderGen.Proofs.Java.FieldIdentifier
import ProviderGen.Proofs.Java.PlainText

/-!
Words that the language takes for identifiers. What fields and the segments of packages are named
with is spelled like one and is no keyword. Three words pass for all that: those for the truth
values and for null are no keywords, so that they are neither guarded nor refused, and yet no
declaration may use them.
-/

namespace ProviderGen.Java

open Package (IsLegal IsDerived deriveSegment derive isSegmentStart isSegmentChar legalSegment
  pieces read checkSegment)
open Schema (Graph)
open Text (lower lowerChars)

/-! ### What the language reserves -/

/-- The keywords of Java 8, in the order of its specification. -/
def languageKeywords : List String := [
  "abstract", "continue", "for", "new", "switch", "assert", "default", "if", "package",
  "synchronized", "boolean", "do", "goto", "private", "this", "break", "double", "implements",
  "protected", "throw", "byte", "else", "import", "public", "throws", "case", "enum", "instanceof",
  "return", "transient", "catch", "extends", "int", "short", "try", "char", "final", "interface",
  "static", "void", "class", "finally", "long", "strictfp", "volatile", "const", "float", "native",
  "super", "while"]

/-- Words that stand for values. They are spelled like identifiers, but are none. -/
def literalWords : List String := ["true", "false", "null"]

/-- Letters, digits, underscores and dollar signs, without a digit in front, and no keyword. -/
structure IsNamelike (word : String) : Prop where
  start : ∃ c r, word.toList = c :: r ∧ c.isDigit = false
  chars : ∀ c ∈ word.toList, isWordChar c = true
  keyword : word ∉ languageKeywords

/-- A word that a declaration may use for a name. -/
structure IsIdentifier (word : String) : Prop extends IsNamelike word where
  value : word ∉ literalWords

/-- The words are spelled like identifiers, and they are identifiers unless one of those that they
are made of stands for a value. -/
structure NamesUnless (words sources : List String) : Prop where
  namelike : ∀ w ∈ words, IsNamelike w
  identifier_iff : (∀ w ∈ words, IsIdentifier w) ↔ ∀ a ∈ sources, a ∉ literalWords

variable {word name : String} {words sources : List String} {c : Char} {cs : List Char}

lemma IsNamelike.isIdentifier_iff (h : IsNamelike word) :
    IsIdentifier word ↔ word ∉ literalWords :=
  ⟨IsIdentifier.value, IsIdentifier.mk h⟩

lemma namesUnless_of_literal_iff (h : ∀ w ∈ words, IsNamelike w)
    (hiff : (∀ w ∈ words, w ∉ literalWords) ↔ ∀ a ∈ sources, a ∉ literalWords) :
    NamesUnless words sources :=
  ⟨h, (forall₂_congr fun w hw => (h w hw).isIdentifier_iff).trans hiff⟩

/-- No keyword of the language is missing from those that are guarded and refused. -/
lemma isKeyword_of_mem (h : word ∈ languageKeywords) : isKeyword word = true := by
  have hall : ∀ w ∈ languageKeywords, isKeyword w = true := by decide
  exact hall word h

lemma isKeyword_iff : isKeyword word = true ↔ word ∈ languageKeywords := by
  refine ⟨fun h => ?_, isKeyword_of_mem⟩
  have hall : ∀ w ∈ keywords, w ∈ languageKeywords := by decide
  exact hall word (by simpa [isKeyword] using h)

lemma not_mem_of_isKeyword (h : isKeyword word = false) : word ∉ languageKeywords := by
  intro hword
  rw [isKeyword_of_mem hword] at h
  cases h

/-! ### Fields -/

lemma isNamelike_fieldName (name : String) : IsNamelike (fieldName name) := by
  refine ⟨?_, isWord_fieldName name, ?_⟩
  · obtain ⟨c, r, hcs, hdigit⟩ := exists_withStart (legalChars name.toList)
    have hc : c.toLower.isDigit = false := (isDigit_toLower c).trans hdigit
    unfold fieldName guard
    rw [hcs, lowerFirst]
    split
    · exact ⟨c.toLower, r ++ ['_'], by simp, hc⟩
    · exact ⟨c.toLower, r, by simp, hc⟩
  · exact not_mem_of_isKeyword (Package.isKeyword_of_free (isReserved_fieldName name))

lemma IsNamelike.numbered (h : IsNamelike word) (k : Nat) : IsNamelike (numbered word k) := by
  refine ⟨?_, forall_numbered (fun c => isWordChar_of_isDigit) h.chars k, ?_⟩
  · obtain ⟨c, r, hword, hdigit⟩ := h.start
    refine ⟨c, r ++ (toString k).toList, ?_, hdigit⟩
    rw [Java.numbered, String.toList_append, hword, List.cons_append]
  · exact not_mem_of_isKeyword (Package.isKeyword_of_free (isReserved_numbered word k))

lemma unchanged_of_literal (h : word ∈ literalWords) : Unchanged word := by
  simp only [literalWords, List.mem_cons, List.not_mem_nil, or_false] at h
  rcases h with rfl | rfl | rfl
  · exact ⟨List.all_eq_true.1 (by decide), ⟨'t', _, rfl, by decide⟩, by decide⟩
  · exact ⟨List.all_eq_true.1 (by decide), ⟨'f', _, rfl, by decide⟩, by decide⟩
  · exact ⟨List.all_eq_true.1 (by decide), ⟨'n', _, rfl, by decide⟩, by decide⟩

/-- The text with its first letter in lower case. -/
def lowStart (name : String) : String := String.ofList (lowerFirst name.toList)

/-- A property asks for such a word just if it is called so, up to its first letter. -/
lemma fieldName_literal_iff (name : String) :
    fieldName name ∈ literalWords ↔ lowStart name ∈ literalWords := by
  have hiff : ∀ w ∈ literalWords, (fieldName name = w ↔ lowStart name = w) := by
    intro w hw
    rw [fieldName_eq_iff (unchanged_of_literal hw), lowStart, ← String.toList_inj,
      String.toList_ofList]
  exact ⟨fun h => (hiff _ h).1 rfl ▸ h, fun h => (hiff _ h).2 rfl ▸ h⟩

lemma names_fieldName (names : List String) :
    NamesUnless (names.map fieldName) (names.map lowStart) := by
  refine namesUnless_of_literal_iff (List.forall_mem_map.2 fun n _ => isNamelike_fieldName n) ?_
  rw [List.forall_mem_map, List.forall_mem_map]
  exact forall₂_congr fun n _ => not_congr (fieldName_literal_iff n)

variable {rootName : String} {package : Package} {g : Graph} {classes : List JavaClass}
  {k : JavaClass}

lemma isNamelike_identifier (h : classesOf rootName package g = .ok classes) (hk : k ∈ classes)
    {f : JavaField} (hf : f ∈ k.fields) : IsNamelike f.identifier := by
  obtain ⟨before, after, hfields⟩ := List.append_of_mem hf
  have hnext := nextFree_of_fields (identifiers_of_classes h k hk) hfields
  rcases hnext.eq_or_number with e | ⟨n, -, e⟩
  · exact e ▸ isNamelike_fieldName f.name
  · exact e ▸ (isNamelike_fieldName f.name).numbered n

lemma exists_identifier_literal_iff (h : classesOf rootName package g = .ok classes)
    (hk : k ∈ classes) (hword : word ∈ literalWords) :
    (∃ f ∈ k.fields, f.identifier = word) ↔ ∃ f ∈ k.fields, lowStart f.name = word := by
  have hlast : ∀ w ∈ literalWords, ∃ x ∈ w.toList.getLast?, x.isDigit = false := by
    simp [literalWords]
  rw [exists_identifier_iff h hk (unchanged_of_literal hword) (hlast word hword)]
  simp only [lowStart, ← String.toList_inj, String.toList_ofList]

/-- Numbers make no such word of another, so that a field has one just if it asks for one. -/
lemma names_identifier (h : classesOf rootName package g = .ok classes) (hk : k ∈ classes) :
    NamesUnless (k.fields.map JavaField.identifier)
      (k.fields.map fun f => lowStart f.name) := by
  refine namesUnless_of_literal_iff
    (List.forall_mem_map.2 fun f hf => isNamelike_identifier h hk hf) ?_
  rw [List.forall_mem_map, List.forall_mem_map]
  constructor
  · intro hid f hf hmem
    obtain ⟨f', hf', e⟩ := (exists_identifier_literal_iff h hk hmem).2 ⟨f, hf, rfl⟩
    exact hid f' hf' (e ▸ hmem)
  · intro hname f hf hmem
    obtain ⟨f', hf', e⟩ := (exists_identifier_literal_iff h hk hmem).1 ⟨f, hf, rfl⟩
    exact hname f' hf' (e ▸ hmem)

/-! ### Packages -/

lemma isWordChar_of_isSegmentChar (h : isSegmentChar c = true) : isWordChar c = true := by
  simp only [isSegmentChar, Bool.or_eq_true] at h
  unfold isWordChar Char.isAlphanum Char.isAlpha
  simp only [Bool.or_eq_true]
  tauto

lemma isNamelike_of_isLegal (h : IsLegal word.toList) (hk : isKeyword word = false) :
    IsNamelike word := by
  refine ⟨?_, fun c hc => isWordChar_of_isSegmentChar (h.chars c hc), not_mem_of_isKeyword hk⟩
  obtain ⟨c, r, hword, hc, -⟩ := h
  exact ⟨c, r, hword, Package.isDigit_of_isSegmentStart hc⟩

lemma isNamelike_of_check (h : checkSegment word = .ok ()) : IsNamelike word := by
  obtain ⟨hshape, hk⟩ := Package.checkSegment_iff.1 h
  exact isNamelike_of_isLegal (Package.isSegment_iff.1 hshape).1 hk

lemma isNamelike_derive {xs : List String} : ∀ s ∈ (derive xs).segments, IsNamelike s := by
  intro s hs
  have h := Package.isDerived_derive xs s hs
  exact isNamelike_of_isLegal h.legal (Package.isKeyword_of_free h.free)

/-- What is left without an underscore has not been repaired. -/
lemma legalSegment_of_letters (h : ∀ c ∈ legalSegment cs, c.isAlphanum = true) :
    legalSegment cs = cs := by
  have hunderscore : '_' ∉ legalSegment cs := fun hmem => absurd (h '_' hmem) (by decide)
  have hmap : '_' ∉ (cs.map fun c => if isSegmentChar c then c else '_') →
      (cs.map fun c => if isSegmentChar c then c else '_') = cs := by
    intro hnot
    refine (List.map_congr_left fun c hc => if_pos ?_).trans (List.map_id' cs)
    by_contra hbad
    exact hnot (List.mem_map.2 ⟨c, hc, if_neg hbad⟩)
  unfold legalSegment at hunderscore ⊢
  split
  · rename_i hnil
    simp [hnil] at hunderscore
  · rename_i c r hcs
    rw [hcs] at hunderscore hmap
    dsimp only at hunderscore
    split
    · rename_i hdigit
      simp [hdigit] at hunderscore
    · rename_i hdigit
      rw [if_neg hdigit] at hunderscore
      exact hmap hunderscore

/-- A segment becomes such a word just if its lower case is that word. -/
lemma deriveSegment_eq_iff (hword : IsDerived word) (h : ∀ c ∈ word.toList, c.isAlphanum = true) :
    deriveSegment name = word ↔ lower name = word := by
  constructor
  · intro hname
    have hlegal : legalSegment (lowerChars name.toList) = word.toList := by
      rw [← eq_of_guard h hname, String.toList_ofList]
    have hkept := legalSegment_of_letters (hlegal.symm ▸ h)
    rw [lower, ← hkept, hlegal, String.ofList_toList]
  · intro hlower
    have hchars : lowerChars name.toList = word.toList := by
      rw [← hlower, lower, String.toList_ofList]
    rw [deriveSegment, hchars, hword.legal.legalSegment_eq, String.ofList_toList,
      guard_of_not_reserved hword.free]

lemma isDerived_of_literal (h : word ∈ literalWords) : IsDerived word := by
  simp only [literalWords, List.mem_cons, List.not_mem_nil, or_false] at h
  rcases h with rfl | rfl | rfl
  · exact ⟨⟨'t', _, rfl, by decide, List.all_eq_true.1 (by decide)⟩, by decide⟩
  · exact ⟨⟨'f', _, rfl, by decide, List.all_eq_true.1 (by decide)⟩, by decide⟩
  · exact ⟨⟨'n', _, rfl, by decide, List.all_eq_true.1 (by decide)⟩, by decide⟩

lemma deriveSegment_literal_iff (name : String) :
    deriveSegment name ∈ literalWords ↔ lower name ∈ literalWords := by
  have hiff : ∀ w ∈ literalWords, (deriveSegment name = w ↔ lower name = w) :=
    fun w hw => deriveSegment_eq_iff (isDerived_of_literal hw) (unchanged_of_literal hw).letters
  exact ⟨fun h => (hiff _ h).1 rfl ▸ h, fun h => (hiff _ h).2 rfl ▸ h⟩

lemma names_derive (xs : List String) :
    NamesUnless (derive xs).segments (xs.map lower) := by
  refine namesUnless_of_literal_iff isNamelike_derive ?_
  rw [derive, List.forall_mem_cons, and_iff_right (by decide), List.forall_mem_map,
    List.forall_mem_map]
  exact forall₂_congr fun x _ => not_congr (deriveSegment_literal_iff x)

lemma names_read {value : String} {p : Package} (h : read value = .ok p) :
    NamesUnless p.segments (pieces value) := by
  obtain ⟨-, hcheck, rfl⟩ := Package.read_iff.1 h
  exact namesUnless_of_literal_iff (fun s hs => isNamelike_of_check (hcheck s hs)) Iff.rfl

/-! ### What names fields and packages -/

/-- **All names are identifiers, but for the words that stand for values.** Fields, and the
segments of packages, whether they are derived or chosen, are named with words that are spelled
like identifiers and are no keywords. They are identifiers if and only if no property is called
`true`, `false` or `null`, up to its first letter, no segment that is derived is one of these words
in lower case, and no segment that is chosen is one of them. -/
theorem names_but_literals (names : List String) (value : String) (g : Graph) :
    NamesUnless (names.map fieldName) (names.map lowStart) ∧
    (∀ rootName package classes, classesOf rootName package g = .ok classes → ∀ k ∈ classes,
      NamesUnless (k.fields.map JavaField.identifier) (k.fields.map fun f => lowStart f.name)) ∧
    NamesUnless (derive names).segments (names.map lower) ∧
    ∀ p, read value = .ok p → NamesUnless p.segments (pieces value) :=
  ⟨names_fieldName names, fun _ _ _ h _ hk => names_identifier h hk, names_derive names,
    fun _ h => names_read h⟩

/-- A class with a keyword for a property, words that are repaired, and a package with a digit. -/
theorem names_of_badge : (∃ k, classesOf rootClassName ⟨[]⟩ badge = .ok [k] ∧
      ∀ w ∈ k.fields.map JavaField.identifier, IsIdentifier w) ∧
    (∀ w ∈ ["enum", "2fa", ""].map fieldName, IsIdentifier w) ∧
    (∀ s ∈ (derive ["enum", "2fa", ""]).segments, IsIdentifier s) ∧
    ∃ p, read "org.example.widget_2" = .ok p ∧ ∀ s ∈ p.segments, IsIdentifier s := by
  have hk : classesOf rootClassName ⟨[]⟩ badge = .ok [_] := rfl
  have hp : read "org.example.widget_2" = .ok ⟨pieces "org.example.widget_2"⟩ := by
    decide +kernel
  obtain ⟨hfield, hclass, hderive, hread⟩ :=
    names_but_literals ["enum", "2fa", ""] "org.example.widget_2" badge
  refine ⟨⟨_, hk, ?_⟩, ?_, ?_, _, hp, ?_⟩
  · exact (hclass _ _ _ hk _ List.mem_cons_self).identifier_iff.2 (by decide)
  · exact hfield.identifier_iff.2 (by decide)
  · exact hderive.identifier_iff.2 (by decide +kernel)
  · exact (hread _ hp).identifier_iff.2 (by decide +kernel)

/-- The three words pass as the names of fields, derived packages and chosen packages. -/
theorem literals_pass : ¬ IsIdentifier (fieldName "False") ∧
    (∃ s ∈ (derive ["Acme", "Null"]).segments, ¬ IsIdentifier s) ∧
    ∃ p, read "com.true" = .ok p ∧ ∃ s ∈ p.segments, ¬ IsIdentifier s := by
  have hfield : fieldName "False" = "false" := by decide +kernel
  have hderive : (derive ["Acme", "Null"]).segments = ["com", "acme", "null"] := by decide +kernel
  have hread : read "com.true" = .ok ⟨["com", "true"]⟩ := by decide +kernel
  refine ⟨fun h => h.value ?_, ⟨"null", ?_, fun h => h.value (by decide)⟩,
    _, hread, "true", by decide, fun h => h.value (by decide)⟩
  · rw [hfield]
    decide
  · rw [hderive]
    decide

end ProviderGen.Java
