import ProviderGen.Proofs.Java.Spelling
import ProviderGen.Proofs.Project.Artifact
import Mathlib.Tactic.TFAE

/-!
What tells type names apart. A name is accepted for its pieces alone, whatever separators stand
between them. In lower case, hyphens and dots join the segments so that they can be found again,
and what deriving a package adds to a segment are underscores, which no segment has. So the
hyphenated name and the package each tell the segments up to case.
-/

namespace ProviderGen.TypeName

open Java.Package (derive deriveSegment legalSegment isSegmentChar isDerived_derive)
open Text (lower lowerChars)

/-! ### Pieces -/

/-- A text, cut at every colon and at every dot. -/
inductive Cut : List Char → List (List Char) → Prop where
  | last {cs : List Char} (h : ∀ c ∈ cs, c ≠ ':' ∧ c ≠ '.') : Cut cs [cs]
  | next {cs rest : List Char} {c : Char} {ps : List (List Char)}
      (h : ∀ c ∈ cs, c ≠ ':' ∧ c ≠ '.') (hc : c = ':' ∨ c = '.') (hr : Cut rest ps) :
      Cut (cs ++ c :: rest) (cs :: ps)

/-- What is left of a name when it is cut: the pieces that are not empty, in their order. -/
def Leaves (name : String) (found : List String) : Prop :=
  ∃ ps, Cut name.toList ps ∧ found = (ps.filter (· ≠ [])).map String.ofList

/-- From 2 to 64 ASCII letters and digits. -/
structure IsSegmentWord (s : String) : Prop where
  chars : ∀ c ∈ s.toList, ('a' ≤ c ∧ c ≤ 'z') ∨ ('A' ≤ c ∧ c ≤ 'Z') ∨ ('0' ≤ c ∧ c ≤ '9')
  two_le_length : 2 ≤ s.length
  length_le : s.length ≤ 64

variable {name name' s : String} {found found' : List String} {c : Char} {cs : List Char}
  {ps : List (List Char)}

lemma isSeparator_iff : isSeparator c = true ↔ c = ':' ∨ c = '.' := by
  simp [isSeparator]

lemma not_isSeparator_iff : isSeparator c = false ↔ c ≠ ':' ∧ c ≠ '.' := by
  simp [isSeparator]

lemma Cut.cons (h : Cut cs ps) (hc : c ≠ ':' ∧ c ≠ '.') :
    Cut (c :: cs) (ps.modifyHead (c :: ·)) := by
  cases h with
  | last h => exact .last (List.forall_mem_cons.2 ⟨hc, h⟩)
  | next h hsep hr =>
    rw [← List.cons_append]
    exact .next (List.forall_mem_cons.2 ⟨hc, h⟩) hsep hr

lemma cut_splitOnP (cs : List Char) : Cut cs (cs.splitOnP isSeparator) := by
  induction cs with
  | nil => exact .last (by simp)
  | cons c cs ih =>
    rw [List.splitOnP_cons_eq_if_modifyHead]
    split
    · rename_i hc
      rw [← List.nil_append (c :: cs)]
      exact .next (by simp) (isSeparator_iff.1 hc) ih
    · rename_i hc
      exact ih.cons (not_isSeparator_iff.1 (by simpa using hc))

lemma Cut.eq_splitOnP (h : Cut cs ps) : ps = cs.splitOnP isSeparator := by
  induction h with
  | last h => rw [List.splitOnP_eq_singleton fun c hc => not_isSeparator_iff.2 (h c hc)]
  | next h hc _ ih =>
    rw [List.splitOnP_append_cons_of_forall_mem
      (fun c hc => not_isSeparator_iff.2 (h c hc)) _ (isSeparator_iff.2 hc), ih]

lemma leaves_iff : Leaves name found ↔ found = pieces name := by
  have hpieces : pieces name =
      ((name.toList.splitOnP isSeparator).filter (· ≠ [])).map String.ofList := by
    rw [pieces]
    congr 1
    exact List.filter_congr fun l _ => by cases l <;> rfl
  rw [hpieces]
  refine ⟨?_, fun h => ⟨_, cut_splitOnP _, h⟩⟩
  rintro ⟨ps, hcut, rfl⟩
  rw [hcut.eq_splitOnP]

lemma isSegment_iff : isSegment s = true ↔ IsSegmentWord s := by
  have hchar (c : Char) : c.isAlphanum = true ↔
      ('a' ≤ c ∧ c ≤ 'z') ∨ ('A' ≤ c ∧ c ≤ 'Z') ∨ ('0' ≤ c ∧ c ≤ '9') := by
    unfold Char.isAlphanum Char.isAlpha Char.isUpper Char.isLower Char.isDigit
    simp only [Bool.or_eq_true, Bool.and_eq_true, decide_eq_true_eq, Char.le_def]
    tauto
  simp only [isSegment, Bool.and_eq_true, List.all_eq_true, decide_eq_true_eq, hchar,
    String.length_toList]
  exact ⟨fun h => ⟨h.1.1, h.1.2, h.2⟩, fun h => ⟨⟨h.chars, h.two_le_length⟩, h.length_le⟩⟩

lemma segments_ok_iff : segments name = .ok found ↔
    found = pieces name ∧ found ≠ [] ∧ ∀ s ∈ found, isSegment s = true := by
  unfold segments
  split
  · rename_i hempty
    refine iff_of_false (by simp) ?_
    rintro ⟨rfl, hne, -⟩
    exact hne (List.isEmpty_iff.1 hempty)
  · rename_i hempty
    split
    · rename_i s hs
      refine iff_of_false (by simp) ?_
      rintro ⟨rfl, -, hall⟩
      have hbad := List.find?_some hs
      rw [hall s (List.mem_of_find?_eq_some hs)] at hbad
      cases hbad
    · rename_i hnone
      rw [Except.ok.injEq]
      refine ⟨?_, fun h => h.1.symm⟩
      rintro rfl
      exact ⟨rfl, by simpa using hempty, by simpa using List.find?_eq_none.1 hnone⟩

lemma read_ok_iff : read name = .ok found ↔ segments name = .ok found := by
  unfold read
  cases segments name <;> simp [Except.mapError]

/-! ### Lower case -/

/-- The texts are the same up to the case of ASCII letters. -/
def SameLetters (s t : String) : Prop := s.toLower = t.toLower

/-- Letters and digits, at least one segment of them. -/
structure IsFound (found : List String) : Prop where
  nonempty : found ≠ []
  alphanum : ∀ s ∈ found, ∀ c ∈ s.toList, c.isAlphanum = true

lemma isFound_of_read (h : read name = .ok found) : IsFound found := by
  obtain ⟨-, hne, hall⟩ := segments_ok_iff.1 (read_ok_iff.1 h)
  refine ⟨hne, fun s hs c hc => ?_⟩
  have hsegment := hall s hs
  simp only [isSegment, Bool.and_eq_true, List.all_eq_true] at hsegment
  exact hsegment.1.1 c hc

lemma sameLetters_iff :
    List.Forall₂ SameLetters found found' ↔
      found.map String.toLower = found'.map String.toLower := by
  rw [← List.forall₂_eq_eq_eq, List.forall₂_map_left_iff, List.forall₂_map_right_iff]
  rfl

lemma lowerChars_of_alphanum (h : ∀ c ∈ cs, c.isAlphanum = true) :
    lowerChars cs = cs.map Char.toLower := by
  rw [List.map_eq_flatMap, lowerChars]
  exact List.flatMap_congr fun c hc => (isAlphanum_lower (h c hc)).1

lemma toList_toLower (s : String) : s.toLower.toList = s.toList.map Char.toLower :=
  String.toList_map

lemma alphanum_toLower (h : ∀ c ∈ s.toList, c.isAlphanum = true) :
    ∀ c ∈ s.toLower.toList, c.isAlphanum = true := by
  rw [toList_toLower, List.forall_mem_map]
  exact fun c hc => (isAlphanum_lower (h c hc)).2

/-- The hyphens stay where they are. -/
lemma hyphenated_eq (h : IsFound found) :
    hyphenated found = "-".intercalate (found.map String.toLower) := by
  have hjoin (l : List (List Char)) (hl : ∀ cs ∈ l, ∀ c ∈ cs, c.isAlphanum = true) :
      lowerChars (['-'].intercalate l) = ['-'].intercalate (l.map (List.map Char.toLower)) := by
    induction l with
    | nil => rfl
    | cons cs l ih =>
      obtain ⟨hcs, hl⟩ := List.forall_mem_cons.1 hl
      cases l with
      | nil => simpa using lowerChars_of_alphanum hcs
      | cons ds l =>
        rw [List.map_cons, List.map_cons, List.intercalate_cons_cons, List.intercalate_cons_cons,
          Text.lowerChars_append, Text.lowerChars_append, lowerChars_of_alphanum hcs, ih hl]
        rfl
  rw [← String.toList_inj, hyphenated, Text.toList_lower, String.toList_intercalate,
    String.toList_intercalate, List.map_map]
  have hmap : String.toList ∘ String.toLower = List.map Char.toLower ∘ String.toList :=
    funext toList_toLower
  rw [hmap, ← List.map_map]
  exact hjoin _ (List.forall_mem_map.2 h.alphanum)

lemma hyphenated_eq_iff (h : IsFound found) (h' : IsFound found') :
    hyphenated found = hyphenated found' ↔
      found.map String.toLower = found'.map String.toLower := by
  have hnone {l : List String} (hl : IsFound l) : ∀ s ∈ l.map String.toLower, '-' ∉ s.toList :=
    List.forall_mem_map.2 fun s hs hmem =>
      absurd (alphanum_toLower (hl.alphanum s hs) '-' hmem) (by decide)
  rw [hyphenated_eq h, hyphenated_eq h']
  exact Text.joined_inj rfl (by simpa using h.nonempty) (by simpa using h'.nonempty) (hnone h)
    (hnone h')

/-! ### Packages -/

/-- What repairing characters leaves of a word, apart from underscores. -/
lemma filter_legalSegment (h : ∀ c ∈ cs, isSegmentChar c = true) :
    (legalSegment cs).filter (· ≠ '_') = cs.filter (· ≠ '_') := by
  have hmap : (cs.map fun c => if isSegmentChar c then c else '_') = cs :=
    (List.map_congr_left fun c hc => if_pos (h c hc)).trans (List.map_id' cs)
  unfold legalSegment
  rw [hmap]
  cases cs with
  | nil => rfl
  | cons c r =>
    dsimp only
    split
    · rfl
    · rfl

lemma filter_guard (s : String) :
    (Java.guard s).toList.filter (· ≠ '_') = s.toList.filter (· ≠ '_') := by
  unfold Java.guard
  split
  · rw [String.toList_append, List.filter_append]
    exact List.append_nil _
  · rfl

/-- A segment in lower case holds nothing to repair. -/
lemma isSegmentChar_toLower (h : c.isAlphanum = true) : isSegmentChar c.toLower = true := by
  rw [Char.isAlphanum, Bool.or_eq_true] at h
  unfold isSegmentChar
  rcases h with hc | hc
  · rw [Java.isLower_toLower hc]
    rfl
  · have hself : c.toLower = c := by
      unfold Char.toLower Char.isDigit at *
      grind
    rw [hself, hc, Bool.or_true]
    rfl

/-- Deriving a package adds underscores to a segment, and nothing else. -/
lemma filter_deriveSegment (h : ∀ c ∈ s.toList, c.isAlphanum = true) :
    (deriveSegment s).toList.filter (· ≠ '_') = s.toLower.toList := by
  have hlower := toList_toLower s
  have hchars : ∀ c ∈ s.toLower.toList, isSegmentChar c = true := by
    rw [hlower, List.forall_mem_map]
    exact fun c hc => isSegmentChar_toLower (h c hc)
  have hnone : ∀ c ∈ s.toLower.toList, c ≠ '_' := by
    rintro c hc rfl
    exact absurd (alphanum_toLower h '_' hc) (by decide)
  rw [deriveSegment, filter_guard, String.toList_ofList, lowerChars_of_alphanum h, ← hlower,
    filter_legalSegment hchars, List.filter_eq_self]
  simpa using hnone

lemma derive_eq_iff (h : IsFound found) (h' : IsFound found') :
    derive found = derive found' ↔ found.map String.toLower = found'.map String.toLower := by
  have hstrip {l : List String} (hl : IsFound l) :
      l.map String.toLower = (l.map deriveSegment).map
        fun s => String.ofList (s.toList.filter (· ≠ '_')) := by
    rw [List.map_map]
    refine List.map_congr_left fun s hs => ?_
    rw [Function.comp_apply, filter_deriveSegment (hl.alphanum s hs), String.ofList_toList]
  have hmake {l : List String} (hl : IsFound l) : l.map deriveSegment =
      (l.map String.toLower).map fun s => Java.guard (String.ofList (legalSegment s.toList)) := by
    rw [List.map_map]
    refine List.map_congr_left fun s hs => ?_
    rw [Function.comp_apply, deriveSegment, lowerChars_of_alphanum (hl.alphanum s hs),
      toList_toLower]
  rw [derive, derive, Java.Package.mk.injEq, List.cons_inj_right]
  refine ⟨fun e => ?_, fun e => ?_⟩
  · rw [hstrip h, e, ← hstrip h']
  · rw [hmake h, e, ← hmake h']

lemma dotted_eq_iff :
    (derive found).dotted = (derive found').dotted ↔ derive found = derive found' := by
  have hnone (l : List String) : ∀ s ∈ (derive l).segments, '.' ∉ s.toList :=
    fun s hs => (isDerived_derive l s hs).noDot
  have hjoined : (derive found).dotted = (derive found').dotted ↔
      (derive found).segments = (derive found').segments :=
    Text.joined_inj rfl (List.cons_ne_nil _ _) (List.cons_ne_nil _ _) (hnone _) (hnone _)
  rw [hjoined, Java.Package.mk.injEq]

/-- **A type name is read as its pieces, and told by them up to case.** It is accepted if and only
if a piece is left when it is cut and all that are left are words, and its segments are then these
pieces. Of two accepted names, the segments are the same up to case if and only if the hyphenated
names are equal, and if and only if the derived packages are, written with dots or not. -/
theorem read_told :
    (∀ name found, read name = .ok found ↔
      Leaves name found ∧ found ≠ [] ∧ ∀ s ∈ found, IsSegmentWord s) ∧
    ∀ name name' found found', read name = .ok found → read name' = .ok found' →
      [List.Forall₂ SameLetters found found',
        hyphenated found = hyphenated found',
        derive found = derive found',
        (derive found).dotted = (derive found').dotted].TFAE := by
  refine ⟨fun name found => ?_, fun name name' found found' h h' => ?_⟩
  · rw [read_ok_iff, segments_ok_iff, leaves_iff]
    exact and_congr_right fun _ => and_congr_right fun _ => forall₂_congr fun s _ => isSegment_iff
  · have hfound := isFound_of_read h
    have hfound' := isFound_of_read h'
    tfae_have 1 ↔ 2 := by rw [sameLetters_iff, hyphenated_eq_iff hfound hfound']
    tfae_have 1 ↔ 3 := by rw [sameLetters_iff, derive_eq_iff hfound hfound']
    tfae_have 3 ↔ 4 := dotted_eq_iff.symm
    tfae_finish

/-- Two spellings of one name, and a name that differs from them in a letter. -/
theorem read_told_harbour :
    read "Acme::Enum.3D" = .ok ["Acme", "Enum", "3D"] ∧
      read ":acme..ENUM::3d" = .ok ["acme", "ENUM", "3d"] ∧
      read "Acme::Enums::3D" = .ok ["Acme", "Enums", "3D"] ∧
      List.Forall₂ SameLetters ["Acme", "Enum", "3D"] ["acme", "ENUM", "3d"] ∧
      derive ["Acme", "Enum", "3D"] = derive ["acme", "ENUM", "3d"] ∧
      (derive ["Acme", "Enum", "3D"]).dotted ≠ (derive ["Acme", "Enums", "3D"]).dotted := by
  have h : read "Acme::Enum.3D" = .ok ["Acme", "Enum", "3D"] := by rfl
  have h' : read ":acme..ENUM::3d" = .ok ["acme", "ENUM", "3d"] := by rfl
  have h'' : read "Acme::Enums::3D" = .ok ["Acme", "Enums", "3D"] := by rfl
  have hsame : hyphenated ["Acme", "Enum", "3D"] = hyphenated ["acme", "ENUM", "3d"] := by decide
  have hdiffer : hyphenated ["Acme", "Enum", "3D"] ≠ hyphenated ["Acme", "Enums", "3D"] := by
    decide
  have htold := read_told.2 _ _ _ _ h h'
  have htold' := read_told.2 _ _ _ _ h h''
  exact ⟨h, h', h'', (htold.out 0 1).2 hsame, (htold.out 1 2).1 hsame,
    mt (htold'.out 1 3).2 hdiffer⟩

end ProviderGen.TypeName
