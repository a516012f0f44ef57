import ProviderGen.Proofs.Project.Layout
import ProviderGen.Proofs.Text.Join
import ProviderGen.TypeName

/-!
Derived packages, read as chosen ones. The two are held to different rules: a derived segment is
repaired and guarded, a chosen one is refused. Yet what is derived breaks only one rule of the
other kind, that a segment has two characters; and it has nothing left to be repaired.
-/

namespace ProviderGen.Java.Package

open Project (IsSegmentText isSegmentText_derive chars_dotted forM_ok legalSegment_ne_nil
  isSegmentChar_of_mem_legalSegment)
open Text (lower lowerChar lowerChars)

variable {c : Char} {cs : List Char} {s value : String} {p : Package} {xs : List String}

/-! ### Characters -/

lemma isSegmentChar_of_isSegmentStart (h : isSegmentStart c = true) : isSegmentChar c = true := by
  simp only [isSegmentStart, Bool.or_eq_true] at h
  simp only [isSegmentChar, Bool.or_eq_true]
  exact h.imp_left Or.inl

lemma isSegmentStart_of_isSegmentChar (h : isSegmentChar c = true) (hdigit : c.isDigit = false) :
    isSegmentStart c = true := by
  simpa [isSegmentStart, isSegmentChar, hdigit] using h

lemma isDigit_of_isSegmentStart (h : isSegmentStart c = true) : c.isDigit = false := by
  simp only [isSegmentStart, Bool.or_eq_true, beq_iff_eq] at h
  rcases h with h | rfl
  · unfold Char.isLower at h
    unfold Char.isDigit
    grind
  · decide

lemma lt_of_isSegmentChar (h : isSegmentChar c = true) : c.toNat < 128 := by
  unfold isSegmentChar Char.isLower Char.isDigit at h
  simp only [Bool.or_eq_true, Bool.and_eq_true, decide_eq_true_eq, beq_iff_eq, ge_iff_le,
    UInt32.le_iff_toNat_le] at h
  change c.val.toNat < 128
  rcases h with (h | h) | rfl
  · exact h.2.trans_lt (by decide)
  · exact h.2.trans_lt (by decide)
  · decide

/-- The characters of segments, and the dots between them, are lower case. -/
lemma lowerChar_of_isSegmentChar (h : c = '.' ∨ isSegmentChar c = true) : lowerChar c = [c] := by
  rcases h with rfl | h
  · decide
  · have hall : ∀ n : Fin 128, isSegmentChar (Char.ofNat n) = true →
        lowerChar (Char.ofNat n) = [Char.ofNat n] := by decide
    have hc := hall ⟨c.toNat, lt_of_isSegmentChar h⟩
    rw [Char.ofNat_toNat] at hc
    exact hc h

lemma lowerChars_of_isSegmentChar (h : ∀ c ∈ cs, c = '.' ∨ isSegmentChar c = true) :
    lowerChars cs = cs := by
  induction cs with
  | nil => rfl
  | cons c r ih =>
    obtain ⟨hc, hr⟩ := List.forall_mem_cons.1 h
    rw [Text.lowerChars_cons, lowerChar_of_isSegmentChar hc, ih hr]
    rfl

/-! ### Segments -/

/-- A start, and characters of segments behind it. -/
def IsLegal (cs : List Char) : Prop :=
  ∃ c r, cs = c :: r ∧ isSegmentStart c = true ∧ ∀ x ∈ r, isSegmentChar x = true

lemma IsLegal.chars (h : IsLegal cs) : ∀ c ∈ cs, isSegmentChar c = true := by
  obtain ⟨c, r, rfl, hc, hr⟩ := h
  exact List.forall_mem_cons.2 ⟨isSegmentChar_of_isSegmentStart hc, hr⟩

lemma isLegal_legalSegment (cs : List Char) : IsLegal (legalSegment cs) := by
  have hchars : ∀ c ∈ legalSegment cs, isSegmentChar c = true :=
    fun c => isSegmentChar_of_mem_legalSegment
  unfold legalSegment at hchars ⊢
  split
  · exact ⟨'_', [], rfl, by decide, by simp⟩
  · rename_i c r hcs
    rw [hcs] at hchars
    dsimp only at hchars
    split
    · rename_i hdigit
      rw [if_pos hdigit] at hchars
      exact ⟨'_', c :: r, rfl, by decide, (List.forall_mem_cons.1 hchars).2⟩
    · rename_i hdigit
      rw [if_neg hdigit, List.forall_mem_cons] at hchars
      exact ⟨c, r, rfl, isSegmentStart_of_isSegmentChar hchars.1 (by simpa using hdigit), hchars.2⟩

/-- Nothing is repaired twice. -/
lemma IsLegal.legalSegment_eq (h : IsLegal cs) : legalSegment cs = cs := by
  have hmap : (cs.map fun c => if isSegmentChar c then c else '_') = cs := by
    conv_rhs => rw [← List.map_id cs]
    exact List.map_congr_left fun c hc => if_pos (h.chars c hc)
  obtain ⟨c, r, rfl, hc, -⟩ := h
  unfold legalSegment
  rw [hmap]
  simp [isDigit_of_isSegmentStart hc]

/-- What deriving leaves of a segment: it is legal, and free for a declaration to use. -/
structure IsDerived (s : String) : Prop where
  legal : IsLegal s.toList
  free : isReserved s = false

lemma isDerived_rootSegment : IsDerived rootSegment :=
  ⟨⟨'c', ['o', 'm'], rfl, by decide, List.all_eq_true.1 (by decide)⟩, by decide⟩

lemma isDerived_deriveSegment (s : String) : IsDerived (deriveSegment s) := by
  refine ⟨?_, isReserved_guard _⟩
  have hlegal := isLegal_legalSegment (lowerChars s.toList)
  unfold deriveSegment guard
  split
  · obtain ⟨c, r, hcs, hc, hr⟩ := hlegal
    refine ⟨c, r ++ ['_'], by simp [hcs], hc, ?_⟩
    exact List.forall_mem_append.2 ⟨hr, List.forall_mem_singleton.2 (by decide)⟩
  · rwa [String.toList_ofList]

lemma isDerived_derive (xs : List String) : ∀ s ∈ (derive xs).segments, IsDerived s := by
  refine List.forall_mem_cons.2 ⟨isDerived_rootSegment, List.forall_mem_map.2 fun x _ => ?_⟩
  exact isDerived_deriveSegment x

/-- A derived segment stays as it is. -/
lemma IsDerived.deriveSegment_eq (h : IsDerived s) : deriveSegment s = s := by
  have hlower : lowerChars s.toList = s.toList :=
    lowerChars_of_isSegmentChar fun c hc => Or.inr (h.legal.chars c hc)
  rw [deriveSegment, hlower, h.legal.legalSegment_eq, String.ofList_toList,
    guard_of_not_reserved h.free]

lemma isKeyword_of_free (h : isReserved s = false) : isKeyword s = false := by
  unfold isKeyword
  unfold isReserved at h
  simp only [List.contains_eq_mem, List.mem_append, decide_eq_false_iff_not, not_or] at h ⊢
  exact h.1

/-! ### Reading -/

/-- What a chosen segment has to look like: legal, and more than a single character. -/
lemma isSegment_iff : isSegment cs = true ↔ IsLegal cs ∧ cs.length ≠ 1 := by
  match cs with
  | [] => exact iff_of_false (by decide) fun ⟨⟨_, _, h, _⟩, _⟩ => by cases h
  | [c] => exact iff_of_false (by simp [isSegment]) fun h => h.2 rfl
  | c :: d :: r =>
    rw [isSegment, Bool.and_eq_true, List.all_eq_true]
    refine ⟨fun h => ⟨⟨c, d :: r, rfl, h⟩, by simp⟩, ?_⟩
    rintro ⟨⟨c', r', e, h⟩, -⟩
    obtain ⟨rfl, rfl⟩ := List.cons.inj e
    exact h

lemma checkSegment_iff :
    checkSegment s = .ok () ↔ isSegment s.toList = true ∧ isKeyword s = false := by
  unfold checkSegment
  split
  · rename_i hs
    simp [hs, isSegment]
  · rename_i c r hs
    have hstart : isSegment (c :: r) = true → isSegmentStart c = true := by
      rw [isSegment_iff]
      rintro ⟨⟨c', r', e, h, -⟩, -⟩
      rwa [(List.cons.inj e).1]
    rw [hs]
    cases isKeyword s with
    | true => simp
    | false =>
      cases hshape : isSegment (c :: r) with
      | true => simp [hstart hshape]
      | false => cases isSegmentStart c <;> simp

lemma forM_ok_iff {α ε : Type} {check : α → Except ε PUnit} {l : List α} :
    l.forM check = .ok () ↔ ∀ a ∈ l, check a = .ok () := by
  refine ⟨forM_ok, fun h => ?_⟩
  induction l with
  | nil => rfl
  | cons a l ih =>
    obtain ⟨ha, hl⟩ := List.forall_mem_cons.1 h
    change check a >>= (fun _ => l.forM check) = _
    rw [ha]
    exact ih hl

lemma read_iff : read value = .ok p ↔
    lower value = value ∧ (∀ s ∈ pieces value, checkSegment s = .ok ()) ∧ p = ⟨pieces value⟩ := by
  unfold read
  split
  · rename_i h
    exact iff_of_false (by simp) fun hp => h hp.1
  · rename_i h
    rw [not_not] at h
    rw [← forM_ok_iff, and_iff_right h]
    cases (pieces value).forM checkSegment with
    | error f => simp [bind, Except.bind]
    | ok u => simp [bind, Except.bind, eq_comm]

lemma pieces_dotted (hne : p.segments ≠ []) (h : ∀ s ∈ p.segments, '.' ∉ s.toList) :
    pieces p.dotted = p.segments := by
  have hsplit : p.dotted.toList.splitOn '.' = p.segments.map String.toList :=
    Text.splitOn_joined rfl hne h
  rw [pieces, hsplit, List.map_map]
  exact List.map_id'' (fun _ => String.ofList_toList) _

lemma IsLegal.isSegmentText (h : IsLegal s.toList) : IsSegmentText s := by
  refine ⟨?_, h.chars⟩
  rintro rfl
  obtain ⟨c, r, hcs, -⟩ := h
  cases hcs

lemma IsDerived.noDot (h : IsDerived s) : '.' ∉ s.toList :=
  fun hdot => absurd (h.legal.chars '.' hdot) (by decide)

lemma IsDerived.check_iff (h : IsDerived s) : checkSegment s = .ok () ↔ s.length ≠ 1 := by
  rw [checkSegment_iff, isSegment_iff, and_iff_right h.legal,
    and_iff_left (isKeyword_of_free h.free), String.length_toList]

/-- A package of such segments is read back just if none of them is a single character. -/
lemma read_dotted_iff (hne : p.segments ≠ []) (h : ∀ s ∈ p.segments, IsDerived s) :
    read p.dotted = .ok p ↔ ∀ s ∈ p.segments, s.length ≠ 1 := by
  have hpieces : pieces p.dotted = p.segments := pieces_dotted hne fun s hs => (h s hs).noDot
  have hlower : lower p.dotted = p.dotted := by
    have hchars := lowerChars_of_isSegmentChar fun c (hc : c ∈ p.dotted.toList) =>
      chars_dotted (fun s hs => (h s hs).legal.isSegmentText) hc
    rw [lower, hchars, String.ofList_toList]
  rw [read_iff, hpieces, and_iff_right hlower, and_iff_left rfl]
  exact forall₂_congr fun s hs => (h s hs).check_iff

/-! ### Lengths -/

lemma length_le_lowerChars (cs : List Char) : cs.length ≤ (lowerChars cs).length := by
  induction cs with
  | nil => rfl
  | cons c r ih =>
    have hc : 1 ≤ (lowerChar c).length := by
      unfold lowerChar
      split
      · rfl
      · split
        · exact Nat.le_succ 1
        · split <;> rfl
    rw [Text.lowerChars_cons, List.length_append, List.length_cons]
    omega

lemma length_le_legalSegment (cs : List Char) : cs.length ≤ (legalSegment cs).length := by
  have hmap : (cs.map fun c => if isSegmentChar c then c else '_').length = cs.length :=
    List.length_map _
  unfold legalSegment
  split
  · rename_i h
    rw [← hmap, h]
    exact Nat.zero_le 1
  · rename_i c r h
    rw [← hmap, h]
    split
    · exact Nat.le_succ _
    · exact le_rfl

/-- Deriving makes no segment shorter. -/
lemma length_le_deriveSegment (s : String) : s.length ≤ (deriveSegment s).length := by
  have h := (length_le_lowerChars s.toList).trans (length_le_legalSegment (lowerChars s.toList))
  rw [String.length_toList] at h
  unfold deriveSegment guard
  split
  · rw [String.length_append, String.length_ofList]
    omega
  · rwa [String.length_ofList]

/-- The segments of a type name have two characters at least, and so has what is derived. -/
lemma length_of_segments {name : String} {segments : List String}
    (h : TypeName.segments name = .ok segments) :
    ∀ s ∈ (derive segments).segments, s.length ≠ 1 := by
  refine List.forall_mem_cons.2 ⟨by decide, List.forall_mem_map.2 fun x hx => ?_⟩
  have hsegment := TypeName.isSegment_of_segments h x hx
  simp only [TypeName.isSegment, Bool.and_eq_true, decide_eq_true_eq, String.length_toList]
    at hsegment
  have hle := length_le_deriveSegment x
  omega

/-- **Derived packages are chosen ones.** Written with dots, the package of a type name is read
back as it is; so is any derived package, if and only if none of its segments is a single
character; and deriving a package once more, from the segments behind its root, changes nothing. -/
theorem read_derive :
    (∀ name segments, TypeName.segments name = .ok segments →
      read (derive segments).dotted = .ok (derive segments)) ∧
    (∀ xs, read (derive xs).dotted = .ok (derive xs) ↔
      ∀ s ∈ (derive xs).segments, s.length ≠ 1) ∧
    ∀ xs, derive (derive xs).segments.tail = derive xs := by
  have hread : ∀ xs, read (derive xs).dotted = .ok (derive xs) ↔
      ∀ s ∈ (derive xs).segments, s.length ≠ 1 :=
    fun xs => read_dotted_iff (List.cons_ne_nil _ _) (isDerived_derive xs)
  refine ⟨fun name segments h => (hread segments).2 (length_of_segments h), hread, fun xs => ?_⟩
  have hagain : (xs.map deriveSegment).map deriveSegment = xs.map deriveSegment := by
    rw [List.map_map]
    refine List.map_congr_left fun x _ => ?_
    rw [Function.comp_apply, (isDerived_deriveSegment x).deriveSegment_eq]
  rw [derive, derive, List.tail_cons, hagain]

/-- A keyword and a digit in front, each repaired in its way. -/
theorem read_derive_widget : TypeName.segments "Acme::Enum.3D" = .ok ["Acme", "Enum", "3D"] ∧
    (derive ["Acme", "Enum", "3D"]).dotted = "com.acme.enum_._3d" ∧
    read "com.acme.enum_._3d" = .ok (derive ["Acme", "Enum", "3D"]) := by
  have hname : TypeName.segments "Acme::Enum.3D" = .ok ["Acme", "Enum", "3D"] := rfl
  have hdotted : (derive ["Acme", "Enum", "3D"]).dotted = "com.acme.enum_._3d" := by
    decide +kernel
  exact ⟨hname, hdotted, hdotted ▸ read_derive.1 _ _ hname⟩

end ProviderGen.Java.Package
