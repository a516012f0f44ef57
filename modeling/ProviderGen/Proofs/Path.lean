import ProviderGen.Disk.Request
import Mathlib.Data.List.Basic
import Mathlib.Data.List.Infix
import Mathlib.Data.List.TakeWhile
import Mathlib.Tactic.Common

/-!
Paths by their steps. The steps of a path are the names between its slashes that count. A part
that is joined to a path adds its own steps, and the parent of a path that ends in a step has all
steps but the last.
-/

namespace ProviderGen.Path

def names (p : Path) : List String := p.pieces.map String.ofList

/-- The names that count. -/
def steps (p : Path) : List String := p.names.filter fun n => !isIdle n.toList

/-- What an entry of a directory may be called. -/
structure IsName (n : String) : Prop where
  counts : isIdle n.toList = false
  notUp : n ≠ ".."
  noSlash : '/' ∉ n.toList

instance (n : String) : Decidable (IsName n) :=
  decidable_of_iff (isIdle n.toList = false ∧ n ≠ ".." ∧ '/' ∉ n.toList)
    ⟨fun h => ⟨h.1, h.2.1, h.2.2⟩, fun h => ⟨h.counts, h.notUp, h.noSlash⟩⟩

/-- The last name of the path counts. -/
def EndsInStep (p : Path) : Prop := ∃ before l, p.pieces = before ++ [l] ∧ isIdle l = false

/-- A path that can be asked for. -/
structure Valid (p : Path) : Prop where
  noNul : '\x00' ∉ p.text.toList
  nonempty : p.text ≠ ""
  size : p.text.utf8ByteSize ≤ Disk.pathLimit

instance (p : Path) : Decidable p.Valid :=
  decidable_of_iff ('\x00' ∉ p.text.toList ∧ p.text ≠ "" ∧ p.text.utf8ByteSize ≤ Disk.pathLimit)
    ⟨fun h => ⟨h.1, h.2.1, h.2.2⟩, fun h => ⟨h.noNul, h.nonempty, h.size⟩⟩

variable {p q : Path} {s n : String}

lemma pieces_ne_nil (p : Path) : p.pieces ≠ [] := List.splitOn_ne_nil _ _

lemma steps_eq (p : Path) :
    p.steps = (p.pieces.filter fun l => !isIdle l).map String.ofList := by
  unfold steps names
  rw [List.filter_map]
  congr 1
  apply List.filter_congr
  simp

lemma eq_of_pieces (h : p.pieces = q.pieces) : p = q := by
  obtain ⟨t⟩ := p
  obtain ⟨u⟩ := q
  have ht : ['/'].intercalate (t.toList.splitOn '/') = t.toList := List.intercalate_splitOn '/'
  have hu : ['/'].intercalate (u.toList.splitOn '/') = u.toList := List.intercalate_splitOn '/'
  rw [show List.splitOn '/' t.toList = List.splitOn '/' u.toList from h, hu] at ht
  rw [String.toList_inj.1 ht]

/-! ### Joining -/

lemma join_eq (hs : s.toList.head? ≠ some '/') :
    (p / s).text.toList =
      if p.text = "" ∨ p.text.toList.getLast? = some '/' then p.text.toList ++ s.toList
      else p.text.toList ++ '/' :: s.toList := by
  show (p.join s).text.toList = _
  unfold join
  rw [if_neg hs]
  split
  · simp
  · simp

/-- A joined part adds its pieces; a slash that is there already is not doubled. -/
lemma pieces_join (hs : s.toList.head? ≠ some '/') :
    (p.text = "" ∧ (p / s).pieces = pieces ⟨s⟩) ∨
    (∃ x, p.pieces = x ++ [[]] ∧ x ≠ [] ∧ (p / s).pieces = x ++ pieces ⟨s⟩) ∨
    (p.text ≠ "" ∧ (p / s).pieces = p.pieces ++ pieces ⟨s⟩) := by
  have hj := join_eq (p := p) hs
  unfold pieces
  by_cases he : p.text = ""
  · rw [if_pos (Or.inl he)] at hj
    refine Or.inl ⟨he, ?_⟩
    rw [hj, he]
    simp
  · by_cases hl : p.text.toList.getLast? = some '/'
    · rw [if_pos (Or.inr hl)] at hj
      obtain ⟨x, hx⟩ := List.getLast?_eq_some_iff.1 hl
      refine Or.inr (Or.inl ⟨x.splitOn '/', ?_, List.splitOn_ne_nil _ _, ?_⟩)
      · rw [hx, List.splitOn_append_cons_self]
        simp
      · rw [hj, hx, List.append_assoc]
        exact List.splitOn_append_cons_self x s.toList
    · rw [if_neg (by simp [he, hl])] at hj
      refine Or.inr (Or.inr ⟨he, ?_⟩)
      rw [hj, List.splitOn_append_cons_self]

lemma steps_join (hs : s.toList.head? ≠ some '/') : (p / s).steps = p.steps ++ steps ⟨s⟩ := by
  simp only [steps_eq]
  rcases pieces_join (p := p) hs with ⟨he, h⟩ | ⟨x, hx, -, h⟩ | ⟨-, h⟩
  · have hp : p.pieces = [[]] := by
      unfold pieces
      rw [he]
      simp
    rw [h, hp]
    simp [isIdle]
  · rw [h, hx]
    simp [isIdle]
  · rw [h]
    simp

lemma isAbsolute_join (hs : s.toList.head? ≠ some '/') : (p / s).isAbsolute = p.isAbsolute := by
  unfold isAbsolute
  rw [join_eq hs]
  by_cases he : p.text = ""
  · rw [if_pos (Or.inl he), he]
    simpa using hs
  · have hne : p.text.toList ≠ [] := by simpa using he
    split
    · rw [List.head?_append_of_ne_nil _ hne]
    · rw [List.head?_append_of_ne_nil _ hne]

lemma endsInStep_join (hs : s.toList.head? ≠ some '/') (h : EndsInStep ⟨s⟩) :
    (p / s).EndsInStep := by
  obtain ⟨before, l, hb, hl⟩ := h
  rcases pieces_join (p := p) hs with ⟨-, h⟩ | ⟨x, -, -, h⟩ | ⟨-, h⟩
  · exact ⟨before, l, h.trans hb, hl⟩
  · exact ⟨x ++ before, l, by rw [h, hb, List.append_assoc], hl⟩
  · exact ⟨p.pieces ++ before, l, by rw [h, hb, List.append_assoc], hl⟩

lemma IsName.pieces_eq (h : IsName n) : pieces ⟨n⟩ = [n.toList] :=
  List.splitOn_eq_singleton h.noSlash

lemma IsName.head? (h : IsName n) : n.toList.head? ≠ some '/' := by
  intro e
  exact h.noSlash (List.mem_of_head? e)

lemma IsName.steps_eq (h : IsName n) : steps ⟨n⟩ = [n] := by
  rw [Path.steps_eq, h.pieces_eq]
  simp [h.counts]

lemma IsName.endsInStep (h : IsName n) : EndsInStep ⟨n⟩ :=
  ⟨[], n.toList, h.pieces_eq, h.counts⟩

lemma IsName.endsInStep_join (h : IsName n) : (p / n).EndsInStep :=
  Path.endsInStep_join h.head? h.endsInStep

lemma steps_join_name (h : IsName n) : (p / n).steps = p.steps ++ [n] := by
  rw [steps_join h.head?, h.steps_eq]

lemma text_front_join (hs : s.toList.head? ≠ some '/') :
    p.text.toList <+: (p / s).text.toList := by
  rw [join_eq hs]
  split
  · exact List.prefix_append _ _
  · exact List.prefix_append _ _

/-- A path that is far from its limit, however it is continued. -/
structure Short (p : Path) (size : ℕ) : Prop where
  noNul : '\x00' ∉ p.text.toList
  nonempty : p.text ≠ ""
  le_size : p.text.utf8ByteSize ≤ size

lemma Short.valid {size : ℕ} (h : p.Short size) (hs : size ≤ Disk.pathLimit) : p.Valid :=
  ⟨h.noNul, h.nonempty, h.le_size.trans hs⟩

lemma Short.join {size : ℕ} (h : p.Short size) (hs : s.toList.head? ≠ some '/')
    (hn : '\x00' ∉ s.toList) : (p / s).Short (size + 1 + s.utf8ByteSize) := by
  have hsize := h.le_size
  have hnul := h.noNul
  have htext : (p / s).text = p.text ++ s ∨ (p / s).text = p.text ++ "/" ++ s := by
    rw [← String.toList_inj, ← String.toList_inj, join_eq hs]
    split
    · exact Or.inl String.toList_append.symm
    · exact Or.inr (by simp)
  rcases htext with ht | ht
  · refine ⟨?_, ?_, ?_⟩
    · simp [ht, hnul, hn]
    · simp [ht, h.nonempty]
    · rw [ht, String.utf8ByteSize_append]
      omega
  · refine ⟨?_, ?_, ?_⟩
    · simp [ht, hnul, hn]
    · simp [ht, h.nonempty]
    · rw [ht, String.utf8ByteSize_append, String.utf8ByteSize_append]
      have hslash : "/".utf8ByteSize = 1 := rfl
      omega

/-! ### Names one after the other -/

section

variable {ns : List String}

lemma steps_foldl (h : ∀ n ∈ ns, IsName n) : (ns.foldl (· / ·) p).steps = p.steps ++ ns := by
  induction ns generalizing p with
  | nil => simp
  | cons n ns ih =>
    rw [List.forall_mem_cons] at h
    rw [List.foldl_cons, ih h.2, steps_join_name h.1, List.append_assoc, List.singleton_append]

lemma isAbsolute_foldl (h : ∀ n ∈ ns, IsName n) :
    (ns.foldl (· / ·) p).isAbsolute = p.isAbsolute := by
  induction ns generalizing p with
  | nil => rfl
  | cons n ns ih =>
    rw [List.forall_mem_cons] at h
    rw [List.foldl_cons, ih h.2, isAbsolute_join h.1.head?]

lemma text_front_foldl (h : ∀ n ∈ ns, IsName n) :
    p.text.toList <+: (ns.foldl (· / ·) p).text.toList := by
  induction ns generalizing p with
  | nil => exact List.prefix_rfl
  | cons n ns ih =>
    rw [List.forall_mem_cons] at h
    rw [List.foldl_cons]
    exact (text_front_join h.1.head?).trans (ih h.2)

lemma endsInStep_foldl (hne : ns ≠ []) (h : ∀ n ∈ ns, IsName n) :
    (ns.foldl (· / ·) p).EndsInStep := by
  cases ns using List.reverseRecOn with
  | nil => exact absurd rfl hne
  | append_singleton ns n =>
    have hn := h n (by simp)
    rw [List.foldl_append]
    exact hn.endsInStep_join

end

lemma EndsInStep.ne (h : p.EndsInStep) (x : List (List Char)) : p.pieces ≠ x ++ [[]] := by
  intro e
  obtain ⟨before, l, hb, hl⟩ := h
  obtain ⟨-, e⟩ := List.append_inj' (e.symm.trans hb) rfl
  rw [List.singleton_inj] at e
  rw [← e] at hl
  cases hl

lemma EndsInStep.text_ne (h : p.EndsInStep) : p.text ≠ "" := by
  intro he
  refine h.ne [] ?_
  unfold pieces
  rw [he]
  simp

/-- A name behind a path that ends in a step. -/
lemma pieces_join_name (hp : p.EndsInStep) (h : IsName n) :
    (p / n).pieces = p.pieces ++ [n.toList] := by
  rcases pieces_join (p := p) h.head? with ⟨he, -⟩ | ⟨x, hx, -, -⟩ | ⟨-, hj⟩
  · refine absurd ?_ (hp.ne [])
    unfold pieces
    rw [he]
    simp
  · exact absurd hx (hp.ne x)
  · rw [hj, h.pieces_eq]

/-! ### Parents -/

lemma withoutIdleEnd_concat {ps : List (List Char)} {l : List Char} (hl : isIdle l = false) :
    withoutIdleEnd (ps ++ [l]) = ps ++ [l] := by
  simp [withoutIdleEnd, hl]

lemma filter_withoutIdleEnd (ps : List (List Char)) :
    ((withoutIdleEnd ps).filter fun l => !isIdle l) = ps.filter fun l => !isIdle l := by
  unfold withoutIdleEnd
  rw [List.filter_reverse]
  have h : (ps.reverse.dropWhile isIdle).filter (fun l => !isIdle l) =
      ps.reverse.filter fun l => !isIdle l := by
    induction ps.reverse with
    | nil => rfl
    | cons a r ih =>
      by_cases ha : isIdle a = true
      · simp [ha, ih]
      · simp [ha]
  rw [h, List.filter_reverse, List.reverse_reverse]

lemma withoutIdleEnd_prefix (ps : List (List Char)) : withoutIdleEnd ps <+: ps := by
  unfold withoutIdleEnd
  rw [← List.reverse_suffix, List.reverse_reverse]
  exact List.dropWhile_suffix _

/-- What ends in no idle piece, if anything is left. -/
lemma withoutIdleEnd_eq_nil_or (ps : List (List Char)) :
    withoutIdleEnd ps = [] ∨ ∃ before l, withoutIdleEnd ps = before ++ [l] ∧ isIdle l = false := by
  unfold withoutIdleEnd
  cases h : ps.reverse.dropWhile isIdle with
  | nil => exact Or.inl rfl
  | cons l r =>
    refine Or.inr ⟨r.reverse, l, by simp, ?_⟩
    have := List.head?_dropWhile_not isIdle ps.reverse
    rw [h] at this
    simpa using this

lemma parentPieces_concat {ps : List (List Char)} {l : List Char} (hl : isIdle l = false) :
    parentPieces (ps ++ [l]) = withoutIdleEnd ps := by
  rw [parentPieces, withoutIdleEnd_concat hl, List.dropLast_concat]

/-- No piece holds what the pieces are cut at. -/
lemma not_of_mem_splitOnP {α : Type*} {cut : α → Bool} {cs l : List α} {c : α}
    (h : l ∈ cs.splitOnP cut) (hc : c ∈ l) : cut c = false := by
  induction cs generalizing l with
  | nil =>
    obtain rfl : l = [] := by simpa using h
    cases hc
  | cons a r ih =>
    rw [List.splitOnP_cons_eq_if_modifyHead] at h
    split at h
    · rcases List.mem_cons.1 h with rfl | h
      · cases hc
      · exact ih h hc
    · rename_i ha
      cases hr : r.splitOnP cut with
      | nil => exact absurd hr (List.splitOnP_ne_nil _ _)
      | cons b t =>
        rw [hr, List.modifyHead_cons] at h
        rcases List.mem_cons.1 h with rfl | h
        · rcases List.mem_cons.1 hc with rfl | hc
          · simpa using ha
          · exact ih (by rw [hr]; exact List.mem_cons_self) hc
        · exact ih (by rw [hr]; exact List.mem_cons_of_mem _ h) hc

lemma noSlash_of_mem_pieces {l : List Char} (h : l ∈ p.pieces) : '/' ∉ l := by
  intro hc
  rw [pieces, List.splitOn_eq_splitOnP] at h
  simpa using not_of_mem_splitOnP h hc

lemma noSlash_of_mem_names (h : n ∈ p.names) : '/' ∉ n.toList := by
  obtain ⟨l, hl, rfl⟩ := List.mem_map.1 h
  rw [String.toList_ofList]
  exact noSlash_of_mem_pieces hl

lemma isName_of_mem_steps (h : n ∈ p.steps) (hup : n ≠ "..") : IsName n := by
  obtain ⟨hmem, hcounts⟩ := List.mem_filter.1 h
  exact ⟨by simpa using hcounts, hup, noSlash_of_mem_names hmem⟩

lemma pieces_ofPieces {ps : List (List Char)} (hs : ∀ l ∈ ps, '/' ∉ l) (hn : ps ≠ []) :
    (ofPieces ps).pieces = ps := by
  unfold pieces ofPieces
  rw [String.toList_ofList]
  exact List.splitOn_intercalate '/' hs hn

lemma isAbsolute_iff : p.isAbsolute = true ↔ ∃ r, r ≠ [] ∧ p.pieces = [] :: r := by
  unfold isAbsolute pieces
  cases p.text.toList with
  | nil => simp
  | cons c r =>
    rw [List.splitOn_cons_eq_if_modifyHead, List.head?_cons, beq_iff_eq, Option.some_inj]
    by_cases hc : c = '/'
    · simp [hc]
    · cases hr : r.splitOn '/' with
      | nil => exact absurd hr (List.splitOn_ne_nil _ _)
      | cons a t => simp [hc]

lemma isAbsolute_iff_of_concat {before : List (List Char)} {l : List Char}
    (hp : p.pieces = before ++ [l]) : p.isAbsolute = true ↔ ∃ r, before = [] :: r := by
  rw [isAbsolute_iff, hp]
  cases before with
  | nil =>
    refine ⟨fun h => ?_, fun h => ?_⟩
    · obtain ⟨r, hr, e⟩ := h
      rw [List.nil_append, List.cons.injEq] at e
      exact absurd e.2.symm hr
    · obtain ⟨r, e⟩ := h
      cases e
  | cons b t => simp

lemma text_eq (p : Path) : p.text.toList = ['/'].intercalate p.pieces :=
  (List.intercalate_splitOn '/').symm

lemma intercalate_prefix {ps qs : List (List Char)} (h : qs <+: ps) :
    ['/'].intercalate qs <+: ['/'].intercalate ps := by
  obtain ⟨r, rfl⟩ := h
  induction qs with
  | nil => simp
  | cons a t ih =>
    cases t with
    | nil =>
      cases r with
      | nil => simp
      | cons b r => simp [List.intercalate_cons_cons]
    | cons b t =>
      simp only [List.cons_append, List.intercalate_cons_cons] at ih ⊢
      rw [List.prefix_append_right_inj]
      exact ih

/-- What there is to know of a parent. -/
structure IsParent (p q : Path) : Prop where
  absolute : q.isAbsolute = p.isAbsolute
  ends : q.EndsInStep ∨ q.steps = []
  text_front : q.text.toList <+: p.text.toList
  steps_concat : ∃ last, p.steps = q.steps ++ [last]

/-- A path with some of the pieces in front of the last step. -/
lemma isParent_ofPieces {before qs : List (List Char)} {l : List Char}
    (hp : p.pieces = before ++ [l]) (hl : isIdle l = false) (hn : qs ≠ []) (hq : qs <+: before)
    (hf : (qs.filter fun l => !isIdle l) = before.filter fun l => !isIdle l)
    (ha : (∃ r, r ≠ [] ∧ qs = [] :: r) ↔ ∃ r, before = [] :: r)
    (he : (∃ b l, qs = b ++ [l] ∧ isIdle l = false) ∨ (qs.filter fun l => !isIdle l) = []) :
    IsParent p (ofPieces qs) := by
  have hs : ∀ a ∈ qs, '/' ∉ a := by
    intro a h
    refine noSlash_of_mem_pieces (p := p) ?_
    rw [hp]
    exact List.mem_append_left _ (hq.subset h)
  have hqs := pieces_ofPieces hs hn
  refine ⟨?_, ?_, ?_, ⟨String.ofList l, ?_⟩⟩
  · rw [Bool.eq_iff_iff, isAbsolute_iff, hqs, ha, isAbsolute_iff_of_concat hp]
  · unfold EndsInStep
    rw [hqs, steps_eq, hqs]
    refine he.imp_right fun h => ?_
    rw [h]
    rfl
  · rw [text_eq, text_eq, hqs, hp]
    exact intercalate_prefix (hq.trans (List.prefix_append _ _))
  · rw [steps_eq, steps_eq, hqs, hp, List.filter_append, hf]
    simp [hl]

lemma isParent_top {l : List Char} {rest : List (List Char)} (hp : p.pieces = [] :: rest ++ [l])
    (hl : isIdle l = false) (hw : withoutIdleEnd rest = []) : IsParent p ⟨"/"⟩ := by
  have ha : p.isAbsolute = true := (isAbsolute_iff_of_concat hp).2 ⟨rest, rfl⟩
  have hf := filter_withoutIdleEnd rest
  rw [hw] at hf
  refine ⟨ha.symm ▸ rfl, Or.inr rfl, ?_, String.ofList l, ?_⟩
  · obtain ⟨t, ht⟩ := List.head?_eq_some_iff.1 (beq_iff_eq.1 ha)
    rw [ht]
    exact ⟨t, rfl⟩
  · have htop : steps ⟨"/"⟩ = [] := rfl
    rw [htop, steps_eq, hp, List.filter_append, List.filter_cons, ← hf]
    simp [hl, show isIdle [] = true from rfl]

lemma isParent_empty {before : List (List Char)} {l : List Char} (hp : p.pieces = before ++ [l])
    (hl : isIdle l = false) (hb : ¬ ∃ r, before = [] :: r)
    (hf : (before.filter fun l => !isIdle l) = []) : IsParent p (ofPieces []) := by
  have ha : p.isAbsolute = false := by
    rwa [← Bool.not_eq_true, isAbsolute_iff_of_concat hp]
  refine ⟨ha.symm ▸ rfl, Or.inr rfl, List.nil_prefix, String.ofList l, ?_⟩
  have hempty : (ofPieces []).steps = [] := rfl
  rw [hempty, steps_eq, hp, List.filter_append, hf]
  simp [hl]

lemma ends_cons {w : List (List Char)} {b : List Char} (hb : isIdle b = true)
    (hw : w = [] ∨ ∃ c l, w = c ++ [l] ∧ isIdle l = false) :
    (∃ c l, b :: w = c ++ [l] ∧ isIdle l = false) ∨ ((b :: w).filter fun l => !isIdle l) = [] := by
  rcases hw with rfl | ⟨c, l, rfl, hl⟩
  · exact Or.inr (by simp [hb])
  · exact Or.inl ⟨b :: c, l, rfl, hl⟩

/-- The pieces of the parent, from the pieces in front of the last step. -/
def frontPieces : List (List Char) → List (List Char)
  | [] :: rest => if withoutIdleEnd rest = [] then [[], []] else [] :: withoutIdleEnd rest
  | ['.'] :: rest => ['.'] :: withoutIdleEnd rest
  | ps => withoutIdleEnd ps

lemma parent?_eq {before : List (List Char)} {l : List Char} (hp : p.pieces = before ++ [l])
    (hl : isIdle l = false) : p.parent? = some (ofPieces (frontPieces before)) := by
  have hend (ps : List (List Char)) : withoutIdleEnd (ps ++ [l]) = [] ↔ False := by
    simp [withoutIdleEnd_concat hl]
  have hfront (ps : List (List Char)) (h₀ : ∀ r, ps ≠ [] :: r) (h₁ : ∀ r, ps ≠ ['.'] :: r) :
      frontPieces ps = withoutIdleEnd ps := by
    unfold frontPieces
    split
    · exact absurd rfl (h₀ _)
    · exact absurd rfl (h₁ _)
    · rfl
  unfold parent?
  rw [hp]
  split
  · rename_i h
    simp at h
  · rename_i rest' h
    cases before with
    | nil =>
      rw [List.nil_append, List.cons.injEq] at h
      rw [h.1] at hl
      cases hl
    | cons b rest =>
      rw [List.cons_append, List.cons.injEq] at h
      obtain ⟨rfl, rfl⟩ := h
      simp only [hend, if_false, parentPieces_concat hl, frontPieces]
      cases withoutIdleEnd rest <;> rfl
  · rename_i rest' h
    cases before with
    | nil =>
      rw [List.nil_append, List.cons.injEq] at h
      rw [h.1] at hl
      cases hl
    | cons b rest =>
      rw [List.cons_append, List.cons.injEq] at h
      obtain ⟨rfl, rfl⟩ := h
      simp only [hend, if_false, parentPieces_concat hl, frontPieces]
  · rename_i h₀ h₁
    rw [parentPieces_concat hl, hfront before]
    · rintro r rfl
      exact h₀ _ rfl
    · rintro r rfl
      exact h₁ _ rfl

/-- A path that ends in a step has a parent. -/
theorem exists_parent (h : p.EndsInStep) : ∃ q, p.parent? = some q ∧ IsParent p q := by
  obtain ⟨before, l, hp, hl⟩ := h
  refine ⟨_, parent?_eq hp hl, ?_⟩
  unfold frontPieces
  split
  · -- an absolute path
    rename_i rest
    have hends := withoutIdleEnd_eq_nil_or rest
    split
    · rename_i hw
      exact isParent_top hp hl hw
    · refine isParent_ofPieces hp hl (by simp) ?_ ?_ ?_ (ends_cons rfl hends)
      · exact List.cons_prefix_cons.2 ⟨rfl, withoutIdleEnd_prefix rest⟩
      · rw [List.filter_cons, filter_withoutIdleEnd, List.filter_cons]
      · simpa
  · -- a path that starts with a dot
    rename_i rest
    have hends := withoutIdleEnd_eq_nil_or rest
    refine isParent_ofPieces hp hl (by simp) ?_ ?_ (by simp) (ends_cons rfl hends)
    · exact List.cons_prefix_cons.2 ⟨rfl, withoutIdleEnd_prefix rest⟩
    · rw [List.filter_cons, filter_withoutIdleEnd, List.filter_cons]
  · rename_i h₀ h₁
    have hprefix := withoutIdleEnd_prefix before
    have hfilter := filter_withoutIdleEnd before
    have hends := withoutIdleEnd_eq_nil_or before
    have hnot : ¬ ∃ r, before = [] :: r := by
      rintro ⟨r, rfl⟩
      exact h₀ r rfl
    cases hw : withoutIdleEnd before with
    | nil =>
      rw [hw] at hfilter
      exact isParent_empty hp hl hnot hfilter.symm
    | cons a t =>
      rw [hw] at hprefix hfilter hends
      refine isParent_ofPieces hp hl (by simp) hprefix hfilter ?_ (Or.inl (by simpa using hends))
      obtain ⟨r, rfl⟩ := hprefix
      refine iff_of_false ?_ hnot
      rintro ⟨t', -, e⟩
      rw [List.cons.injEq] at e
      exact hnot ⟨t ++ r, by rw [List.cons_append, e.1]⟩

lemma Valid.of_front (h : p.Valid) (hq : q.text.toList <+: p.text.toList) (hne : q.text ≠ "") :
    q.Valid := by
  obtain ⟨r, hr⟩ := hq
  have hp : p.text = q.text ++ String.ofList r := by
    rw [← String.toList_inj, String.toList_append, String.toList_ofList, hr]
  refine ⟨fun hm => h.noNul ?_, hne, le_trans ?_ h.size⟩
  · rw [← hr]
    exact List.mem_append_left _ hm
  · rw [hp, String.utf8ByteSize_append]
    exact Nat.le_add_right _ _

lemma ofPieces_pieces (p : Path) : ofPieces p.pieces = p :=
  eq_of_pieces (pieces_ofPieces (fun _ => noSlash_of_mem_pieces) (pieces_ne_nil p))

lemma frontPieces_concat {before : List (List Char)} {l : List Char} (hl : isIdle l = false) :
    frontPieces (before ++ [l]) = before ++ [l] := by
  unfold frontPieces
  split
  · rename_i rest h
    cases before with
    | nil =>
      rw [List.nil_append, List.cons.injEq] at h
      rw [h.1] at hl
      cases hl
    | cons b t =>
      rw [List.cons_append, List.cons.injEq] at h
      rw [← h.2, withoutIdleEnd_concat hl, if_neg (by simp), ← h.1, List.cons_append]
  · rename_i rest h
    cases before with
    | nil =>
      rw [List.nil_append, List.cons.injEq] at h
      rw [h.1] at hl
      cases hl
    | cons b t =>
      rw [List.cons_append, List.cons.injEq] at h
      rw [← h.2, withoutIdleEnd_concat hl, ← h.1, List.cons_append]
  · exact withoutIdleEnd_concat hl

/-- The parent of an entry is its directory, as that is spelled. -/
theorem parent?_join_name (hp : p.EndsInStep) (h : IsName n) : (p / n).parent? = some p := by
  rw [parent?_eq (pieces_join_name hp h) h.counts]
  obtain ⟨before, l, hb, hl⟩ := hp
  rw [hb, frontPieces_concat hl, ← hb, ofPieces_pieces]

lemma EndsInStep.not_asksForDirectory (h : p.EndsInStep) : p.asksForDirectory = false := by
  have hlast : p.text.toList.reverse.dropWhile (· == '/') = p.text.toList.reverse := by
    cases hr : p.text.toList.reverse with
    | nil => rfl
    | cons c t =>
      refine List.dropWhile_cons_of_neg ?_
      rintro hc
      obtain rfl := beq_iff_eq.1 hc
      have ht : p.text.toList = t.reverse ++ ['/'] := by
        rw [← List.reverse_reverse p.text.toList, hr, List.reverse_cons]
      refine absurd ?_ (h.ne (t.reverse.splitOn '/'))
      unfold pieces
      rw [ht, List.splitOn_append_cons_self]
      simp
  have hp : p.withoutSlash = p := by
    unfold withoutSlash
    rw [hlast, List.reverse_reverse, String.ofList_toList]
  simp [asksForDirectory, hp]

lemma text_withoutSlash (p : Path) :
    ∃ k, p.text.toList = p.withoutSlash.text.toList ++ List.replicate k '/' := by
  obtain ⟨slashes, hs⟩ : ∃ l, p.text.toList.reverse.takeWhile (· == '/') = l := ⟨_, rfl⟩
  refine ⟨slashes.length, ?_⟩
  have hslash : slashes = List.replicate slashes.length '/' := by
    refine List.eq_replicate_length.2 fun c hc => ?_
    rw [← hs] at hc
    simpa using List.mem_takeWhile_imp (p := fun c => c == '/') hc
  have hboth := List.takeWhile_append_dropWhile (p := (· == '/')) (l := p.text.toList.reverse)
  rw [hs] at hboth
  have hsplit := congrArg List.reverse hboth
  rw [List.reverse_append, List.reverse_reverse, hslash, List.reverse_replicate] at hsplit
  rw [withoutSlash, String.toList_ofList]
  exact hsplit.symm

/-- Slashes at the end add nothing that counts. -/
lemma filter_splitOn_slashes (cs : List Char) (k : ℕ) :
    ((cs ++ List.replicate k '/').splitOn '/').filter (fun l => !isIdle l) =
      (cs.splitOn '/').filter fun l => !isIdle l := by
  induction k with
  | zero => simp
  | succ k ih =>
    rw [List.replicate_succ', ← List.append_assoc, List.splitOn_append_cons_self,
      List.filter_append, ih]
    simp [isIdle]

lemma steps_withoutSlash (p : Path) : p.withoutSlash.steps = p.steps := by
  obtain ⟨k, hk⟩ := text_withoutSlash p
  rw [steps_eq, steps_eq, pieces, pieces, hk, filter_splitOn_slashes]

lemma fileName?_of_no_steps (h : p.steps = []) : p.fileName? = none := by
  have hidle : ∀ l ∈ p.pieces, isIdle l = true := by
    rw [steps_eq, List.map_eq_nil_iff, List.filter_eq_nil_iff] at h
    simpa using h
  have hnone : p.pieces.filterMap componentOf? = [] := by
    rw [List.filterMap_eq_nil_iff]
    intro l hl
    rw [componentOf?, if_pos (hidle l hl)]
  unfold fileName? components
  rw [hnone, List.append_nil, start]
  split
  · rename_i n hn
    split at hn
    · cases hn
    · split at hn
      · cases hn
      · cases hn
  · rfl

/-- The last step, unless it leads up. -/
lemma fileName?_of_steps {a : List String} (hp : p.EndsInStep) (hs : p.steps = a ++ [n])
    (hup : n ≠ "..") : p.fileName? = some n := by
  obtain ⟨before, l, hb, hl⟩ := hp
  have hn : String.ofList l = n := by
    rw [steps_eq, hb, List.filter_append, List.map_append] at hs
    have hlast := (List.append_inj' hs (by simp [hl])).2
    simpa [hl] using hlast
  have hlup : l ≠ ['.', '.'] := by
    rintro rfl
    exact hup hn.symm
  have hcomponent : componentOf? l = some (.name n) := by
    rw [componentOf?, if_neg (by simp [hl]), if_neg hlup, hn]
  have hend : p.components = p.start ++ before.filterMap componentOf? ++ [.name n] := by
    rw [components, hb, List.filterMap_append, List.filterMap_cons_some hcomponent,
      List.filterMap_nil, List.append_assoc]
  rw [fileName?, hend, List.getLast?_concat]

lemma not_asksForDirectory_of_no_steps (h : p.steps = []) : p.asksForDirectory = false := by
  rw [← steps_withoutSlash] at h
  simp [asksForDirectory, fileName?_of_no_steps h]

/-- Every part of the way is that of an ancestor. -/
lemma exists_ancestor {b : List String} (hp : p.EndsInStep) (hb : b <+: p.steps)
    (hne : b ≠ p.steps) (hnil : b ≠ []) :
    ∃ a ∈ p.ancestors, a.steps = b ∧ a.EndsInStep ∧ a.isAbsolute = p.isAbsolute ∧
      a.text.toList <+: p.text.toList := by
  have hlength : p.steps.length ≤ p.pieces.length := by
    unfold steps names
    exact (List.length_filter_le _ _).trans_eq (List.length_map _)
  unfold ancestors
  generalize p.pieces.length = k at hlength
  induction k generalizing p with
  | zero =>
    rw [List.length_eq_zero_iff.1 (Nat.le_zero.1 hlength), List.prefix_nil] at hb
    exact absurd hb hnil
  | succ k ih =>
    obtain ⟨q, hq, hparent⟩ := exists_parent hp
    obtain ⟨last, hsteps⟩ := hparent.steps_concat
    have hbq : b <+: q.steps := by
      rw [hsteps, List.prefix_concat_iff] at hb
      exact hb.resolve_left fun h => hne (h.trans hsteps.symm)
    have hqends : q.EndsInStep := by
      refine hparent.ends.resolve_right fun hempty => hnil ?_
      rwa [hempty, List.prefix_nil] at hbq
    rw [ancestorsUpTo, hq]
    by_cases hbeq : b = q.steps
    · exact ⟨q, List.mem_cons_self, hbeq.symm, hqends, hparent.absolute, hparent.text_front⟩
    · rw [hsteps, List.length_append, List.length_singleton] at hlength
      obtain ⟨a, ha, has, haends, habs, hatext⟩ := ih hqends hbq hbeq (by omega)
      exact ⟨a, List.mem_cons_of_mem _ ha, has, haends, habs.trans hparent.absolute,
        hatext.trans hparent.text_front⟩

end ProviderGen.Path
