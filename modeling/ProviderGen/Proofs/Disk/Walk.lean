import ProviderGen.Proofs.Disk.Sound
import ProviderGen.Proofs.Text.Order
import Mathlib.Algebra.Order.BigOperators.Group.List
import Mathlib.Data.Finset.Sort

/-!
Walking through a directory. What is found is told the way one would go through the tree: name
by name in the order of their bytes, into each directory when it is met. Links are told like files.
This is the sorted list of the places of all that is no directory, and there is one for each tree.
-/

namespace ProviderGen.Disk

open Path (IsName)

/-- The names in a directory, in the order of their bytes. -/
structure NamesAt (d : Disk) (q : Place) (names : List String) : Prop where
  sorted : names.Pairwise fun a b => Text.bytes a < Text.bytes b
  all : ∀ n, n ∈ names ↔ ∃ e, d.at? (q ++ [n]) = some e

/-- What a walk through the entries of these names tells, depth first. -/
inductive Walked (d : Disk) : Place → List String → List Place → Prop where
  | done {q} : Walked d q [] []
  | leaf {q n names ls e} (he : d.at? (q ++ [n]) = some e) (hl : e.isDirectory = false)
      (rest : Walked d q names ls) : Walked d q (n :: names) ([n] :: ls)
  | tree {q n names ls inner below} (he : d.hasDirectory (q ++ [n]) = true)
      (hn : NamesAt d (q ++ [n]) inner) (hw : Walked d (q ++ [n]) inner below)
      (rest : Walked d q names ls) : Walked d q (n :: names) (below.map (n :: ·) ++ ls)

/-- What a walk through a directory tells. -/
def Listed (d : Disk) (q : Place) (ls : List Place) : Prop :=
  ∃ names, NamesAt d q names ∧ Walked d q names ls

variable {d : Disk} {p q r : Place} {names : List String} {ls : List Place} {n : String}
  {e : Entry}

/-! ### What is told -/

/-- What lies deeper lies in something. -/
lemma Sound.exists_at? {s : Place} (hd : d.Sound) (h : d.at? (q ++ n :: s) = some e) :
    ∃ e', d.at? (q ++ [n]) = some e' := by
  cases s with
  | nil => exact ⟨e, h⟩
  | cons m s =>
    have hsplit : q ++ n :: m :: s = q ++ [n] ++ (m :: s) := by simp
    rw [hsplit] at h
    exact ⟨_, hasDirectory_iff.1 (hd.hasDirectory_above h (by simp))⟩

/-- Each name on the way to something is one that entries can have. -/
lemma Sound.isName_of_mem (hd : d.Sound) (h : d.at? (q ++ r) = some e) (hn : n ∈ r) :
    IsName n := by
  obtain ⟨s, t, rfl⟩ := List.append_of_mem hn
  rw [← List.append_assoc] at h
  obtain ⟨e', he'⟩ := hd.exists_at? h
  exact hd.named he'

/-- The names below a place lead to what is there, unless it is a link. -/
lemma Sound.eq_of_way {links links' : ℕ} {x : Place} (hd : d.Sound)
    (h : d.at? (q ++ r) = some e) (hl : ∀ t, e ≠ .link t) (hw : Way d links q r links' x) :
    x = q ++ r := by
  induction r generalizing q with
  | nil =>
    cases hw
    rw [List.append_nil]
  | cons n r ih =>
    have hn := hd.isName_of_mem h List.mem_cons_self
    have hsplit : q ++ n :: r = q ++ [n] ++ r := by simp
    rw [hsplit] at h ⊢
    cases hw with
    | idle _ hidle _ => exact absurd hidle (not_or.2 (counts_iff.1 hn.counts))
    | up => exact absurd rfl hn.notUp
    | enter _ _ _ _ hw => exact ih h hw
    | @link _ _ _ _ _ _ t _ _ he _ =>
      cases r with
      | nil =>
        rw [List.append_nil, he] at h
        exact absurd (Option.some.inj h).symm (hl t)
      | cons m r =>
        have hdir := hasDirectory_iff.1 (hd.hasDirectory_above h (by simp))
        rw [he] at hdir
        cases hdir

lemma Walked.mem_iff (hd : d.Sound) (h : Walked d q names ls) :
    r ∈ ls ↔ ∃ n ∈ names, ∃ s, r = n :: s ∧ ∃ e, d.at? (q ++ r) = some e ∧
      e.isDirectory = false := by
  induction h generalizing r with
  | done => simp
  | @leaf q n names ls e he hl rest ih =>
    rw [List.mem_cons, ih]
    refine ⟨?_, ?_⟩
    · rintro (rfl | ⟨m, hm, s, rfl, hs⟩)
      · exact ⟨n, List.mem_cons_self, [], rfl, e, he, hl⟩
      · exact ⟨m, List.mem_cons_of_mem _ hm, s, rfl, hs⟩
    · rintro ⟨m, hm, s, rfl, g, hg, hdir⟩
      rcases List.mem_cons.1 hm with rfl | hm
      · cases s with
        | nil => exact Or.inl rfl
        | cons k s =>
          have hsplit : q ++ m :: k :: s = q ++ [m] ++ (k :: s) := by simp
          rw [hsplit] at hg
          have hin := hasDirectory_iff.1 (hd.hasDirectory_above hg (by simp))
          rw [he] at hin
          rw [Option.some.inj hin] at hl
          cases hl
      · exact Or.inr ⟨m, hm, s, rfl, g, hg, hdir⟩
  | @tree q n names ls inner below he hn hw rest ihw ih =>
    have hin (s : Place) : s ∈ below ↔ ∃ e, d.at? (q ++ n :: s) = some e ∧
        e.isDirectory = false := by
      have hsplit : q ++ n :: s = q ++ [n] ++ s := by simp
      rw [ihw, hsplit]
      refine ⟨fun ⟨_, _, _, _, h⟩ => h, fun ⟨g, hg, hdir⟩ => ?_⟩
      cases s with
      | nil =>
        rw [List.append_nil, hasDirectory_iff.1 he] at hg
        rw [← Option.some.inj hg] at hdir
        cases hdir
      | cons k s =>
        exact ⟨k, (hn.all k).2 (hd.exists_at? hg), s, rfl, g, hg, hdir⟩
    rw [List.mem_append, List.mem_map, ih]
    refine ⟨?_, ?_⟩
    · rintro (⟨s, hs, rfl⟩ | ⟨m, hm, s, rfl, hs⟩)
      · exact ⟨n, List.mem_cons_self, s, rfl, (hin s).1 hs⟩
      · exact ⟨m, List.mem_cons_of_mem _ hm, s, rfl, hs⟩
    · rintro ⟨m, hm, s, rfl, hs⟩
      rcases List.mem_cons.1 hm with rfl | hm
      · exact Or.inl ⟨s, (hin s).2 hs, rfl⟩
      · exact Or.inr ⟨m, hm, s, rfl, hs⟩

/-- **All that is no directory is told, and nothing else.** -/
lemma Listed.mem_iff (hd : d.Sound) (h : d.Listed q ls) :
    r ∈ ls ↔ r ≠ [] ∧ ∃ e, d.at? (q ++ r) = some e ∧ e.isDirectory = false := by
  obtain ⟨names, hn, hw⟩ := h
  rw [hw.mem_iff hd]
  refine ⟨fun ⟨n, _, s, hr, he⟩ => ⟨by simp [hr], he⟩, fun ⟨hr, e, he, hl⟩ => ?_⟩
  obtain ⟨n, s, rfl⟩ := List.exists_cons_of_ne_nil hr
  exact ⟨n, (hn.all n).2 (hd.exists_at? he), s, rfl, e, he, hl⟩

lemma Walked.sorted (hn : names.Pairwise fun a b => Text.bytes a < Text.bytes b)
    (h : Walked d q names ls) :
    ls.Pairwise (· < ·) ∧ ∀ r ∈ ls, ∃ n ∈ names, ∃ s, r = n :: s := by
  induction h with
  | done => simp
  | @leaf q n names ls e he hl rest ih =>
    rw [List.pairwise_cons] at hn
    obtain ⟨hsorted, hhead⟩ := ih hn.2
    refine ⟨List.pairwise_cons.2 ⟨fun r hr => ?_, hsorted⟩, fun r hr => ?_⟩
    · obtain ⟨m, hm, s, rfl⟩ := hhead r hr
      exact List.cons_lt_cons_iff.2 (Or.inl (Text.lt_iff_bytes_lt.2 (hn.1 m hm)))
    · rcases List.mem_cons.1 hr with rfl | hr
      · exact ⟨n, List.mem_cons_self, [], rfl⟩
      · obtain ⟨m, hm, s, rfl⟩ := hhead r hr
        exact ⟨m, List.mem_cons_of_mem _ hm, s, rfl⟩
  | @tree q n names ls inner below he hin hw rest ihw ih =>
    rw [List.pairwise_cons] at hn
    obtain ⟨hsorted, hhead⟩ := ih hn.2
    obtain ⟨hinner, -⟩ := ihw hin.sorted
    refine ⟨List.pairwise_append.2 ⟨?_, hsorted, fun a ha b hb => ?_⟩, fun r hr => ?_⟩
    · rw [List.pairwise_map]
      exact hinner.imp fun h => List.cons_lt_cons_iff.2 (Or.inr ⟨rfl, h⟩)
    · obtain ⟨s, -, rfl⟩ := List.mem_map.1 ha
      obtain ⟨m, hm, t, rfl⟩ := hhead b hb
      exact List.cons_lt_cons_iff.2 (Or.inl (Text.lt_iff_bytes_lt.2 (hn.1 m hm)))
    · rcases List.mem_append.1 hr with hr | hr
      · obtain ⟨s, -, rfl⟩ := List.mem_map.1 hr
        exact ⟨n, List.mem_cons_self, s, rfl⟩
      · obtain ⟨m, hm, s, rfl⟩ := hhead r hr
        exact ⟨m, List.mem_cons_of_mem _ hm, s, rfl⟩

lemma Listed.sorted (h : d.Listed q ls) : ls.Pairwise (· < ·) := by
  obtain ⟨names, hn, hw⟩ := h
  exact (hw.sorted hn.sorted).1

lemma Listed.nodup (h : d.Listed q ls) : ls.Nodup :=
  h.sorted.imp fun hlt he => by
    subst he
    exact List.lt_irrefl _ hlt

/-! ### Each directory has a listing -/

lemma mem_below (hd : d.Sound) : (r, e) ∈ d.below q ↔ r ≠ [] ∧ d.at? (q ++ r) = some e := by
  unfold below
  rw [List.mem_filterMap]
  refine ⟨?_, fun ⟨hr, he⟩ => ?_⟩
  · rintro ⟨⟨t, g⟩, hmem, h⟩
    simp only [Option.ite_none_right_eq_some, Bool.and_eq_true, List.isPrefixOf_iff_prefix,
      bne_iff_ne, ne_eq, Option.some.injEq, Prod.mk.injEq] at h
    obtain ⟨⟨⟨s, rfl⟩, hne⟩, hr, rfl⟩ := h
    rw [List.drop_left] at hr
    subst hr
    have hs : s ≠ [] := fun h => hne (by rw [h, List.append_nil])
    exact ⟨hs, at?_of_mem hd hmem (by simp [hs])⟩
  · refine ⟨(q ++ r, e), mem_of_at? he (by simp [hr]), ?_⟩
    simp [hr]

lemma mem_namesIn (hd : d.Sound) : n ∈ d.namesIn q ↔ ∃ e, d.at? (q ++ [n]) = some e := by
  unfold namesIn
  rw [List.mem_filterMap]
  refine ⟨?_, fun ⟨e, he⟩ => ⟨([n], e), (mem_below hd).2 ⟨by simp, he⟩, rfl⟩⟩
  rintro ⟨⟨t, g⟩, hmem, h⟩
  split at h
  · rename_i m ht
    obtain rfl := Option.some.inj h
    simp only at ht
    subst ht
    exact ⟨g, ((mem_below hd).1 hmem).2⟩
  · cases h

lemma exists_namesAt (hd : d.Sound) (q : Place) : ∃ names, NamesAt d q names := by
  refine ⟨(d.namesIn q).toFinset.sort (· ≤ ·), ?_, fun n => ?_⟩
  · exact (Finset.sortedLT_sort _).pairwise.imp fun h => Text.lt_iff_bytes_lt.1 h
  · rw [Finset.mem_sort, List.mem_toFinset, mem_namesIn hd]

/-- No place is deeper than the deepest. -/
lemma exists_deepest (d : Disk) : ∃ k, ∀ q e, d.at? q = some e → q.length ≤ k := by
  refine ⟨(d.entries.map fun x => x.1.length).sum, fun q e h => ?_⟩
  by_cases hq : q = []
  · simp [hq]
  · exact List.le_sum_of_mem (List.mem_map.2 ⟨(q, e), mem_of_at? h hq, rfl⟩)

/-- **Each directory has a listing.** -/
theorem exists_listed (hd : d.Sound) (q : Place) : ∃ ls, d.Listed q ls := by
  obtain ⟨k, hk⟩ := d.exists_deepest
  generalize hm : k + 1 - q.length = m
  induction m using Nat.strong_induction_on generalizing q with
  | _ m ih =>
    obtain ⟨names, hnames⟩ := exists_namesAt hd q
    have hall : ∀ n ∈ names, ∃ e, d.at? (q ++ [n]) = some e := fun n hn => (hnames.all n).1 hn
    suffices h : ∀ ns : List String, (∀ n ∈ ns, ∃ e, d.at? (q ++ [n]) = some e) →
        ∃ ls, Walked d q ns ls by
      obtain ⟨ls, hls⟩ := h names hall
      exact ⟨ls, names, hnames, hls⟩
    intro ns hns
    induction ns with
    | nil => exact ⟨[], .done⟩
    | cons n ns ihns =>
      rw [List.forall_mem_cons] at hns
      obtain ⟨e, he⟩ := hns.1
      obtain ⟨ls, hls⟩ := ihns hns.2
      cases hdir : e.isDirectory with
      | false => exact ⟨_, .leaf he hdir hls⟩
      | true =>
        have hlength := hk _ _ he
        rw [List.length_append, List.length_singleton] at hlength
        obtain ⟨below, inner, hinner, hwalked⟩ := ih (k + 1 - (q ++ [n]).length)
          (by rw [List.length_append, List.length_singleton]; omega) (q ++ [n]) rfl
        refine ⟨_, .tree ?_ hinner hwalked hls⟩
        rw [hasDirectory, he]
        exact hdir

/-! ### The walk -/

lemma before_iff : before p q = true ↔ ¬ q < p := by
  induction p generalizing q with
  | nil => simp [before]
  | cons a p ih =>
    cases q with
    | nil => simp [before]
    | cons b q =>
      rw [before, List.cons_lt_cons_iff, Bool.or_eq_true, Bool.and_eq_true, ih, beq_iff_eq,
        decide_eq_true_eq]
      rcases lt_trichotomy a b with h | rfl | h
      · simp [h, h.ne', h.not_gt]
      · simp
      · simp [h, h.ne', h.not_gt]

lemma pairwise_mergeSort_before (ls : List Place) :
    (ls.mergeSort before).Pairwise fun a b => before a b = true := by
  refine List.pairwise_mergeSort (fun a b c hab hbc => ?_) (fun a b => ?_) ls
  · rw [before_iff] at *
    exact fun hca => hab (List.lt_of_le_of_lt hbc hca)
  · rw [Bool.or_eq_true, before_iff, before_iff]
    by_contra h
    rw [not_or, not_not, not_not] at h
    exact List.lt_asymm h.1 h.2

/-- The places of all that is no directory. -/
def leaves (d : Disk) (q : Place) : List Place :=
  ((d.below q).filter fun e => !e.2.isDirectory).map Prod.fst

lemma mem_leaves (hd : d.Sound) :
    r ∈ d.leaves q ↔ r ≠ [] ∧ ∃ e, d.at? (q ++ r) = some e ∧ e.isDirectory = false := by
  unfold leaves
  rw [List.mem_map]
  refine ⟨?_, fun ⟨hr, e, he, hl⟩ => ⟨(r, e), ?_, rfl⟩⟩
  · rintro ⟨⟨t, e⟩, hmem, rfl⟩
    obtain ⟨hbelow, hl⟩ := List.mem_filter.1 hmem
    obtain ⟨hr, he⟩ := (mem_below hd).1 hbelow
    exact ⟨hr, e, he, by simpa using hl⟩
  · exact List.mem_filter.2 ⟨(mem_below hd).2 ⟨hr, he⟩, by simp [hl]⟩

lemma below_nodup (hd : d.Sound) (q : Place) : ((d.below q).map Prod.fst).Nodup := by
  have hdistinct := List.pairwise_map.1 hd.distinct
  unfold below List.Nodup
  rw [List.pairwise_map, List.pairwise_filterMap]
  refine hdistinct.imp fun {x y} hne a ha b hb he => hne ?_
  simp only [Option.ite_none_right_eq_some, Bool.and_eq_true, List.isPrefixOf_iff_prefix,
    Option.some.injEq] at ha hb
  obtain ⟨⟨⟨s, hs⟩, -⟩, rfl⟩ := ha
  obtain ⟨⟨⟨t, ht⟩, -⟩, rfl⟩ := hb
  rw [← hs, ← ht, List.drop_left, List.drop_left] at he
  rw [← hs, ← ht, show s = t from he]

lemma leaves_nodup (hd : d.Sound) (q : Place) : (d.leaves q).Nodup :=
  (below_nodup hd q).sublist (List.Sublist.map _ List.filter_sublist)

/-- A name stands in its directory once. -/
lemma namesIn_nodup (hd : d.Sound) (q : Place) : (d.namesIn q).Nodup := by
  unfold namesIn List.Nodup
  rw [List.pairwise_filterMap]
  refine (List.pairwise_map.1 (below_nodup hd q)).imp fun {x y} hne m hm m' hm' he => hne ?_
  split at hm
  · rename_i name hx
    split at hm'
    · rename_i name' hy
      rw [hx, hy, Option.some.inj hm, Option.some.inj hm', he]
    · cases hm'
  · cases hm

lemma Listed.mergeSort_leaves (hd : d.Sound) (h : d.Listed q ls) :
    (d.leaves q).mergeSort before = ls := by
  have hperm : ((d.leaves q).mergeSort before).Perm ls := by
    refine (List.mergeSort_perm _ _).trans ((List.perm_ext_iff_of_nodup (leaves_nodup hd q)
      h.nodup).2 fun r => ?_)
    rw [mem_leaves hd, h.mem_iff hd]
  refine hperm.eq_of_pairwise (fun a b _ _ hab hba => ?_) (pairwise_mergeSort_before _)
    (h.sorted.imp fun hlt => before_iff.2 (List.lt_asymm hlt))
  rw [before_iff] at hab hba
  exact List.le_antisymm hab hba

/-- A directory with one file, however deep it lies. -/
lemma Listed.eq_of_leaves (hd : d.Sound) (h : d.Listed q ls) (hl : d.leaves q = [r]) :
    ls = [r] := by
  rw [← h.mergeSort_leaves hd, hl, List.mergeSort_singleton]

/-- **The walk through a directory tells its listing.** A path that is a link to a directory is
told in front of it. -/
theorem walk_eq {f : Path} {start : Place} (hd : d.Sound) (hs : d.locate false f = .ok start)
    (hq : d.locate true f = .ok q) (h : d.Listed q ls) :
    d.walk f = .ok (if d.hasDirectory start then ls.map fun r => r.foldl (· / ·) f
      else f :: ls.map fun r => r.foldl (· / ·) f) := by
  unfold walk
  rw [hs, hq]
  have hsorted := h.mergeSort_leaves hd
  unfold leaves at hsorted
  simp only [bind, Except.bind, hsorted]

end ProviderGen.Disk
