import ProviderGen.Proofs.Archive.Assembly
import ProviderGen.Proofs.Disk.Making
import ProviderGen.Proofs.Disk.Walk

/-!
Absolute paths. The absolute path of a place spells the names that lead there from the top, so
one place is below another if its path is below the path of the other. Such a path leads back to
its place as long as it is not too long to be asked for.
-/

namespace ProviderGen.Disk

open Path (IsName)

/-- The path of a place from the top. -/
def absolute (q : Place) : Path := ⟨"/" ++ "/".intercalate q⟩

/-- The absolute path of a place can be asked for. -/
structure Askable (q : Place) : Prop where
  valid : (absolute q).Valid
  fits : ∀ n ∈ q, Fits n

instance (q : Place) : Decidable (Askable q) :=
  decidable_of_iff ((absolute q).Valid ∧ ∀ n ∈ q, Fits n)
    ⟨fun h => ⟨h.1, h.2⟩, fun h => ⟨h.valid, h.fits⟩⟩

variable {d : Disk} {f g : Path} {q r : Place} {n : String}

lemma canonical_iff : d.canonical f = .ok g ↔ ∃ q, d.locate true f = .ok q ∧ g = absolute q := by
  rw [canonical, bind_eq_ok]
  refine exists_congr fun q => and_congr_right fun _ => ?_
  rw [Except.ok.injEq]
  exact eq_comm

lemma pieces_absolute (hq : ∀ n ∈ q, IsName n) (hne : q ≠ []) :
    (absolute q).pieces = [] :: q.map String.toList := by
  have htext : (absolute q).text.toList = ['/'].intercalate ([] :: q.map String.toList) := by
    cases q with
    | nil => exact absurd rfl hne
    | cons n q =>
      rw [List.map_cons, List.intercalate_cons_cons, absolute, String.toList_append,
        String.toList_intercalate]
      rfl
  have hslash : ∀ l ∈ [] :: q.map String.toList, '/' ∉ l := by
    rw [List.forall_mem_cons, List.forall_mem_map]
    exact ⟨by simp, fun n hn => (hq n hn).noSlash⟩
  rw [Path.pieces, htext]
  exact List.splitOn_intercalate '/' hslash (by simp)

lemma absolute_concat (hq : ∀ n ∈ q, IsName n) (hn : IsName n) :
    absolute (q ++ [n]) = absolute q / n := by
  have hall : ∀ m ∈ q ++ [n], IsName m := by simpa [or_imp, forall_and] using ⟨hq, hn⟩
  refine Path.eq_of_pieces ?_
  rw [pieces_absolute hall (by simp)]
  cases q using List.reverseRecOn with
  | nil =>
    -- the path of the top ends in a slash already
    have htop : (absolute [] / n).text.toList = '/' :: n.toList := Path.join_eq hn.head?
    have hsplit := List.splitOn_append_cons_self (a := '/') [] n.toList
    rw [List.nil_append, List.splitOn_nil] at hsplit
    rw [Path.pieces, htop, hsplit, List.splitOn_eq_singleton hn.noSlash]
    rfl
  | append_singleton q m =>
    have hpieces := pieces_absolute hq (by simp)
    have hends : (absolute (q ++ [m])).EndsInStep := by
      refine ⟨[] :: q.map String.toList, m.toList, ?_, (hq m (by simp)).counts⟩
      rw [hpieces, List.map_append, List.cons_append]
      rfl
    rw [Path.pieces_join_name hends hn, hpieces, List.map_append, List.cons_append]
    rfl

/-- The path of what is below a place continues the path of the place. -/
lemma absolute_append (h : ∀ n ∈ q ++ r, IsName n) :
    absolute (q ++ r) = r.foldl (· / ·) (absolute q) := by
  induction r using List.reverseRecOn with
  | nil => rw [List.append_nil, List.foldl_nil]
  | append_singleton r n ih =>
    rw [← List.append_assoc] at h ⊢
    rw [List.forall_mem_append] at h
    rw [absolute_concat h.1 (h.2 n (List.mem_singleton_self n)), ih h.1, List.foldl_append]
    rfl

lemma isSome_below?_absolute (h : ∀ n ∈ q ++ r, IsName n) :
    ((absolute (q ++ r)).below? (absolute q)).isSome = true := by
  rw [absolute_append h, Path.below?_foldl (List.forall_mem_append.1 h).2]
  rfl

lemma Askable.front (h : Askable (q ++ r)) (hn : ∀ n ∈ q ++ r, IsName n) : Askable q := by
  have hfront : (absolute q).text.toList <+: (absolute (q ++ r)).text.toList := by
    rw [absolute_append hn]
    exact Path.text_front_foldl (List.forall_mem_append.1 hn).2
  have hne : (absolute q).text ≠ "" := by
    simp [absolute]
  exact ⟨h.valid.of_front hfront hne, (List.forall_mem_append.1 h.fits).1⟩

/-- A path without steps stays where it starts. -/
lemma locate_of_no_steps {last : Bool} (hv : f.Valid) (hs : f.steps = [])
    (hdir : d.hasDirectory (d.startOf f) = true) : d.locate last f = .ok (d.startOf f) := by
  have hidle : ∀ n ∈ f.names, Path.isIdle n.toList = true := by
    simpa [Path.steps, List.filter_eq_nil_iff] using hs
  rw [locate, find_eq hv, follow_of_idle hdir hidle]

/-- The absolute path of a directory leads to it. -/
lemma isDirectory_absolute (hd : d.Sound) (ha : Askable q) (hq : d.hasDirectory q = true) :
    d.isDirectory (absolute q) = true := by
  have hat := hasDirectory_iff.1 hq
  have hnames : ∀ n ∈ q, IsName n := fun n hn => hd.isName_of_mem (q := []) hat hn
  refine isDirectory_iff.2 ⟨q, ?_, hq⟩
  have hfold : absolute q = q.foldl (· / ·) (absolute []) := absolute_append (q := []) hnames
  have hsteps : (absolute q).steps = q := by
    rw [hfold, Path.steps_foldl hnames]
    rfl
  have hstart : d.startOf (absolute q) = [] := by
    rw [startOf, hfold, Path.isAbsolute_foldl hnames]
    rfl
  cases q with
  -- the path of the top has no step to end in
  | nil => exact locate_of_no_steps ha.valid hsteps rfl
  | cons n q =>
    have hends : (absolute (n :: q)).EndsInStep := by
      rw [hfold]
      exact Path.endsInStep_foldl (by simp) hnames
    have hplace : d.locate true (absolute (n :: q)) = .ok _ :=
      hd.locate_of_at? (e := .directory) ha.valid hends (by rw [hsteps]; exact ha.fits)
        (by rw [hstart, hsteps]; exact hat) (by simp)
    rw [hplace, hstart, hsteps]
    rfl

end ProviderGen.Disk
