import ProviderGen.Project.Generate
import ProviderGen.Proofs.Disk.Making

/-!
Writing files under new names into a directory. If all of it succeeds, the files are there and
nothing else is different; and it succeeds if each path and each name is within its limit.
-/

namespace ProviderGen

open Disk (Fits Keeps At outcome nameLimit)
open Files (overwrite makeDirectories makeParent orRefused)
open Path (IsName)
open Template (Lines render)

namespace Disk

/-- A path that leads to a directory. -/
structure Holds (d : Disk) (f : Path) (q : Place) : Prop where
  valid : f.Valid
  ends : f.EndsInStep
  leads : d.Leads f q
  directory : d.hasDirectory q = true

variable {d d' : Disk} {f : Path} {q r : Place} {n : String}

lemma Holds.keeps (h : Holds d f q) (hk : Keeps d d') : Holds d' f q := by
  refine ⟨h.valid, h.ends, ?_, hk.hasDirectory h.directory⟩
  obtain ⟨links, hw⟩ := h.leads
  refine ⟨links, ?_⟩
  rw [hk.startOf]
  exact hw.keeps hk

lemma Holds.makeDirectories (h : Holds d f q) :
    Disk.perform (makeDirectories f) d = (.ok (), d) := by
  obtain ⟨links, hw⟩ := h.leads
  exact (makeDirectories_iff h.ends).2 ⟨h.valid, links, q, hw.makes, h.directory⟩

/-- A name in the directory. -/
lemma Holds.at (h : Holds d f q) (hn : IsName n) (hv : (f / n).Valid) :
    ∃ links, At d (f / n) n links q := by
  obtain ⟨links, hw⟩ := h.leads
  refine ⟨links, hv, hn.endsInStep_join, f.steps,
    Path.steps_join_name hn, ?_⟩
  have hstart : d.startOf (f / n) = d.startOf f := by
    rw [startOf, startOf, Path.isAbsolute_join hn.head?]
  rwa [hstart]

lemma At.write_eq {bytes : ByteArray} {links : ℕ} (h : At d f n links q) :
    d.write f bytes = (do
      match ← d.follow true links q [n] with
      | .free _ true => .error .isDirectory
      | .free r _ => .ok (d.set r (.file bytes))
      | .taken r =>
        if d.hasDirectory r then .error .isDirectory else .ok (d.set r (.file bytes))) := by
  unfold write target
  rw [if_neg (by simp [h.ends.not_asksForDirectory]), h.find]
  rcases d.follow true links q [n] with e | s
  · rfl
  · rcases s with r | ⟨r, b⟩
    · rfl
    · cases b <;> rfl

lemma Holds.write_iff {bytes : ByteArray} (h : Holds d f q) (hn : IsName n)
    (hfree : d.at? (q ++ [n]) = none) :
    d.write (f / n) bytes = .ok d' ↔
      (f / n).Valid ∧ Fits n ∧ d' = d.set (q ++ [n]) (.file bytes) := by
  by_cases hv : (f / n).Valid
  · obtain ⟨links, hat⟩ := h.at hn hv
    rw [hat.write_eq]
    by_cases hsize : nameLimit < n.utf8ByteSize
    · rw [follow_long h.directory (counts_iff.1 hn.counts) hn.notUp hsize]
      refine iff_of_false (by simp [bind, Except.bind]) fun hf => ?_
      exact absurd hf.2.1.size (not_le.2 hsize)
    · have hf : Fits n := ⟨counts_iff.1 hn.counts, hn.notUp, not_lt.1 hsize⟩
      rw [follow_absent h.directory hf hfree]
      simp [hv, hf, bind, Except.bind, eq_comm]
  · refine iff_of_false (fun hw => hv ?_) fun hf => hv hf.1
    obtain ⟨s, hs, -⟩ := bind_eq_ok.1 hw
    exact valid_of_find (target_ok hs).1

lemma Holds.overwrite_iff {text : String} (h : Holds d f q) (hn : IsName n)
    (hfree : d.at? (q ++ [n]) = none) :
    outcome (overwrite (f / n) text) d = (.ok (), d') ↔
      (f / n).Valid ∧ Fits n ∧ d' = d.set (q ++ [n]) (.file text.toUTF8) := by
  have hparent : outcome (makeParent (f / n)) d = (.ok (), d) := by
    unfold makeParent
    rw [Path.parent?_join_name h.ends hn]
    exact outcome_orRefused_ok.2 h.makeDirectories
  have hwrite : outcome (orRefused (f / n) (Files.write (f / n) text.toUTF8)) d =
      outcome (orRefused (f / n) (change (·.write (f / n) text.toUTF8))) d := rfl
  rw [overwrite, outcome_bind, hparent]
  dsimp only
  rw [hwrite, outcome_change, ← h.write_iff hn hfree]
  cases d.write (f / n) text.toUTF8 <;> simp

/-- The disk with these files in a directory. -/
def fill (d : Disk) (q : Place) (files : List (String × Lines)) : Disk :=
  files.foldl (fun d f => d.set (q ++ [f.1]) (.file (render f.2).toUTF8)) d

variable {files : List (String × Lines)}

@[simp] lemma here_fill (d : Disk) (q : Place) (files : List (String × Lines)) :
    (d.fill q files).here = d.here := by
  induction files generalizing d with
  | nil => rfl
  | cons x files ih => exact ih _

lemma at?_fill_of_ne (h : ∀ x ∈ files, r ≠ q ++ [x.1]) : (d.fill q files).at? r = d.at? r := by
  induction files generalizing d with
  | nil => rfl
  | cons x files ih =>
    rw [List.forall_mem_cons] at h
    have := ih h.2 (d := d.set (q ++ [x.1]) (.file (render x.2).toUTF8))
    rw [at?_set_concat, if_neg h.1] at this
    exact this

lemma at?_fill_new (hnodup : (files.map Prod.fst).Nodup) {x : String × Lines} (hx : x ∈ files) :
    (d.fill q files).at? (q ++ [x.1]) = some (.file (render x.2).toUTF8) := by
  induction files generalizing d with
  | nil => cases hx
  | cons y files ih =>
    rw [List.map_cons, List.nodup_cons] at hnodup
    rcases List.mem_cons.1 hx with rfl | hx
    · have hrest : ∀ z ∈ files, q ++ [x.1] ≠ q ++ [z.1] := by
        intro z hz e
        have hname : x.1 = z.1 := by simpa using e
        exact hnodup.1 (List.mem_map.2 ⟨z, hz, hname.symm⟩)
      have := at?_fill_of_ne hrest (d := d.set (q ++ [x.1]) (.file (render x.2).toUTF8))
      rw [at?_set_concat, if_pos rfl] at this
      exact this
    · exact ih hnodup.2 hx

lemma extends_fill (hfree : ∀ x ∈ files, d.at? (q ++ [x.1]) = none) :
    Extends d (d.fill q files) := by
  refine ⟨here_fill d q files, fun {r e} he => ?_⟩
  rw [at?_fill_of_ne, he]
  rintro x hx rfl
  rw [hfree x hx] at he
  cases he

lemma sound_fill (hd : d.Sound) (hq : d.hasDirectory q = true) (hn : ∀ x ∈ files, IsName x.1)
    (hfree : ∀ x ∈ files, d.hasDirectory (q ++ [x.1]) = false) : (d.fill q files).Sound := by
  induction files generalizing d with
  | nil => exact hd
  | cons x files ih =>
    rw [List.forall_mem_cons] at hn hfree
    refine ih (hd.set hq hn.1 hfree.1) ?_ hn.2 fun y hy => ?_
    · rw [hasDirectory_iff, at?_set_concat, if_neg (by simp)]
      exact hasDirectory_iff.1 hq
    · rw [← Bool.not_eq_true, hasDirectory_iff, at?_set_concat]
      split
      · simp
      · rw [← hasDirectory_iff, hfree.2 y hy]
        simp

end Disk

namespace Project

variable {d d' : Disk} {f : Path} {q : Place} {files : List (String × Lines)} {written : List Path}

lemma emit_iff {x : String × Lines} {g : Path} (h : Disk.Holds d f q) (hn : IsName x.1)
    (hfree : d.at? (q ++ [x.1]) = none) :
    outcome (emit f x) d = (.ok g, d') ↔ ((f / x.1).Valid ∧ Fits x.1) ∧ g = f / x.1 ∧
      d' = d.set (q ++ [x.1]) (.file (render x.2).toUTF8) := by
  unfold emit
  rw [Disk.outcome_bind_ok]
  refine ⟨fun ⟨u, d₁, hw, hp⟩ => ?_, fun ⟨⟨hv, hf⟩, hg, hd⟩ => ?_⟩
  · obtain ⟨hg, rfl⟩ := Prod.mk.inj hp
    obtain rfl := Except.ok.inj hg
    obtain ⟨hv, hf, hd⟩ := (h.overwrite_iff hn hfree).1 hw
    exact ⟨⟨hv, hf⟩, rfl, hd⟩
  · exact ⟨(), d', (h.overwrite_iff hn hfree).2 ⟨hv, hf, hd⟩, by rw [hg]; rfl⟩

/-- **All files are written, or one of them is out of bounds.** -/
lemma emitAll_iff (h : Disk.Holds d f q) (hnodup : (files.map Prod.fst).Nodup)
    (hnames : ∀ x ∈ files, IsName x.1) (hfree : ∀ x ∈ files, d.at? (q ++ [x.1]) = none) :
    outcome (files.mapM (emit f)) d = (.ok written, d') ↔
      (∀ x ∈ files, (f / x.1).Valid ∧ Fits x.1) ∧ written = files.map (fun x => f / x.1) ∧
        d' = d.fill q files := by
  induction files generalizing d written with
  | nil =>
    rw [List.mapM_nil, Disk.outcome_pure]
    simp [Disk.fill, eq_comm]
  | cons x files ih =>
    rw [List.map_cons, List.nodup_cons] at hnodup
    rw [List.forall_mem_cons] at hnames hfree
    have hput : Disk.Puts d (.file (render x.2).toUTF8) q x.1 :=
      ⟨h.directory, hnames.1, Or.inl hfree.1⟩
    have hrest : ∀ y ∈ files, (d.set (q ++ [x.1]) (.file (render x.2).toUTF8)).at? (q ++ [y.1]) =
        none := by
      intro y hy
      rw [Disk.at?_set_concat, if_neg ?_]
      · exact hfree.2 y hy
      · intro e
        have hname : y.1 = x.1 := by simpa using e
        exact hnodup.1 (List.mem_map.2 ⟨y, hy, hname⟩)
    rw [List.mapM_cons, Disk.outcome_bind_ok, List.forall_mem_cons]
    refine ⟨fun ⟨g, d₁, hx, hr⟩ => ?_, fun ⟨⟨hx, hr⟩, hw, hd⟩ => ?_⟩
    · obtain ⟨hfx, rfl, rfl⟩ := (emit_iff h hnames.1 hfree.1).1 hx
      obtain ⟨gs, d₂, hgs, hp⟩ := Disk.outcome_bind_ok.1 hr
      obtain ⟨hg, rfl⟩ := Prod.mk.inj hp
      obtain rfl := Except.ok.inj hg
      obtain ⟨hall, rfl, hd⟩ := (ih (h.keeps hput.keeps) hnodup.2 hnames.2 hrest).1 hgs
      exact ⟨⟨hfx, hall⟩, rfl, hd⟩
    · refine ⟨_, _, (emit_iff h hnames.1 hfree.1).2 ⟨hx, rfl, rfl⟩, ?_⟩
      refine Disk.outcome_bind_ok.2 ⟨_, d', ?_, by rw [hw]; rfl⟩
      exact (ih (h.keeps hput.keeps) hnodup.2 hnames.2 hrest).2 ⟨hr, rfl, hd⟩

end Project

end ProviderGen
