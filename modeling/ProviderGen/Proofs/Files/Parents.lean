import ProviderGen.Proofs.Disk.Absolute
import ProviderGen.Proofs.Files.Again

/-!
The parent directories of a path. Making them adds directories above the path and changes nothing
besides, whether it succeeds or not. They are there already where the path leads to something; and
making them brings nothing to the path itself, unless it goes up again behind one that was missing.
-/

namespace ProviderGen

namespace Path

variable {p q : Path} {n : ℕ}

/-- The second path is the parent of the first, or is above that. -/
def Above : Path → Path → Prop := Relation.TransGen fun p q => p.parent? = some q

lemma above_of_mem_ancestorsUpTo (h : q ∈ ancestorsUpTo n p) : p.Above q := by
  induction n generalizing p with
  | zero => cases h
  | succ n ih =>
    unfold ancestorsUpTo at h
    split at h
    · cases h
    · rename_i r hr
      rcases List.mem_cons.1 h with rfl | h
      · exact .single hr
      · exact .head hr (ih h)

lemma ends_ofPieces {ps : List (List Char)} (hs : ∀ l ∈ ps, '/' ∉ l) (hn : ps ≠ [])
    (h : (∃ b l, ps = b ++ [l] ∧ isIdle l = false) ∨ (ps.filter fun l => !isIdle l) = []) :
    (ofPieces ps).EndsInStep ∨ (ofPieces ps).steps = [] := by
  have hps := pieces_ofPieces hs hn
  rw [EndsInStep, steps_eq, hps]
  exact h.imp_right fun h => by rw [h]; rfl

/-- Whatever a path looks like, its parent does not end in an idle piece, or has no steps. -/
lemma ends_of_parent? (h : p.parent? = some q) : q.EndsInStep ∨ q.steps = [] := by
  have hfront (ps : List (List Char)) : parentPieces ps <+: ps := by
    have hfirst := withoutIdleEnd_prefix ps
    have hlast := withoutIdleEnd_prefix (withoutIdleEnd ps).dropLast
    exact hlast.trans ((List.dropLast_prefix _).trans hfirst)
  have hends (ps : List (List Char)) := withoutIdleEnd_eq_nil_or (withoutIdleEnd ps).dropLast
  have hslash {b : List Char} {rest : List (List Char)} (hp : p.pieces = b :: rest) :
      ∀ l ∈ b :: parentPieces rest, '/' ∉ l := by
    refine fun l hl => noSlash_of_mem_pieces (p := p) ?_
    rw [hp]
    exact (List.cons_prefix_cons.2 ⟨rfl, hfront rest⟩).subset hl
  unfold parent? at h
  split at h
  · cases h
  · rename_i rest hp
    split at h
    · cases h
    · obtain rfl := Option.some.inj h
      split
      · exact Or.inr rfl
      · exact ends_ofPieces (hslash hp) (by simp) (ends_cons rfl (hends rest))
  · rename_i rest hp
    split at h
    · obtain rfl := Option.some.inj h
      exact Or.inr rfl
    · obtain rfl := Option.some.inj h
      exact ends_ofPieces (hslash hp) (by simp) (ends_cons rfl (hends rest))
  · obtain rfl := Option.some.inj h
    cases hps : parentPieces p.pieces with
    | nil => exact Or.inr rfl
    | cons a r =>
      have hmem : ∀ l ∈ a :: r, '/' ∉ l := fun l hl =>
        noSlash_of_mem_pieces ((hfront p.pieces).subset (hps ▸ hl))
      have hend := hends p.pieces
      rw [show withoutIdleEnd _ = a :: r from hps] at hend
      exact ends_ofPieces hmem (by simp) (Or.inl (hend.resolve_left (by simp)))

lemma Above.ends (h : p.Above q) : q.EndsInStep ∨ q.steps = [] := by
  cases h with
  | single h => exact ends_of_parent? h
  | tail _ h => exact ends_of_parent? h

end Path

namespace Disk

open Files (makeDirectories makeFrom makeParent)
open Path (IsName)

/-- Directories have come to the disk, each at the place of one of these paths, and nothing has
changed besides. -/
structure Adds (may : Path → Prop) (d d' : Disk) : Prop where
  sound : d'.Sound
  kept : Extends d d'
  added : ∀ q, d'.at? q = d.at? q ∨
    d.at? q = none ∧ d'.at? q = some .directory ∧ ∃ g, may g ∧ d'.locate true g = .ok q

variable {may : Path → Prop} {d d' d'' d₁ : Disk} {f g : Path} {p q : Place}
  {links links' : ℕ} {a names : List String} {n : String} {bytes : ByteArray}

lemma Adds.refl (hd : d.Sound) : Adds may d d :=
  ⟨hd, ⟨rfl, id⟩, fun _ => Or.inl rfl⟩

lemma Adds.trans (h : Adds may d d') (h' : Adds may d' d'') : Adds may d d'' := by
  refine ⟨h'.sound, h.kept.trans h'.kept, fun q => ?_⟩
  rcases h'.added q with heq | ⟨hnone, hnew, hg⟩
  · rw [heq]
    refine (h.added q).imp_right fun ⟨hnone, hnew, g, hg, hplace⟩ => ?_
    exact ⟨hnone, hnew, g, hg, h'.kept.keeps.locate hplace⟩
  · rcases h.added q with heq | ⟨-, hdir, -⟩
    · exact Or.inr ⟨heq ▸ hnone, hnew, hg⟩
    · rw [hnone] at hdir
      cases hdir

/-- What a run that starts from a sound disk adds. -/
def AddsFrom (may : Path → Prop) (d d' : Disk) : Prop := d.Sound → Adds may d d'

instance : IsPreorder Disk (AddsFrom may) where
  refl _ := Adds.refl
  trans _ _ _ h h' hd := (h hd).trans (h' (h hd).sound)

/-- A directory that comes where there was nothing is all that is added. -/
lemma adds_set (hd : d.Sound) (hg : may g) (hp : d.hasDirectory p = true) (hn : IsName n)
    (he : d.at? (p ++ [n]) = none)
    (hplace : (d.set (p ++ [n]) .directory).locate true g = .ok (p ++ [n])) :
    Adds may d (d.set (p ++ [n]) .directory) := by
  have hset (r : Place) := at?_set_concat d p n .directory r
  refine ⟨(puts_directory hp hn he).sound hd, ⟨rfl, fun {r e} hr => ?_⟩, fun r => ?_⟩
  · rw [hset, if_neg]
    · exact hr
    · rintro rfl
      rw [he] at hr
      cases hr
  · by_cases hr : r = p ++ [n]
    · rw [hr]
      exact Or.inr ⟨he, by rw [hset, if_pos rfl], g, hg, hplace⟩
    · exact Or.inl (by rw [hset, if_neg hr])

/-- Of a path without steps no directory is made. -/
lemma makeDirectory_ne_ok (hsteps : g.steps = []) : d.makeDirectory g ≠ .ok d' := by
  intro h
  by_cases hne : g.text = ""
  · have hfind : d.find false g = .error .notFound := by
      rw [Disk.find, if_neg (by simp [hne]), if_pos hne]
    rw [makeDirectory_eq (Path.not_asksForDirectory_of_no_steps hsteps), hfind] at h
    cases h
  · obtain ⟨r, -, hr⟩ := makeDirectory_of_no_steps (d := d) hsteps hne
    rw [hr] at h
    cases h

/-- A directory that is made is at the place of its path. -/
lemma makeDirectory_adds (hg : may g) (hends : g.EndsInStep ∨ g.steps = [])
    (h : d.makeDirectory g = .ok d') : AddsFrom may d d' := by
  intro hd
  rcases hends with hends | hsteps
  · obtain ⟨front, n, -, -, hsteps, hn, -⟩ := exists_front hends
    obtain ⟨links, p, hw, hat⟩ := exists_at_of_settles hends hsteps hn (Or.inl h)
    obtain ⟨hp, hf, he, rfl⟩ := hat.free_of_makeDirectory h
    have hname := hf.isName hat.noSlash
    have hmade : Makes d links p [n] (d.set (p ++ [n]) .directory) links (p ++ [n]) :=
      .make hp hname hf he .done
    refine adds_set hd hg hp hname he ((locate_iff hat.valid hends).2 ⟨links, ?_⟩)
    rw [hsteps]
    exact (hw.makes.append hmade).way
  · exact absurd h (makeDirectory_ne_ok hsteps)

/-- Whether it succeeds or not, making the parent of a path adds directories above it only. -/
lemma makeParent_adds (hd : d.Sound) (f : Path) :
    Adds f.Above d (outcome (makeParent f) d).2 := by
  have halways : Always (AddsFrom f.Above)
      (makeParent f : ExceptT Error (StateM Disk) Unit).run := by
    unfold makeParent
    split
    · rename_i g hg
      refine (always_makeFrom fun x hx d d' h => ?_).orRefused g
      have habove : f.Above x := by
        rcases List.mem_cons.1 hx with rfl | hx
        · exact .single hg
        · exact .head hg (Path.above_of_mem_ancestorsUpTo hx)
      exact makeDirectory_adds habove habove.ends h
    · exact always_pure _
  exact halways d hd

/-- Where the parent cannot be made, the request for it was refused. -/
lemma makeParent_error {e : Error} (h : outcome (makeParent f) d = (.error e, d₁)) :
    ∃ g cause, f.parent? = some g ∧ e = .refused g cause := by
  unfold makeParent at h
  split at h
  · rename_i g hg
    rw [outcome_orRefused] at h
    cases hr : (perform (makeDirectories g) d).1 with
    | ok u =>
      rw [hr] at h
      cases h
    | error cause =>
      rw [hr] at h
      cases h
      exact ⟨g, cause, hg, rfl⟩
  · cases h

/-! ### Parents that are there -/

/-- Directories that are there need not be made. -/
lemma makeDirectories_there (hends : g.EndsInStep ∨ g.steps = []) (hv : g.text ≠ "" → g.Valid)
    (hq : d.Leads g q) (hdir : d.hasDirectory q = true) :
    perform (makeDirectories g) d = (.ok (), d) := by
  obtain ⟨links, hw⟩ := hq
  rcases hends with hends | hsteps
  · exact (makeDirectories_iff hends).2 ⟨hv hends.text_ne, links, q, hw.makes, hdir⟩
  · rw [hsteps] at hw
    cases hw
    by_cases hne : g.text = ""
    · rw [makeDirectories, makeFrom_empty hne, perform_pure]
    · exact (makeDirectories_of_no_steps hsteps hne).2
        ⟨rfl, isDirectory_iff.2 ⟨_, locate_of_no_steps (hv hne) hsteps hdir, hdir⟩⟩

lemma At.makeParent_there (h : At d f n links p) (hp : d.hasDirectory p = true) :
    outcome (makeParent f) d = (.ok (), d) := by
  obtain ⟨a, hsteps, hw⟩ := h.way
  obtain ⟨g, m, hg, hparent, hsteps', -, hstart⟩ := exists_front h.ends
  obtain ⟨rfl, -⟩ := List.append_inj' (hsteps.symm.trans hsteps') rfl
  rw [hstart] at hw
  have hthere := makeDirectories_there hparent.ends
    (fun hne => h.valid.of_front hparent.text_front hne) ⟨links, hw⟩ hp
  unfold makeParent
  rw [hg]
  exact outcome_orRefused_ok.2 hthere

/-- What a path leads to lies in the directory that its parent leads to. -/
lemma makeParent_there (hd : d.Sound) (h : d.read f = .ok bytes) :
    outcome (makeParent f) d = (.ok (), d) := by
  obtain ⟨q, hq, hb⟩ := read_iff.1 h
  obtain ⟨_, _, _, _, hat, hlast⟩ := exists_at_of_locate hd hq (hasDirectory_of_file hb)
  exact hat.makeParent_there hlast.hasDirectory

/-! ### Parents that are missing -/

/-- What names lead to that do not go up holds nothing if some of it had to be made. -/
lemma Makes.absent (hd : d.Sound) (h : Makes d links p a d' links' q) (hn : ∀ n ∈ a, IsName n) :
    d' = d ∨ ∀ m, d'.at? (q ++ [m]) = none := by
  induction h with
  | done => exact Or.inl rfl
  | pass _ _ ih => exact ih hd fun n hn' => hn n (List.mem_cons_of_mem _ hn')
  | @make d links p n rest d' links' r hp hname hf he hm _ =>
    right
    intro m
    have hfree : ∀ x, (n :: rest).head? = some x → d.at? (p ++ [x]) = none := by
      rintro x ⟨⟩
      exact he
    obtain ⟨-, rfl, -, rfl⟩ := (makes_new_iff hd hp hn hfree).1 (.make hp hname hf he hm)
    have hbelow := hd.absent_below he (rest ++ [m])
    rw [at?_grow_of_ne]
    · simpa using hbelow
    · intro s hs _ e
      have hlength := hs.length_le
      rw [List.append_assoc, List.append_cancel_left_eq] at e
      rw [← e, List.length_append, List.length_singleton] at hlength
      omega

/-- An absent name is nothing, whatever directory it is asked for in. -/
lemma At.not_located (h : At d f n links p) (hup : n ≠ "..") (hnone : d.at? (p ++ [n]) = none) :
    ∀ q, d.locate false f ≠ .ok q := by
  intro q hq
  have hfind := find_of_locate hq
  rw [h.find] at hfind
  have hc := counts_iff.1 h.counts
  by_cases hp : d.hasDirectory p = true
  · by_cases hsize : nameLimit < n.utf8ByteSize
    · rw [follow_long hp hc hup hsize] at hfind
      cases hfind
    · rw [follow_absent hp ⟨hc, hup, not_lt.1 hsize⟩ hnone] at hfind
      cases hfind
  · rw [follow_of_not_directory (by simpa using hp)] at hfind
    cases hfind

/-- Once the parent is made, the steps in front of the last one lead along a way. -/
lemma makeParent_makes (hends : f.EndsInStep) (h : outcome (makeParent f) d = (.ok (), d₁)) :
    ∃ g n links q, f.parent? = some g ∧ f.steps = g.steps ++ [n] ∧
      Makes d linkLimit (d.startOf f) g.steps d₁ links q ∧ d₁.Leads g q ∧
      (d.hasDirectory (d.startOf f) = true → d₁.hasDirectory q = true) := by
  obtain ⟨g, n, hg, hparent, hsteps, -, hstart⟩ := exists_front hends
  unfold makeParent at h
  rw [hg] at h
  have hmade := outcome_orRefused_ok.1 h
  suffices hmakes : ∃ links q, Makes d linkLimit (d.startOf f) g.steps d₁ links q ∧
      (d.hasDirectory (d.startOf f) = true → d₁.hasDirectory q = true) by
    obtain ⟨links, q, hm, hdir⟩ := hmakes
    refine ⟨g, n, links, q, hg, hsteps, hm, ⟨links, ?_⟩, hdir⟩
    rw [← hstart, hm.keeps.startOf]
    exact hm.way
  rw [hstart]
  rcases hparent.ends with hgends | hempty
  · obtain ⟨-, links, q, hm, hdir⟩ := (makeDirectories_iff hgends).1 hmade
    exact ⟨links, q, hm, fun _ => hdir⟩
  · have hm := makes_of_no_steps hempty hmade
    exact ⟨_, _, hm, hm.keeps.hasDirectory⟩

/-- Where nothing was at a path that does not go up, nothing is once its parent is made. -/
lemma makeParent_missing (hd : d.Sound) (hends : f.EndsInStep) (hup : ".." ∉ f.steps)
    (h : outcome (makeParent f) d = (.ok (), d₁)) (hnone : ∀ q, d.locate false f ≠ .ok q) :
    ∀ q, d₁.locate false f ≠ .ok q := by
  intro q hq
  have hv := valid_of_find (find_of_locate hq)
  obtain ⟨g, n, links, p, -, hsteps, hm, -⟩ := makeParent_makes hends h
  have hname : ∀ m ∈ g.steps, IsName m := by
    intro m hm
    refine Path.isName_of_mem_steps hm ?_
    rintro rfl
    exact hup (hsteps ▸ List.mem_append_left _ hm)
  rcases hm.absent hd hname with rfl | habsent
  · exact hnone q hq
  · have hat : At d₁ f n links p := by
      refine ⟨hv, hends, g.steps, hsteps, ?_⟩
      rw [hm.keeps.startOf]
      exact hm.way
    refine hat.not_located ?_ (habsent n) q hq
    rintro rfl
    exact hup (hsteps ▸ List.mem_append_right _ List.mem_cons_self)

end Disk

end ProviderGen
