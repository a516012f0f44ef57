import ProviderGen.Proofs.Files.SafeWrite
import ProviderGen.Proofs.Project.Straight

/-!
Files that are written below a root, among what lies there already. Where there are no links, the
place of each is known from its path. What has been written so far, the directories that have been
made for it, and that all else is as it was, is one description of the disk: it is kept by making
directories and by writing a file where nothing is, or a generated one.
-/

namespace ProviderGen.Project

open Disk (At Fits Keeps Made Makes Puts Way linkLimit outcome)
open Files (Generated Undotted makeDirectories)
open Path (IsName)

variable {d d₁ e : Disk} {root f dir : Path} {q r s : Place} {n : String} {links links' : ℕ}
  {dirs : List Place} {files : List (Place × ByteArray)} {bytes : ByteArray} {text : String}

/-! ### Places below a root -/

/-- The path of a file with a dot in its name, in directories below the root. -/
structure Lies (root f : Path) (s : Place) (n : String) : Prop where
  path : f = (s ++ [n]).foldl (· / ·) root
  named : ∀ m ∈ s ++ [n], IsName m
  fits : Fits n
  dotted : '.' ∈ n.toList

lemma Lies.ends (h : Lies root f s n) : f.EndsInStep := by
  rw [h.path]
  exact Path.endsInStep_foldl (by simp) h.named

lemma Lies.steps (h : Lies root f s n) : f.steps = root.steps ++ s ++ [n] := by
  rw [h.path, Path.steps_foldl h.named, List.append_assoc]

lemma Lies.startOf (h : Lies root f s n) (d : Disk) : d.startOf f = d.startOf root := by
  rw [Disk.startOf, Disk.startOf, h.path, Path.isAbsolute_foldl h.named]

/-- A disk without links, on which the root leads to a directory. -/
structure Rooted (d : Disk) (root : Path) (r : Place) : Prop where
  sound : d.Sound
  unlinked : d.Unlinked
  leads : d.Leads root r
  directory : d.hasDirectory r = true

/-- Without links, names lead to the place that they spell. -/
lemma way_spelled (hu : d.Unlinked) (hn : ∀ m ∈ s, IsName m) (hw : Way d links r s links' q) :
    q = r ++ s ∧ ∀ m ∈ s, Fits m :=
  (Clear.way (fun _ _ _ => hu _ _) hn hw).2

/-- A file can be read only where the root leads to a directory. -/
lemma exists_rooted (hd : d.Sound) (hu : d.Unlinked) (hf : Lies root f s n)
    (hread : d.read f = .ok bytes) : ∃ r, Rooted d root r := by
  obtain ⟨q, hq, -⟩ := Disk.read_iff.1 hread
  have hv := Disk.valid_of_find (Disk.find_of_locate hq)
  obtain ⟨_, hw⟩ := (Disk.locate_iff hv hf.ends).1 hq
  rw [hf.steps, hf.startOf, List.append_assoc] at hw
  obtain ⟨_, r, hroot, hbelow⟩ := hw.split
  refine ⟨r, hd, hu, ⟨_, hroot⟩, ?_⟩
  obtain ⟨m, rest, hnames⟩ := List.exists_cons_of_ne_nil (l := s ++ [n]) (by simp)
  rw [hnames] at hbelow
  exact hbelow.hasDirectory

namespace Rooted

lemma exists_at (h : Rooted d root r) (hf : Lies root f s n) (hv : f.Valid)
    (hs : ∀ m ∈ s, Fits m) (hdir : d.hasDirectory (r ++ s) = true) :
    ∃ links, At d f n links (r ++ s) := by
  obtain ⟨links, hw⟩ := h.leads
  have hbelow := h.sound.way_of_at? links hs (Disk.hasDirectory_iff.1 hdir) (by simp)
  refine ⟨links, hv, hf.ends, root.steps ++ s, hf.steps, ?_⟩
  rw [hf.startOf]
  exact hw.append hbelow

/-- What is read is at the place. -/
lemma at?_of_read (h : Rooted d root r) (hf : Lies root f s n) (hread : d.read f = .ok bytes) :
    f.Valid ∧ (∀ m ∈ s, Fits m) ∧ d.at? (r ++ s ++ [n]) = some (.file bytes) := by
  obtain ⟨q, hq, hb⟩ := Disk.read_iff.1 hread
  have hv := Disk.valid_of_find (Disk.find_of_locate hq)
  obtain ⟨_, hw⟩ := (Disk.locate_iff hv hf.ends).1 hq
  obtain ⟨_, hroot⟩ := h.leads
  rw [hf.steps, hf.startOf, List.append_assoc] at hw
  obtain ⟨_, x, hx, hbelow⟩ := hw.split
  obtain rfl : x = r := Disk.Spot.taken.inj (Except.ok.inj (hx.follow.symm.trans hroot.follow))
  obtain ⟨rfl, hfits⟩ := way_spelled h.unlinked hf.named hbelow
  rw [List.append_assoc]
  exact ⟨hv, fun m hm => hfits m (List.mem_append_left _ hm), hb⟩

/-- In a directory that is there, what is read is what there is. -/
lemma read_eq (h : Rooted d root r) (hf : Lies root f s n) (hv : f.Valid) (hs : ∀ m ∈ s, Fits m)
    (hdir : d.hasDirectory (r ++ s) = true) : d.read f =
      match d.at? (r ++ s ++ [n]) with
      | some (.file bytes) => .ok bytes
      | some .directory => .error .isDirectory
      | _ => .error .notFound := by
  obtain ⟨links, hat⟩ := h.exists_at hf hv hs hdir
  cases he : d.at? (r ++ s ++ [n]) with
  | none =>
    rw [Disk.read, Disk.locate, hat.find, Disk.follow_absent hdir hf.fits he]
    rfl
  | some e =>
    have hlocate : d.locate true f = .ok (r ++ s ++ [n]) :=
      hat.locate_iff.2 ⟨links, .enter hdir hf.fits he (fun t ht => h.unlinked _ t (ht ▸ he)) .done⟩
    rw [← he, Disk.read, hlocate]
    rfl

/-- Where the first name is that of nothing, nothing can be read. -/
lemma read_absent {m : String} {rest : List String} (h : Rooted d root r) (hf : Lies root f s n)
    (hv : f.Valid) (hm : s ++ [n] = m :: rest) (hfits : Fits m) (hnone : d.at? (r ++ [m]) = none) :
    d.read f = .error .notFound := by
  obtain ⟨links, hw⟩ := h.leads
  have hfollow : d.follow true linkLimit (d.startOf root) (root.steps ++ m :: rest) =
      d.follow true links r (m :: rest) := hw.follow_append (Or.inl rfl)
  rw [Disk.follow_absent h.directory hfits hnone, ← hm, ← List.append_assoc, ← hf.steps,
    ← hf.startOf, ← Disk.find_steps hv hf.ends] at hfollow
  have hlocate : d.locate true f = .error .notFound := by
    rw [Disk.locate, hfollow]
    by_cases hall : rest.all (· == "") = true
    · rw [if_pos hall]
    · rw [if_neg hall]
  rw [Disk.read, hlocate]
  rfl

/-- Where nothing can be read, nothing is. -/
lemma at?_of_missing (h : Rooted d root r) (hf : Lies root f s n) (hs : ∀ m ∈ s, Fits m)
    (hread : d.read f = .error .notFound) : f.Valid ∧ d.at? (r ++ s ++ [n]) = none := by
  have hv : f.Valid := by
    by_contra hv
    obtain ⟨refusal, hne, hfind⟩ := Disk.find_invalid hv hf.ends.text_ne
    rw [Disk.read, Disk.locate, hfind] at hread
    exact hne (Except.error.inj hread)
  refine ⟨hv, ?_⟩
  cases he : d.at? (r ++ s ++ [n]) with
  | none => rfl
  | some e =>
    rw [h.read_eq hf hv hs (h.sound.inDirectory he), he] at hread
    cases e with
    | link t => exact absurd he (h.unlinked _ t)
    | directory => cases hread
    | file b => cases hread

/-- Where directories can be made, each one is there or nothing is. -/
lemma free_of_makeDirectories (h : Rooted d root r) (hn : ∀ m ∈ s, IsName m) (hne : s ≠ [])
    (hmake : Disk.perform (makeDirectories (s.foldl (· / ·) root)) d = (.ok (), d₁)) :
    (s.foldl (· / ·) root).Valid ∧ (∀ m ∈ s, Fits m) ∧
      ∀ t, t <+: s → d.at? (r ++ t) = none ∨ d.at? (r ++ t) = some .directory := by
  obtain ⟨hv, _, q, hm, hq⟩ := (Disk.makeDirectories_iff (Path.endsInStep_foldl hne hn)).1 hmake
  obtain ⟨_, hroot⟩ := h.leads
  have hstart : d.startOf (s.foldl (· / ·) root) = d.startOf root := by
    rw [Disk.startOf, Disk.startOf, Path.isAbsolute_foldl hn]
  rw [Path.steps_foldl hn, hstart] at hm
  obtain ⟨d₀, _, x, hfront, hbelow⟩ := hm.split
  obtain ⟨rfl, rfl⟩ : d₀ = d ∧ x = r := by
    rcases hfront.way_or_missing with ⟨rfl, hx⟩ | hmissing
    · exact ⟨rfl, Disk.Spot.taken.inj (Except.ok.inj (hx.follow.symm.trans hroot.follow))⟩
    · have hnone := hmissing true ["."] ⟨".", by simp, by decide⟩
      rw [hroot.follow_append (Or.inl rfl), Disk.follow_idle h.directory (Or.inr rfl),
        Disk.follow_nil] at hnone
      cases hnone
  have hu₁ : d₁.Unlinked := by
    intro y t hy
    rcases hbelow.at? y with he | ⟨-, he, -⟩
    · exact h.unlinked y t (he ▸ hy)
    · rw [he] at hy
      cases hy
  obtain ⟨rfl, hfits⟩ := way_spelled hu₁ hn hbelow.way
  refine ⟨hv, hfits, fun t ht => ?_⟩
  obtain ⟨u, rfl⟩ := ht
  have hdir : d₁.at? (x ++ t) = some .directory := by
    rw [← Disk.hasDirectory_iff]
    by_cases hu : u = []
    · rwa [hu, List.append_nil] at hq
    · rw [Disk.hasDirectory_iff, ← List.append_assoc] at hq
      exact (hbelow.sound h.sound).hasDirectory_above hq hu
  rcases hbelow.at? (x ++ t) with he | ⟨hnone, -⟩
  · exact Or.inr (he ▸ hdir)
  · exact Or.inl hnone

end Rooted

/-! ### What has been written -/

/-- The second disk is the first with these files and directories below the root. -/
structure Written (d : Disk) (r : Place) (dirs : List Place) (files : List (Place × ByteArray))
    (e : Disk) : Prop where
  sound : e.Sound
  keeps : Keeps d e
  undotted : ∀ s ∈ dirs, Undotted s
  dotted : ∀ x ∈ files, ∃ n ∈ x.1, '.' ∈ n.toList
  there : ∀ s ∈ dirs, e.hasDirectory (r ++ s) = true
  texts : ∀ x ∈ files, e.at? (r ++ x.1) = some (.file x.2)
  others : ∀ q, (∀ x ∈ files, q ≠ r ++ x.1) → e.at? q = d.at? q ∨
    d.at? q = none ∧ e.at? q = some .directory ∧ ∃ s ∈ dirs, q <+: r ++ s

/-- Where the file is to go there is nothing, or a generated file. -/
structure Vacant (d : Disk) (root : Path) (r : Place) (f : Path) (s : Place) (n : String) : Prop
    where
  lies : Lies root f s n
  valid : f.Valid
  free : d.at? (r ++ s ++ [n]) = none ∨
    ∃ bytes, d.at? (r ++ s ++ [n]) = some (.file bytes) ∧ Generated bytes

namespace Written

lemma start (h : Rooted d root r) : Written d r [[]] [] d := by
  refine ⟨h.sound, .refl d, by simp [Undotted], by simp, ?_, by simp, fun _ _ => Or.inl rfl⟩
  simpa using h.directory

lemma rooted (h : Written d r dirs files e) (hd : Rooted d root r) : Rooted e root r := by
  obtain ⟨links, hw⟩ := hd.leads
  refine ⟨h.sound, fun q t hq => ?_, ⟨links, ?_⟩, h.keeps.hasDirectory hd.directory⟩
  · by_cases hfile : ∀ x ∈ files, q ≠ r ++ x.1
    · rcases h.others q hfile with he | ⟨-, he, -⟩
      · exact hd.unlinked q t (he ▸ hq)
      · rw [he] at hq
        cases hq
    · push Not at hfile
      obtain ⟨x, hx, rfl⟩ := hfile
      rw [h.texts x hx] at hq
      cases hq
  · rw [h.keeps.startOf]
    exact hw.keeps h.keeps

/-- A file that has not been written is as it was. -/
lemma at?_eq (h : Written d r dirs files e) (hdot : '.' ∈ n.toList)
    (hnew : ∀ x ∈ files, s ++ [n] ≠ x.1) : e.at? (r ++ s ++ [n]) = d.at? (r ++ s ++ [n]) := by
  refine (h.others _ fun x hx he => ?_).resolve_right ?_
  · rw [List.append_assoc, List.append_right_inj] at he
    exact hnew x hx he
  · rintro ⟨-, -, s', hs', hfront⟩
    rw [List.append_assoc, List.prefix_append_right_inj] at hfront
    exact (h.undotted s' hs' n (hfront.subset (by simp))).2.2 hdot

/-- A directory of the way is there or yet to be made, as it was before. -/
lemma free (h : Written d r dirs files e) (hs : Undotted s)
    (hd : ∀ t, t <+: s → d.at? (r ++ t) = none ∨ d.at? (r ++ t) = some .directory) :
    ∀ t, t <+: s → e.at? (r ++ t) = none ∨ e.at? (r ++ t) = some .directory := by
  intro t ht
  have hnew : ∀ x ∈ files, r ++ t ≠ r ++ x.1 := by
    intro x hx he
    obtain ⟨n, hn, hdot⟩ := h.dotted x hx
    rw [← List.append_cancel_left he] at hn
    exact (hs n (ht.subset hn)).2.2 hdot
  rcases h.others _ hnew with he | ⟨-, he, -⟩
  · rw [he]
    exact hd t ht
  · exact Or.inr he

/-- Directories are made. -/
lemma make (h : Written d r dirs files e) (hd : Rooted d root r) (hs : Undotted s) (hne : s ≠ [])
    (hv : (s.foldl (· / ·) root).Valid)
    (hfree : ∀ t, t <+: s → d.at? (r ++ t) = none ∨ d.at? (r ++ t) = some .directory) :
    ∃ e', Disk.perform (makeDirectories (s.foldl (· / ·) root)) e = (.ok (), e') ∧
      Written d r (s :: dirs) files e' := by
  have hroot := h.rooted hd
  obtain ⟨links, hw⟩ := hroot.leads
  have hnames : ∀ m ∈ s, IsName m := fun m hm => (hs m hm).1
  obtain ⟨e', hm, hmade⟩ := Disk.exists_makes links h.sound hroot.directory
    (fun m hm => ⟨(hs m hm).1, (hs m hm).2.1⟩) (h.free hs hfree)
  have hdir : e'.hasDirectory (r ++ s) = true :=
    Disk.hasDirectory_iff.2 ((hmade _ _).2 (Or.inr ⟨rfl, s, List.prefix_rfl, rfl⟩))
  refine ⟨e', (Disk.makeDirectories_iff (Path.endsInStep_foldl hne hnames)).2
    ⟨hv, links, r ++ s, ?_, hdir⟩, ?_⟩
  · rw [Path.steps_foldl hnames, Disk.startOf, Path.isAbsolute_foldl hnames]
    exact hw.makes.append hm
  · refine ⟨hm.sound h.sound, h.keeps.trans hm.keeps, List.forall_mem_cons.2 ⟨hs, h.undotted⟩,
      h.dotted, List.forall_mem_cons.2 ⟨hdir, fun t ht => hm.keeps.hasDirectory (h.there t ht)⟩,
      fun x hx => (hmade _ _).2 (Or.inl (h.texts x hx)), fun q hq => ?_⟩
    rcases hm.at? q with he | ⟨hnone, hnew, -⟩
    · rw [he]
      refine (h.others q hq).imp_right ?_
      rintro ⟨hn, hx, t, ht, hp⟩
      exact ⟨hn, hx, t, List.mem_cons_of_mem _ ht, hp⟩
    · have habsent : d.at? q = none := by
        rcases h.others q hq with he | ⟨habsent, -⟩
        · exact he ▸ hnone
        · exact habsent
      rcases (hmade q _).1 hnew with he | ⟨-, t, ht, rfl⟩
      · rw [hnone] at he
        cases he
      · exact Or.inr ⟨habsent, hnew, s, List.mem_cons_self, (List.prefix_append_right_inj r).2 ht⟩

/-- A file is written. -/
lemma write (h : Written d r dirs files e) (hs : s ∈ dirs) (hn : IsName n) (hdot : '.' ∈ n.toList)
    (hnew : ∀ x ∈ files, s ++ [n] ≠ x.1) (hfree : e.at? (r ++ s ++ [n]) = none ∨
      ∃ b, e.at? (r ++ s ++ [n]) = some (.file b)) (bytes : ByteArray) :
    Written d r dirs ((s ++ [n], bytes) :: files) (e.set (r ++ s ++ [n]) (.file bytes)) := by
  have hputs : Puts e (.file bytes) (r ++ s) n :=
    ⟨h.there s hs, hn, hfree.imp_right fun ⟨b, hb⟩ => ⟨b, bytes, hb, rfl⟩⟩
  have hat (x : Place) : (e.set (r ++ s ++ [n]) (.file bytes)).at? x =
      if x = r ++ s ++ [n] then some (.file bytes) else e.at? x := Disk.at?_set_concat _ _ _ _ _
  refine ⟨hputs.sound h.sound, h.keeps.trans hputs.keeps, h.undotted, ?_,
    fun t ht => hputs.keeps.hasDirectory (h.there t ht), ?_, fun q hq => ?_⟩
  · rw [List.forall_mem_cons]
    exact ⟨⟨n, by simp, hdot⟩, h.dotted⟩
  · rw [List.forall_mem_cons]
    refine ⟨by rw [hat, if_pos (List.append_assoc _ _ _).symm], fun x hx => ?_⟩
    rw [hat, if_neg, h.texts x hx]
    rw [List.append_assoc, List.append_right_inj]
    exact (hnew x hx).symm
  · rw [List.forall_mem_cons] at hq
    rw [hat, if_neg (by simpa using hq.1)]
    exact h.others q hq.2

/-- The last step of a path into a directory that has been made. -/
lemma exists_at (h : Written d r dirs files e) (hd : Rooted d root r) (hf : Lies root f s n)
    (hv : f.Valid) (hs : s ∈ dirs) : ∃ links, At e f n links (r ++ s) :=
  (h.rooted hd).exists_at hf hv (fun m hm => (h.undotted s hs m hm).2.1) (h.there s hs)

/-- What has been written is at the place of its path. -/
lemma locate (h : Written d r dirs files e) (hd : Rooted d root r) (hf : Lies root f s n)
    (hv : f.Valid) (hs : s ∈ dirs) (hx : (s ++ [n], bytes) ∈ files) :
    e.locate true f = .ok (r ++ s ++ [n]) ∧ e.read f = .ok bytes := by
  have hat : e.at? (r ++ s ++ [n]) = some (.file bytes) := by
    rw [List.append_assoc]
    exact h.texts _ hx
  obtain ⟨links, hstep⟩ := h.exists_at hd hf hv hs
  have hplace : e.locate true f = .ok (r ++ s ++ [n]) :=
    hstep.locate_iff.2 ⟨links, .enter (h.there s hs) hf.fits hat (by simp) .done⟩
  exact ⟨hplace, Disk.read_iff.2 ⟨_, hplace, hat⟩⟩

/-- What has not been written is read as it was. -/
lemma read_eq (h : Written d r dirs files e) (hd : Rooted d root r) (hf : Lies root f s n)
    (hs : s ∈ dirs) (hnew : ∀ x ∈ files, s ++ [n] ≠ x.1)
    (hread : d.read f = .error .notFound ∨ ∃ b, d.read f = .ok b) : e.read f = d.read f := by
  have hfits : ∀ m ∈ s, Fits m := fun m hm => (h.undotted s hs m hm).2.1
  have hsame := h.at?_eq hf.dotted hnew
  rcases hread with hread | ⟨b, hread⟩
  · obtain ⟨hv, hnone⟩ := hd.at?_of_missing hf hfits hread
    rw [(h.rooted hd).read_eq hf hv hfits (h.there s hs), hsame, hnone, hread]
  · obtain ⟨hv, -, hb⟩ := hd.at?_of_read hf hread
    rw [(h.rooted hd).read_eq hf hv hfits (h.there s hs), hsame, hb, hread]

/-- In a directory that was there, what has not been written is read as it was. -/
lemma read_same (h : Written d r dirs files e) (hd : Rooted d root r) (hf : Lies root f s n)
    (hs : s ∈ dirs) (hnew : ∀ x ∈ files, s ++ [n] ≠ x.1) (hdir : d.hasDirectory (r ++ s) = true) :
    e.read f = d.read f := by
  by_cases hv : f.Valid
  · have hfits : ∀ m ∈ s, Fits m := fun m hm => (h.undotted s hs m hm).2.1
    rw [(h.rooted hd).read_eq hf hv hfits (h.there s hs), h.at?_eq hf.dotted hnew,
      hd.read_eq hf hv hfits hdir]
  · obtain ⟨_, -, hfind⟩ := Disk.find_invalid hv hf.ends.text_ne
    simp only [Disk.read, Disk.locate, hfind]
    rfl

/-- A file is written where it is in nobody's way. -/
lemma safeWrite (h : Written d r dirs files e) (hd : Rooted d root r) (hf : Vacant d root r f s n)
    (hs : s ∈ dirs) (hnew : ∀ x ∈ files, s ++ [n] ≠ x.1) (text : String) :
    ∃ e', outcome (Files.safeWrite f text) e = (.ok (), e') ∧
      Written d r dirs ((s ++ [n], text.toUTF8) :: files) e' := by
  obtain ⟨links, hstep⟩ := h.exists_at hd hf.lies hf.valid hs
  obtain ⟨hfresh, hthere⟩ :=
    Files.safeWrite_at h.sound hstep (h.there s hs) hf.lies.fits text
  have hfree := hf.free
  rw [← h.at?_eq hf.lies.dotted hnew] at hfree
  refine ⟨e.set (r ++ s ++ [n]) (.file text.toUTF8), ?_,
    h.write hs (hf.lies.named n (by simp)) hf.lies.dotted hnew
      (hfree.imp_right fun ⟨b, hb, _⟩ => ⟨b, hb⟩) _⟩
  rcases hfree with hnone | ⟨b, hb, hgenerated⟩
  · exact hfresh hnone
  · exact (hthere b hb).1 hgenerated

/-- A file of the user's ends the matter. -/
lemma safeWrite_owned (h : Written d r dirs files e) (hd : Rooted d root r) (hf : Lies root f s n)
    (hs : s ∈ dirs) (hnew : ∀ x ∈ files, s ++ [n] ≠ x.1) (hread : d.read f = .ok bytes)
    (howned : Files.Owned bytes) (text : String) :
    outcome (Files.safeWrite f text) e = (.error (.fileExists f), e) := by
  obtain ⟨hv, -, hb⟩ := hd.at?_of_read hf hread
  obtain ⟨links, hstep⟩ := h.exists_at hd hf hv hs
  rw [← h.at?_eq hf.dotted hnew] at hb
  exact ((Files.safeWrite_at h.sound hstep (h.there s hs) hf.fits text).2 _ hb).2 howned

end Written

end ProviderGen.Project
