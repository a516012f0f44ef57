import ProviderGen.Proofs.Disk.Absolute
import ProviderGen.Proofs.Files.Again
import ProviderGen.Proofs.Files.Emit

/-!
Grounds: a directory of which it is known all that lies below it. Every directory there has a
name without a dot and every file one with a dot, so that no file is in the way of a directory
and a file can be written wherever there is none yet, together with the directories above it.
-/

namespace ProviderGen

open Disk (Extends Fits Makes Way At outcome linkLimit)
open Path (IsName)

/-! ### Ways that are made -/

namespace Disk

variable {d d' : Disk} {links : ℕ} {p q r : Place} {s : List String} {n : String} {f : Path}
  {bytes : ByteArray}

/-- The directories on the way from `p` along `s` are there, and all else is as it was. -/
def Made (d : Disk) (p : Place) (s : List String) (d' : Disk) : Prop :=
  ∀ r e, d'.at? r = some e ↔
    d.at? r = some e ∨ (e = .directory ∧ ∃ t, t <+: s ∧ r = p ++ t)

lemma made_of_there (hp : ∀ t, t <+: s → d.at? (p ++ t) = some .directory) : Made d p s d := by
  refine fun r e => ⟨Or.inl, ?_⟩
  rintro (h | ⟨rfl, t, ht, rfl⟩)
  · exact h
  · exact hp t ht

lemma made_set (hp : d.hasDirectory p = true) (hnone : d.at? (p ++ [n]) = none) :
    Made d p [n] (d.set (p ++ [n]) .directory) := by
  intro r e
  rw [at?_set_concat]
  by_cases hr : r = p ++ [n]
  · have hother : some Entry.directory = some e ↔ e = .directory := by simp [eq_comm]
    rw [if_pos hr, hother, hr, hnone]
    simp
  · rw [if_neg hr]
    refine ⟨Or.inl, ?_⟩
    rintro (h | ⟨rfl, t, ht, rfl⟩)
    · exact h
    · rcases List.prefix_cons_iff.1 ht with rfl | ⟨u, rfl, hu⟩
      · rw [List.append_nil]
        exact hasDirectory_iff.1 hp
      · rw [List.prefix_nil.1 hu] at hr
        exact absurd rfl hr

lemma Made.cons {d₁ : Disk} (h : Made d p [n] d₁) (h' : Made d₁ (p ++ [n]) s d') :
    Made d p (n :: s) d' := by
  have hassoc (t : Place) : p ++ [n] ++ t = p ++ n :: t := by simp
  have htail {t : Place} (ht : t <+: s) : n :: t <+: n :: s := List.cons_prefix_cons.2 ⟨rfl, ht⟩
  intro r e
  rw [h', h]
  refine ⟨?_, ?_⟩
  · rintro ((he | ⟨rfl, t, ht, rfl⟩) | ⟨rfl, t, ht, rfl⟩)
    · exact Or.inl he
    · exact Or.inr ⟨rfl, t, ht.trans (htail List.nil_prefix), rfl⟩
    · exact Or.inr ⟨rfl, n :: t, htail ht, hassoc t⟩
  · rintro (he | ⟨rfl, t, ht, rfl⟩)
    · exact Or.inl (Or.inl he)
    · rcases List.prefix_cons_iff.1 ht with rfl | ⟨u, rfl, hu⟩
      · exact Or.inl (Or.inr ⟨rfl, [], List.nil_prefix, rfl⟩)
      · exact Or.inr ⟨rfl, u, hu, (hassoc u).symm⟩

/-- Where each name leads to a directory or to nothing, all directories can be made, and they are
all that is new. -/
lemma exists_makes (links : ℕ) (hd : d.Sound) (hp : d.hasDirectory p = true)
    (hs : ∀ n ∈ s, IsName n ∧ Fits n)
    (hfree : ∀ t, t <+: s → d.at? (p ++ t) = none ∨ d.at? (p ++ t) = some .directory) :
    ∃ d', Makes d links p s d' links (p ++ s) ∧ Made d p s d' := by
  induction s generalizing d p with
  | nil =>
    refine ⟨d, by simpa using Makes.done, made_of_there fun t ht => ?_⟩
    rw [List.prefix_nil.1 ht, List.append_nil]
    exact hasDirectory_iff.1 hp
  | cons n s ih =>
    rw [List.forall_mem_cons] at hs
    have hassoc (t : Place) : p ++ [n] ++ t = p ++ n :: t := by simp
    have htail {t : Place} (ht : t <+: s) : n :: t <+: n :: s := List.cons_prefix_cons.2 ⟨rfl, ht⟩
    rcases hfree [n] (htail List.nil_prefix) with hnone | hdir
    · -- the first directory is new, and so are those in it
      have hputs := puts_directory hp hs.1.1 hnone
      have hset (r : Place) : (d.set (p ++ [n]) .directory).at? r =
          if r = p ++ [n] then some .directory else d.at? r := at?_set_concat _ _ _ _ _
      obtain ⟨d', hmakes, hmade⟩ := ih (hputs.sound hd)
        (by rw [hasDirectory_iff, hset, if_pos rfl]) hs.2 fun t ht => by
          rw [hset]
          split
          · exact Or.inr rfl
          · exact Or.inl (hd.absent_below hnone t)
      refine ⟨d', ?_, (made_set hp hnone).cons hmade⟩
      rw [← hassoc]
      exact .make hp hs.1.1 hs.1.2 hnone hmakes
    · obtain ⟨d', hmakes, hmade⟩ := ih hd (hasDirectory_iff.2 hdir) hs.2 fun t ht => by
        rw [hassoc]
        exact hfree _ (htail ht)
      have hthere : Made d p [n] d := made_of_there fun t ht => by
        rcases List.prefix_cons_iff.1 ht with rfl | ⟨u, rfl, hu⟩
        · rw [List.append_nil]
          exact hasDirectory_iff.1 hp
        · rw [List.prefix_nil.1 hu]
          exact hdir
      refine ⟨d', ?_, hthere.cons hmade⟩
      rw [← hassoc]
      exact .pass (.enter hp hs.1.2 hdir (by simp) .done) hmakes

lemma At.createNew_free (h : At d f n links p) (hp : d.hasDirectory p = true) (hn : Fits n)
    (he : d.at? (p ++ [n]) = none) :
    d.createNew f bytes = .ok (d.set (p ++ [n]) (.file bytes)) := by
  rw [createNew, target, h.ends.not_asksForDirectory, if_neg (by simp), h.find,
    follow_absent hp hn he]
  rfl

lemma At.write_free (h : At d f n links p) (hp : d.hasDirectory p = true) (hn : Fits n)
    (he : d.at? (p ++ [n]) = none) :
    d.write f bytes = .ok (d.set (p ++ [n]) (.file bytes)) := by
  rw [h.write_eq, follow_absent hp hn he]
  rfl

/-- Names that do not count can be left out of what is still to be followed. -/
lemma Way.filter_behind {links' : ℕ} {a b : List String} (h : Way d links p (a ++ b) links' q) :
    Way d links p (a ++ b.filter fun n => !Path.isIdle n.toList) links' q := by
  generalize htodo : a ++ b = todo at h
  induction h generalizing a b with
  | done =>
    obtain ⟨rfl, rfl⟩ := List.append_eq_nil_iff.1 htodo
    exact .done
  | @idle _ _ n _ _ _ hp hn _ ih =>
    cases a with
    | nil =>
      obtain rfl : b = _ := htodo
      have hidle : Path.isIdle n.toList = true := by
        rcases hn with rfl | rfl
        · rfl
        · rfl
      rw [List.filter_cons_of_neg (by simp [hidle])]
      exact ih (a := []) rfl
    | cons m a =>
      obtain ⟨rfl, rfl⟩ := List.cons.inj htodo
      exact .idle hp hn (ih rfl)
  | up hp _ ih =>
    cases a with
    | nil =>
      obtain rfl : b = _ := htodo
      exact .up hp (ih (a := []) rfl)
    | cons m a =>
      obtain ⟨rfl, rfl⟩ := List.cons.inj htodo
      exact .up hp (ih rfl)
  | enter hp hn he hl _ ih =>
    cases a with
    | nil =>
      obtain rfl : b = _ := htodo
      rw [List.filter_cons_of_pos (by simp [counts_iff.2 hn.counts])]
      exact .enter hp hn he hl (ih (a := []) rfl)
    | cons m a =>
      obtain ⟨rfl, rfl⟩ := List.cons.inj htodo
      exact .enter hp hn he hl (ih rfl)
  | @link _ _ n _ _ _ t hp hn he _ ih =>
    -- the names of the link stand in front of what is still to be followed
    cases a with
    | nil =>
      obtain rfl : b = _ := htodo
      rw [List.filter_cons_of_pos (by simp [counts_iff.2 hn.counts])]
      exact .link hp hn he (ih rfl)
    | cons m a =>
      obtain ⟨rfl, rfl⟩ := List.cons.inj htodo
      have hrest := ih (a := t.names ++ a) (b := b) (List.append_assoc _ _ _)
      rw [List.append_assoc] at hrest
      exact .link hp hn he hrest

lemma leads_of_locate (h : d.locate true f = .ok q) : f.Valid ∧ d.Leads f q := by
  obtain ⟨hv, links, hw⟩ := exists_way_of_locate h
  exact ⟨hv, links, Way.filter_behind (a := []) hw⟩

end Disk

/-! ### Grounds -/

namespace Files

variable {root f : Path} {q r s : Place} {n : String} {d d' : Disk} {bytes : ByteArray}
  {files files' : List (Place × ByteArray)} {dirs dirs' : List Place}

/-- A path that goes on from the root by these names. -/
structure Reaches (root f : Path) (r : Place) : Prop where
  valid : f.Valid
  ends : f.EndsInStep
  steps : f.steps = root.steps ++ r
  absolute : f.isAbsolute = root.isAbsolute

/-- Names for directories. -/
def Undotted (s : Place) : Prop := ∀ n ∈ s, IsName n ∧ Fits n ∧ '.' ∉ n.toList

/-- A file may be called this in these directories. -/
structure Slot (root : Path) (s : Place) (n : String) : Prop where
  valid : ((s ++ [n]).foldl (· / ·) root).Valid
  undotted : Undotted s
  named : IsName n
  fits : Fits n
  dotted : '.' ∈ n.toList

/-- There are these directories, and those that the files are in. -/
def IsFolder (files : List (Place × ByteArray)) (dirs : List Place) (r : Place) : Prop :=
  (∃ s ∈ dirs, r <+: s) ∨ ∃ x ∈ files, r <+: x.1 ∧ r ≠ x.1

/-- The root leads to a directory, and below it there are these files and directories. -/
structure Grounds (d : Disk) (root : Path) (q : Place) (files : List (Place × ByteArray))
    (dirs : List Place) : Prop where
  sound : d.Sound
  leads : d.Leads root q
  directory : d.hasDirectory q = true
  below : ∀ r e, r ≠ [] → (d.at? (q ++ r) = some e ↔
    (∃ bytes, (r, bytes) ∈ files ∧ e = .file bytes) ∨ (IsFolder files dirs r ∧ e = .directory))
  slots : ∀ x ∈ files, ∃ s n, x.1 = s ++ [n] ∧ Slot root s n
  undotted : ∀ s ∈ dirs, Undotted s

lemma Undotted.front {t : Place} (h : Undotted s) (ht : t <+: s) : Undotted t :=
  fun n hn => h n (ht.subset hn)

lemma Slot.names (h : Slot root s n) : ∀ m ∈ s ++ [n], IsName m ∧ Fits m := by
  simp only [List.forall_mem_append, List.mem_singleton, forall_eq]
  exact ⟨fun m hm => ⟨(h.undotted m hm).1, (h.undotted m hm).2.1⟩, h.named, h.fits⟩

lemma Slot.reaches (h : Slot root s n) :
    Reaches root ((s ++ [n]).foldl (· / ·) root) (s ++ [n]) := by
  have hnames : ∀ m ∈ s ++ [n], IsName m := fun m hm => (h.names m hm).1
  exact ⟨h.valid, Path.endsInStep_foldl (by simp) hnames, Path.steps_foldl hnames,
    Path.isAbsolute_foldl hnames⟩

lemma Reaches.startOf (h : Reaches root f r) (d : Disk) :
    d.startOf f = d.startOf root := by
  rw [Disk.startOf, Disk.startOf, h.absolute]

namespace Grounds

lemma undotted_of_isFolder (h : Grounds d root q files dirs) (hr : IsFolder files dirs r) :
    Undotted r := by
  rcases hr with ⟨s, hs, hp⟩ | ⟨x, hx, hp, hne⟩
  · exact (h.undotted s hs).front hp
  · obtain ⟨s, n, he, hslot⟩ := h.slots x hx
    rw [he] at hp hne
    exact hslot.undotted.front ((List.prefix_concat_iff.1 hp).resolve_left hne)

lemma at?_folder (h : Grounds d root q files dirs) (hr : IsFolder files dirs r) :
    d.at? (q ++ r) = some .directory := by
  by_cases hne : r = []
  · rw [hne, List.append_nil]
    exact Disk.hasDirectory_iff.1 h.directory
  · exact (h.below r _ hne).2 (Or.inr ⟨hr, rfl⟩)

lemma at?_file (h : Grounds d root q files dirs) (hr : (r, bytes) ∈ files) :
    d.at? (q ++ r) = some (.file bytes) := by
  obtain ⟨s, n, he, -⟩ := h.slots _ hr
  exact (h.below r _ (by rw [show r = s ++ [n] from he]; simp)).2 (Or.inl ⟨bytes, hr, rfl⟩)

/-- Where the names have no dots there is nothing but directories. -/
lemma at?_undotted (h : Grounds d root q files dirs) (hs : Undotted s) :
    d.at? (q ++ s) = none ∨ d.at? (q ++ s) = some .directory := by
  by_cases hne : s = []
  · rw [hne, List.append_nil]
    exact Or.inr (Disk.hasDirectory_iff.1 h.directory)
  · cases he : d.at? (q ++ s) with
    | none => exact Or.inl rfl
    | some e =>
      rcases (h.below s e hne).1 he with ⟨bytes, hmem, -⟩ | ⟨-, rfl⟩
      · obtain ⟨t, m, ht, hslot⟩ := h.slots _ hmem
        obtain rfl : s = t ++ [m] := ht
        exact absurd hslot.dotted (hs m (by simp)).2.2
      · exact Or.inr rfl

/-- Where no file is, one may be put. -/
lemma at?_slot (h : Grounds d root q files dirs) (hslot : Slot root s n)
    (hnew : s ++ [n] ∉ files.map Prod.fst) : d.at? (q ++ s ++ [n]) = none := by
  cases he : d.at? (q ++ s ++ [n]) with
  | none => rfl
  | some e =>
    rw [List.append_assoc] at he
    rcases (h.below _ e (by simp)).1 he with ⟨bytes, hmem, -⟩ | ⟨hdir, -⟩
    · exact absurd (List.mem_map_of_mem hmem) hnew
    · exact absurd hslot.dotted ((h.undotted_of_isFolder hdir) n (by simp)).2.2

/-- What lies below is known, so it is known where a path leads. -/
lemma way (h : Grounds d root q files dirs) {e : Entry} (hr : ∀ n ∈ r, Fits n)
    (he : d.at? (q ++ r) = some e) (hl : ∀ t, e ≠ .link t) :
    ∃ links, Way d linkLimit (d.startOf root) (root.steps ++ r) links (q ++ r) := by
  obtain ⟨links, hw⟩ := h.leads
  exact ⟨links, hw.append (h.sound.way_of_at? links hr he hl)⟩

lemma locate {e : Entry} {last : Bool} (h : Grounds d root q files dirs) (hf : Reaches root f r)
    (hne : r ≠ []) (hr : ∀ n ∈ r, Fits n) (he : d.at? (q ++ r) = some e) (hl : ∀ t, e ≠ .link t) :
    d.locate last f = .ok (q ++ r) := by
  obtain ⟨links, hw⟩ := h.leads
  rw [Disk.locate, Disk.find_steps hf.valid hf.ends, hf.startOf, hf.steps,
    hw.follow_append (Or.inr hne), h.sound.follow_of_at? hr he hl]

lemma locate_file {last : Bool} (h : Grounds d root q files dirs) (hr : (r, bytes) ∈ files)
    (hf : r.foldl (· / ·) root = f) : d.locate last f = .ok (q ++ r) := by
  obtain ⟨s, n, he, hslot⟩ := h.slots _ hr
  obtain rfl : r = s ++ [n] := he
  subst hf
  exact h.locate hslot.reaches (by simp) (fun m hm => (hslot.names m hm).2) (h.at?_file hr)
    (by simp)

lemma read (h : Grounds d root q files dirs) (hr : (r, bytes) ∈ files)
    (hf : r.foldl (· / ·) root = f) : d.read f = .ok bytes :=
  Disk.read_iff.2 ⟨_, h.locate_file hr hf, h.at?_file hr⟩

lemma isFile (h : Grounds d root q files dirs) (hr : r ∈ files.map Prod.fst)
    (hf : r.foldl (· / ·) root = f) : d.isFile f = true := by
  obtain ⟨x, hx, rfl⟩ := List.mem_map.1 hr
  exact Disk.isFile_iff.2 ⟨x.2, h.read hx hf⟩

/-- What is above a file can be asked for as the file can. -/
lemma reaches_above {x : Place × ByteArray} (h : Grounds d root q files dirs) (hx : x ∈ files)
    (hr : r <+: x.1) (hne : r ≠ []) : Reaches root (r.foldl (· / ·) root) r := by
  obtain ⟨s, n, he, hslot⟩ := h.slots x hx
  obtain ⟨t, ht⟩ := hr
  have hall : ∀ m ∈ r ++ t, IsName m := fun m hm => (hslot.names m (he ▸ ht ▸ hm)).1
  rw [List.forall_mem_append] at hall
  have hends : (r.foldl (· / ·) root).EndsInStep := Path.endsInStep_foldl hne hall.1
  refine ⟨hslot.valid.of_front ?_ hends.text_ne, hends, Path.steps_foldl hall.1,
    Path.isAbsolute_foldl hall.1⟩
  rw [← he, ← ht, List.foldl_append]
  exact Path.text_front_foldl hall.2

/-- The last step of a path to a file in a directory that is there. -/
lemma exists_at (h : Grounds d root q files dirs) (hslot : Slot root s n)
    (hf : Reaches root f (s ++ [n])) (hs : IsFolder files dirs s) :
    ∃ links, At d f n links (q ++ s) := by
  obtain ⟨links, hw⟩ := h.way (fun m hm => (hslot.undotted m hm).2.1) (h.at?_folder hs) (by simp)
  refine ⟨links, hf.valid, hf.ends, root.steps ++ s, ?_, ?_⟩
  · rw [hf.steps, List.append_assoc]
  · rw [hf.startOf]
    exact hw

/-- A file that is put into a directory. -/
lemma put (h : Grounds d root q files dirs) (hslot : Slot root s n)
    (hs : IsFolder files dirs s) (hnew : s ++ [n] ∉ files.map Prod.fst)
    (bytes : ByteArray) : Extends d (d.set (q ++ s ++ [n]) (.file bytes)) ∧
      Grounds (d.set (q ++ s ++ [n]) (.file bytes)) root q ((s ++ [n], bytes) :: files) dirs := by
  have hfree := h.at?_slot hslot hnew
  have hat (r : Place) : (d.set (q ++ s ++ [n]) (.file bytes)).at? r =
      if r = q ++ s ++ [n] then some (.file bytes) else d.at? r := Disk.at?_set_concat _ _ _ _ _
  have hputs : Disk.Puts d (.file bytes) (q ++ s) n :=
    ⟨Disk.hasDirectory_iff.2 (h.at?_folder hs), hslot.named, Or.inl hfree⟩
  refine ⟨⟨rfl, fun {r e} he => ?_⟩, hputs.sound h.sound, ?_, hputs.keeps.hasDirectory h.directory,
    fun r e hr => ?_, ?_, h.undotted⟩
  · rw [hat, if_neg, he]
    rintro rfl
    rw [hfree] at he
    cases he
  · obtain ⟨links, hw⟩ := h.leads
    refine ⟨links, ?_⟩
    rw [hputs.keeps.startOf]
    exact hw.keeps hputs.keeps
  · -- the directories are the same, for those of the new file were there
    have hfolders : IsFolder ((s ++ [n], bytes) :: files) dirs r ↔ IsFolder files dirs r := by
      refine ⟨?_, Or.imp id fun ⟨x, hx, hp⟩ => ⟨x, List.mem_cons_of_mem _ hx, hp⟩⟩
      rintro (hr | ⟨x, hx, hp, hne⟩)
      · exact Or.inl hr
      · rcases List.mem_cons.1 hx with rfl | hx
        · have hp := (List.prefix_concat_iff.1 hp).resolve_left hne
          exact hs.imp (fun ⟨t, ht, hst⟩ => ⟨t, ht, hp.trans hst⟩) fun ⟨x, hx, hst, hne⟩ =>
            ⟨x, hx, hp.trans hst, fun e => hne (hst.eq_of_length (le_antisymm hst.length_le
              (e ▸ hp.length_le)))⟩
        · exact Or.inr ⟨x, hx, hp, hne⟩
    rw [hat, hfolders]
    by_cases he : r = s ++ [n]
    · subst he
      have hother : ¬ IsFolder files dirs (s ++ [n]) := fun hdir =>
        ((h.undotted_of_isFolder hdir) n (by simp)).2.2 hslot.dotted
      have hnone (b : ByteArray) : (s ++ [n], b) ∉ files := fun hmem =>
        hnew (List.mem_map_of_mem hmem)
      rw [if_pos (by simp)]
      simp [hnone, hother, eq_comm]
    · rw [if_neg (by simpa using he), h.below r e hr]
      simp [he]
  · rw [List.forall_mem_cons]
    exact ⟨⟨s, n, rfl, hslot⟩, h.slots⟩

/-- Only what there is counts, and not in which order it is told. -/
lemma congr (h : Grounds d root q files dirs) (hfiles : ∀ x, x ∈ files' ↔ x ∈ files)
    (hdirs : ∀ r, r ≠ [] → (IsFolder files' dirs' r ↔ IsFolder files dirs r))
    (hnames : ∀ s ∈ dirs', Undotted s) : Grounds d root q files' dirs' := by
  refine ⟨h.sound, h.leads, h.directory, fun r e hr => ?_, fun x hx => h.slots x ((hfiles x).1 hx),
    hnames⟩
  rw [h.below r e hr, hdirs r hr]
  simp only [hfiles]

/-- A path leads nowhere if its first name is that of nothing. -/
lemma locate_absent {m : String} {last : Bool} (h : Grounds d root q files dirs)
    (hf : Reaches root f (m :: r)) (hm : Fits m) (he : d.at? (q ++ [m]) = none) :
    d.locate last f = .error .notFound := by
  obtain ⟨links, hw⟩ := h.leads
  rw [Disk.locate, Disk.find_steps hf.valid hf.ends, hf.startOf, hf.steps,
    hw.follow_append (Or.inr (by simp)), Disk.follow_absent h.directory hm he]
  split
  · rename_i hfree
    split at hfree
    · cases hfree
    · cases hfree
  · rfl
  · rename_i herror
    split at herror
    · cases herror
    · exact congrArg Except.error (Except.error.inj herror).symm

lemma not_exists (h : Grounds d root q files dirs) (hslot : Slot root s n)
    (hs : IsFolder files dirs s) (hnew : s ++ [n] ∉ files.map Prod.fst) :
    d.exists? ((s ++ [n]).foldl (· / ·) root) = false := by
  obtain ⟨links, hat⟩ := h.exists_at hslot hslot.reaches hs
  rw [Disk.exists?, Disk.entry?, Disk.locate, hat.find, Disk.follow_absent
    (Disk.hasDirectory_iff.2 (h.at?_folder hs)) hslot.fits (h.at?_slot hslot hnew)]
  rfl

/-! ### Directories and files that are made -/

lemma makes (h : Grounds d root q files dirs) (hs : Undotted s) : ∃ links d',
    Makes d linkLimit (d.startOf root) (root.steps ++ s) d' links (q ++ s) ∧ Extends d d' ∧
      Grounds d' root q files (s :: dirs) := by
  obtain ⟨links, hw⟩ := h.leads
  obtain ⟨d', hm, hd'⟩ := Disk.exists_makes links h.sound h.directory
    (fun n hn => ⟨(hs n hn).1, (hs n hn).2.1⟩) fun t ht => h.at?_undotted (hs.front ht)
  refine ⟨links, d', hw.makes.append hm, ⟨hm.keeps.here, fun he => (hd' _ _).2 (Or.inl he)⟩,
    hm.sound h.sound, ⟨links, ?_⟩, hm.keeps.hasDirectory h.directory, fun r e hr => ?_, h.slots,
    List.forall_mem_cons.2 ⟨hs, h.undotted⟩⟩
  · rw [hm.keeps.startOf]
    exact hw.keeps hm.keeps
  · have hfolder : IsFolder files (s :: dirs) r ↔ r <+: s ∨ IsFolder files dirs r := by
      simp only [IsFolder, List.mem_cons, or_and_right, exists_or, exists_eq_left, or_assoc]
    have hprefix : (∃ t, t <+: s ∧ q ++ r = q ++ t) ↔ r <+: s := by
      simp only [List.append_right_inj, exists_eq_right']
    rw [hd', hprefix, h.below r e hr, hfolder]
    generalize (∃ bytes, (r, bytes) ∈ files ∧ e = .file bytes) = isFile
    tauto

lemma makeDirectories (h : Grounds d root q files dirs) (hs : Undotted s) (hf : Reaches root f s) :
    ∃ d', Disk.perform (Files.makeDirectories f) d = (.ok (), d') ∧ Extends d d' ∧
      Grounds d' root q files (s :: dirs) := by
  obtain ⟨links, d', hm, hextends, hgrounds⟩ := h.makes hs
  refine ⟨d', (Disk.makeDirectories_iff hf.ends).2 ⟨hf.valid, links, q ++ s, ?_, ?_⟩, hextends,
    hgrounds⟩
  · rw [hf.startOf, hf.steps]
    exact hm
  · exact Disk.hasDirectory_iff.2
      (hgrounds.at?_folder (Or.inl ⟨s, List.mem_cons_self, List.prefix_rfl⟩))

lemma makeParent (h : Grounds d root q files dirs) (hslot : Slot root s n)
    (hf : Reaches root f (s ++ [n])) : ∃ d', outcome (Files.makeParent f) d = (.ok (), d') ∧
      Extends d d' ∧ Grounds d' root q files (s :: dirs) := by
  obtain ⟨g, m, hg, hparent, hsteps, -⟩ := Disk.exists_front hf.ends
  obtain ⟨hsteps, -⟩ : g.steps = root.steps ++ s ∧ [m] = [n] := by
    rw [hf.steps, ← List.append_assoc] at hsteps
    obtain ⟨hfront, hlast⟩ := List.append_inj' hsteps rfl
    exact ⟨hfront.symm, hlast.symm⟩
  have habsolute : g.isAbsolute = root.isAbsolute := hparent.absolute.trans hf.absolute
  have hvalid (hne : g.text ≠ "") : g.Valid := hf.valid.of_front hparent.text_front hne
  have hthere (d' : Disk) : Disk.perform (Files.makeDirectories g) d = (.ok (), d') →
      outcome (Files.makeParent f) d = (.ok (), d') := by
    intro hmake
    rw [Files.makeParent, hg]
    exact Disk.outcome_orRefused_ok.2 hmake
  rcases hparent.ends with hends | hempty
  · obtain ⟨d', hmake, hrest⟩ := h.makeDirectories hslot.undotted
      ⟨hvalid hends.text_ne, hends, hsteps, habsolute⟩
    exact ⟨d', hthere d' hmake, hrest⟩
  · -- the root has no steps, so it is where paths start from, and there is nothing to make
    obtain ⟨hroot, rfl⟩ : root.steps = [] ∧ s = [] :=
      List.append_eq_nil_iff.1 (hsteps.symm.trans hempty)
    obtain ⟨links, hw⟩ := h.leads
    rw [hroot] at hw
    have hdir : d.hasDirectory (d.startOf g) = true := by
      cases hw
      rw [Disk.startOf, habsolute]
      exact h.directory
    refine ⟨d, hthere d ?_, ⟨rfl, id⟩, h.congr (fun _ => Iff.rfl) (fun r hr => ?_) ?_⟩
    · by_cases hne : g.text = ""
      · rw [Files.makeDirectories, Disk.makeFrom_empty hne, Disk.perform_pure]
      · exact (Disk.makeDirectories_of_no_steps hempty hne).2 ⟨rfl, Disk.isDirectory_iff.2
          ⟨_, Disk.locate_of_no_steps (hvalid hne) hempty hdir, hdir⟩⟩
    · simp [IsFolder, hr]
    · exact List.forall_mem_cons.2 ⟨by simp [Undotted], h.undotted⟩

/-- A file that is written where there is none, together with the directories above it. -/
lemma write (h : Grounds d root q files dirs) (hslot : Slot root s n)
    (hf : Reaches root f (s ++ [n])) (hs : IsFolder files dirs s)
    (hnew : s ++ [n] ∉ files.map Prod.fst) (bytes : ByteArray) :
    ∃ d', d.createNew f bytes = .ok d' ∧ d.write f bytes = .ok d' ∧ Extends d d' ∧
      Grounds d' root q ((s ++ [n], bytes) :: files) dirs := by
  obtain ⟨links, hat⟩ := h.exists_at hslot hf hs
  have hdir := Disk.hasDirectory_iff.2 (h.at?_folder hs)
  have hfree := h.at?_slot hslot hnew
  exact ⟨_, hat.createNew_free hdir hslot.fits hfree, hat.write_free hdir hslot.fits hfree,
    h.put hslot hs hnew bytes⟩

/-- The directory of a file need not be told apart. -/
lemma absorb (h : Grounds d root q ((s ++ [n], bytes) :: files) (s :: dirs)) :
    Grounds d root q ((s ++ [n], bytes) :: files) dirs := by
  refine h.congr (fun _ => Iff.rfl) (fun r _ => ?_) fun t ht =>
    h.undotted t (List.mem_cons_of_mem _ ht)
  refine ⟨Or.imp (fun ⟨t, ht, hp⟩ => ⟨t, List.mem_cons_of_mem _ ht, hp⟩) id, ?_⟩
  rintro (⟨t, ht, hp⟩ | hr)
  · rcases List.mem_cons.1 ht with rfl | ht
    · refine Or.inr ⟨_, List.mem_cons_self, hp.trans (List.prefix_append _ _), ?_⟩
      rintro rfl
      simpa using hp.length_le
    · exact Or.inl ⟨t, ht, hp⟩
  · exact Or.inr hr

lemma exists_parent_write (h : Grounds d root q files dirs) (hslot : Slot root s n)
    (hnew : s ++ [n] ∉ files.map Prod.fst) (bytes : ByteArray) :
    ∃ d₁ d', outcome (Files.makeParent ((s ++ [n]).foldl (· / ·) root)) d = (.ok (), d₁) ∧
      d₁.createNew ((s ++ [n]).foldl (· / ·) root) bytes = .ok d' ∧
      d₁.write ((s ++ [n]).foldl (· / ·) root) bytes = .ok d' ∧ Extends d d' ∧
      Grounds d' root q ((s ++ [n], bytes) :: files) dirs := by
  obtain ⟨d₁, hparent, hextends, hgrounds⟩ := h.makeParent hslot hslot.reaches
  obtain ⟨d', hnew, hwrite, hextends', hgrounds'⟩ := hgrounds.write hslot hslot.reaches
    (Or.inl ⟨s, List.mem_cons_self, List.prefix_rfl⟩) hnew bytes
  exact ⟨d₁, d', hparent, hnew, hwrite, hextends.trans hextends', hgrounds'.absorb⟩

/-! ### Files one after the other -/

/-- Nothing is below an empty directory. -/
lemma exists_of_empty (hd : d.Sound) (h : d.list root = .ok []) :
    root.Valid ∧ ∃ q, Grounds d root q [] [] := by
  obtain ⟨q, hq, hlist⟩ := bind_eq_ok.1 h
  obtain ⟨hv, hleads⟩ := Disk.leads_of_locate hq
  split at hlist
  · rename_i hdir
    refine ⟨hv, q, hd, hleads, hdir, fun r e hr => ?_, by simp, by simp⟩
    refine iff_of_false (fun he => ?_) (by simp [IsFolder])
    obtain ⟨n, r, rfl⟩ := List.exists_cons_of_ne_nil hr
    have hmem := (Disk.mem_namesIn hd).2 (hd.exists_at? he)
    rw [Except.ok.inj hlist] at hmem
    cases hmem
  · cases hlist

end Grounds

/-- A computation that writes a new file, wherever there is none of this name yet. -/
def Writes {α : Type} (root : Path) (q r : Place) (bytes : ByteArray)
    (x : ExceptT Error (StateM Disk) α) (a : α) : Prop :=
  ∀ ⦃d files dirs⦄, Grounds d root q files dirs → r ∉ files.map Prod.fst →
    ∃ d', outcome x d = (.ok a, d') ∧ Extends d d' ∧ Grounds d' root q ((r, bytes) :: files) dirs

/-- **A new file is written safely.** -/
lemma writes_safely (hslot : Slot root s n) (text : String) :
    Writes root q (s ++ [n]) text.toUTF8 (safeWrite ((s ++ [n]).foldl (· / ·) root) text) () := by
  intro d files dirs h hnew
  obtain ⟨d₁, d', hparent, hcreate, -, hrest⟩ := h.exists_parent_write hslot hnew text.toUTF8
  refine ⟨d', ?_, hrest⟩
  rw [Files.outcome_safeWrite hparent, hcreate]

/-- **So is one that may be written over.** -/
lemma writes_over (hslot : Slot root s n) (text : String) :
    Writes root q (s ++ [n]) text.toUTF8 (overwrite ((s ++ [n]).foldl (· / ·) root) text) () := by
  intro d files dirs h hnew
  obtain ⟨d₁, d', hparent, -, hwrite, hrest⟩ := h.exists_parent_write hslot hnew text.toUTF8
  refine ⟨d', Disk.outcome_bind_ok.2 ⟨(), d₁, hparent, ?_⟩, hrest⟩
  exact Disk.outcome_orRefused_ok.2 (Disk.perform_change_ok.2 hwrite)

section

variable {α β : Type} {act : α → ExceptT Error (StateM Disk) β} {place : α → Place}
  {content : α → ByteArray} {value : α → β} {l : List α}

/-- New files under different names are written one after the other. -/
lemma Grounds.mapM (h : Grounds d root q files dirs)
    (hact : ∀ a ∈ l, Writes root q (place a) (content a) (act a) (value a))
    (hnodup : (l.map place).Nodup) (hnew : ∀ a ∈ l, place a ∉ files.map Prod.fst) :
    ∃ d', outcome (l.mapM act) d = (.ok (l.map value), d') ∧ Extends d d' ∧
      Grounds d' root q ((l.map fun a => (place a, content a)).reverse ++ files) dirs := by
  induction l generalizing d files with
  | nil => exact ⟨d, rfl, ⟨rfl, id⟩, h⟩
  | cons a l ih =>
    rw [List.forall_mem_cons] at hact hnew
    rw [List.map_cons, List.nodup_cons] at hnodup
    obtain ⟨d₁, hfirst, hextends, hgrounds⟩ := hact.1 h hnew.1
    obtain ⟨d', hrest, hextends', hgrounds'⟩ := ih hgrounds hact.2 hnodup.2 fun b hb => by
      rw [List.map_cons, List.mem_cons, not_or]
      exact ⟨fun heq => hnodup.1 (List.mem_map.2 ⟨b, hb, heq⟩), hnew.2 b hb⟩
    refine ⟨d', ?_, hextends.trans hextends', ?_⟩
    · rw [List.mapM_cons]
      refine Disk.outcome_bind_ok.2 ⟨_, d₁, hfirst, Disk.outcome_bind_ok.2 ⟨_, d', hrest, rfl⟩⟩
    · simpa using hgrounds'

lemma outcome_forM {bs : List PUnit} {act : α → ExceptT Error (StateM Disk) PUnit}
    (h : outcome (l.mapM act) d = (.ok bs, d')) : outcome (l.forM act) d = (.ok (), d') := by
  induction l generalizing d bs with
  | nil => exact congrArg (fun x => (Except.ok (), x.2)) h
  | cons a l ih =>
    rw [List.mapM_cons] at h
    obtain ⟨b, d₁, hfirst, hrest⟩ := Disk.outcome_bind_ok.1 h
    obtain ⟨cs, d₂, htail, hend⟩ := Disk.outcome_bind_ok.1 hrest
    obtain ⟨-, rfl⟩ := Prod.mk.inj hend
    exact Disk.outcome_bind_ok.2 ⟨b, d₁, hfirst, ih htail⟩

end

end Files

end ProviderGen
