import ProviderGen.Proofs.Disk.Absolute
import ProviderGen.Proofs.Project.Entries

/-!
What packing leaves alone. The archive is refused where it would lie on or in something that is
packed. For that its place is made out from its directory and its name, and the places of what is
packed from their paths. So a link at the end of its path is overlooked, and so are links in the
packed trees and what is packed but not there yet; an absolute path that is too long to be asked for
cannot be told to be a directory. Where nothing of this comes in, the archive does not become an
entry of itself, and no packed file is another afterwards.
-/

namespace ProviderGen.Project

open Archive (StandsFor)
open Disk (Askable At EndsInLink Fits Rewrites outcome)
open Path (IsName)

/-- What is read for an entry is not the archive, which is at this place, and is as it was. -/
structure Spared (d d₁ d' : Disk) (a : Place) (f : Path) : Prop where
  apart : d₁.locate true f ≠ .ok a
  same : ∀ bytes, d.read f = .ok bytes → d'.read f = .ok bytes

/-- How the archive, which is at this place, comes to be one of the files that a packed path stands
for, although it was accepted. -/
inductive Overlooked (d : Disk) (archive : Path) (a : Place) (part f : Path) : Prop where
  | archiveLink (h : EndsInLink d archive) : Overlooked d archive a part f
  | packedLink (h : EndsInLink d f) (hne : f ≠ part) : Overlooked d archive a part f
  | missing (h : ∀ q, d.locate true part ≠ .ok q) : Overlooked d archive a part f
  | long (h : ¬ Askable a) : Overlooked d archive a part f

variable {d d' d₁ : Disk} {p : Project} {archive f part : Path} {a q r : Place} {m n : String}
  {links : ℕ} {packed files : List Path}

/-! ### The place of the archive -/

/-- The directory of a path is where its last step starts. -/
lemma locate_directoryOf (h : At d archive n links q) (hq : d.hasDirectory q = true) :
    d.locate true (directoryOf archive) = .ok q := by
  obtain ⟨g, m, hg, hparent, hsteps, -, hstart⟩ := Disk.exists_front h.ends
  obtain ⟨front, hfront, hw⟩ := h.way
  obtain ⟨rfl, -⟩ := List.append_inj' (hfront.symm.trans hsteps) rfl
  rw [hstart] at hw
  unfold directoryOf
  rw [hg]
  dsimp only
  by_cases hempty : g.text = ""
  · -- a single name lies in the current directory
    rw [if_pos hempty]
    obtain ⟨t⟩ := g
    obtain rfl : t = "" := hempty
    cases hw
    exact Disk.locate_of_no_steps (f := ⟨"."⟩) (by decide) (by decide) hq
  · rw [if_neg hempty]
    have hvalid := h.valid.of_front hparent.text_front hempty
    rcases hparent.ends with hends | hnone
    · exact (Disk.locate_iff hvalid hends).2 ⟨links, hw⟩
    · rw [hnone] at hw
      cases hw
      exact Disk.locate_of_no_steps hvalid hnone hq

/-- An archive that is accepted, and that is where its name says, is apart from what is there. -/
lemma apart_of_accepted (hd : d.Sound) (hat : At d archive n links r)
    (hr : d.hasDirectory r = true) (hn : Fits n)
    (h : outcome (checkPlace archive packed) d = (.ok (), d)) (hpart : part ∈ packed)
    (hq : d.locate true part = .ok q) :
    r ++ [n] ≠ q ∧ (Askable (r ++ [n]) → d.hasDirectory q = true → ¬ q <+: r ++ [n]) := by
  obtain ⟨front, hsteps, -⟩ := hat.way
  have hname : archive.fileName? = some n := Path.fileName?_of_steps hat.ends hsteps hn.notUp
  have htop : d.canonical (directoryOf archive) = .ok (Disk.absolute r) :=
    Disk.canonical_iff.2 ⟨r, locate_directoryOf hat hr, rfl⟩
  have hnames : ∀ m ∈ r, IsName m := fun m hm =>
    hd.isName_of_mem (q := []) (Disk.hasDirectory_iff.1 hr) hm
  have hlast : IsName n := hn.isName hat.noSlash
  have hall : ∀ m ∈ r ++ [n], IsName m := by
    rw [List.forall_mem_append, List.forall_mem_singleton]
    exact ⟨hnames, hlast⟩
  obtain ⟨hother, hbelow⟩ := (checkPlace_iff htop hname).1 h part hpart _
    (Disk.canonical_iff.2 ⟨q, hq, rfl⟩)
  rw [← Disk.absolute_concat hnames hlast] at hother hbelow
  refine ⟨fun heq => hother (by rw [heq]), fun hask hdir hprefix => ?_⟩
  obtain ⟨s, hs⟩ := hprefix
  rw [← hs] at hask hbelow hall
  have hnone := hbelow (Disk.isDirectory_absolute hd (hask.front hall) hdir)
  have hsome := Disk.isSome_below?_absolute hall
  rw [hnone] at hsome
  cases hsome

/-! ### What a packed path stands for -/

/-- A name below a directory leads to what is there, in the directory that holds it. -/
lemma place_of_below (hd : d.Sound) (hends : part.EndsInStep) (hq : d.locate true part = .ok q)
    (hdir : d.hasDirectory (q ++ r) = true) (hnames : ∀ k ∈ r ++ [m], IsName k)
    (hat : At d ((r ++ [m]).foldl (· / ·) part) n links a) : a = q ++ r ∧ n = m := by
  obtain ⟨front, hfront, hw⟩ := hat.way
  rw [Path.steps_foldl hnames, ← List.append_assoc] at hfront
  obtain ⟨rfl, hlast⟩ := List.append_inj' hfront rfl
  rw [Disk.startOf, Path.isAbsolute_foldl hnames, ← Disk.startOf] at hw
  obtain ⟨links', hbehind⟩ := hw.behind (Disk.exists_way_of_locate hq).1 hends hq
  have hplace := hd.eq_of_way (Disk.hasDirectory_iff.1 hdir) (by simp) hbehind
  exact ⟨hplace, (List.singleton_inj.1 hlast).symm⟩

/-- The disk with the archive on it, which was accepted. -/
structure Accepted (d : Disk) (archive : Path) (packed : List Path) (a : Place) (d₁ : Disk) :
    Prop where
  before : d.Sound
  after : d₁.Sound
  rewrites : Rewrites d a d₁
  leads : d₁.locate true archive = .ok a
  accepted : outcome (checkPlace archive packed) d = (.ok (), d)

lemma Accepted.apart (h : Accepted d archive packed a d₁) (hlink : ¬ EndsInLink d archive)
    (hpart : part ∈ packed) (hq : d.locate true part = .ok q) :
    a ≠ q ∧ (Askable a → d.hasDirectory q = true → ¬ q <+: a) := by
  obtain ⟨n, links, r, hat, hr, hn, rfl | hends⟩ := h.rewrites.exists_at h.after h.leads
  · exact apart_of_accepted h.before hat hr hn h.accepted hpart hq
  · exact absurd hends hlink

/-- A file in a packed tree. -/
lemma Accepted.overlooked_below {e : Entry} (h : Accepted d archive packed a d₁)
    (hlink : ¬ EndsInLink d archive) (hpart : part ∈ packed) (hends : part.EndsInStep)
    (hq : d.locate true part = .ok q) (hdir : d.hasDirectory q = true) (hr : r ≠ [])
    (he : d₁.at? (q ++ r) = some e) (hleads : d₁.locate true (r.foldl (· / ·) part) = .ok a) :
    Overlooked d archive a part (r.foldl (· / ·) part) := by
  have hnames : ∀ k ∈ r, IsName k := fun k hk => h.after.isName_of_mem he hk
  obtain ⟨n, links, s, hat, -, -, rfl | hlast⟩ := h.rewrites.exists_at h.after hleads
  · -- the archive lies in the tree, which is refused if the two can be compared
    refine .long fun hask => (h.apart hlink hpart hq).2 hask hdir ?_
    cases r using List.reverseRecOn with
    | nil => exact absurd rfl hr
    | append_singleton r m =>
      rw [← List.append_assoc] at he
      have habove := h.rewrites.hasDirectory (h.after.inDirectory he)
      obtain ⟨rfl, rfl⟩ := place_of_below h.before hends hq habove hnames hat
      rw [List.append_assoc]
      exact List.prefix_append _ _
  · refine .packedLink hlast fun heq => hr ?_
    have hsteps := Path.steps_foldl (p := part) hnames
    rw [heq] at hsteps
    simpa using hsteps

/-- Only what is overlooked is the archive. -/
lemma Accepted.overlooked (h : Accepted d archive packed a d₁) (hpart : part ∈ packed)
    (hends : part.EndsInStep) (hfiles : StandsFor d₁ part files) (hf : f ∈ files)
    (hleads : d₁.locate true f = .ok a) : Overlooked d archive a part f := by
  by_cases hlink : EndsInLink d archive
  · exact .archiveLink hlink
  by_cases hisDir : d₁.isDirectory part = true
  · -- the archive is a file, so the directory was there before
    obtain ⟨q, hq₁, hdir₁⟩ := Disk.isDirectory_iff.1 hisDir
    have hqa := h.rewrites.ne_of_hasDirectory hdir₁
    have hq := h.rewrites.locate hq₁ hqa
    have hdir := h.rewrites.hasDirectory hdir₁
    obtain ⟨start, ls, hls, rfl⟩ := standsFor_directory h.after hq₁ hdir₁ hfiles
    have hcases : f = part ∨ ∃ r ∈ ls, r.foldl (· / ·) part = f := by
      split at hf
      · exact Or.inr (List.mem_map.1 hf)
      · exact (List.mem_cons.1 hf).imp_right List.mem_map.1
    rcases hcases with rfl | ⟨r, hr, rfl⟩
    · exact absurd (Except.ok.inj (hq₁.symm.trans hleads)) hqa
    · obtain ⟨hne, e, he, -⟩ := (hls.mem_iff h.after).1 hr
      exact h.overlooked_below hlink hpart hends hq hdir hne he hleads
  · unfold StandsFor at hfiles
    rw [if_neg hisDir] at hfiles
    subst hfiles
    obtain rfl := List.mem_singleton.1 hf
    -- what was there leads where it led, so it would have been refused
    refine .missing fun q hq => (h.apart hlink hpart hq).1 ?_
    exact Except.ok.inj (hleads.symm.trans (h.rewrites.keeps.locate hq))

/-! ### Packing -/

lemma endsInStep_of_mem_packedPaths (hn : IsName n)
    (h : part ∈ packedPaths p.root (p.root / "target" / n)) : part.EndsInStep := by
  have hall : ∀ part ∈ packedPaths p.root (p.root / "target" / n), part.EndsInStep := by
    unfold packedPaths
    simp only [List.forall_mem_cons]
    exact ⟨hn.endsInStep_join, IsName.endsInStep_join (by decide),
      IsName.endsInStep_join (by decide), IsName.endsInStep_join (by decide), by simp⟩
  exact hall part h

/-- However packing ends, only the file at the place of the archive is another. -/
lemma Begins.rewrites {r : Except Error Unit} (h : Begins d p archive f d₁) (hd : d.Sound)
    (ho : outcome (p.pack archive) d = (r, d')) : ∃ a, d₁.Sound ∧ Rewrites d a d₁ ∧
      d₁.locate true archive = .ok a ∧ Rewrites d a d' ∧ d'.locate true archive = .ok a := by
  obtain ⟨a, hrewrites, hd₁, hleads, -⟩ := Disk.exists_rewrites hd h.opened
  refine ⟨a, hd₁, hrewrites, hleads, ?_⟩
  rw [h.outcome_pack] at ho
  dsimp only at ho
  split at ho
  · rename_i d₂ hwrite
    obtain ⟨-, rfl⟩ := Prod.mk.inj ho
    obtain ⟨b, hagain, -, hleads', -⟩ := Disk.exists_rewrites hd₁ hwrite
    obtain rfl := Except.ok.inj (hleads'.symm.trans (hagain.keeps.locate hleads))
    exact ⟨hrewrites.trans hagain, hleads'⟩
  · obtain ⟨-, rfl⟩ := Prod.mk.inj ho
    exact ⟨hrewrites, hleads⟩

/-- **Packing fails and changes nothing, or it changes the archive only, and what is packed is
spared unless it is overlooked.** -/
theorem pack_spares {r : Except Error Unit} (hd : d.Sound)
    (h : outcome (p.pack archive) d = (r, d')) : (d' = d ∧ ∃ e, r = .error e) ∨
      ∃ n d₁ a, (∀ m, IsArtifact d p m ↔ m = n) ∧ d.write archive .empty = .ok d₁ ∧
        Rewrites d a d₁ ∧ Rewrites d a d' ∧ d'.locate true archive = .ok a ∧
        ∀ part ∈ packedPaths p.root (p.root / "target" / n), ∀ files, StandsFor d₁ part files →
          ∀ f ∈ files, Spared d d₁ d' a f ∨
            (d₁.locate true f = .ok a ∧ Overlooked d archive a part f) := by
  rcases begins_or_fails h with ⟨f, d₁, hbegins⟩ | hfails
  · obtain ⟨-, n, rfl, hn⟩ := find_ok hd hbegins.found
    obtain ⟨a, hd₁, hrewrites, hleads, hrewrites', hleads'⟩ := hbegins.rewrites hd h
    refine Or.inr ⟨n, d₁, a, hn, hbegins.opened, hrewrites, hrewrites', hleads', ?_⟩
    intro part hpart files hfiles f hf
    have hends := endsInStep_of_mem_packedPaths ((hn n).2 rfl).named hpart
    by_cases hplace : d₁.locate true f = .ok a
    · have haccepted : Accepted d archive _ a d₁ :=
        ⟨hd, hd₁, hrewrites, hleads, hbegins.accepted⟩
      exact Or.inr ⟨hplace, haccepted.overlooked hpart hends hfiles hf hplace⟩
    · refine Or.inl ⟨hplace, fun bytes hread => ?_⟩
      exact hrewrites'.read_of_ne hread fun hf => hplace (hrewrites.keeps.locate hf)
  · exact Or.inl hfails

/-- With an archive that is new, and apart from what is packed, all is spared. -/
theorem depot_spared : depot.Sound ∧ ∃ d', outcome (depotProject.pack depotArchive) depot =
    (.ok (), d') ∧ ∃ d₁ a, depot.write depotArchive .empty = .ok d₁ ∧ Rewrites depot a d' ∧
      ∀ part ∈ packedPaths depotProject.root
        (depotProject.root / "target" / "depot-1-SNAPSHOT.jar"),
        ∀ files, StandsFor d₁ part files → ∀ f ∈ files, Spared depot d₁ d' a f := by
  obtain ⟨d', h⟩ := depot_pack
  refine ⟨depot_sound, d', h, ?_⟩
  rcases pack_spares depot_sound h with ⟨-, e, he⟩ |
    ⟨n, d₁, a, hn, hopened, hrewrites, hagain, -, hall⟩
  · cases he
  obtain rfl := (hn _).1 depot_stocked.artifact
  refine ⟨d₁, a, hopened, hagain, fun part hpart files hfiles f hf => ?_⟩
  refine (hall part hpart files hfiles f hf).resolve_right fun ⟨_, hover⟩ => ?_
  have hlinks {f : Path} : ¬ EndsInLink depot f := fun ⟨q, t, _, ht⟩ => depot_unlinked q t ht
  cases hover with
  | archiveLink hlink => exact hlinks hlink
  | packedLink hlink => exact hlinks hlink
  | missing hmissing =>
    rw [depot_paths] at hpart
    obtain ⟨names, hmem, rfl⟩ := List.mem_map.1 hpart
    have hthere : ∀ names ∈ depotPaths, names ∈ depotFiles ++ depotDirectories := by decide
    exact hmissing _ (depot_stocked.locate true names (hthere names hmem))
  | long hlong =>
    refine hlong ?_
    have hplace : a = ["z"] := by
      by_contra hne
      have hwritten : depot.write depotArchive .empty = .ok _ :=
        Disk.write_free depot_free (by decide)
      obtain rfl := Except.ok.inj (hopened.symm.trans hwritten)
      have hsame := hrewrites.others ["z"] (Ne.symm hne)
      cases hsame
    rw [hplace]
    decide

/-! ### Through a link -/

/-- Whatever leads where the path of the archive leads is the archive afterwards. -/
lemma Begins.overwrites (h : Begins d p archive part d₁) (hd : d.Sound)
    (harchive : d.locate true archive = .ok a) (hf : d.locate true f = .ok a) :
    ∃ r d' es, outcome (p.pack archive) d = (r, d') ∧
      d'.read f = .ok (Archive.Zip.encode es) := by
  obtain ⟨b, hrewrites, hd₁, hleads, hb⟩ := Disk.exists_rewrites hd h.opened
  obtain rfl := Except.ok.inj (hleads.symm.trans (hrewrites.keeps.locate harchive))
  obtain ⟨_, _, _, hat, -⟩ := hrewrites.exists_at hd₁ hleads
  have hwrite (bytes : ByteArray) : d₁.write archive bytes = .ok (d₁.set b (.file bytes)) :=
    Disk.write_taken (Disk.find_of_locate hleads) hat.ends.not_asksForDirectory
      (Disk.hasDirectory_of_file hb)
  have hend := h.outcome_pack
  dsimp only at hend
  rw [hwrite] at hend
  obtain ⟨c, hagain, -, hleads', hc⟩ := Disk.exists_rewrites hd₁ (hwrite _)
  obtain rfl := Except.ok.inj (hleads'.symm.trans (hagain.keeps.locate hleads))
  have hplace := hagain.keeps.locate (hrewrites.keeps.locate hf)
  exact ⟨_, _, _, hend, Disk.read_iff.2 ⟨_, hplace, hc⟩⟩

/-- The depot, with a link to its build descriptor at the top. -/
def depotLinked : Disk := depot.set ["z"] (.link ⟨"p/pom.xml"⟩)

lemma depotLinked_stocked : Stocked depotLinked := stocked_set _

lemma depotLinked_locate : depotLinked.locate true depotArchive = .ok ["p", "pom.xml"] := by
  have hnames : depotArchive.names = ["z"] := by decide
  have htarget : Path.names ⟨"p/pom.xml"⟩ = ["p", "pom.xml"] := by decide
  have hbehind : depotLinked.Way 39 [] ["p", "pom.xml"] 39 ["p", "pom.xml"] :=
    depotLinked_stocked.sound.way_of_at? (p := []) 39 (by decide)
      (e := .file "<project/>".toUTF8) rfl (by simp)
  have hway : depotLinked.Way Disk.linkLimit [] ["z"] 39 ["p", "pom.xml"] := by
    refine .link (t := ⟨"p/pom.xml"⟩) rfl (by decide) rfl ?_
    rw [htarget]
    exact hbehind
  rw [← hnames, ← Disk.startOf_top (d := depotLinked) rfl depotArchive] at hway
  exact Disk.locate_of_way (by decide) hway

/-- The build descriptor is packed, and the archive is written over it. -/
theorem depot_overwritten : depotLinked.Sound ∧ ∃ r d' bytes bytes',
    outcome (depotProject.pack depotArchive) depotLinked = (r, d') ∧
      depotLinked.read (depotProject.root / "pom.xml") = .ok bytes ∧
      d'.read (depotProject.root / "pom.xml") = .ok bytes' ∧ bytes' ≠ bytes := by
  have h := depotLinked_stocked
  have hdescriptor := h.locate true ["pom.xml"] (by decide)
  have hread : depotLinked.read (depotProject.root / "pom.xml") = .ok "<project/>".toUTF8 :=
    Disk.read_iff.2 ⟨_, hdescriptor, rfl⟩
  have hnames : depotLinked.namesIn ["p", "target"] =
      ["depot-1-SNAPSHOT.jar", "generated-sources"] := rfl
  have hopened : depotLinked.write depotArchive .empty = .ok _ :=
    Disk.write_taken (Disk.find_of_locate depotLinked_locate) (by decide) rfl
  have hbegins : Begins depotLinked depotProject depotArchive _ _ :=
    ⟨h.find hnames, h.place, hopened⟩
  obtain ⟨r, d', es, hpack, hwritten⟩ := hbegins.overwrites h.sound depotLinked_locate hdescriptor
  refine ⟨h.sound, r, d', _, _, hpack, hread, hwritten, fun hsame => ?_⟩
  have hsize := Archive.Zip.size_encode es
  have hshort : "<project/>".toUTF8.size = 10 := by decide
  rw [hsame, hshort] at hsize
  omega

end ProviderGen.Project
