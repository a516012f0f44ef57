import ProviderGen.Proofs.Files.Grounds
import ProviderGen.Proofs.Project.Spared

/-!
Packing a project of which it is known all that lies below its root. One artifact, a build
descriptor, sources and generated sources are all that it takes: an archive at the top of the
project that is not there yet is accepted, and all that is to be packed can be read.
-/

namespace ProviderGen

open Disk (outcome)
open Files (Grounds IsFolder Slot)
open Path (IsName)

/-! ### Paths below one another -/

namespace Path

variable {g : Path} {r : Place} {n : String}

/-- A name is neither one with others behind it nor others. -/
lemma apart_of_ne (hr : ∀ m ∈ r, IsName m) (hn : IsName n) (hne : r ≠ []) (hne' : r ≠ [n]) :
    g / n ≠ r.foldl (· / ·) g ∧ (g / n).below? (r.foldl (· / ·) g) = none := by
  have hcomponents := components_foldl (p := g) hr
  have hname := components_join_name (p := g) hn
  have hinjective : (Component.name : String → Component).Injective := fun _ _ h => by
    injection h
  refine ⟨fun he => hne' ?_, ?_⟩
  · rw [he, hcomponents, List.append_right_inj] at hname
    exact hinjective.list_map (by simpa using hname)
  · rw [below?, hcomponents, hname, if_neg]
    rw [List.isPrefixOf_iff_prefix, List.prefix_append_right_inj]
    intro hprefix
    rcases List.prefix_cons_iff.1 hprefix with hnil | ⟨t, ht, hrest⟩
    · exact hne (List.map_eq_nil_iff.1 hnil)
    · rw [List.prefix_nil.1 hrest] at ht
      exact hne' (hinjective.list_map (by simpa using ht))

end Path

namespace Project

open Archive (EntryOf StandsFor)

variable {d d' : Disk} {p : Project} {root : Path} {q r : Place} {n m : String}
  {files : List (Place × ByteArray)} {dirs : List Place}

/-! ### What is packed -/

/-- A file makes an entry. -/
lemma exists_entryOf (h : Grounds d root q files dirs) (hr : r ∈ files.map Prod.fst) :
    ∃ e, EntryOf d root (r.foldl (· / ·) root) e := by
  obtain ⟨⟨r, bytes⟩, hx, rfl⟩ := List.mem_map.1 hr
  have hnames : ∀ m ∈ r, IsName m := fun m hm =>
    h.sound.isName_of_mem (h.at?_file hx) hm
  exact ⟨⟨_, bytes⟩, Archive.entryName_foldl hnames, h.read hx rfl⟩

lemma exists_forall₂ {α β : Type} {R : α → β → Prop} {l : List α} (h : ∀ a ∈ l, ∃ b, R a b) :
    ∃ bs, List.Forall₂ R l bs := by
  induction l with
  | nil => exact ⟨[], .nil⟩
  | cons a l ih =>
    rw [List.forall_mem_cons] at h
    obtain ⟨b, hb⟩ := h.1
    obtain ⟨bs, hbs⟩ := ih h.2
    exact ⟨b :: bs, .cons hb hbs⟩

lemma exists_of_file (h : Grounds d root q files dirs) (hr : r ∈ files.map Prod.fst) :
    ∃ es fs, StandsFor d (r.foldl (· / ·) root) fs ∧ List.Forall₂ (EntryOf d root) fs es := by
  obtain ⟨e, he⟩ := exists_entryOf h hr
  have hfile : d.isFile (r.foldl (· / ·) root) = true := Disk.isFile_iff.2 ⟨_, he.bytes⟩
  exact ⟨[e], _, (Archive.standsFor_file hfile).2 rfl, .cons he .nil⟩

/-- A directory in which there is a file. -/
def HasFile (files : List (Place × ByteArray)) (r : Place) : Prop :=
  r ≠ [] ∧ ∃ x ∈ files, r <+: x.1 ∧ r ≠ x.1

lemma HasFile.isFolder (h : HasFile files r) : IsFolder files dirs r := Or.inr h.2

lemma HasFile.locate {last : Bool} (hr : HasFile files r) (h : Grounds d root q files dirs) :
    d.locate last (r.foldl (· / ·) root) = .ok (q ++ r) := by
  have hfolder : IsFolder files dirs r := hr.isFolder
  obtain ⟨hne, x, hx, hprefix, -⟩ := hr
  exact h.locate (h.reaches_above hx hprefix hne) hne
    (fun m hm => (h.undotted_of_isFolder hfolder m hm).2.1) (h.at?_folder hfolder) (by simp)

lemma exists_of_tree (h : Grounds d root q files dirs) (hr : HasFile files r) :
    ∃ es fs, StandsFor d (r.foldl (· / ·) root) fs ∧ List.Forall₂ (EntryOf d root) fs es := by
  obtain ⟨ls, hls⟩ := Disk.exists_listed h.sound (q ++ r)
  have hdir : d.hasDirectory (q ++ r) = true :=
    Disk.hasDirectory_iff.2 (h.at?_folder hr.isFolder)
  obtain ⟨es, hes⟩ : ∃ es, List.Forall₂ (EntryOf d root)
      (ls.map fun l => l.foldl (· / ·) (r.foldl (· / ·) root)) es := by
    refine exists_forall₂ (List.forall_mem_map.2 fun l hl => ?_)
    obtain ⟨hne, e, he, hleaf⟩ := (hls.mem_iff h.sound).1 hl
    rw [List.append_assoc] at he
    rw [← List.foldl_append]
    rcases (h.below _ e (by simp [hne])).1 he with ⟨bytes, hmem, -⟩ | ⟨-, rfl⟩
    · exact exists_entryOf h (List.mem_map_of_mem hmem)
    · cases hleaf
  exact ⟨es, _, standsFor_tree h.sound (fun _ => hr.locate h) hdir hls, hes⟩

/-! ### A project that can be packed -/

/-- All that is needed is there, and one artifact. -/
structure Packable (d : Disk) (p : Project) (q : Place) (n : String)
    (files : List (Place × ByteArray)) (dirs : List Place) : Prop where
  grounds : Grounds d p.root q files dirs
  accepted : ∃ pattern, Artifact.patternOf p.hyphenated = .ok pattern ∧ pattern.accepts n = true
  artifact : ∀ m, ["target", m] ∈ files.map Prod.fst ↔ m = n
  descriptor : ["pom.xml"] ∈ files.map Prod.fst
  sources : HasFile files ["src"]
  generated : HasFile files ["target", "generated-sources"]

/-- The names that lead to what is packed, with a directory for all that is in it. -/
def packedParts (n : String) : List Place :=
  [["target", n], ["pom.xml"], ["src"], ["target", "generated-sources"]]

lemma packedPaths_eq (root : Path) (n : String) :
    packedPaths root (root / "target" / n) = (packedParts n).map (·.foldl (· / ·) root) := rfl

namespace Packable

variable (h : Packable d p q n files dirs)
include h

lemma hasFile_target : HasFile files ["target"] := by
  obtain ⟨x, hx, hn⟩ := List.mem_map.1 ((h.artifact n).2 rfl)
  refine ⟨by simp, x, hx, ?_, ?_⟩
  · rw [hn]
    exact List.cons_prefix_cons.2 ⟨rfl, List.nil_prefix⟩
  · rw [hn]
    simp

lemma isFolder_root : IsFolder files dirs [] := by
  obtain ⟨-, x, hx, hsrc, -⟩ := h.sources
  refine Or.inr ⟨x, hx, List.nil_prefix, fun hnil => ?_⟩
  rw [← hnil] at hsrc
  exact absurd (List.prefix_nil.1 hsrc) (by simp)

/-- What can be read from the build directory is a file there. -/
lemma mem_of_read {bytes : ByteArray} (hm : IsName m)
    (hread : d.read (p.root / "target" / m) = .ok bytes) :
    ["target", m] ∈ files.map Prod.fst := by
  obtain ⟨x, hx, hfile⟩ := Disk.read_iff.1 hread
  have hends : (p.root / "target").EndsInStep := IsName.endsInStep_join (by decide)
  have htarget : d.locate true (p.root / "target") = .ok (q ++ ["target"]) :=
    h.hasFile_target.locate h.grounds
  obtain ⟨e, he⟩ := exists_at?_of_locate hends htarget hm hx
  have he' := he
  rw [List.append_assoc] at he'
  rcases (h.grounds.below _ e (by simp)).1 he' with ⟨bytes', hmem, -⟩ | ⟨-, rfl⟩
  · exact List.mem_map_of_mem hmem
  · -- a directory has no bytes
    have hplace : x = q ++ ["target"] ++ [m] :=
      locate_foldl h.grounds.sound hends htarget he (by simp) hx
    rw [hplace, he] at hfile
    cases hfile

lemma isArtifact_iff (m : String) : IsArtifact d p m ↔ m = n := by
  refine ⟨fun hm => ?_, ?_⟩
  · obtain ⟨bytes, hread⟩ := Disk.isFile_iff.1 hm.file
    exact (h.artifact m).1 (h.mem_of_read hm.named hread)
  · rintro rfl
    obtain ⟨⟨r, bytes⟩, hx, hr⟩ := List.mem_map.1 ((h.artifact m).2 rfl)
    obtain rfl : r = ["target", m] := hr
    have hread : d.read (p.root / "target" / m) = .ok bytes := h.grounds.read hx rfl
    exact ⟨h.grounds.sound.isName_of_mem (h.grounds.at?_file hx) (by simp), h.accepted,
      Disk.isFile_iff.2 ⟨bytes, hread⟩⟩

lemma find : outcome (Artifact.find p.root p.hyphenated) d =
    (.ok (p.root / "target" / n), d) := by
  obtain ⟨pattern, hpattern, haccepts⟩ := h.accepted
  have htarget : d.locate true (p.root / "target") = .ok (q ++ ["target"]) :=
    h.hasFile_target.locate h.grounds
  have hdir : d.hasDirectory (q ++ ["target"]) = true :=
    Disk.hasDirectory_iff.2 (h.grounds.at?_folder h.hasFile_target.isFolder)
  have hlist : d.list (Artifact.directory p.root) = .ok (d.namesIn (q ++ ["target"])) := by
    rw [Disk.list, Artifact.directory, Layout.buildDirectory, htarget]
    exact if_pos hdir
  refine find_of hpattern hlist ?_
  have hsound := h.grounds.sound
  refine List.perm_singleton.1 ((List.perm_ext_iff_of_nodup
    (((Disk.namesIn_nodup hsound _).filter _).filter _) (List.nodup_singleton n)).2 fun m => ?_)
  rw [List.mem_singleton, ← h.isArtifact_iff m, List.mem_filter, List.mem_filter,
    Disk.mem_namesIn hsound]
  refine ⟨?_, fun hm => ?_⟩
  · rintro ⟨⟨⟨e, he⟩, haccepts⟩, hfile⟩
    exact ⟨hsound.named he, ⟨pattern, hpattern, haccepts⟩, hfile⟩
  · obtain rfl := (h.isArtifact_iff m).1 hm
    obtain ⟨bytes, hread⟩ := Disk.isFile_iff.1 hm.file
    obtain ⟨x, hx, -⟩ := Disk.read_iff.1 hread
    have hends : (p.root / "target").EndsInStep := IsName.endsInStep_join (by decide)
    exact ⟨⟨exists_at?_of_locate hends htarget hm.named hx, haccepts⟩, hm.file⟩

lemma locate_part : ∀ r ∈ packedParts n,
    d.locate true (r.foldl (· / ·) p.root) = .ok (q ++ r) := by
  have hfile {r : Place} (hr : r ∈ files.map Prod.fst) :
      d.locate true (r.foldl (· / ·) p.root) = .ok (q ++ r) := by
    obtain ⟨⟨r, bytes⟩, hx, rfl⟩ := List.mem_map.1 hr
    exact h.grounds.locate_file hx rfl
  simp only [packedParts, List.forall_mem_cons]
  exact ⟨hfile ((h.artifact n).2 rfl), hfile h.descriptor, h.sources.locate h.grounds,
    h.generated.locate h.grounds, by simp⟩

lemma exists_of_part : ∀ r ∈ packedParts n, ∃ es fs, StandsFor d (r.foldl (· / ·) p.root) fs ∧
    List.Forall₂ (EntryOf d p.root) fs es := by
  simp only [packedParts, List.forall_mem_cons]
  exact ⟨exists_of_file h.grounds ((h.artifact n).2 rfl), exists_of_file h.grounds h.descriptor,
    exists_of_tree h.grounds h.sources, exists_of_tree h.grounds h.generated, by simp⟩

/-- An archive at the top that is not there yet is accepted. -/
lemma place (hslot : Slot p.root [] m) (hnew : [m] ∉ files.map Prod.fst) :
    outcome (checkPlace (p.root / m) (packedPaths p.root (p.root / "target" / n))) d =
      (.ok (), d) := by
  obtain ⟨links, hat⟩ := h.grounds.exists_at hslot hslot.reaches h.isFolder_root
  rw [List.append_nil] at hat
  obtain ⟨front, hsteps, -⟩ := hat.way
  have hname : (p.root / m).fileName? = some m :=
    Path.fileName?_of_steps hat.ends hsteps hslot.named.notUp
  have htop : d.canonical (directoryOf (p.root / m)) = .ok (Disk.absolute q) :=
    Disk.canonical_iff.2 ⟨q, locate_directoryOf hat h.grounds.directory, rfl⟩
  have hparts : ∀ r ∈ packedParts n, r ≠ [] ∧ r ≠ [m] := by
    simp only [packedParts, List.forall_mem_cons]
    refine ⟨by simp, ⟨by simp, ?_⟩, ⟨by simp, ?_⟩, by simp, by simp⟩
    · rintro he
      exact hnew (he ▸ h.descriptor)
    · intro he
      obtain rfl : "src" = m := List.singleton_inj.1 he
      exact absurd hslot.dotted (by decide)
  refine (checkPlace_iff htop hname).2 fun f hf g hg => ?_
  rw [packedPaths_eq] at hf
  obtain ⟨r, hr, rfl⟩ := List.mem_map.1 hf
  obtain ⟨x, hx, rfl⟩ := Disk.canonical_iff.1 hg
  obtain ⟨e, he, -⟩ := Disk.stands_of_locate h.grounds.sound hx
  obtain rfl := Except.ok.inj ((h.locate_part r hr).symm.trans hx)
  have hnames : ∀ k ∈ q ++ r, IsName k := fun k hk =>
    h.grounds.sound.isName_of_mem (q := []) he hk
  obtain ⟨hne, hne'⟩ := hparts r hr
  obtain ⟨hother, hbelow⟩ := Path.apart_of_ne (g := Disk.absolute q)
    (List.forall_mem_append.1 hnames).2 hslot.named hne hne'
  rw [Disk.absolute_append hnames]
  exact ⟨hother, fun _ => hbelow⟩

end Packable

/-- An archive at the top is no part of what is packed. -/
lemma Packable.cons {bytes : ByteArray} (h : Packable d p q n files dirs)
    (hgrounds : Grounds d' p.root q (([m], bytes) :: files) dirs) :
    Packable d' p q n (([m], bytes) :: files) dirs := by
  have hmore {r : Place} (hr : HasFile files r) : HasFile (([m], bytes) :: files) r := by
    obtain ⟨hne, x, hx, hrest⟩ := hr
    exact ⟨hne, x, List.mem_cons_of_mem _ hx, hrest⟩
  refine ⟨hgrounds, h.accepted, fun m' => ?_, List.mem_cons_of_mem _ h.descriptor,
    hmore h.sources, hmore h.generated⟩
  rw [List.map_cons, List.mem_cons, h.artifact]
  simp

/-- **A project that has all that is needed is packed** into an archive at its top. -/
theorem Packable.pack (h : Packable d p q n files dirs) (hslot : Slot p.root [] m)
    (hnew : [m] ∉ files.map Prod.fst) :
    ∃ d', outcome (p.pack (p.root / m)) d = (.ok (), d') := by
  obtain ⟨d₁, -, hopened, -, hgrounds⟩ :=
    h.grounds.write hslot hslot.reaches h.isFolder_root hnew .empty
  have h₁ : Packable d₁ p q n (([m], .empty) :: files) dirs := h.cons hgrounds
  obtain ⟨parts, hparts⟩ := exists_forall₂ h₁.exists_of_part
  have hassemble := Archive.perform_assemble (List.forall₂_map_left_iff.2 hparts)
  rw [← packedPaths_eq] at hassemble
  -- the archive is written once more, with what was read
  have hthere : d₁.locate true (p.root / m) = .ok (q ++ [m]) :=
    hgrounds.locate_file List.mem_cons_self rfl
  have hat : d₁.at? (q ++ [m]) = some (.file .empty) := hgrounds.at?_file List.mem_cons_self
  exact ⟨_, pack_iff.2 ⟨_, d₁, _, ⟨h.find, h.place hslot hnew, hopened⟩,
    congrArg Prod.fst hassemble, Disk.write_taken (Disk.find_of_locate hthere)
      hslot.reaches.ends.not_asksForDirectory (Disk.hasDirectory_of_file hat)⟩⟩

end Project

end ProviderGen
