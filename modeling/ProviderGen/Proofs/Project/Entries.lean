import ProviderGen.Proofs.Archive.Zip
import ProviderGen.Proofs.Disk.Rewrite
import ProviderGen.Proofs.Project.Pack

/-!
What a packed project holds: the artifact, the build descriptor, all that is in the sources and
all that is in the generated sources, each once. The archive itself must not be among this; it is
on the disk, still empty, when the files are read.
-/

namespace ProviderGen.Project

open Archive (EntryOf StandsFor)
open Disk (Rewrites outcome)
open Path (IsName)

/-- The directories that are packed with all that is in them. -/
def packedTrees (root : Path) : List Path := [root / "src", root / "target" / "generated-sources"]

/-- The files that are packed. -/
inductive Packed (d : Disk) (p : Project) : Path → Prop where
  | artifact {n} (hn : IsArtifact d p n) : Packed d p (p.root / "target" / n)
  | descriptor : Packed d p (p.root / "pom.xml")
  | inTree {dir q r e} (hdir : dir ∈ packedTrees p.root) (hq : d.locate true dir = .ok q)
      (hr : r ≠ []) (he : d.at? (q ++ r) = some e) (hl : e.isDirectory = false) :
      Packed d p (r.foldl (· / ·) dir)

/-- The archive is none of the files that are packed, not even through links, and none that
would be packed if it were there. -/
structure Apart (d : Disk) (p : Project) (archive : Path) : Prop where
  files : ∀ f, Packed d p f → d.find true f ≠ d.find true archive
  trees : ∀ dir ∈ packedTrees p.root, ∀ q r, d.locate true dir = .ok q →
    d.find true archive ≠ .ok (.free (q ++ r) false)

/-- What a walk through the directory that a path leads to tells. -/
def Lists (d : Disk) (dir : Path) (ls : List Place) : Prop :=
  ∃ q, d.locate true dir = .ok q ∧ d.Listed q ls

/-- The names that lead from the root to what is packed, in the order in which it is. -/
def packedNames (artifact : String) (sources generated : List Place) : List (List String) :=
  ["target", artifact] :: ["pom.xml"] ::
    (sources.map ("src" :: ·) ++ generated.map (["target", "generated-sources"] ++ ·))

variable {d d' d₁ : Disk} {p : Project} {archive dir f root : Path} {a q r x : Place}
  {n : String} {e : Entry} {bytes : ByteArray} {fs : List Path}
  {ls sources generated : List Place}

/-! ### Names -/

lemma packedNames_nodup (hs : sources.Nodup) (hg : generated.Nodup) (hne : [] ∉ generated) :
    (packedNames n sources generated).Nodup := by
  unfold packedNames
  rw [List.nodup_cons, List.nodup_cons, List.nodup_append]
  refine ⟨?_, ?_, hs.map List.cons_injective, hg.map (List.append_right_injective _), ?_⟩
  · simp [hne]
  · simp
  · simp

lemma Lists.nodup (h : Lists d dir ls) : ls.Nodup := by
  obtain ⟨q, -, hls⟩ := h
  exact hls.nodup

lemma Lists.packed (h : Lists d dir ls) (hd : d.Sound) (hdir : dir ∈ packedTrees p.root)
    (hr : r ∈ ls) : Packed d p (r.foldl (· / ·) dir) ∧ (∀ m ∈ r, IsName m) ∧ r ≠ [] := by
  obtain ⟨q, hq, hls⟩ := h
  obtain ⟨hne, e, he, hl⟩ := (hls.mem_iff hd).1 hr
  exact ⟨.inTree hdir hq hne he hl, fun m hm => hd.isName_of_mem he hm, hne⟩

/-- Names, by which something packed is reached. -/
lemma packed_of_mem_packedNames (hd : d.Sound) (hn : IsArtifact d p n)
    (hs : Lists d (p.root / "src") sources)
    (hg : Lists d (p.root / "target" / "generated-sources") generated) :
    ∀ names ∈ packedNames n sources generated,
      Packed d p (names.foldl (· / ·) p.root) ∧ (∀ m ∈ names, IsName m) ∧ names ≠ [] := by
  unfold packedNames
  simp only [List.forall_mem_cons, List.forall_mem_append, List.forall_mem_map]
  refine ⟨⟨.artifact hn, ?_, by simp⟩, ⟨.descriptor, ?_, by simp⟩, fun r hr => ?_, fun r hr => ?_⟩
  · simpa using ⟨by decide, hn.named⟩
  · simpa using by decide
  · obtain ⟨hpacked, hnames, -⟩ := hs.packed hd List.mem_cons_self hr
    exact ⟨hpacked, ⟨by decide, hnames⟩, by simp⟩
  · obtain ⟨hpacked, hnames, -⟩ := hg.packed hd (List.mem_cons_of_mem _ List.mem_cons_self) hr
    exact ⟨hpacked, ⟨by decide, hnames⟩, by simp⟩

lemma endsInStep_of_mem_packedTrees (h : dir ∈ packedTrees root) : dir.EndsInStep := by
  rcases List.mem_pair.1 h with rfl | rfl
  · exact IsName.endsInStep_join (by decide)
  · exact IsName.endsInStep_join (by decide)

/-! ### While the archive is written -/

/-- The disk with the archive on it, between its opening and its end. -/
structure Opened (d : Disk) (p : Project) (archive : Path) (a : Place) (d₁ : Disk) : Prop where
  before : d.Sound
  after : d₁.Sound
  rewrites : Rewrites d a d₁
  leads : d₁.locate true archive = .ok a
  apart : Apart d p archive

lemma Opened.find_eq (h : Opened d p archive a d₁) (hf : d₁.locate true f = .ok a) :
    d.find true f = d.find true archive := by
  rw [h.rewrites.find h.after hf, h.rewrites.find h.after h.leads]

/-- What is packed is read as it was. -/
lemma Opened.read (h : Opened d p archive a d₁) (hf : Packed d p f)
    (hr : d₁.read f = .ok bytes) : d.read f = .ok bytes :=
  h.rewrites.read hr fun hfa => h.apart.files f hf (h.find_eq hfa)

/-- Names below a directory lead to what is there. -/
lemma locate_foldl (hd : d.Sound) (hdir : dir.EndsInStep) (hq : d.locate true dir = .ok q)
    (he : d.at? (q ++ r) = some e) (hl : ∀ t, e ≠ .link t)
    (hx : d.locate true (r.foldl (· / ·) dir) = .ok x) : x = q ++ r := by
  have hnames : ∀ n ∈ r, IsName n := fun n hn => hd.isName_of_mem he hn
  have hends : (r.foldl (· / ·) dir).EndsInStep := by
    cases r with
    | nil => exact hdir
    | cons n r => exact Path.endsInStep_foldl (by simp) hnames
  obtain ⟨links, hw⟩ := (Disk.locate_iff (Disk.exists_way_of_locate hx).1 hends).1 hx
  rw [Path.steps_foldl hnames, Disk.startOf, Path.isAbsolute_foldl hnames, ← Disk.startOf] at hw
  obtain ⟨links', hbehind⟩ := hw.behind (Disk.exists_way_of_locate hq).1 hdir hq
  exact hd.eq_of_way he hl hbehind

/-- A directory stands for what is listed in it, and for itself where it is reached by a link. -/
lemma standsFor_directory (hd : d.Sound) (hq : d.locate true dir = .ok q)
    (hdir : d.hasDirectory q = true) (hf : StandsFor d dir fs) : ∃ start ls, d.Listed q ls ∧
      fs = if d.hasDirectory start then ls.map fun r => r.foldl (· / ·) dir
        else dir :: ls.map fun r => r.foldl (· / ·) dir := by
  unfold StandsFor at hf
  rw [if_pos (Disk.isDirectory_iff.2 ⟨q, hq, hdir⟩)] at hf
  obtain ⟨start, hstart, -⟩ := bind_eq_ok.1 hf
  obtain ⟨ls, hls⟩ := Disk.exists_listed hd q
  rw [Disk.walk_eq hd hstart hq hls] at hf
  exact ⟨start, ls, hls, (Except.ok.inj hf).symm⟩

/-- A tree is packed as it was listed; it is no link, for that could not be read. -/
lemma Opened.tree (h : Opened d p archive a d₁) (hdir : dir ∈ packedTrees p.root)
    (hisDir : d.isDirectory dir = true) (hf : StandsFor d₁ dir fs)
    (hread : ∀ f ∈ fs, ∃ bytes, d₁.read f = .ok bytes) :
    ∃ ls, Lists d dir ls ∧ fs = ls.map fun r => r.foldl (· / ·) dir := by
  obtain ⟨q, hq, hqdir⟩ := Disk.isDirectory_iff.1 hisDir
  have hq₁ := h.rewrites.keeps.locate hq
  have hqdir₁ := h.rewrites.keeps.hasDirectory hqdir
  have hisDir₁ : d₁.isDirectory dir = true := Disk.isDirectory_iff.2 ⟨q, hq₁, hqdir₁⟩
  obtain ⟨start, ls, hls, rfl⟩ := standsFor_directory h.after hq₁ hqdir₁ hf
  have hmap : (if d₁.hasDirectory start then ls.map fun r => r.foldl (· / ·) dir
      else dir :: ls.map fun r => r.foldl (· / ·) dir) = ls.map fun r => r.foldl (· / ·) dir := by
    refine if_pos (by_contra fun hlink => ?_)
    rw [if_neg hlink] at hread
    exact Disk.not_isDirectory_of_isFile (Disk.isFile_iff.2 (hread dir List.mem_cons_self)) hisDir₁
  rw [hmap] at hread ⊢
  refine ⟨ls, ⟨q, hq, h.rewrites.listed hls fun r hr hqa => ?_⟩, rfl⟩
  obtain ⟨b, hb⟩ := h.rewrites.file
  rw [← hqa] at hb
  have hfind := h.rewrites.find h.after h.leads
  rcases h.rewrites.before with hnone | ⟨b', hb'⟩
  · rw [hnone, ← hqa] at hfind
    exact h.apart.trees dir hdir q r hq hfind
  · obtain ⟨bytes, hbytes⟩ := hread _ (List.mem_map_of_mem ((hls.mem_iff h.after).2
      ⟨hr, _, hb, rfl⟩))
    obtain ⟨x, hx, -⟩ := Disk.read_iff.1 hbytes
    have hxa := locate_foldl h.after (endsInStep_of_mem_packedTrees hdir) hq₁ hb (by simp) hx
    rw [hxa, hqa] at hx
    exact h.apart.files _ (.inTree hdir hq hr (hqa ▸ hb') rfl) (h.find_eq hx)

/-! ### The entries -/

lemma Opened.files (h : Opened d p archive a d₁) (hn : IsArtifact d p n)
    (hdescriptor : d.isFile (p.root / "pom.xml") = true)
    (hsources : d.isDirectory (p.root / "src") = true)
    (hgenerated : d.isDirectory (p.root / "target" / "generated-sources") = true)
    {parts : List (List Path)}
    (hparts : List.Forall₂ (StandsFor d₁) (packedPaths p.root (p.root / "target" / n)) parts)
    (hread : ∀ f ∈ parts.flatten, ∃ bytes, d₁.read f = .ok bytes) :
    ∃ sources generated, Lists d (p.root / "src") sources ∧
      Lists d (p.root / "target" / "generated-sources") generated ∧
      parts.flatten = (packedNames n sources generated).map fun names =>
        names.foldl (· / ·) p.root := by
  unfold packedPaths at hparts
  rcases hparts with _ | ⟨h₁, _ | ⟨h₂, _ | ⟨h₃, _ | ⟨h₄, _ | _⟩⟩⟩⟩
  obtain rfl := (Archive.standsFor_file (h.rewrites.keeps.isFile hn.file)).1 h₁
  obtain rfl := (Archive.standsFor_file (h.rewrites.keeps.isFile hdescriptor)).1 h₂
  obtain ⟨sources, hs, rfl⟩ := h.tree List.mem_cons_self hsources h₃
    fun f hf => hread f (by simp [hf])
  obtain ⟨generated, hg, rfl⟩ := h.tree (List.mem_cons_of_mem _ List.mem_cons_self) hgenerated h₄
    fun f hf => hread f (by simp [hf])
  refine ⟨sources, generated, hs, hg, ?_⟩
  simp [packedNames, Function.comp_def]

lemma map_name_eq {P : List String → Archive.Entry → Prop} {ns : List (List String)}
    {es : List Archive.Entry}
    (h : List.Forall₂ (fun names e => e.name = "/".intercalate names ∧ P names e) ns es) :
    es.map (·.name) = ns.map "/".intercalate := by
  rw [← List.forall₂_eq_eq_eq, List.forall₂_map_left_iff, List.forall₂_map_right_iff]
  exact h.flip.imp fun _ _ he => he.1

/-- **The archive of a project has one entry for each file that is packed, and no other.** -/
theorem pack_entries (hd : d.Sound) (hdescriptor : d.isFile (p.root / "pom.xml") = true)
    (hsources : d.isDirectory (p.root / "src") = true)
    (hgenerated : d.isDirectory (p.root / "target" / "generated-sources") = true)
    (hapart : Apart d p archive) (h : outcome (p.pack archive) d = (.ok (), d')) :
    ∃ n sources generated es, (∀ m, IsArtifact d p m ↔ m = n) ∧
      Lists d (p.root / "src") sources ∧
      Lists d (p.root / "target" / "generated-sources") generated ∧
      d'.read archive = .ok (Archive.Zip.encode es) ∧
      (Archive.Zip.Fits es → Archive.Zip.decode? (Archive.Zip.encode es) = some es) ∧
      List.Forall₂ (fun names e => e.name = "/".intercalate names ∧
        d.read (names.foldl (· / ·) p.root) = .ok e.bytes)
        (packedNames n sources generated) es ∧
      (es.map (·.name)).Nodup := by
  obtain ⟨f, d₁, es, ⟨hfind, -, hempty⟩, hassemble, hwrite⟩ := pack_iff.1 h
  obtain ⟨-, n, rfl, hn⟩ := find_ok hd hfind
  obtain ⟨a, hrewrites, hd₁, hleads, -⟩ := Disk.exists_rewrites hd hempty
  obtain ⟨a', -, -, hleads', hat'⟩ := Disk.exists_rewrites hd₁ hwrite
  have hopened : Opened d p archive a d₁ := ⟨hd, hd₁, hrewrites, hleads, hapart⟩
  have hgives := (Archive.gives_assemble d₁ p.root
    (packedPaths p.root (p.root / "target" / n))).2
  rw [hassemble] at hgives
  obtain ⟨_, ⟨parts, hparts, rfl⟩, hentries⟩ := hgives rfl
  have hread : ∀ f ∈ parts.flatten, ∃ bytes, d₁.read f = .ok bytes :=
    ((List.forall₂_and_left _ _).1 (hentries.imp fun f e he => ⟨⟨_, he.bytes⟩, he⟩)).1
  obtain ⟨sources, generated, hs, hg, hfiles⟩ :=
    hopened.files ((hn n).2 rfl) hdescriptor hsources hgenerated hparts hread
  have hpacked := packed_of_mem_packedNames hd ((hn n).2 rfl) hs hg
  rw [hfiles, List.forall₂_map_left_iff] at hentries
  have hall : List.Forall₂ (fun names e => e.name = "/".intercalate names ∧
      d.read (names.foldl (· / ·) p.root) = .ok e.bytes)
      (packedNames n sources generated) es := by
    refine ((List.forall₂_and_left _ _).2 ⟨hpacked, hentries⟩).imp fun names e he => ?_
    obtain ⟨⟨hmem, hnames, -⟩, hentry⟩ := he
    have hname := hentry.name
    rw [Archive.entryName_foldl hnames] at hname
    exact ⟨(Except.ok.inj hname).symm, hopened.read hmem hentry.bytes⟩
  refine ⟨n, sources, generated, es, hn, hs, hg, ?_, Archive.Zip.decode?_encode, hall, ?_⟩
  · exact Disk.read_iff.2 ⟨a', hleads', hat'⟩
  · rw [map_name_eq hall]
    refine (packedNames_nodup hs.nodup hg.nodup fun hnil => ?_).map_on
      fun x hx y hy => Archive.intercalate_inj (hpacked x hx).2.1 (hpacked y hy).2.1
        (hpacked x hx).2.2 (hpacked y hy).2.2
    exact (hg.packed (p := p) hd (List.mem_cons_of_mem _ List.mem_cons_self) hnil).2.2 rfl

/-! ### Packing that succeeds -/

/-- An archive that is new, and in no packed directory, is apart from what is packed if that can
be found. -/
lemma apart_of_free (ha : d.find true archive = .ok (.free a false))
    (hthere : ∀ f, Packed d p f → ∃ q, d.locate true f = .ok q)
    (houtside : ∀ dir ∈ packedTrees p.root, ∀ q, d.locate true dir = .ok q → ¬ q <+: a) :
    Apart d p archive := by
  refine ⟨fun f hf heq => ?_, fun dir hdir q r hq hfree => ?_⟩
  · obtain ⟨q, hq⟩ := hthere f hf
    rw [Disk.find_of_locate hq, ha] at heq
    cases heq
  · rw [ha] at hfree
    obtain rfl := (Disk.Spot.free.inj (Except.ok.inj hfree)).1
    exact houtside dir hdir q hq (List.prefix_append q r)

/-- A directory stands for what is listed in it. -/
lemma standsFor_tree (hd : d.Sound) (h : ∀ b, d.locate b dir = .ok q)
    (hq : d.hasDirectory q = true) (hls : d.Listed q ls) :
    StandsFor d dir (ls.map fun r => r.foldl (· / ·) dir) := by
  unfold StandsFor
  rw [if_pos (Disk.isDirectory_iff.2 ⟨q, h true, hq⟩), Disk.walk_eq hd (h false) (h true) hls,
    if_pos hq]

/-- A project with one file in each tree. -/
def depot : Disk := ⟨[
  (["p"], .directory),
  (["p", "pom.xml"], .file "<project/>".toUTF8),
  (["p", "src"], .directory),
  (["p", "src", "main"], .directory),
  (["p", "src", "main", "A.java"], .file "class A".toUTF8),
  (["p", "target"], .directory),
  (["p", "target", "depot-1-SNAPSHOT.jar"], .file "jar".toUTF8),
  (["p", "target", "generated-sources"], .directory),
  (["p", "target", "generated-sources", "B.java"], .file "class B".toUTF8)], []⟩

def depotProject : Project := ⟨⟨"p"⟩, .ofTypeName "Depot", ["Depot"], by decide⟩

def depotArchive : Path := ⟨"z"⟩

lemma depot_sound : depot.Sound := Disk.sound_of_entries (by decide) (by decide)

lemma depot_unlinked : depot.Unlinked := Disk.unlinked_of_entries (by simp [depot])

/-- The names that lead to the files of the project. -/
def depotFiles : List (List String) :=
  packedNames "depot-1-SNAPSHOT.jar" [["main", "A.java"]] [["B.java"]]

/-- The names that lead to its directories. -/
def depotDirectories : List (List String) := [["src"], ["target", "generated-sources"], ["target"]]

/-- The depot, and maybe something at the top. -/
structure Stocked (d : Disk) : Prop where
  sound : d.Sound
  stock : Disk.Extends depot d

lemma Stocked.locate (h : Stocked d) (last : Bool) : ∀ names ∈ depotFiles ++ depotDirectories,
    d.locate last (names.foldl (· / ·) depotProject.root) = .ok ("p" :: names) := by
  have hall : ∀ names ∈ depotFiles ++ depotDirectories, names ≠ [] ∧ (∀ n ∈ names, IsName n) ∧
      (∀ n ∈ "p" :: names, Disk.Fits n) ∧ (names.foldl (· / ·) depotProject.root).Valid ∧
      (depot.at? ("p" :: names)).isSome = true := by
    decide
  intro names hmem
  obtain ⟨hne, hnames, hfits, hv, hthere⟩ := hall names hmem
  obtain ⟨e, he⟩ := Option.isSome_iff_exists.1 hthere
  have hsteps : (names.foldl (· / ·) depotProject.root).steps = "p" :: names :=
    Path.steps_foldl hnames
  rw [← hsteps] at he hfits ⊢
  exact h.sound.locate_top h.stock.here hv (Path.endsInStep_foldl hne hnames) hfits
    (h.stock.at? he) fun t ht => depot_unlinked _ t (ht ▸ he)

lemma Stocked.isFile (h : Stocked d) (names : List String) (hmem : names ∈ depotFiles) :
    d.isFile (names.foldl (· / ·) depotProject.root) = true := by
  have hall : ∀ names ∈ depotFiles, ∃ bytes, depot.at? ("p" :: names) = some (.file bytes) := by
    simp only [depotFiles, packedNames, List.map_cons, List.map_nil, List.forall_mem_cons,
      List.forall_mem_append]
    exact ⟨⟨_, rfl⟩, ⟨_, rfl⟩, ⟨⟨_, rfl⟩, by simp⟩, ⟨_, rfl⟩, by simp⟩
  obtain ⟨bytes, hbytes⟩ := hall names hmem
  exact Disk.isFile_iff.2 ⟨bytes, Disk.read_iff.2
    ⟨_, h.locate true names (List.mem_append_left _ hmem), h.stock.at? hbytes⟩⟩

lemma depot_stocked : Stocked depot := ⟨depot_sound, ⟨rfl, id⟩⟩

/-- The name of the project in front, something for a version, and an end. -/
def depotPattern : Glob.Pattern :=
  ['d', 'e', 'p', 'o', 't', '-'].map .literal ++ .star ::
    ['-', 'S', 'N', 'A', 'P', 'S', 'H', 'O', 'T', '.', 'j', 'a', 'r'].map .literal

lemma depot_pattern : Artifact.patternOf depotProject.hyphenated = .ok depotPattern := by
  have hhyphenated : depotProject.hyphenated = "depot" := by decide
  rw [hhyphenated]
  rfl

lemma Stocked.artifact (h : Stocked d) : IsArtifact d depotProject "depot-1-SNAPSHOT.jar" :=
  ⟨by decide, ⟨depotPattern, depot_pattern, by decide⟩,
    h.isFile ["target", "depot-1-SNAPSHOT.jar"] (by decide)⟩

lemma Stocked.find (h : Stocked d)
    (hnames : d.namesIn ["p", "target"] = ["depot-1-SNAPSHOT.jar", "generated-sources"]) :
    outcome (Artifact.find depotProject.root depotProject.hyphenated) d =
      (.ok (depotProject.root / "target" / "depot-1-SNAPSHOT.jar"), d) := by
  have hlist : d.list (Artifact.directory depotProject.root) =
      .ok ["depot-1-SNAPSHOT.jar", "generated-sources"] := by
    have htarget := h.locate true ["target"] (by decide)
    rw [List.foldl_cons, List.foldl_nil] at htarget
    have hdir : d.hasDirectory ["p", "target"] = true :=
      h.stock.keeps.hasDirectory (d := depot) rfl
    rw [Disk.list, Artifact.directory, Layout.buildDirectory, htarget, ← hnames]
    exact if_pos hdir
  have haccepts : ["depot-1-SNAPSHOT.jar", "generated-sources"].filter depotPattern.accepts =
      ["depot-1-SNAPSHOT.jar"] := by decide
  refine find_of depot_pattern hlist ?_
  rw [haccepts]
  exact List.filter_cons_of_pos h.artifact.file

/-- Either tree has one file in it. -/
lemma Stocked.listed (h : Stocked d) {names r : List String} (hl : d.leaves ("p" :: names) = [r]) :
    d.Listed ("p" :: names) [r] := by
  obtain ⟨ls, hls⟩ := Disk.exists_listed h.sound ("p" :: names)
  exact hls.eq_of_leaves h.sound hl ▸ hls

lemma depot_free : depot.find true depotArchive = .ok (.free ["z"] false) := by
  have hnames : depotArchive.names = ["z"] := by decide
  rw [Disk.find_eq (by decide), hnames, Disk.startOf_top rfl,
    Disk.follow_absent rfl (by decide) rfl]
  rfl

/-- The trees, and the one place of a file in each. -/
lemma depot_tree (hdir : dir ∈ packedTrees depotProject.root) : ∃ names r : List String,
    dir = names.foldl (· / ·) depotProject.root ∧ names ∈ depotDirectories ∧
      names ++ r ∈ depotFiles ∧ depot.leaves ("p" :: names) = [r] := by
  rcases List.mem_pair.1 hdir with rfl | rfl
  · exact ⟨["src"], ["main", "A.java"], rfl, by decide, by decide, rfl⟩
  · exact ⟨["target", "generated-sources"], ["B.java"], rfl, by decide, by decide, rfl⟩

lemma depot_apart : Apart depot depotProject depotArchive := by
  have hplace {names : List String} {q : Place} (hmem : names ∈ depotDirectories)
      (hq : depot.locate true (names.foldl (· / ·) depotProject.root) = .ok q) :
      q = "p" :: names := by
    rw [depot_stocked.locate true names (List.mem_append_right _ hmem)] at hq
    exact (Except.ok.inj hq).symm
  refine apart_of_free depot_free (fun f hf => ?_) fun dir hdir q hq hz => ?_
  · cases hf with
    | artifact hn =>
      obtain ⟨_, hread⟩ := Disk.isFile_iff.1 hn.file
      obtain ⟨q, hq, -⟩ := Disk.read_iff.1 hread
      exact ⟨q, hq⟩
    | descriptor => exact ⟨_, depot_stocked.locate true ["pom.xml"] (by decide)⟩
    | @inTree dir q r e hdir hq hr he hl =>
      obtain ⟨names, s, rfl, hmem, hfile, hleaves⟩ := depot_tree hdir
      obtain rfl := hplace hmem hq
      have hin := (Disk.mem_leaves depot_sound).2 ⟨hr, e, he, hl⟩
      rw [hleaves, List.mem_singleton] at hin
      rw [hin, ← List.foldl_append]
      exact ⟨_, depot_stocked.locate true (names ++ s) (List.mem_append_left _ hfile)⟩
  · obtain ⟨names, -, rfl, hmem, -⟩ := depot_tree hdir
    obtain rfl := hplace hmem hq
    exact absurd (List.cons_prefix_cons.1 hz).1 (by decide)

/-- The names that lead to what is packed, with a directory for all that is in it. -/
def depotPaths : List (List String) :=
  [["target", "depot-1-SNAPSHOT.jar"], ["pom.xml"], ["src"], ["target", "generated-sources"]]

lemma depot_paths : packedPaths depotProject.root
    (depotProject.root / "target" / "depot-1-SNAPSHOT.jar") =
      depotPaths.map fun names => names.foldl (· / ·) depotProject.root := rfl

lemma Stocked.place (h : Stocked d) : outcome (checkPlace depotArchive
    (packedPaths depotProject.root (depotProject.root / "target" / "depot-1-SNAPSHOT.jar"))) d =
      (.ok (), d) := by
  have htop : d.canonical (directoryOf depotArchive) = .ok ⟨"/"⟩ := by
    have hdir : directoryOf depotArchive = ⟨"."⟩ := by decide
    have hnames : Path.names ⟨"."⟩ = ["."] := by decide
    rw [hdir, Disk.canonical, Disk.locate, Disk.find_eq (by decide), hnames,
      Disk.startOf_top h.stock.here, Disk.follow_idle rfl (Or.inr rfl), Disk.follow_nil]
    rfl
  have hall : ∀ names ∈ depotPaths, names ∈ depotFiles ++ depotDirectories ∧
      (⟨"/"⟩ : Path) / "z" ≠ ⟨"/" ++ "/".intercalate ("p" :: names)⟩ ∧
        ((⟨"/"⟩ : Path) / "z").below? ⟨"/" ++ "/".intercalate ("p" :: names)⟩ = none := by
    decide
  have hname : depotArchive.fileName? = some "z" := by decide
  refine (checkPlace_iff htop hname).2 fun f hf q hq => ?_
  rw [depot_paths] at hf
  obtain ⟨names, hmem, rfl⟩ := List.mem_map.1 hf
  obtain ⟨hthere, hapart⟩ := hall names hmem
  rw [Disk.canonical, h.locate true names hthere] at hq
  obtain rfl := Except.ok.inj hq
  exact ⟨hapart.1, fun _ => hapart.2⟩

/-- Whatever is put at the top. -/
lemma stocked_set (e : Entry) : Stocked (depot.set ["z"] e) := by
  refine ⟨depot_sound.set (q := []) rfl (by decide) (by decide), ⟨rfl, fun {q g} h => ?_⟩⟩
  have hne : q ≠ ["z"] := by
    rintro rfl
    cases h
  rw [Disk.at?_set _ _ (by simp), if_neg hne, h]

/-- With the archive at the top. -/
def depotWith (bytes : ByteArray) : Disk := depot.set ["z"] (.file bytes)

lemma depot_assembled (bytes : ByteArray) : ∃ es, (Disk.perform (Archive.assemble depotProject.root
    (packedPaths depotProject.root (depotProject.root / "target" / "depot-1-SNAPSHOT.jar")))
    (depotWith bytes)).1 = .done es := by
  have h : Stocked (depotWith bytes) := stocked_set _
  have hnames : ∀ names ∈ depotFiles, ∀ n ∈ names, IsName n := by decide
  have hentry (names : List String) (hmem : names ∈ depotFiles) :
      ∃ e, EntryOf (depotWith bytes) depotProject.root
        (names.foldl (· / ·) depotProject.root) e := by
    obtain ⟨bytes', hread⟩ := Disk.isFile_iff.1 (h.isFile names hmem)
    exact ⟨⟨_, bytes'⟩, Archive.entryName_foldl (hnames names hmem), hread⟩
  have hfile (names : List String) (hmem : names ∈ depotFiles) : ∃ e fs,
      StandsFor (depotWith bytes) (names.foldl (· / ·) depotProject.root) fs ∧
        List.Forall₂ (EntryOf (depotWith bytes) depotProject.root) fs [e] := by
    obtain ⟨e, he⟩ := hentry names hmem
    exact ⟨e, _, (Archive.standsFor_file (h.isFile names hmem)).2 rfl, .cons he .nil⟩
  have htree (names r : List String) (hmem : names ∈ depotDirectories)
      (hin : names ++ r ∈ depotFiles) (hdir : depot.hasDirectory ("p" :: names) = true)
      (hleaves : (depotWith bytes).leaves ("p" :: names) = [r]) : ∃ e fs,
      StandsFor (depotWith bytes) (names.foldl (· / ·) depotProject.root) fs ∧
        List.Forall₂ (EntryOf (depotWith bytes) depotProject.root) fs [e] := by
    obtain ⟨e, he⟩ := hentry (names ++ r) hin
    rw [List.foldl_append] at he
    exact ⟨e, _, standsFor_tree h.sound
      (fun last => h.locate last names (List.mem_append_right _ hmem))
      (h.stock.keeps.hasDirectory hdir) (h.listed hleaves), .cons he .nil⟩
  obtain ⟨e₁, h₁⟩ := hfile ["target", "depot-1-SNAPSHOT.jar"] (by decide)
  obtain ⟨e₂, h₂⟩ := hfile ["pom.xml"] (by decide)
  obtain ⟨e₃, h₃⟩ := htree ["src"] ["main", "A.java"] (by decide) (by decide) rfl rfl
  obtain ⟨e₄, h₄⟩ := htree ["target", "generated-sources"] ["B.java"] (by decide) (by decide)
    rfl rfl
  have hparts : List.Forall₂ (fun names es => ∃ fs,
      StandsFor (depotWith bytes) (names.foldl (· / ·) depotProject.root) fs ∧
        List.Forall₂ (EntryOf (depotWith bytes) depotProject.root) fs es)
      depotPaths [[e₁], [e₂], [e₃], [e₄]] :=
    .cons h₁ (.cons h₂ (.cons h₃ (.cons h₄ .nil)))
  rw [depot_paths]
  exact ⟨_, congrArg Prod.fst (Archive.perform_assemble (List.forall₂_map_left_iff.2 hparts))⟩

lemma depotWith_taken (bytes : ByteArray) :
    (depotWith bytes).find true depotArchive = .ok (.taken ["z"]) := by
  have hnames : depotArchive.names = ["z"] := by decide
  rw [Disk.find_eq (by decide), hnames, Disk.startOf_top rfl,
    Disk.follow_entry (e := .file bytes) rfl (by decide) rfl (by simp), Disk.follow_nil]
  rfl

lemma depot_pack : ∃ d', outcome (depotProject.pack depotArchive) depot = (.ok (), d') := by
  have hplain : depotArchive.asksForDirectory = false := by decide
  have hnames : depot.namesIn ["p", "target"] = ["depot-1-SNAPSHOT.jar", "generated-sources"] :=
    rfl
  obtain ⟨written, hwritten⟩ := depot_assembled .empty
  exact ⟨_, pack_iff.2 ⟨_, _, written, ⟨depot_stocked.find hnames, depot_stocked.place,
    Disk.write_free depot_free hplain⟩, hwritten,
    Disk.write_taken (depotWith_taken .empty) hplain rfl⟩⟩

theorem depot_packed : depot.Sound ∧ depot.isFile (depotProject.root / "pom.xml") = true ∧
    depot.isDirectory (depotProject.root / "src") = true ∧
    depot.isDirectory (depotProject.root / "target" / "generated-sources") = true ∧
    Apart depot depotProject depotArchive ∧ ∃ es d',
      outcome (depotProject.pack depotArchive) depot = (.ok (), d') ∧
      d'.read depotArchive = .ok (Archive.Zip.encode es) ∧
      es.map (·.name) = ["target/depot-1-SNAPSHOT.jar", "pom.xml", "src/main/A.java",
        "target/generated-sources/B.java"] := by
  have hsource := depot_stocked.locate true ["src"] (by decide)
  have hgenerated := depot_stocked.locate true ["target", "generated-sources"] (by decide)
  have hdescriptor := depot_stocked.isFile ["pom.xml"] (by decide)
  have hisDir := Disk.isDirectory_iff.2 ⟨_, hsource, rfl⟩
  have hisDir' := Disk.isDirectory_iff.2 ⟨_, hgenerated, rfl⟩
  obtain ⟨d', h⟩ := depot_pack
  obtain ⟨n, sources, generated, es, hn, ⟨s, hs, hsls⟩, ⟨g, hg, hgls⟩, hread, -, hall, -⟩ :=
    pack_entries depot_sound hdescriptor hisDir hisDir' depot_apart h
  refine ⟨depot_sound, hdescriptor, hisDir, hisDir', depot_apart, es, d', h, hread, ?_⟩
  obtain rfl := (hn _).1 depot_stocked.artifact
  obtain rfl := Except.ok.inj (hs.symm.trans hsource)
  obtain rfl := Except.ok.inj (hg.symm.trans hgenerated)
  obtain rfl := hsls.eq_of_leaves depot_sound (r := ["main", "A.java"]) rfl
  obtain rfl := hgls.eq_of_leaves depot_sound (r := ["B.java"]) rfl
  rw [map_name_eq hall]
  decide

end ProviderGen.Project
