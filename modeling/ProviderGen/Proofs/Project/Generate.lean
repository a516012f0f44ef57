import Mathlib
import ProviderGen.Proofs.Project.Build

/-!
Generating builds the generated root anew. Below it there is exactly what follows from the
schema afterwards, whatever was there before; nothing else is touched, but directories on the
way are made where they are missing; and doing it once more changes nothing.

This needs that the way to the generated root does not lead through it. A root can be spelled
so that it does, and then what is on the way is made anew as well.
-/

namespace ProviderGen.Project

open Disk (outcome startOf_top Makes Fits linkLimit)
open Files (orRefused readText)
open Java (JavaClass Package ResourceKeys)
open Path (IsName)
open Template (Lines)

variable {d d' d₁ e : Disk} {p : Project} {root : Path} {k : Package} {a g : Place}
  {links : ℕ} {files : List (String × Lines)} {written : List Path}
  {schema : Document} {classes : List JavaClass} {keys : ResourceKeys}

/-! ### The steps of generating -/

lemma outcome_removeGenerated (root : Path) (d : Disk) :
    outcome (removeGenerated root) d =
      match d.removeTree (Layout.generatedRoot root) with
      | .ok d' => (.ok (), d')
      | .error .notFound => (.ok (), d)
      | .error r => (.error (.refused (Layout.generatedRoot root) r), d) := by
  rw [removeGenerated, Disk.outcome_bind, Disk.outcome_liftM, Disk.perform_removeTree]
  cases d.removeTree (Layout.generatedRoot root) with
  | ok d' => rfl
  | error r => cases r <;> rfl

/-- A directory or a link is removed, and where the path leads nowhere there is nothing to do. -/
lemma removeGenerated_ok {u : Unit} (h : outcome (removeGenerated root) d = (.ok u, d₁)) :
    d₁ = cleared d root := by
  rw [outcome_removeGenerated, Disk.removeTree] at h
  unfold cleared
  cases hq : d.locate false (Layout.generatedRoot root) with
  | ok q =>
    rw [hq] at h
    cases he : d.at? q with
    | none => exact (by simpa [he, bind, Except.bind] using h : d.clear q = d₁).symm
    | some entry =>
      cases entry with
      | file b => simp [he, bind, Except.bind] at h
      | _ => exact (by simpa [he, bind, Except.bind] using h : d.clear q = d₁).symm
  | error r =>
    rw [hq] at h
    cases r with
    | notFound => exact (congrArg Prod.snd h).symm
    | _ => cases h

lemma removeGenerated_of_directory
    (h : d.locate false (Layout.generatedRoot root) = .ok g) (hg : d.hasDirectory g = true) :
    outcome (removeGenerated root) d = (.ok (), d.clear g) := by
  rw [outcome_removeGenerated, Disk.removeTree, h]
  simp [Disk.hasDirectory_iff.1 hg, bind, Except.bind]

lemma loadSchema_ok : outcome p.loadSchema d = (.ok schema, d₁) ↔
    d₁ = d ∧ ∃ text, (d.read p.schemaPath).bind Files.textOf = .ok text ∧
      Document.parse? text = some schema := by
  have hread : outcome (orRefused p.schemaPath (readText p.schemaPath)) d =
      (((d.read p.schemaPath).bind Files.textOf).mapError (Error.refused p.schemaPath), d) := by
    rw [Disk.outcome_orRefused]
    rfl
  rw [loadSchema, Disk.outcome_bind, hread]
  cases (d.read p.schemaPath).bind Files.textOf with
  | error r => simp [Except.mapError]
  | ok text =>
    dsimp only [Except.mapError]
    cases hp : Document.parse? text with
    | none =>
      refine iff_of_false (by simp) ?_
      rintro ⟨-, text', he, hp'⟩
      rw [← Except.ok.inj he, hp] at hp'
      cases hp'
    | some s =>
      simp only [Disk.outcome_pure, Prod.mk.injEq, Except.ok.injEq]
      refine ⟨fun ⟨hs, hd⟩ => ⟨hd.symm, text, rfl, by rw [hp, hs]⟩, fun ⟨hd, text', he, hp'⟩ => ?_⟩
      rw [← he, hp] at hp'
      exact ⟨Option.some.inj hp', hd.symm⟩

/-- What is to be written is settled first, then comes the removal, then the building. -/
lemma generate_ok : outcome p.generate d = (.ok written, d') ↔
    ∃ k schema classes keys, p.package = .ok k ∧
      outcome p.loadSchema d = (.ok schema, d) ∧ modelOf k schema = .ok (classes, keys) ∧
      outcome (removeGenerated p.root) d = (.ok (), cleared d p.root) ∧
      outcome (build p.root k (generatedFiles p.typeName k classes keys)) (cleared d p.root) =
        (.ok written, d') := by
  unfold generate
  rw [Disk.outcome_bind_ok]
  refine ⟨?_, ?_⟩
  · rintro ⟨k, d₁, hk, h₁⟩
    rw [Disk.outcome_liftExcept] at hk
    obtain ⟨hpackage, rfl⟩ := Prod.mk.inj hk
    obtain ⟨schema, d₂, hs, h₂⟩ := Disk.outcome_bind_ok.1 h₁
    obtain ⟨rfl, -⟩ := loadSchema_ok.1 hs
    obtain ⟨⟨classes, keys⟩, d₃, hm, h₃⟩ := Disk.outcome_bind_ok.1 h₂
    rw [Disk.outcome_liftExcept] at hm
    obtain ⟨hmodel, rfl⟩ := Prod.mk.inj hm
    obtain ⟨u, d₄, hr, h₄⟩ := Disk.outcome_bind_ok.1 h₃
    obtain rfl := removeGenerated_ok hr
    exact ⟨k, schema, classes, keys, hpackage, hs, hmodel, hr, h₄⟩
  · rintro ⟨k, schema, classes, keys, hk, hs, hm, hr, h⟩
    refine ⟨k, d, by rw [Disk.outcome_liftExcept, hk], ?_⟩
    refine Disk.outcome_bind_ok.2 ⟨schema, d, hs, ?_⟩
    refine Disk.outcome_bind_ok.2 ⟨(classes, keys), d, by rw [Disk.outcome_liftExcept, hm], ?_⟩
    exact Disk.outcome_bind_ok.2 ⟨(), _, hr, h⟩

/-- Where the way is straight, there is nothing in the place of the generated root when it is
about to be built. -/
lemma place_of_straight (hs : Straight d root) (hk : PackageAt root k)
    (hv : (generatedPackage root k).Valid) (ha : e.hasDirectory a = true)
    (hm : Makes (cleared d root) linkLimit ((cleared d root).startOf (holder root))
      (holder root).steps e links a) :
    e.at? (a ++ [rootName]) = none ∧
      ∀ q, d.locate false (Layout.generatedRoot root) = .ok q → q = a ++ [rootName] := by
  have hprefix : (holder root).text.toList <+: (Layout.generatedRoot root).text.toList :=
    Path.text_front_join (by decide)
  have hvroot : (Layout.generatedRoot root).Valid :=
    hv.of_front hk.text_front (generatedRoot_ends root).text_ne
  have hvholder : (holder root).Valid := hvroot.of_front hprefix (holder_ends root).text_ne
  obtain ⟨g, hfind, hplace⟩ := hs e ((Disk.makeDirectories_iff (holder_ends root)).2
    ⟨hvholder, links, a, hm, ha⟩)
  have hway := hm.way
  rw [← hm.keeps.startOf] at hway
  have hat := rootAt hvroot hway
  rw [hat.find] at hfind
  obtain ⟨-, -, hfree, rfl⟩ := Disk.follow_single_free hat.counts hfind
  exact ⟨hfree, hplace⟩

/-- Once built, the generated root can be removed and built again. -/
lemma Ready.again (h : Ready d e root links a) (hk : PackageAt root k)
    (hf : Fitting root k files) (hnodup : (files.map Prod.fst).Nodup)
    (hnames : ∀ f ∈ files, IsName f.1) (hd : d' = built e a (rootName :: k.segments) files) :
    outcome (removeGenerated root) d' = (.ok (), cleared d' root) ∧
      cleared d' root = d'.clear (a ++ [rootName]) ∧
      Ready (cleared d' root) (cleared d' root) root links a := by
  have hextends : Disk.Extends e d' := hd ▸ extends_built h.sound h.free
  have hv : (Layout.generatedRoot root).Valid :=
    hf.1.of_front hk.text_front (generatedRoot_ends root).text_ne
  have hg : d'.hasDirectory (a ++ [rootName]) = true := by
    rw [Disk.hasDirectory_iff, hd]
    have := (tree_built k.segments h.sound h.free hnodup).directories [] List.nil_prefix
    rwa [List.append_nil] at this
  have hlocate : d'.locate false (Layout.generatedRoot root) = .ok (a ++ [rootName]) := by
    have hat := h.rootAt hv hextends.keeps
    rw [Disk.locate, hat.find, Disk.follow_entry (hextends.keeps.hasDirectory h.directory)
      (hf.2.1 _ List.mem_cons_self) (Disk.hasDirectory_iff.1 hg) (by simp), Disk.follow_nil]
  have hcleared : cleared d' root = d'.clear (a ++ [rootName]) := cleared_of_ok hlocate
  refine ⟨hcleared ▸ removeGenerated_of_directory hlocate hg, hcleared, ?_⟩
  have hrest : Disk.Extends e (d'.clear (a ++ [rootName])) := by
    refine ⟨by rw [Disk.here_clear, hextends.here], fun {q x} hq => ?_⟩
    rw [Disk.at?_clear_of_not_below (h.not_below hq), hextends.at? hq]
  rw [hcleared]
  refine ⟨?_, ?_, hrest.keeps.hasDirectory h.directory, ?_⟩
  · rw [hd]
    exact (h.sound_built hk hf hnames).clear _
  · rw [hrest.keeps.startOf, h.way.keeps.startOf]
    exact (h.way.way.keeps hrest.keeps).makes
  · exact Disk.at?_clear_of_below (List.prefix_refl _) (by simp)

/-- **The generated root is built anew.** Where the way to it is straight and generating
succeeds, then below it there is exactly what follows from the package, the type name and the
text of the schema: the directories of the package and in the last one the files, three and one
for each class, at different paths, which are told in the order of writing. Nothing else is
different, but that directories on the way to the generated root are there. And where the schema
can be read without the generated root, doing it again succeeds and changes nothing. -/
theorem generate_builds_anew (hd : d.Sound) (hs : Straight d p.root)
    (h : outcome p.generate d = (.ok written, d')) :
    ∃ k text schema classes keys g, p.package = .ok k ∧
      d.read p.schemaPath = .ok text.toUTF8 ∧ Document.parse? text = some schema ∧
      modelOf k schema = .ok (classes, keys) ∧
      written = (generatedFiles p.typeName k classes keys).map
        (fun f => generatedPackage p.root k / f.1) ∧
      written.Nodup ∧ written.length = classes.length + 3 ∧
      d'.locate true (Layout.generatedRoot p.root) = .ok g ∧
      (∀ q, d.locate false (Layout.generatedRoot p.root) = .ok q → q = g) ∧
      Tree d' g k.segments (generatedFiles p.typeName k classes keys) ∧
      (∀ f ∈ generatedFiles p.typeName k classes keys,
        d'.locate true (generatedPackage p.root k / f.1) = .ok (g ++ k.segments ++ [f.1])) ∧
      (∀ q, ¬ g <+: q → d'.at? q = d.at? q ∨
        (d.at? q = none ∧ d'.at? q = some .directory ∧
          ∃ f ∈ (Layout.generatedRoot p.root).ancestors, d'.locate true f = .ok q)) ∧
      ((∃ bytes, (cleared d p.root).read p.schemaPath = .ok bytes) →
        ∃ d'', outcome p.generate d' = (.ok written, d'') ∧ ∀ q, d''.at? q = d'.at? q) := by
  obtain ⟨k, schema, classes, keys, hpackage, hschema, hmodel, -, hbuild⟩ := generate_ok.1 h
  obtain ⟨-, text, htext, hparse⟩ := loadSchema_ok.1 hschema
  obtain ⟨bytes, hread, hbytes⟩ := bind_eq_ok.1 htext
  obtain rfl := Files.toUTF8_of_textOf hbytes
  have hk := packageAt hpackage p.root
  obtain ⟨hnodup, hnames⟩ := generatedFiles_names hmodel p.typeName
  obtain ⟨hv, e, links, a, e', links', b, hway, hrest, hb, hemit⟩ := makes_of_build hk hbuild
  have hdir := hasDirectory_of_makes hrest
  obtain ⟨hfree, hplace⟩ := place_of_straight hs hk hv hdir hway
  have hready : Ready (cleared d p.root) e p.root links a :=
    ⟨hway.sound (sound_cleared hd p.root), hway, hdir, hfree⟩
  obtain ⟨hfitting, hwritten, hd'⟩ :=
    (build_iff hk hready.sound hway hrest hb hv hfree hnodup hnames).1 hemit
  have hvroot : (Layout.generatedRoot p.root).Valid :=
    hv.of_front hk.text_front (generatedRoot_ends p.root).text_ne
  have hextends : Disk.Extends e d' := hd' ▸ extends_built hready.sound hfree
  refine ⟨k, text, schema, classes, keys, a ++ [rootName], hpackage, hread, hparse, hmodel,
    hwritten, hwritten ▸ generated_nodup hnodup hnames _, ?_, ?_, hplace,
    hd' ▸ tree_built k.segments hready.sound hfree hnodup,
    fun f hf => hd' ▸ locate_source hready hk hfitting hnodup hnames hf, fun q hq => ?_,
    fun ⟨bytes, hbytes⟩ => ?_⟩
  · rw [hwritten, List.length_map, generatedFiles, List.length_append, List.length_map]
    exact Nat.add_comm _ _
  · have hg := (tree_built k.segments hready.sound hfree hnodup).directories [] List.nil_prefix
    rw [List.append_nil, ← hd'] at hg
    exact (hready.rootAt hvroot hextends.keeps).locate_iff.2 ⟨links,
      .enter (hextends.keeps.hasDirectory hdir) (hfitting.2.1 _ List.mem_cons_self) hg (by simp)
        .done⟩
  · rw [← at?_cleared hplace hq]
    have hframe : d'.at? q = e.at? q := hd' ▸ at?_built_of_not_below hq
    rw [hframe]
    exact made_of_ready hready hvroot hextends.keeps
  · have hall := ((extends_of_makes hway).trans hextends)
    obtain rfl : bytes = text.toUTF8 := Except.ok.inj
      ((Files.read_of_extends (extends_cleared d p.root) hbytes).symm.trans hread)
    obtain ⟨hremove, hcleared, hagain⟩ := hready.again hk hfitting hnodup hnames hd'
    have hbuild' := hagain.build hk hfitting hnodup hnames
    rw [← hwritten] at hbuild'
    refine ⟨_, generate_ok.2 ⟨k, schema, classes, keys, hpackage, loadSchema_ok.2 ⟨rfl, text, ?_,
      hparse⟩, hmodel, hremove, hbuild'⟩, fun q => ?_⟩
    · rw [Files.read_of_extends hall hbytes]
      exact Files.textOf_toUTF8 text
    · rw [hcleared] at hagain ⊢
      exact hready.same hagain hnodup hd' q

/-! ### An empty schema -/

lemma loadSchema_empty {q : Place} (hq : d.locate true p.schemaPath = .ok q)
    (h : d.at? q = some (.file "{}".toUTF8)) :
    outcome p.loadSchema d = (.ok (.record []), d) := by
  refine loadSchema_ok.2 ⟨rfl, "{}", ?_, by cbv⟩
  have hread : d.read p.schemaPath = .ok "{}".toUTF8 := Disk.read_iff.2 ⟨q, hq, h⟩
  rw [hread]
  exact Files.textOf_toUTF8 "{}"

/-- The files that follow from an empty schema. -/
def emptyNames : List String :=
  ["HandlerWrapper.java", "BaseConfiguration.java", "BaseHandler.java", "ResourceModel.java"]

/-- The model of an empty schema, and the files that follow from it. -/
lemma exists_model_empty (typeName : String) : ∃ classes keys,
    modelOf (Package.derive ["Aa"]) (.record []) = .ok (classes, keys) ∧
      (generatedFiles typeName (Package.derive ["Aa"]) classes keys).map Prod.fst =
        emptyNames := by
  have h : (modelOf (Package.derive ["Aa"]) (.record [])).map (fun x => x.1.map (·.name)) =
      .ok ["ResourceModel"] := by cbv
  cases hm : modelOf (Package.derive ["Aa"]) (.record []) with
  | error r =>
    rw [hm] at h
    cases h
  | ok x =>
    rw [hm] at h
    have hnames : x.1.map (·.name) = ["ResourceModel"] := Except.ok.inj h
    refine ⟨x.1, x.2, rfl, ?_⟩
    obtain ⟨c, hc, hname⟩ : ∃ c : JavaClass, x.1 = [c] ∧ c.name = "ResourceModel" := by
      simpa [List.map_eq_singleton_iff] using hnames
    simp [generatedFiles, emptyNames, hc, hname]

/-- The paths that follow from a root. -/
lemma short_generatedRoot (h : root.Short 50) : (Layout.generatedRoot root).Short 80 :=
  ((h.join (by decide) (by decide)).join (by decide) (by decide)).join (by decide) (by decide)

lemma short_generatedPackage (h : root.Short 50) :
    (generatedPackage root (Package.derive ["Aa"])).Short 87 :=
  (short_generatedRoot h).join (by decide) (by decide)

lemma emitted_fit (h : root.Short 50) (hn : files.map Prod.fst = emptyNames) :
    ∀ f ∈ files, (generatedPackage root (Package.derive ["Aa"]) / f.1).Valid ∧ Fits f.1 := by
  have hnames : ∀ n ∈ emptyNames, n.toList.head? ≠ some '/' ∧ '\x00' ∉ n.toList ∧
      n.utf8ByteSize ≤ 30 ∧ Fits n := by decide
  intro f hf
  obtain ⟨hhead, hnul, hsize, hfits⟩ := hnames f.1 (hn ▸ List.mem_map_of_mem hf)
  refine ⟨((short_generatedPackage h).join hhead hnul).valid ?_, hfits⟩
  have hlimit : Disk.pathLimit = 4095 := rfl
  omega

/-- A project whose generated root holds a source that no schema asks for and a link to the
project itself. -/
def plot : Disk := ⟨[
  (["p"], .directory),
  (["p", "aa.json"], .file "{}".toUTF8),
  (["p", "target"], .directory),
  (["p", "target", "generated-sources"], .directory),
  (["p", "target", "generated-sources", "rpdk"], .directory),
  (["p", "target", "generated-sources", "rpdk", "Stale.java"], .file "old".toUTF8),
  (["p", "target", "generated-sources", "rpdk", "out"], .link ⟨"/p"⟩)], []⟩

def plotProject : Project := ⟨⟨"p"⟩, .ofTypeName "Aa", ["Aa"], by decide⟩

lemma plot_sound : plot.Sound := Disk.sound_of_entries (by decide) (by decide)

lemma plot_short : plotProject.root.Short 50 := ⟨by decide, by decide, by decide⟩

lemma plot_holder : (holder plotProject.root).steps = ["p", "target", "generated-sources"] := by
  decide

lemma plot_straight : Straight plot plotProject.root := by
  refine straight_of_clear plot_sound ((short_generatedRoot plot_short).valid (by decide))
    (by decide) fun r t hr h => ?_
  have hlength := hr.length_le
  have hlink : r = ["p", "target", "generated-sources", "rpdk", "out"] := by
    have hmem := Disk.mem_of_link (q := r) h
    simp only [plot, List.mem_cons, Prod.mk.injEq, reduceCtorEq, and_false, false_or,
      List.not_mem_nil, or_false] at hmem
    exact hmem.1
  rw [plot_holder, hlink] at hlength
  simp at hlength

lemma plot_way : plot.Way linkLimit (plot.startOf (holder plotProject.root))
    (holder plotProject.root).steps linkLimit ["p", "target", "generated-sources"] := by
  rw [plot_holder]
  exact plot_sound.way_of_at? (p := []) (e := .directory) linkLimit (by decide) rfl (by simp)

lemma plot_located : plot.locate false (Layout.generatedRoot plotProject.root) =
    .ok ["p", "target", "generated-sources", "rpdk"] := by
  have hat := rootAt ((short_generatedRoot plot_short).valid (by decide)) plot_way
  rw [Disk.locate, hat.find,
    Disk.follow_single_of_at? (e := .directory) (by decide) fits_rootName rfl]
  decide

lemma plot_ready : Ready (cleared plot plotProject.root) (cleared plot plotProject.root)
    plotProject.root linkLimit ["p", "target", "generated-sources"] := by
  have hsound := sound_cleared plot_sound plotProject.root
  rw [cleared_of_ok plot_located] at hsound ⊢
  refine ⟨hsound, ?_, rfl, rfl⟩
  rw [plot_holder]
  exact (hsound.way_of_at? (p := []) (e := .directory) linkLimit (by decide) rfl (by simp)).makes

lemma plot_schema (hd : d.Sound) (hhere : d.here = [])
    (h : d.at? ["p", "aa.json"] = some (.file "{}".toUTF8)) :
    d.locate true plotProject.schemaPath = .ok ["p", "aa.json"] := by
  have hends : plotProject.schemaPath.EndsInStep :=
    Path.endsInStep_join (by decide) ⟨[], _, rfl, by decide⟩
  have hsteps : plotProject.schemaPath.steps = ["p", "aa.json"] := by decide
  rw [← hsteps] at h ⊢
  exact hd.locate_top hhere (by decide) hends (by decide) h (by simp)

theorem plot_generated : plot.Sound ∧ Straight plot plotProject.root ∧ ∃ written d',
    outcome plotProject.generate plot = (.ok written, d') ∧ written.length = 4 ∧
    d'.at? ["p", "target", "generated-sources", "rpdk", "com", "aa"] = some .directory ∧
    d'.at? ["p", "target", "generated-sources", "rpdk", "Stale.java"] = none ∧
    d'.at? ["p", "target", "generated-sources", "rpdk", "out"] = none ∧
    d'.at? ["p", "aa.json"] = some (.file "{}".toUTF8) ∧
    ∃ d'', outcome plotProject.generate d' = (.ok written, d'') ∧ ∀ q, d''.at? q = d'.at? q := by
  obtain ⟨classes, keys, hmodel, hfiles⟩ := exists_model_empty plotProject.typeName
  have hk := packageAt (p := plotProject) (k := Package.derive ["Aa"]) rfl plotProject.root
  obtain ⟨hnodup, hnames⟩ := generatedFiles_names hmodel plotProject.typeName
  have hfitting : Fitting plotProject.root (Package.derive ["Aa"])
      (generatedFiles plotProject.typeName (Package.derive ["Aa"]) classes keys) :=
    ⟨(short_generatedPackage plot_short).valid (by decide), by decide,
      emitted_fit plot_short hfiles⟩
  have hcleared := cleared_of_ok plot_located
  have hremove := removeGenerated_of_directory plot_located rfl
  rw [← hcleared] at hremove
  have hschema := plot_schema plot_sound rfl rfl
  have h := generate_ok.2 ⟨Package.derive ["Aa"], _, classes, keys, rfl,
    loadSchema_empty hschema rfl, hmodel, hremove,
    plot_ready.build hk hfitting hnodup hnames⟩
  obtain ⟨k, -, -, _, _, g, hk', -, -, -, -, -, -, -, hplace, htree, -, hframe, hagain⟩ :=
    generate_builds_anew plot_sound plot_straight h
  obtain rfl : Package.derive ["Aa"] = k := Except.ok.inj hk'
  obtain rfl := hplace _ plot_located
  have hgone (n : String) (hn : n ≠ "com") := htree.nothing [n]
    (fun hp => hn (List.cons_prefix_cons.1 hp).1) fun f _ he => by cases congrArg List.length he
  refine ⟨plot_sound, plot_straight, _, _, h, ?_, htree.directories ["com", "aa"] (by decide),
    hgone "Stale.java" (by decide), hgone "out" (by decide), ?_, hagain ⟨"{}".toUTF8, ?_⟩⟩
  · rw [List.length_map, ← List.length_map (f := Prod.fst), hfiles]
    rfl
  · exact (hframe ["p", "aa.json"] (by decide)).resolve_right fun hnone => by cases hnone.1
  · refine Disk.read_iff.2 ⟨_, plot_schema plot_ready.sound ?_ ?_, ?_⟩
    · rw [hcleared]
      rfl
    · rw [hcleared]
      rfl
    · rw [hcleared]
      rfl

/-! ### A way through the generated root -/

/-- A project with a directory in its generated root. -/
def warren : Disk := ⟨[
  (["p"], .directory),
  (["p", "aa.json"], .file "{}".toUTF8),
  (["p", "target"], .directory),
  (["p", "target", "generated-sources"], .directory),
  (["p", "target", "generated-sources", "rpdk"], .directory),
  (["p", "target", "generated-sources", "rpdk", "sub"], .directory)], []⟩

/-- The project, spelled as the fourth parent of that directory. -/
def warrenProject : Project :=
  ⟨⟨"p/target/generated-sources/rpdk/sub/../../../.."⟩, .ofTypeName "Aa", ["Aa"], by decide⟩

lemma warren_sound : warren.Sound := Disk.sound_of_entries (by decide) (by decide)

lemma warren_unlinked : warren.Unlinked := Disk.unlinked_of_entries (by simp [warren])

/-- The way to the project goes down to that directory and up again. -/
lemma warren_way (hd : d.Sound)
    (h : d.at? ["p", "target", "generated-sources", "rpdk", "sub"] = some .directory) :
    d.Way linkLimit [] warrenProject.root.steps linkLimit ["p"] := by
  have hsteps : warrenProject.root.steps =
      ["p", "target", "generated-sources", "rpdk", "sub"] ++ ["..", "..", "..", ".."] := by
    decide +kernel
  have hup (q r : Place) (hr : q ++ r = ["p", "target", "generated-sources", "rpdk", "sub"]) :
      d.hasDirectory q = true := by
    by_cases hnil : r = []
    · rw [hnil, List.append_nil] at hr
      rw [hr]
      exact Disk.hasDirectory_iff.2 h
    · rw [← hr] at h
      exact hd.hasDirectory_above h hnil
  have hdown : d.Way linkLimit [] ["p", "target", "generated-sources", "rpdk", "sub"] linkLimit
      ["p", "target", "generated-sources", "rpdk", "sub"] :=
    hd.way_of_at? (p := []) linkLimit (by decide) h (by simp)
  rw [hsteps]
  exact hdown.append (.up (hup _ [] rfl) (.up (hup _ ["sub"] rfl) (.up (hup _ ["rpdk", "sub"] rfl)
    (.up (hup _ ["generated-sources", "rpdk", "sub"] rfl) .done))))

lemma warren_short : warrenProject.root.Short 50 := ⟨by decide, by decide, by decide⟩

lemma warren_holder_way (hd : d.Sound)
    (h : d.at? ["p", "target", "generated-sources", "rpdk", "sub"] = some .directory) :
    d.Way linkLimit [] (holder warrenProject.root).steps linkLimit
      ["p", "target", "generated-sources"] := by
  have hsources : d.at? ["p", "target", "generated-sources"] = some .directory :=
    Disk.hasDirectory_iff.1 (hd.hasDirectory_above (r := ["rpdk", "sub"]) h (by simp))
  rw [steps_holder]
  exact (warren_way hd h).append
    (hd.way_of_at? (p := ["p"]) linkLimit (by decide) hsources (by simp))

lemma warren_located : warren.locate false (Layout.generatedRoot warrenProject.root) =
    .ok ["p", "target", "generated-sources", "rpdk"] := by
  have hvalid := (short_generatedRoot warren_short).valid (by decide)
  have hat := rootAt hvalid (warren_holder_way warren_sound rfl)
  rw [Disk.locate, hat.find,
    Disk.follow_single_of_at? (e := .directory) (by decide) fits_rootName rfl]
  decide

/-- That disk with the generated root and the directory in it made anew. -/
def warrenAgain : Disk :=
  ((warren.clear ["p", "target", "generated-sources", "rpdk"]).set
      ["p", "target", "generated-sources", "rpdk"] .directory).set
    ["p", "target", "generated-sources", "rpdk", "sub"] .directory

lemma warren_makes : Makes (cleared warren warrenProject.root) linkLimit []
    (holder warrenProject.root).steps warrenAgain linkLimit
    ["p", "target", "generated-sources"] ∧ warrenAgain.Sound := by
  have hsteps : (holder warrenProject.root).steps = ["p", "target", "generated-sources"] ++
      ["rpdk", "sub"] ++ ["..", "..", "..", "..", "target", "generated-sources"] := by
    decide +kernel
  have hsound := sound_cleared warren_sound warrenProject.root
  rw [cleared_of_ok warren_located] at hsound ⊢
  have hdown : Makes (warren.clear ["p", "target", "generated-sources", "rpdk"]) linkLimit []
      (["p", "target", "generated-sources"] ++ ["rpdk", "sub"]) warrenAgain linkLimit
      ["p", "target", "generated-sources", "rpdk", "sub"] :=
    (hsound.way_of_at? (p := []) (e := .directory) linkLimit (by decide) rfl (by simp)).makes.append
      (.make rfl (by decide) (by decide) rfl (.make rfl (by decide) (by decide) rfl .done))
  have hagain := hdown.sound hsound
  have hup : warrenAgain.Way linkLimit ["p", "target", "generated-sources", "rpdk", "sub"]
      ["..", "..", "..", "..", "target", "generated-sources"] linkLimit
      ["p", "target", "generated-sources"] :=
    .up rfl (.up rfl (.up rfl (.up rfl
      (hagain.way_of_at? (p := ["p"]) (e := .directory) linkLimit (by decide) rfl (by simp)))))
  rw [hsteps]
  exact ⟨hdown.append hup.makes, hagain⟩

/-- And with the directories of the package. -/
def warrenBuilt : Disk :=
  warrenAgain.grow ["p", "target", "generated-sources", "rpdk"] ["com", "aa"]

lemma warren_grown : Makes warrenAgain linkLimit ["p", "target", "generated-sources"]
    ["rpdk", "com", "aa"] warrenBuilt linkLimit
    ["p", "target", "generated-sources", "rpdk", "com", "aa"] := by
  have hroot : warrenAgain.Way linkLimit ["p", "target", "generated-sources"] ["rpdk"] linkLimit
      ["p", "target", "generated-sources", "rpdk"] :=
    .enter (e := .directory) rfl (by decide) rfl (by simp) .done
  refine .pass hroot ((Disk.makes_new_iff warren_makes.2 rfl (by decide) ?_).2
    ⟨by decide, rfl, rfl, rfl⟩)
  intro n hn
  obtain rfl := Option.some.inj hn
  rfl

lemma warrenBuilt_empty (f : String × Lines) : warrenBuilt.at?
    (["p", "target", "generated-sources", "rpdk", "com", "aa"] ++ [f.1]) = none :=
  grow_empty _ warren_makes.2 rfl f.1

/-- The generated root is where it was, and the directory is in it. -/
lemma warren_filled (files : List (String × Lines)) (hd : d = warrenBuilt.fill
      ["p", "target", "generated-sources", "rpdk", "com", "aa"] files) :
    d.locate true (Layout.generatedRoot warrenProject.root) =
        .ok ["p", "target", "generated-sources", "rpdk"] ∧
      d.at? ["p", "target", "generated-sources", "rpdk", "sub"] = some .directory := by
  have hextends : Disk.Extends warrenBuilt d :=
    hd ▸ Disk.extends_fill fun f _ => warrenBuilt_empty f
  have hstart := startOf_top hextends.here (holder warrenProject.root)
  have hway : d.Way linkLimit (d.startOf (holder warrenProject.root))
      (holder warrenProject.root).steps linkLimit ["p", "target", "generated-sources"] := by
    rw [hstart]
    exact warren_makes.1.way.keeps (warren_grown.keeps.trans hextends.keeps)
  have hat := rootAt ((short_generatedRoot warren_short).valid (by decide)) hway
  exact ⟨hat.locate_iff.2 ⟨linkLimit, .enter (e := .directory)
    (hextends.keeps.hasDirectory rfl) fits_rootName (hextends.at? rfl) (by simp) .done⟩,
    hextends.at? rfl⟩

/-- Generating succeeds there, and the directory is in the generated root afterwards, though it
belongs neither to the package nor to what was written. -/
theorem passage_in_generated_root : warren.Sound ∧ warren.Unlinked ∧ ∃ k written d',
    warrenProject.package = .ok k ∧ k.segments = ["com", "aa"] ∧
    outcome warrenProject.generate warren = (.ok written, d') ∧
    d'.locate true (Layout.generatedRoot warrenProject.root) =
      .ok ["p", "target", "generated-sources", "rpdk"] ∧
    d'.at? ["p", "target", "generated-sources", "rpdk", "sub"] = some .directory := by
  obtain ⟨classes, keys, hmodel, hfiles⟩ := exists_model_empty warrenProject.typeName
  have hk := packageAt (p := warrenProject) (k := Package.derive ["Aa"]) rfl warrenProject.root
  obtain ⟨hnodup, hnames⟩ := generatedFiles_names hmodel warrenProject.typeName
  have hsegments : (Package.derive ["Aa"]).segments = ["com", "aa"] := by decide
  have hends : warrenProject.schemaPath.EndsInStep :=
    Path.endsInStep_join (by decide) ⟨[], _, rfl, by decide⟩
  have hsteps : warrenProject.schemaPath.steps = warrenProject.root.steps ++ ["aa.json"] :=
    Path.steps_join_name (by decide)
  have hvalid : warrenProject.schemaPath.Valid :=
    (warren_short.join (by decide) (by decide)).valid (by decide)
  have hschema : warren.locate true warrenProject.schemaPath = .ok ["p", "aa.json"] := by
    refine (Disk.locate_iff hvalid hends).2 ⟨linkLimit, ?_⟩
    rw [hsteps]
    exact (warren_way warren_sound rfl).append
      (.enter rfl (by decide) (e := .file "{}".toUTF8) rfl (by simp) .done)
  have hmake : outcome (orRefused (generatedPackage warrenProject.root (Package.derive ["Aa"]))
      (Files.makeDirectories (generatedPackage warrenProject.root (Package.derive ["Aa"]))))
      (cleared warren warrenProject.root) = (.ok (), warrenBuilt) := by
    refine Disk.outcome_orRefused_ok.2 ((Disk.makeDirectories_iff hk.ends).2
      ⟨(short_generatedPackage warren_short).valid (by decide), linkLimit,
        ["p", "target", "generated-sources", "rpdk", "com", "aa"], ?_, rfl⟩)
    have hstart := startOf_top (d := cleared warren warrenProject.root)
      ((extends_cleared _ _).here.symm) (holder warrenProject.root)
    rw [hk.steps, hk.start, hstart, hsegments]
    exact warren_makes.1.append warren_grown
  have hholds : Disk.Holds warrenBuilt
      (generatedPackage warrenProject.root (Package.derive ["Aa"]))
      ["p", "target", "generated-sources", "rpdk", "com", "aa"] := by
    refine ⟨(short_generatedPackage warren_short).valid (by decide), hk.ends, ⟨linkLimit, ?_⟩, rfl⟩
    rw [hk.steps, hk.start, startOf_top rfl, hsegments]
    exact (warren_makes.1.append warren_grown).way
  have hemit := (emitAll_iff hholds hnodup hnames fun f _ => warrenBuilt_empty f).2
    ⟨emitted_fit warren_short hfiles, rfl, rfl⟩
  have hremove := removeGenerated_of_directory warren_located rfl
  rw [← cleared_of_ok warren_located] at hremove
  have h := generate_ok.2 ⟨Package.derive ["Aa"], _, classes, keys, rfl,
    loadSchema_empty hschema rfl, hmodel, hremove, Disk.outcome_bind_ok.2 ⟨(), _, hmake, hemit⟩⟩
  exact ⟨warren_sound, warren_unlinked, _, _, _, rfl, rfl, h, warren_filled _ rfl⟩

end ProviderGen.Project
