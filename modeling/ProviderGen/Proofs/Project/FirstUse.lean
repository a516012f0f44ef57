import ProviderGen.Proofs.Project.Example
import ProviderGen.Proofs.Project.Generate
import ProviderGen.Proofs.Project.Packable
import ProviderGen.Proofs.Project.Room
import ProviderGen.Proofs.Project.Saved

/-!
The first use of a project, from an empty root to an archive. The scaffold is written and loaded
again, the schema to start with is generated from, and once the build has made what the deployment
descriptor refers to, packing succeeds. Each phase finds what those before it have left, which is
all that lies below the root.
-/

namespace ProviderGen.Project

open Disk (Extends outcome)
open Files (Grounds IsFolder Reaches Slot Writes)
open Java (Package)
open ProviderGen.Path (IsName)
open Template (Lines render)

variable {d d' : Disk} {p : Project} {root dir : Path} {q r s : Place} {n : String} {k : Package}
  {files : List (Place × ByteArray)} {dirs : List Place}

/-! ### The scaffold -/

lemma placeOf_slot (h : Slot root s n) :
    placeOf root ((s ++ [n]).foldl (· / ·) root) = s ++ [n] :=
  placeOf_foldl fun m hm => (h.names m hm).1

lemma placeOf_scaffoldFiles (h : Site p.root p.hyphenated k) :
    (p.scaffoldFiles k).map (fun f => placeOf p.root f.1) =
      (scaffoldPlaces k).map fun x => x.1 ++ [x.2] := by
  have hmap : (p.scaffoldFiles k).map (fun f => placeOf p.root f.1) =
      ((p.scaffoldFiles k).map Prod.fst).map (placeOf p.root) := by
    rw [List.map_map]
    rfl
  rw [hmap, scaffoldFiles_paths h.nonempty h.isName, List.map_map]
  exact List.map_congr_left fun x hx => placeOf_slot (h.slot_scaffold x hx)

lemma writes_scaffoldFile (h : Site p.root p.hyphenated k) {f : Path × Lines}
    (hf : f ∈ p.scaffoldFiles k) :
    Writes p.root q (placeOf p.root f.1) (render f.2).toUTF8 (writeSafely f) () := by
  have hpath : f.1 ∈ (p.scaffoldFiles k).map Prod.fst := List.mem_map_of_mem hf
  rw [scaffoldFiles_paths h.nonempty h.isName] at hpath
  obtain ⟨x, hx, hfx⟩ := List.mem_map.1 hpath
  have hslot := h.slot_scaffold x hx
  rw [writeSafely, ← hfx, placeOf_slot hslot]
  exact Files.writes_safely hslot _

lemma makeSources_ok (h : Grounds d root q files dirs) (hs : ∀ m ∈ s, IsDirectoryName m)
    (hf : Reaches root dir s) : ∃ d', outcome (makeSources dir) d = (.ok (), d') ∧ Extends d d' ∧
      Grounds d' root q files (s :: dirs) := by
  obtain ⟨d', hmake, hrest⟩ := h.makeDirectories (undotted_of_names hs) hf
  exact ⟨d', Disk.outcome_orRefused_ok.2 hmake, hrest⟩

/-- All is written but for the schema and the settings. -/
lemma writeFiles_ok (hsite : Site p.root p.hyphenated k) (hk : p.package = .ok k)
    (h : Grounds d p.root q [] []) : ∃ d' files, outcome p.writeFiles d = (.ok (), d') ∧
      Grounds d' p.root q files [testPlace k, mainPlace k] ∧
      ∀ r, r ∈ files.map Prod.fst ↔
        r ∈ (scaffoldPlaces k).map (fun x => x.1 ++ [x.2]) ∨ r = [".gitignore"] := by
  have hignored : Slot p.root [] ".gitignore" :=
    hsite.top (by decide) (Nat.le_add_left_of_le (by decide))
  have hplaces := placeOf_scaffoldFiles hsite
  obtain ⟨d₁, hwrite, -, hgrounds⟩ := Files.writes_safely hignored
    (render Template.ignoredFiles) h (by simp)
  obtain ⟨d₂, hmain, -, hgrounds⟩ := makeSources_ok hgrounds hsite.isDirectoryName_main
    hsite.reaches_main
  obtain ⟨d₃, htest, -, hgrounds⟩ := makeSources_ok hgrounds hsite.isDirectoryName_test
    hsite.reaches_test
  obtain ⟨d₄, hfiles, -, hgrounds⟩ := hgrounds.mapM (fun f hf => writes_scaffoldFile hsite hf)
    (hplaces ▸ scaffoldPlaces_nodup k) fun f hf hmem => by
      have hplace : placeOf p.root f.1 ∈ (scaffoldPlaces k).map fun x => x.1 ++ [x.2] :=
        hplaces ▸ List.mem_map_of_mem hf
      rw [List.map_singleton, List.mem_singleton] at hmem
      rw [hmem] at hplace
      exact not_mem_scaffoldPlaces (by decide) hplace
  refine ⟨d₄, _, ?_, hgrounds, fun r => ?_⟩
  · unfold writeFiles
    refine Disk.outcome_bind_ok.2 ⟨k, d, by rw [Disk.outcome_liftExcept, hk], ?_⟩
    refine Disk.outcome_bind_ok.2 ⟨(), d₁, hwrite, ?_⟩
    refine Disk.outcome_bind_ok.2 ⟨(), d₂, hmain, ?_⟩
    exact Disk.outcome_bind_ok.2 ⟨(), d₃, htest, Files.outcome_forM hfiles⟩
  · rw [List.map_append, List.map_reverse, List.map_map, List.mem_append, List.mem_reverse,
      List.map_singleton, List.mem_singleton, ← hplaces]
    rfl

def exampleText (p : Project) : String := render (Template.exampleSchema p.typeName)

lemma writeExample_ok (hslot : Slot p.root [] p.schemaFile) (h : Grounds d p.root q files dirs)
    (hroot : IsFolder files dirs []) (hnew : [p.schemaFile] ∉ files.map Prod.fst) :
    ∃ d', outcome (p.writeExampleIfMissing p.exampleText) d = (.ok true, d') ∧
      Grounds d' p.root q (([p.schemaFile], p.exampleText.toUTF8) :: files) dirs := by
  have hpath : p.schemaPath = ([] ++ [p.schemaFile]).foldl (· / ·) p.root := rfl
  have hmissing : d.exists? p.schemaPath = false := by
    rw [hpath]
    exact h.not_exists hslot hroot hnew
  obtain ⟨d', hwrite, -, hgrounds⟩ := Files.writes_safely hslot p.exampleText h hnew
  rw [← hpath] at hwrite
  refine ⟨d', ?_, hgrounds⟩
  have hanswer : Disk.perform (Files.isThere p.schemaPath) d = (false, d) := by
    rw [← hmissing]
    exact Disk.perform_look _ d
  rw [writeExampleIfMissing, Disk.outcome_bind, Disk.outcome_liftM, hanswer]
  exact Disk.outcome_bind_ok.2 ⟨(), d', hwrite, rfl⟩

/-- The last character tells the schema and the archive from all other files. -/
lemma last_schemaFile (hp : p.settings.schemaFile = none) :
    p.schemaFile.toList.getLast? = some 'n' := by
  rw [schemaFile, hp, Option.getD_none, TypeName.schemaFile, String.toList_append,
    List.getLast?_append_of_ne_nil _ (by decide)]
  rfl

lemma last_archive (text : String) : (text ++ ".zip").toList.getLast? = some 'p' := by
  rw [String.toList_append, List.getLast?_append_of_ne_nil _ (by decide)]
  rfl

lemma schemaFile_ne (hp : p.settings.schemaFile = none) (hn : n.toList.getLast? ≠ some 'n') :
    p.schemaFile ≠ n := fun he => hn (he ▸ last_schemaFile hp)

/-- What the scaffold leaves below the root. -/
structure Scaffolded (d : Disk) (p : Project) (q : Place) (k : Package)
    (files : List (Place × ByteArray)) : Prop where
  grounds : Grounds d p.root q files [testPlace k, mainPlace k]
  schema : ([p.schemaFile], p.exampleText.toUTF8) ∈ files
  settings : ([Layout.settingsFile], p.settings.text.toUTF8) ∈ files
  all : ∀ r, r ∈ files.map Prod.fst ↔ r = [Layout.settingsFile] ∨ r = [p.schemaFile] ∨
    r ∈ (scaffoldPlaces k).map (fun x => x.1 ++ [x.2]) ∨ r = [".gitignore"]

/-- **The scaffold is written** into an empty root. -/
theorem scaffold_ok (hsite : Site p.root p.hyphenated k) (hk : p.package = .ok k)
    (hp : p.settings.schemaFile = none) (h : Grounds d p.root q [] []) :
    ∃ d' files, outcome p.scaffold d = (.ok (), d') ∧ Scaffolded d' p q k files := by
  have hsettings : Slot p.root [] Layout.settingsFile :=
    hsite.top (by decide) (Nat.le_add_left_of_le (by decide))
  have hschema : Slot p.root [] p.schemaFile := by
    rw [schemaFile, hp, Option.getD_none]
    exact hsite.slot_schema
  have hother : p.schemaFile ∉ scaffoldNames := by
    have hlast : ∀ n ∈ scaffoldNames, n.toList.getLast? ≠ some 'n' := by decide
    exact fun hmem => schemaFile_ne hp (hlast _ hmem) rfl
  obtain ⟨d₁, files, hfiles, hgrounds, hall⟩ := writeFiles_ok hsite hk h
  have hnew {n : String} (hn : n ∉ scaffoldNames) (hn' : n ≠ ".gitignore") :
      [] ++ [n] ∉ files.map Prod.fst := by
    rw [hall, not_or]
    exact ⟨not_mem_scaffoldPlaces hn, by simpa using hn'⟩
  obtain ⟨d₂, hexample, hgrounds⟩ := writeExample_ok hschema hgrounds
    (Or.inl ⟨_, List.mem_cons_self, List.nil_prefix⟩) (hnew hother (schemaFile_ne hp (by decide)))
  obtain ⟨d₃, hsave, -, hgrounds⟩ := Files.writes_over hsettings p.settings.text hgrounds (by
    rw [List.map_cons, List.mem_cons, not_or]
    exact ⟨fun he => schemaFile_ne hp (by decide) (List.singleton_inj.1 he).symm,
      hnew (by decide) (by decide)⟩)
  refine ⟨d₃, _, ?_, hgrounds, by simp, by simp, fun r => ?_⟩
  · rw [scaffold_eq]
    refine Disk.outcome_bind_ok.2 ⟨(), d₂, Disk.outcome_bind_ok.2 ⟨(), d₁, hfiles, ?_⟩, hsave⟩
    exact Disk.outcome_bind_ok.2 ⟨true, d₂, hexample, rfl⟩
  · rw [List.map_cons, List.map_cons, List.mem_cons, List.mem_cons, hall]
    rfl

/-- Nothing of it is in the build directory, and no archive is part of it. -/
lemma Scaffolded.apart (h : Scaffolded d p q k files) (hp : p.settings.schemaFile = none) :
    ∀ r ∈ files.map Prod.fst, r.head? ≠ some "target" ∧ ∀ text : String, r ≠ [text ++ ".zip"] := by
  have hsingle {n : String} (hn : n ≠ "target") (hlast : n.toList.getLast? ≠ some 'p') :
      [n].head? ≠ some "target" ∧ ∀ text : String, [n] ≠ [text ++ ".zip"] := by
    refine ⟨fun he => hn (Option.some.inj he), fun text he => hlast ?_⟩
    rw [List.singleton_inj.1 he, last_archive]
  intro r hr
  rcases (h.all r).1 hr with rfl | rfl | hr | rfl
  · exact hsingle (by decide) (by decide)
  · exact hsingle (schemaFile_ne hp (by decide)) (by simp [last_schemaFile hp])
  · obtain ⟨x, hx, rfl⟩ := List.mem_map.1 hr
    have hnames : ∀ n ∈ scaffoldNames, n ≠ "target" ∧ n.toList.getLast? ≠ some 'p' := by decide
    obtain ⟨hname, hlast⟩ := hnames _ (mem_scaffoldNames hx)
    rcases directory_of_scaffold hx with hs | hs | hs
    · rw [hs]
      exact hsingle hname hlast
    · rw [hs]
      exact ⟨by simp [mainPlace], fun text he => by simpa [mainPlace] using congrArg List.length he⟩
    · rw [hs]
      exact ⟨by simp [testPlace], fun text he => by simpa [testPlace] using congrArg List.length he⟩
  · exact hsingle (by decide) (by decide)

/-- **What was written is loaded.** -/
lemma Scaffolded.load (h : Scaffolded d p q k files) : outcome (load p.root) d = (.ok p, d) :=
  load_of_read (h.grounds.read h.settings rfl)

/-- The stubs of the handlers are in the directory of the package. -/
lemma Scaffolded.isFile_handler (h : Scaffolded d p q k files) (hsite : Site p.root p.hyphenated k)
    (op : Java.Operation) :
    d.isFile (Layout.mainSources p.root k / sourceFile op.handlerClass) = true := by
  have hplace : (mainPlace k, sourceFile op.handlerClass) ∈ scaffoldPlaces k := by
    cases op <;> simp [scaffoldPlaces, Java.Operation.all]
  have hmem : mainPlace k ++ [sourceFile op.handlerClass] ∈ files.map Prod.fst :=
    (h.all _).2 (Or.inr (Or.inr (Or.inl (List.mem_map.2 ⟨_, hplace, rfl⟩))))
  refine h.grounds.isFile hmem ?_
  rw [List.foldl_append, mainSources_eq hsite.nonempty hsite.isName]
  rfl

/-! ### The sources that are generated -/

/-- The files that follow from the schema to start with. -/
def exampleSources : List String := ["HandlerWrapper.java", "BaseConfiguration.java",
  "BaseHandler.java", "ResourceModel.java", "Tag.java"]

lemma loadSchema_of_read {text : String} {schema : Document}
    (h : d.read p.schemaPath = .ok text.toUTF8) (hparse : Document.parse? text = some schema) :
    outcome p.loadSchema d = (.ok schema, d) := by
  refine loadSchema_ok.2 ⟨rfl, text, ?_, hparse⟩
  rw [h]
  exact Files.textOf_toUTF8 text

lemma Scaffolded.loadSchema (h : Scaffolded d p q k files) :
    outcome p.loadSchema d = (.ok (Schema.exampleDocument p.typeName), d) := by
  have hplain : ∀ c ∈ p.typeName.toList, Document.IsPlain c := plain_typeName p.segments_eq
  exact loadSchema_of_read (h.grounds.read h.schema rfl) (Schema.parse?_exampleSchema hplain)

lemma reaches_generatedRoot (hsite : Site root n k) :
    Reaches root (Layout.generatedRoot root) Layout.generatedSegments := by
  have hnames : ∀ m ∈ Layout.generatedSegments, Asked m := by decide
  have hnames' : ∀ m ∈ Layout.generatedSegments, IsName m := fun m hm => (hnames m hm).named
  have hweight : Path.weight Layout.generatedSegments = 30 := by decide
  have hpath := hsite.room.sourcePath
  exact ⟨valid_of_names hsite.valid hnames (by omega), Path.endsInStep_foldl (by decide) hnames',
    Path.steps_foldl hnames', Path.isAbsolute_foldl hnames'⟩

/-- There is no generated root yet. -/
lemma Scaffolded.locate_generatedRoot (h : Scaffolded d p q k files)
    (hsite : Site p.root p.hyphenated k) (hp : p.settings.schemaFile = none) :
    d.locate false (Layout.generatedRoot p.root) = .error .notFound := by
  refine h.grounds.locate_absent (reaches_generatedRoot hsite) (by decide) ?_
  cases he : d.at? (q ++ ["target"]) with
  | none => rfl
  | some e =>
    rcases (h.grounds.below _ e (by simp)).1 he with ⟨bytes, hmem, -⟩ | ⟨hfolder, -⟩
    · exact absurd rfl (h.apart hp _ (List.mem_map_of_mem hmem)).1
    · rcases hfolder with ⟨s, hs, t, ht⟩ | ⟨x, hx, ⟨t, ht⟩, -⟩
      · rcases List.mem_pair.1 hs with rfl | rfl
        · simp [testPlace] at ht
        · simp [mainPlace] at ht
      · refine absurd ?_ (h.apart hp _ (List.mem_map_of_mem hx)).1
        rw [← ht]
        rfl

lemma Site.generatedSource_eq (hsite : Site root n k) (m : String) :
    (generatedPlace k ++ [m]).foldl (· / ·) root = generatedPackage root k / m := by
  rw [List.foldl_append, hsite.generatedPackage_eq]
  rfl

lemma writes_source (hsite : Site root n k) {f : String × Lines} (hf : f.1 ∈ exampleSources) :
    Writes root q (generatedPlace k ++ [f.1]) (render f.2).toUTF8
      (emit (generatedPackage root k) f) (generatedPackage root k / f.1) := by
  have hnames : ∀ n ∈ exampleSources, IsFileName n ∧ n.utf8ByteSize ≤ 22 := by decide
  have hslot : Slot root (generatedPlace k) f.1 :=
    hsite.source (by decide) (by decide) (hnames f.1 hf).1 (hnames f.1 hf).2
  have hpath := hsite.generatedSource_eq f.1
  intro d files dirs h hnew
  obtain ⟨d', hwrite, hrest⟩ := Files.writes_over hslot (render f.2) h hnew
  refine ⟨d', ?_, hrest⟩
  rw [hpath] at hwrite
  exact Disk.outcome_bind_ok.2 ⟨(), d', hwrite, rfl⟩

/-- **The sources are generated** from the schema to start with. -/
theorem Scaffolded.generate (h : Scaffolded d p q k files) (hsite : Site p.root p.hyphenated k)
    (hk : p.package = .ok k) (hp : p.settings.schemaFile = none) :
    ∃ d' new, outcome p.generate d =
        (.ok (exampleSources.map (generatedPackage p.root k / ·)), d') ∧ Extends d d' ∧
      Grounds d' p.root q (new ++ files) [generatedPlace k, testPlace k, mainPlace k] ∧
      ∀ r, r ∈ new.map Prod.fst ↔ r ∈ exampleSources.map fun n => generatedPlace k ++ [n] := by
  obtain ⟨classes, keys, hmodel, hclasses⟩ := modelOf_example k p.typeName
  have hnames : (generatedFiles p.typeName k classes keys).map Prod.fst = exampleSources := by
    have hsplit : (generatedFiles p.typeName k classes keys).map Prod.fst =
        ["HandlerWrapper.java", "BaseConfiguration.java", "BaseHandler.java"] ++
          (classes.map (·.name)).map (· ++ ".java") := by
      simp [generatedFiles, Function.comp_def]
    rw [hsplit, hclasses]
    rfl
  have hmap {β : Type} (g : String → β) : (generatedFiles p.typeName k classes keys).map
      (fun f => g f.1) = exampleSources.map g := by
    rw [← hnames, List.map_map]
    rfl
  have hplaces := hmap fun n => generatedPlace k ++ [n]
  have habsent := h.locate_generatedRoot hsite hp
  have hcleared : cleared d p.root = d := cleared_of_error habsent
  have hremove : outcome (removeGenerated p.root) d = (.ok (), d) := by
    rw [outcome_removeGenerated, Disk.removeTree, habsent]
    rfl
  obtain ⟨d₁, hmake, hextends, hgrounds⟩ := h.grounds.makeDirectories
    (undotted_of_names hsite.isDirectoryName_generated) hsite.reaches_generated
  obtain ⟨d₂, hemit, hextends', hgrounds⟩ := hgrounds.mapM
    (fun f hf => writes_source hsite (hnames ▸ List.mem_map_of_mem hf))
    (by
      rw [hplaces]
      exact List.Nodup.map (fun n m he => by simpa using he) (by decide))
    (fun f hf hmem => (h.apart hp _ hmem).1 rfl)
  refine ⟨d₂, _, ?_, hextends.trans hextends', hgrounds, fun r => ?_⟩
  · rw [← hmap]
    refine generate_ok.2 ⟨k, _, classes, keys, hk, h.loadSchema, hmodel, ?_⟩
    rw [hcleared]
    exact ⟨hremove, Disk.outcome_bind_ok.2 ⟨(), d₁, Disk.outcome_orRefused_ok.2 hmake, hemit⟩⟩
  · rw [← hplaces, List.map_reverse, List.mem_reverse, List.map_map]
    rfl

/-! ### The artifact and the archive -/

/-- The path in the deployment descriptor leads to the artifact. -/
lemma reaches_codeUri {hyphenated : String} (hsite : Site root hyphenated k) :
    Reaches root (root / Layout.codeUri hyphenated) (["target"] ++ [artifactName hyphenated]) := by
  have hname : IsName (artifactName hyphenated) := hsite.artifact.named
  have htext : (Layout.codeUri hyphenated).toList =
      ['.'] ++ '/' :: ("target".toList ++ '/' :: (artifactName hyphenated).toList) := by
    rw [codeUri_eq, String.toList_append]
    rfl
  have hhead : (Layout.codeUri hyphenated).toList.head? ≠ some '/' := by
    rw [htext]
    simp
  have hpieces : Path.pieces ⟨Layout.codeUri hyphenated⟩ =
      [['.'], "target".toList] ++ [(artifactName hyphenated).toList] := by
    rw [Path.pieces, htext, List.splitOn_append_cons_self, List.splitOn_append_cons_self,
      List.splitOn_eq_singleton hname.noSlash]
    rfl
  have hsteps : Path.steps ⟨Layout.codeUri hyphenated⟩ =
      ["target"] ++ [artifactName hyphenated] := by
    have hfront : [['.'], "target".toList].filter (fun l => !Path.isIdle l) =
        ["target".toList] := by decide
    have hlast : [(artifactName hyphenated).toList].filter (fun l => !Path.isIdle l) =
        [(artifactName hyphenated).toList] := List.filter_eq_self.2 (by simp [hname.counts])
    rw [Path.steps_eq, hpieces, List.filter_append, hfront, hlast, List.map_append,
      List.map_singleton, List.map_singleton, String.ofList_toList, String.ofList_toList]
  refine ⟨?_, Path.endsInStep_join hhead ⟨_, _, hpieces, hname.counts⟩, ?_,
    Path.isAbsolute_join hhead⟩
  · have hnul : '\x00' ∉ (Layout.codeUri hyphenated).toList := by
      rw [codeUri_eq, String.toList_append, List.mem_append, not_or]
      exact ⟨by decide, (hsite.isFileName (by decide) (by decide)).1.noNul⟩
    have hshort : root.Short root.text.utf8ByteSize :=
      ⟨hsite.valid.noNul, hsite.valid.nonempty, le_rfl⟩
    have hsize : (Layout.codeUri hyphenated).utf8ByteSize = hyphenated.utf8ByteSize + 34 := by
      have hfront : "./target/".utf8ByteSize = 9 := by decide
      have hback : "-handler-1.0-SNAPSHOT.jar".utf8ByteSize = 25 := by decide
      rw [Layout.codeUri, String.utf8ByteSize_append, String.utf8ByteSize_append, hfront, hback]
      omega
    have hpath := hsite.room.artifactPath
    exact (hshort.join hhead hnul).valid (by omega)
  · rw [Path.steps_join hhead, hsteps]

lemma not_mem_exampleSources (hr : r.length ≤ 2) :
    r ∉ exampleSources.map fun n => generatedPlace k ++ [n] := by
  intro hmem
  obtain ⟨n, -, rfl⟩ := List.mem_map.1 hmem
  simp [generatedPlace, Layout.generatedSegments] at hr

/-- With the artifact and the generated sources beside the scaffold, all that is needed is there. -/
lemma Scaffolded.packable {all : List (Place × ByteArray)} (h : Scaffolded d p q k files)
    (hp : p.settings.schemaFile = none) (hgrounds : Grounds d' p.root q all dirs)
    (hall : ∀ r, r ∈ all.map Prod.fst ↔ r = ["target", artifactName p.hyphenated] ∨
      r ∈ exampleSources.map (fun n => generatedPlace k ++ [n]) ∨ r ∈ files.map Prod.fst) :
    Packable d' p q (artifactName p.hyphenated) all dirs := by
  have hscaffold {x : Place × String} (hx : x ∈ scaffoldPlaces k) :
      x.1 ++ [x.2] ∈ all.map Prod.fst :=
    (hall _).2 (Or.inr (Or.inr ((h.all _).2 (Or.inr (Or.inr (Or.inl (List.mem_map_of_mem hx)))))))
  have hfile {r : Place} (t : Place) (hr : r ≠ []) (ht : t ≠ [])
      (hmem : r ++ t ∈ all.map Prod.fst) : HasFile all r := by
    obtain ⟨x, hx, he⟩ := List.mem_map.1 hmem
    exact ⟨hr, x, hx, he ▸ List.prefix_append r t, fun he' => ht (by simpa using he'.trans he)⟩
  obtain ⟨pattern, hpattern, haccepts⟩ := patternOf_accepts p.segments_eq
  have hversion : p.hyphenated ++ "-" ++ "handler-1.0" ++ "-SNAPSHOT.jar" =
      artifactName p.hyphenated := by
    rw [artifactName, String.append_assoc, String.append_assoc]
    rfl
  refine ⟨hgrounds, ⟨pattern, hpattern, hversion ▸ haccepts "handler-1.0"⟩, fun m => ?_, ?_, ?_, ?_⟩
  · rw [hall]
    refine ⟨?_, fun hm => Or.inl (by rw [hm])⟩
    rintro (hm | hm | hm)
    · simpa using hm
    · exact absurd hm (not_mem_exampleSources le_rfl)
    · exact absurd rfl (h.apart hp _ hm).1
  · exact hscaffold (x := ([], "pom.xml")) (by simp [scaffoldPlaces])
  · refine hfile (["main", "java"] ++ k.segments ++ ["Configuration.java"]) (by simp) (by simp) ?_
    exact hscaffold (x := (mainPlace k, "Configuration.java")) (by simp [scaffoldPlaces])
  · refine hfile (["rpdk"] ++ k.segments ++ ["Tag.java"]) (by simp) (by simp) ?_
    exact (hall _).2 (Or.inr (Or.inl (List.mem_map.2 ⟨"Tag.java", by decide, rfl⟩)))

/-- **The project is packed** once there is a file where the deployment descriptor says. -/
theorem Scaffolded.pack {new : List (Place × ByteArray)} (h : Scaffolded d p q k files)
    (hsite : Site p.root p.hyphenated k) (hp : p.settings.schemaFile = none)
    (hgrounds : Grounds d' p.root q (new ++ files) (generatedPlace k :: dirs))
    (hnew : ∀ r, r ∈ new.map Prod.fst ↔ r ∈ exampleSources.map fun n => generatedPlace k ++ [n])
    (bytes : ByteArray) : ∃ d₁ d₂, d'.write (p.root / Layout.codeUri p.hyphenated) bytes = .ok d₁ ∧
      outcome (p.pack (Command.defaultArchive p)) d₁ = (.ok (), d₂) := by
  have hfree : ["target"] ++ [artifactName p.hyphenated] ∉ (new ++ files).map Prod.fst := by
    rw [List.map_append, List.mem_append, hnew, not_or]
    exact ⟨not_mem_exampleSources le_rfl, fun hmem => (h.apart hp _ hmem).1 rfl⟩
  obtain ⟨d₁, -, hwrite, -, hgrounds⟩ := hgrounds.write hsite.artifact (reaches_codeUri hsite)
    (Or.inl ⟨_, List.mem_cons_self, _, rfl⟩) hfree bytes
  have hall (r : Place) : r ∈ ((["target"] ++ [artifactName p.hyphenated], bytes) ::
      (new ++ files)).map Prod.fst ↔ r = ["target", artifactName p.hyphenated] ∨
        r ∈ exampleSources.map (fun n => generatedPlace k ++ [n]) ∨ r ∈ files.map Prod.fst := by
    rw [List.map_cons, List.mem_cons, List.map_append, List.mem_append, hnew]
    rfl
  have harchive : [p.hyphenated ++ ".zip"] ∉ ((["target"] ++ [artifactName p.hyphenated], bytes) ::
      (new ++ files)).map Prod.fst := by
    rw [hall, not_or, not_or]
    exact ⟨by simp, not_mem_exampleSources (by simp), fun hm => (h.apart hp _ hm).2 _ rfl⟩
  obtain ⟨d₂, hpack⟩ := (h.packable hp hgrounds hall).pack hsite.slot_archive harchive
  exact ⟨d₁, d₂, hwrite, hpack⟩

/-! ### From the first command to the last -/

/-- The package of a new project: the one chosen, if that can be one, or else the derived one. -/
def chosenPackage (segments : List String) : Option String → Except Error Package
  | some chosen => readPackage chosen
  | none => .ok (Package.derive segments)

variable {typeName : String} {segments : List String} {chosen : Option String}

/-- The settings of a new project once it is declared. -/
def firstSettings (typeName : String) (chosen : Option String) (k : Package) : Settings :=
  { Settings.ofTypeName typeName with
    package := chosen, runtime := Layout.runtime, entrypoint := Layout.entrypoint k }

lemma newProject_ok (root : Path) (hname : TypeName.segments typeName = .ok segments)
    (hchosen : chosenPackage segments chosen = .ok k) :
    ∃ p, Command.newProject root typeName chosen = .ok p ∧ p.declared.root = root ∧
      p.declared.settings = firstSettings typeName chosen k ∧ p.declared.segments = segments ∧
      p.declared.package = .ok k := by
  have hnew : Project.new root typeName = .ok ⟨root, .ofTypeName typeName, segments, hname⟩ :=
    ofSettings_settings ⟨root, .ofTypeName typeName, segments, hname⟩
  refine ⟨⟨root, { Settings.ofTypeName typeName with package := chosen }, segments, hname⟩, ?_, ?_⟩
  · rw [Command.newProject, hnew]
    cases chosen with
    | none => rfl
    | some chosen => exact withPackage_ok.2 ⟨⟨k, hchosen⟩, rfl⟩
  · have hk : Project.package ⟨root, { Settings.ofTypeName typeName with package := chosen },
        segments, hname⟩ = .ok k := by
      cases chosen with
      | none => exact hchosen
      | some chosen => exact hchosen
    rw [declared, hk]
    exact ⟨rfl, rfl, rfl, hk⟩

/-- **The first use of a project succeeds from end to end**, for every type name and every package
that are accepted and leave room enough. From an empty root, a new project is there to be
scaffolded, and with it the stubs of the handlers in the directory of its package. Loading gives
the project that was declared. From it the sources are generated: the three fixed classes, the
resource model and the tag, in the directory of the same package below the generated root. And
once there is any file where the deployment descriptor says that the artifact is, packing to the
archive at the default place succeeds. -/
theorem first_use (hd : d.Sound) (hempty : d.list root = .ok [])
    (hname : TypeName.segments typeName = .ok segments)
    (hchosen : chosenPackage segments chosen = .ok k)
    (hroom : Room root (TypeName.hyphenated segments) k) :
    ∃ p q d₁ d₂, Command.newProject root typeName chosen = .ok p ∧
      Disk.perform p.init d = ((.ok (), q), d₁) ∧
      (∀ op : Java.Operation,
        d₁.isFile (Layout.mainSources root k / (op.handlerClass ++ ".java")) = true) ∧
      outcome (load root) d₁ = (.ok q, d₁) ∧
      q.root = root ∧ q.settings = firstSettings typeName chosen k ∧ q.segments = segments ∧
      q.package = .ok k ∧
      outcome q.generate d₁ =
        (.ok (exampleSources.map (Layout.generatedRoot root / Layout.packagePath k / ·)), d₂) ∧
      (∀ n ∈ exampleSources,
        d₂.isFile (Layout.generatedRoot root / Layout.packagePath k / n) = true) ∧
      ∀ bytes, ∃ d₃ d₄, d₂.write (root / Layout.codeUri (TypeName.hyphenated segments)) bytes =
          .ok d₃ ∧
        outcome (q.pack (Command.defaultArchive q)) d₃ = (.ok (), d₄) := by
  obtain ⟨p, hp, hroot, hsettings, hsegments, hk⟩ := newProject_ok root hname hchosen
  have hinit := perform_init p d
  generalize p.declared = q at *
  subst hroot hsegments
  obtain ⟨hvalid, place, hgrounds⟩ := Files.Grounds.exists_of_empty hd hempty
  obtain ⟨hnonempty, htexts⟩ := isSegmentText_of_package hk
  have hsite : Site q.root q.hyphenated k :=
    ⟨hvalid, hroom, hnonempty, htexts, fun _ hc => TypeName.chars_hyphenated hname hc⟩
  have hnone : q.settings.schemaFile = none := hsettings ▸ rfl
  obtain ⟨d₁, files, hscaffold, h⟩ := scaffold_ok hsite hk hnone hgrounds
  obtain ⟨d₂, new, hgenerate, -, hgrounds', hnew⟩ := h.generate hsite hk hnone
  refine ⟨p, q, d₁, d₂, hp, ?_, fun op => ?_, h.load, rfl, hsettings, rfl, hk,
    hgenerate, fun n hn => ?_, fun bytes => h.pack hsite hnone hgrounds' hnew bytes⟩
  · rw [hinit, hscaffold]
  · exact h.isFile_handler hsite op
  · refine hgrounds'.isFile ?_ (hsite.generatedSource_eq n)
    rw [List.map_append, List.mem_append, hnew]
    exact Or.inl (List.mem_map.2 ⟨n, hn, rfl⟩)

lemma meadow_empty : meadow.list ⟨"p"⟩ = .ok [] := by
  have hlocate : meadow.locate true ⟨"p"⟩ = .ok ["p"] :=
    meadow_sound.locate_top (f := ⟨"p"⟩) rfl (by decide) ⟨[], ['p'], rfl, by decide⟩ (by decide)
      rfl (e := .directory) (by simp)
  rw [Disk.list, hlocate]
  rfl

theorem meadow_first_use : meadow.Sound ∧ meadow.list ⟨"p"⟩ = .ok [] ∧
    TypeName.segments "Acme::Meadow" = .ok ["Acme", "Meadow"] ∧
    chosenPackage ["Acme", "Meadow"] (some "org.meadow") = .ok ⟨["org", "meadow"]⟩ ∧
    Room ⟨"p"⟩ "acme-meadow" ⟨["org", "meadow"]⟩ ∧
    ∃ p q d₁ d₂, Command.newProject ⟨"p"⟩ "Acme::Meadow" (some "org.meadow") = .ok p ∧
      Disk.perform p.init meadow = ((.ok (), q), d₁) ∧ outcome (load ⟨"p"⟩) d₁ = (.ok q, d₁) ∧
      outcome q.generate d₁ = (.ok [
        ⟨"p/target/generated-sources/rpdk/org/meadow/HandlerWrapper.java"⟩,
        ⟨"p/target/generated-sources/rpdk/org/meadow/BaseConfiguration.java"⟩,
        ⟨"p/target/generated-sources/rpdk/org/meadow/BaseHandler.java"⟩,
        ⟨"p/target/generated-sources/rpdk/org/meadow/ResourceModel.java"⟩,
        ⟨"p/target/generated-sources/rpdk/org/meadow/Tag.java"⟩], d₂) ∧
      ∃ d₃ d₄, d₂.write ⟨"p/./target/acme-meadow-handler-1.0-SNAPSHOT.jar"⟩ "jar".toUTF8 = .ok d₃ ∧
        outcome (q.pack ⟨"p/acme-meadow.zip"⟩) d₃ = (.ok (), d₄) := by
  have hname : TypeName.segments "Acme::Meadow" = .ok ["Acme", "Meadow"] := by decide
  have hchosen : chosenPackage ["Acme", "Meadow"] (some "org.meadow") =
      .ok ⟨["org", "meadow"]⟩ := rfl
  have hroom : Room ⟨"p"⟩ "acme-meadow" ⟨["org", "meadow"]⟩ := by decide
  obtain ⟨p, q, d₁, d₂, hp, hinit, -, hload, hroot, -, hsegments, -, hgenerate, -, hpack⟩ :=
    first_use meadow_sound meadow_empty hname hchosen hroom
  have harchive : Command.defaultArchive q = ⟨"p/acme-meadow.zip"⟩ := by
    rw [Command.defaultArchive, hroot, Project.hyphenated, hsegments]
    rfl
  have hpack := hpack "jar".toUTF8
  rw [harchive] at hpack
  exact ⟨meadow_sound, meadow_empty, hname, hchosen, hroom, p, q, d₁, d₂, hp, hinit, hload,
    hgenerate, hpack⟩

end ProviderGen.Project
