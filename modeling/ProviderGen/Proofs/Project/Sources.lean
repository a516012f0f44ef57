import ProviderGen.Proofs.Java.ImportedTypes
import ProviderGen.Proofs.Project.Generate
import ProviderGen.Proofs.Project.Scaffold

/-!
The sources of a project: those of the scaffold and those that are generated. Each lies where
its own text says, below one of three source directories, and no two of them declare the same
class, whatever the schema calls its objects. Starting a project touches no other files than
those of the scaffold, the schema and the settings.
-/

namespace ProviderGen.Project

open Disk (outcome Changes Always)
open Java (JavaClass Operation Package ResourceKeys Source.Head Source.headLines rootClassName
  takenNames)
open Template (Lines render)

/-- A source for the class `name` of the package `k`, below the source directory `dir`. -/
structure IsSource (dir : Path) (k : Package) (f : Path × Lines) (name : String) : Prop where
  path : f.1 = dir / Layout.packagePath k / sourceFile name
  package : Java.Source.packageName? (render f.2) = some k.dotted
  declares : Java.Source.className? (render f.2) = some name

def sourceDirectories (root : Path) : List Path :=
  [root / "src" / "main" / "java", root / "src" / "test" / "java", Layout.generatedRoot root]

/-- Whether the last name on the path is that of a source. -/
def isJava (f : Path) : Bool :=
  match f.steps.getLast? with
  | some n => ".java".toList.isSuffixOf n.toList
  | none => false

def scaffoldSources (p : Project) (k : Package) : List (Path × Lines) :=
  (p.scaffoldFiles k).filter fun f => isJava f.1

def generatedSources (p : Project) (k : Package) (classes : List JavaClass)
    (keys : ResourceKeys) : List (Path × Lines) :=
  (generatedFiles p.typeName k classes keys).map fun f => (generatedPackage p.root k / f.1, f.2)

variable {p : Project} {k : Package} {classes : List JavaClass} {keys : ResourceKeys}
  {schema : Document}

/-! ### What is written -/

lemma isJava_join {dir : Path} {n : String} (h : Path.IsName n) :
    isJava (dir / n) = ".java".toList.isSuffixOf n.toList := by
  simp [isJava, Path.steps_join_name h]

/-- The sources of the scaffold: a handler and a test for each operation, and two more. -/
lemma scaffoldSources_eq (p : Project) (k : Package) :
    p.scaffoldSources k = Operation.all.flatMap (p.stubs k) ++
      [(Layout.mainSources p.root k / sourceFile "CallbackContext",
          Template.callbackContext k.dotted),
        (Layout.mainSources p.root k / sourceFile "Configuration",
          Template.configuration k.dotted p.schemaFile)] := by
  have hdescriptors : (p.descriptors k).filter (fun f => isJava f.1) = [] := by
    rw [List.filter_eq_nil_iff]
    simp only [descriptors, List.forall_mem_cons]
    refine ⟨?_, ?_, ?_, by simp⟩
    all_goals rw [isJava_join (by decide)]; decide
  have hstubs : (Operation.all.flatMap (p.stubs k)).filter (fun f => isJava f.1) =
      Operation.all.flatMap (p.stubs k) := by
    rw [List.filter_eq_self]
    intro f hf
    obtain ⟨op, -, hf⟩ := List.mem_flatMap.1 hf
    simp only [stubs, List.mem_cons, List.not_mem_nil, or_false] at hf
    rcases hf with rfl | rfl
    · rw [isJava_join (by cases op <;> decide)]
      cases op <;> decide
    · rw [isJava_join (by cases op <;> decide)]
      cases op <;> decide
  have hcompanions : (p.companions k).filter (fun f => isJava f.1) = (p.companions k).take 2 := by
    rw [companions, List.filter_cons_of_pos, List.filter_cons_of_pos, List.filter_cons_of_neg]
    · rfl
    all_goals rw [isJava_join (by decide)]; decide
  rw [scaffoldSources, scaffoldFiles, List.filter_append, List.filter_append, hdescriptors, hstubs,
    hcompanions, List.nil_append]
  rfl

/-! ### What the sources say -/

/-- What a text says of itself. -/
def Says (ls : Lines) (k : Package) (name : String) : Prop :=
  Java.Source.packageName? (render ls) = some k.dotted ∧
    Java.Source.className? (render ls) = some name

/-- The line that declares the class `name`. -/
def IsClassLine (name line : String) : Prop :=
  '\n' ∉ line.toList ∧ Java.Source.classOf? line.toList = some name

instance (name line : String) : Decidable (IsClassLine name line) :=
  inferInstanceAs (Decidable (_ ∧ _))

lemma says_of_lines (hk : p.package = .ok k) (pre mid : Lines) {post : Lines} {line name : String}
    (hpre : pre = [] ∨ pre = [Template.marker]) (hmid : Java.Source.Between mid)
    (hline : IsClassLine name line) :
    Says (pre ++ ("package " ++ k.dotted ++ ";") :: mid ++ line :: post) k name := by
  have hcomments : ∀ l ∈ pre, ∃ cs, l = String.ofList ('/' :: cs) ∧ '\n' ∉ cs := by
    rcases hpre with rfl | rfl
    · simp
    · rw [List.forall_mem_singleton]
      exact ⟨_, rfl, by decide⟩
  have hhead : Java.Source.Head k.dotted name pre mid line :=
    ⟨hcomments, (Java.fits_of_package hk).1, (Java.fits_of_package hk).2, hmid, hline.1, hline.2⟩
  obtain ⟨hpackage, hclass, -⟩ := hhead.reads post
  rw [Java.Source.headLines, List.append_assoc _ _ post] at hpackage hclass
  exact ⟨hpackage, hclass⟩

lemma says_handler (hk : p.package = .ok k) (op : Operation) :
    Says (Template.handler k.dotted op rootClassName) k op.handlerClass := by
  have hline : IsClassLine op.handlerClass
      ("public class " ++ op.name ++ "Handler extends BaseHandler<CallbackContext> \x7b") := by
    cases op <;> decide
  unfold Template.handler
  split
  · refine says_of_lines hk [] ((Template.pageHandler "" .list "").tail.take 10) (by simp) ?_ hline
    repeat refine .cons (by decide) (by decide) ?_
    exact .nil
  · refine says_of_lines hk [] ((Template.modelHandler "" .read "").tail.take 7) (by simp) ?_ hline
    repeat refine .cons (by decide) (by decide) ?_
    exact .nil

lemma says_handlerTest (hk : p.package = .ok k) (op : Operation) :
    Says (Template.handlerTest k.dotted op rootClassName) k op.testClass := by
  have hline : IsClassLine op.testClass ("public class " ++ op.name ++ "HandlerTest \x7b") := by
    cases op <;> decide
  refine says_of_lines hk [] ((Template.handlerTest "" .read "").tail.take 17) (by simp) ?_ hline
  repeat refine .cons (by decide) (by decide) ?_
  exact .nil

lemma says_callbackContext (hk : p.package = .ok k) :
    Says (Template.callbackContext k.dotted) k "CallbackContext" := by
  refine says_of_lines hk [] ((Template.callbackContext "").tail.take 10) (by simp) ?_ (by decide)
  repeat refine .cons (by decide) (by decide) ?_
  exact .nil

/-- The name of the schema file, which may be any text, comes later. -/
lemma says_configuration (hk : p.package = .ok k) (schemaFile : String) :
    Says (Template.configuration k.dotted schemaFile) k "Configuration" := by
  have hline : IsClassLine "Configuration" "class Configuration extends BaseConfiguration \x7b" := by
    decide
  exact says_of_lines hk [] [""] (by simp) (.cons (by decide) (by decide) .nil) hline

lemma says_handlerWrapper (hk : p.package = .ok k) :
    Says (Template.handlerWrapper k.dotted rootClassName Operation.all) k "HandlerWrapper" := by
  refine says_of_lines hk [Template.marker] (((Template.handlerWrapper "" "" []).drop 2).take 16)
    (by simp) ?_ (by decide)
  repeat refine .cons (by decide) (by decide) ?_
  exact .nil

lemma says_baseConfiguration (hk : p.package = .ok k) :
    Says (Template.baseConfiguration k.dotted) k "BaseConfiguration" := by
  refine says_of_lines hk [Template.marker] (((Template.baseConfiguration "").drop 2).take 5)
    (by simp) ?_ (by decide)
  repeat refine .cons (by decide) (by decide) ?_
  exact .nil

lemma says_baseHandler (hk : p.package = .ok k) :
    Says (Template.baseHandler k.dotted rootClassName) k "BaseHandler" := by
  refine says_of_lines hk [Template.marker] (((Template.baseHandler "" "").drop 2).take 6)
    (by simp) ?_ (by decide)
  repeat refine .cons (by decide) (by decide) ?_
  exact .nil

/-! ### What is declared -/

/-- The classes that every project has, in the order of writing. -/
def handwrittenNames : List String :=
  Operation.all.flatMap (fun op => [op.handlerClass, op.testClass]) ++
    ["CallbackContext", "Configuration"]

def generatedNames : List String := ["HandlerWrapper", "BaseConfiguration", "BaseHandler"]

/-- A source for the class `name`, below some source directory of the project. -/
def Declares (p : Project) (k : Package) (f : Path × Lines) (name : String) : Prop :=
  ∃ dir ∈ sourceDirectories p.root, IsSource dir k f name

lemma scaffold_declares (hk : p.package = .ok k) :
    List.Forall₂ (p.Declares k) (p.scaffoldSources k) handwrittenNames := by
  have hmain {name : String} {ls : Lines} (h : Says ls k name) :
      p.Declares k (Layout.mainSources p.root k / sourceFile name, ls) name :=
    ⟨_, by simp [sourceDirectories], rfl, h.1, h.2⟩
  have htest {name : String} {ls : Lines} (h : Says ls k name) :
      p.Declares k (Layout.testSources p.root k / sourceFile name, ls) name :=
    ⟨_, by simp [sourceDirectories], rfl, h.1, h.2⟩
  rw [scaffoldSources_eq]
  refine List.rel_append (List.rel_flatMap (List.forall₂_eq_eq_eq ▸ rfl) ?_)
    (.cons (hmain (says_callbackContext hk)) (.cons (hmain (says_configuration hk _)) .nil))
  rintro op _ rfl
  exact .cons (hmain (says_handler hk op)) (.cons (htest (says_handlerTest hk op)) .nil)

lemma generated_declares (hk : p.package = .ok k) (hm : modelOf k schema = .ok (classes, keys)) :
    List.Forall₂ (p.Declares k) (p.generatedSources k classes keys)
      (generatedNames ++ classes.map JavaClass.name) := by
  have hgenerated {name : String} {ls : Lines} (file : String) (hfile : file = sourceFile name)
      (h : Says ls k name) : p.Declares k (generatedPackage p.root k / file, ls) name :=
    ⟨Layout.generatedRoot p.root, by simp [sourceDirectories], by rw [hfile, generatedPackage],
      h.1, h.2⟩
  obtain ⟨graph, -, -, hclasses, -⟩ := modelOf_ok.1 hm
  rw [generatedSources, generatedFiles, List.map_append, List.map_map]
  refine List.rel_append ?_ ?_
  · refine .cons (hgenerated "HandlerWrapper.java" (by decide) (says_handlerWrapper hk)) ?_
    refine .cons (hgenerated "BaseConfiguration.java" (by decide) (says_baseConfiguration hk)) ?_
    exact .cons (hgenerated "BaseHandler.java" (by decide) (says_baseHandler hk)) .nil
  · rw [List.forall₂_map_left_iff, List.forall₂_map_right_iff, List.forall₂_same]
    intro c hc
    obtain ⟨hpackage, hname, -⟩ := Java.model_reads hk hclasses hc p.typeName keys
    exact hgenerated _ rfl ⟨hpackage, hname⟩

/-- No name is there twice, those of the schema's classes included. -/
lemma names_nodup (hm : modelOf k schema = .ok (classes, keys)) :
    (handwrittenNames ++ (generatedNames ++ classes.map JavaClass.name)).Nodup := by
  have htaken : ∀ n ∈ handwrittenNames ++ generatedNames, n ∈ takenNames rootClassName := by decide
  obtain ⟨hnodup, hnames⟩ := classes_of_modelOf hm
  rw [← List.append_assoc]
  refine List.Nodup.append (by decide) hnodup fun n hn hclass => ?_
  obtain ⟨c, hc, rfl⟩ := List.mem_map.1 hclass
  exact (hnames c hc).1 (htaken _ hn)

/-! ### What is touched -/

/-- Only files at these paths are different afterwards. -/
def Touches (paths : List Path) (d d' : Disk) : Prop :=
  d.Sound → Changes (fun q _ => ∃ f ∈ paths, d'.locate true f = .ok q) d d'

variable {paths : List Path} {d d' : Disk} {f : Path}

instance : IsPreorder Disk (Touches paths) where
  refl _ := .refl
  trans _ _ _ h h' hd := by
    have h' := h' (h hd).sound
    refine ((h hd).mono fun q hq => ?_).trans h'
    obtain ⟨f, hf, hq⟩ := hq
    exact ⟨f, hf, h'.keeps.locate hq⟩

lemma safeWrite_touches (hf : f ∈ paths) (text : String) :
    Always (Touches paths) (Files.safeWrite f text : ExceptT Error (StateM Disk) Unit).run :=
  fun _ hd => (Files.safeWrite_changes hd rfl).mono fun _ hq => ⟨f, hf, hq.2.1⟩

lemma overwrite_touches (hf : f ∈ paths) (text : String) :
    Always (Touches paths) (Files.overwrite f text : ExceptT Error (StateM Disk) Unit).run :=
  fun _ hd => (Files.overwrite_changes hd rfl).mono fun _ hq => ⟨f, hf, hq.2⟩

lemma makeSources_touches (dir : Path) :
    Always (Touches paths) (makeSources dir : ExceptT Error (StateM Disk) Unit).run :=
  (Disk.always_makeFrom (R := Touches paths) fun _ _ _ _ => Disk.makeDirectory_within).orRefused _

lemma writeExample_touches (hf : p.schemaPath ∈ paths) (text : String) :
    Always (Touches paths)
      (p.writeExampleIfMissing text : ExceptT Error (StateM Disk) Bool).run := by
  intro d hd
  have h := writeExample_changes hd (Prod.eta (outcome (p.writeExampleIfMissing text) d)).symm
  exact h.mono fun q hq => ⟨_, hf, hq.2.1⟩

/-- The paths at which a scaffold writes. -/
def scaffoldPaths (p : Project) (k : Package) : List Path :=
  [p.root / ".gitignore", p.schemaPath, p.settingsPath] ++ (p.scaffoldFiles k).map Prod.fst

lemma scaffold_touches (hk : p.package = .ok k) :
    Always (Touches (p.scaffoldPaths k)) (p.scaffold : ExceptT Error (StateM Disk) Unit).run := by
  have hfiles (f : Path × Lines) (hf : f ∈ p.scaffoldFiles k) : f.1 ∈ p.scaffoldPaths k :=
    List.mem_append_right _ (List.mem_map_of_mem hf)
  unfold scaffold
  rw [hk]
  rw [show (liftM (.ok k : Except Error Package) : ExceptT Error (StateM Disk) Package) = pure k
    from rfl, pure_bind]
  refine (safeWrite_touches (by simp [scaffoldPaths]) _).andThen fun _ => ?_
  refine (makeSources_touches _).andThen fun _ => (makeSources_touches _).andThen fun _ => ?_
  refine (Always.forM fun f hf => safeWrite_touches (hfiles f hf) _).andThen fun _ => ?_
  refine (writeExample_touches (by simp [scaffoldPaths]) _).andThen fun _ => ?_
  exact overwrite_touches (by simp [scaffoldPaths]) _

lemma scaffoldPaths_declared (p : Project) (k : Package) :
    p.declared.scaffoldPaths k = p.scaffoldPaths k := by
  unfold declared
  split
  · rfl
  · rfl

lemma generatedSources_declared (p : Project) (k : Package) (classes : List JavaClass)
    (keys : ResourceKeys) :
    p.declared.generatedSources k classes keys = p.generatedSources k classes keys := by
  unfold declared
  split
  · rfl
  · rfl

lemma emitAll_written {dir : Path} {files : List (String × Lines)} {written : List Path}
    (h : outcome (files.mapM (emit dir)) d = (.ok written, d')) :
    written = files.map fun f => dir / f.1 := by
  induction files generalizing d d' written with
  | nil =>
    rw [List.mapM_nil, Disk.outcome_pure] at h
    exact (Except.ok.inj (congrArg Prod.fst h)).symm
  | cons f files ih =>
    rw [List.mapM_cons] at h
    obtain ⟨g, d₁, hemit, hrest⟩ := Disk.outcome_bind_ok.1 h
    obtain ⟨gs, d₂, hfiles, hpure⟩ := Disk.outcome_bind_ok.1 hrest
    obtain ⟨u, d₃, -, hpath⟩ := Disk.outcome_bind_ok.1 hemit
    obtain rfl := Except.ok.inj (congrArg Prod.fst hpath)
    obtain rfl := Except.ok.inj (congrArg Prod.fst hpure)
    rw [List.map_cons, ih hfiles]

/-- Generating tells the paths of the sources. -/
lemma generate_written {written : List Path} (hk : p.package = .ok k)
    (hm : modelOf k schema = .ok (classes, keys)) (hs : outcome p.loadSchema d = (.ok schema, d))
    (h : outcome p.generate d = (.ok written, d')) :
    written = (p.generatedSources k classes keys).map Prod.fst := by
  obtain ⟨k', schema', classes', keys', hk', hs', hm', -, hbuild⟩ := generate_ok.1 h
  obtain rfl := Except.ok.inj (hk.symm.trans hk')
  obtain rfl := Except.ok.inj (congrArg Prod.fst (hs.symm.trans hs'))
  obtain ⟨rfl, rfl⟩ := Prod.mk.inj (Except.ok.inj (hm.symm.trans hm'))
  obtain ⟨u, d₁, -, hemit⟩ := Disk.outcome_bind_ok.1 hbuild
  rw [emitAll_written hemit, generatedSources, List.map_map]
  rfl

/-! ### The result -/

/-- **No class is declared twice.** Each source of the scaffold, and each one that is generated,
lies in the directory of the package below a source directory, is called like the class that it
declares there, and no two of them declare the same class. Starting the project touches no other
files than the scaffold, the schema and the settings; and generating, whenever it succeeds with
this schema afterwards, tells just the paths of these sources. -/
theorem classes_declared_once (hk : p.package = .ok k)
    (hm : modelOf k schema = .ok (classes, keys)) :
    (∀ f ∈ p.scaffoldSources k ++ p.generatedSources k classes keys,
      ∃ dir ∈ sourceDirectories p.root, ∃ name, IsSource dir k f name) ∧
    ((p.scaffoldSources k ++ p.generatedSources k classes keys).map
      fun f => Java.Source.className? (render f.2)).Nodup ∧
    Path.steps ⟨Layout.packagePath k⟩ = k.segments ∧
    ∀ d d' r p', d.Sound → Disk.perform (Project.init p) d = ((r, p'), d') →
      Changes (fun q _ => ∃ f ∈ p.scaffoldPaths k, d'.locate true f = .ok q) d d' ∧
      ∀ e e' written, outcome p'.loadSchema e = (.ok schema, e) →
        outcome p'.generate e = (.ok written, e') →
        written = (p.generatedSources k classes keys).map Prod.fst := by
  have hdeclares : List.Forall₂ (p.Declares k)
      (p.scaffoldSources k ++ p.generatedSources k classes keys)
      (handwrittenNames ++ (generatedNames ++ classes.map JavaClass.name)) :=
    List.rel_append (scaffold_declares hk) (generated_declares hk hm)
  obtain ⟨hne, hsegments⟩ := segments_of_package hk
  refine ⟨fun f hf => ?_, ?_, (packagePath_ok hne hsegments).2.2, fun d d' r p' hd h => ?_⟩
  · obtain ⟨name, -, dir, hdir, hsource⟩ := Schema.exists_of_forall₂ hdeclares.flip hf
    exact ⟨dir, hdir, name, hsource⟩
  · have hread : (p.scaffoldSources k ++ p.generatedSources k classes keys).map
        (fun f => Java.Source.className? (render f.2)) =
        (handwrittenNames ++ (generatedNames ++ classes.map JavaClass.name)).map some := by
      rw [← List.forall₂_eq_eq_eq, List.forall₂_map_left_iff, List.forall₂_map_right_iff]
      refine hdeclares.imp fun f name h => ?_
      obtain ⟨dir, -, hsource⟩ := h
      exact hsource.declares
    rw [hread]
    exact (names_nodup hm).map (Option.some_injective _)
  · obtain rfl : p.declared = p' := congrArg (fun x => x.1.2) h
    obtain rfl : (outcome p.declared.scaffold d).2 = d' := congrArg Prod.snd h
    have hdeclared := package_declared hk
    rw [← scaffoldPaths_declared, ← generatedSources_declared]
    exact ⟨scaffold_touches hdeclared d hd, fun e e' written hs he =>
      generate_written hdeclared hm hs he⟩

/-- Objects that are called like the classes of every project, and two that differ in case. -/
def fleet : Document.Members :=
  [("properties", .record [("Configuration", .record [("properties", .record [])]),
    ("CreateHandler", .record [("properties", .record [])]),
    ("Tag", .record [("properties", .record [])]), ("tag", .record [("properties", .record [])])])]

def fleetProject : Project := ⟨⟨"p"⟩, .ofTypeName "Aa::Fleet", ["Aa", "Fleet"], by decide⟩

lemma fleet_model : ∃ classes keys,
    modelOf (.derive ["Aa", "Fleet"]) (.record fleet) = .ok (classes, keys) ∧
      classes.map JavaClass.name =
        ["ResourceModel", "Configuration1", "CreateHandler1", "Tag", "Tag1"] :=
  ⟨_, _, modelOf_ok.2 ⟨_, _, Schema.ofDocument_record.2 (Or.inr ⟨_, _, _, rfl,
    .cons (.hoist rfl (by decide) rfl .nil) (.cons (.hoist rfl (by decide) rfl .nil)
      (.cons (.hoist rfl (by decide) rfl .nil) (.cons (.hoist rfl (by decide) rfl .nil) .nil))),
    rfl⟩), rfl, rfl, rfl⟩, rfl⟩

theorem fleet_declared_once : fleetProject.package = .ok (.derive ["Aa", "Fleet"]) ∧
    ∃ classes keys, modelOf (.derive ["Aa", "Fleet"]) (.record fleet) = .ok (classes, keys) ∧
      classes.map JavaClass.name =
        ["ResourceModel", "Configuration1", "CreateHandler1", "Tag", "Tag1"] ∧
      ((fleetProject.scaffoldSources (.derive ["Aa", "Fleet"]) ++
        fleetProject.generatedSources (.derive ["Aa", "Fleet"]) classes keys).map
          fun f => Java.Source.className? (render f.2)).Nodup := by
  obtain ⟨classes, keys, hm, hnames⟩ := fleet_model
  exact ⟨rfl, classes, keys, hm, hnames,
    (classes_declared_once (p := fleetProject) rfl hm).2.1⟩

end ProviderGen.Project
