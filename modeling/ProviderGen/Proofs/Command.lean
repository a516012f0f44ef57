import ProviderGen.Command
import ProviderGen.Proofs.Disk.Failure
import ProviderGen.Proofs.Project.Generate
import ProviderGen.Proofs.Project.Pack

/-!
What is left of a command that fails. Each command settles what it is going to do before it does
anything: the values it is given, the settings, the schema with all that follows from it, the
artifact and the place of the archive. After that only the file system can make it fail, so a
command that fails for another reason has changed nothing.
-/

namespace ProviderGen

open Disk (Always FailsClean FailsOnRefusal outcome)

variable {d d' d₁ : Disk} {p : Project} {root archive : Path} {e : Error}

namespace Project

/-! ### Scaffolding -/

lemma scaffold_failsClean (p : Project) :
    FailsClean (p.scaffold : ExceptT Error (StateM Disk) Unit) := by
  refine (Disk.always_liftExcept _).failsClean fun k => FailsOnRefusal.clean ?_
  refine (Disk.failsOnRefusal_safeWrite _ _).bind fun _ _ _ _ => ?_
  refine (Disk.failsOnRefusal_orRefused _ _).bind fun _ _ _ _ => ?_
  refine (Disk.failsOnRefusal_orRefused _ _).bind fun _ _ _ _ => ?_
  refine (Disk.failsOnRefusal_forM fun f => Disk.failsOnRefusal_safeWrite _ _).bind
    fun _ _ _ _ => ?_
  refine FailsOnRefusal.bind ?_ fun _ _ _ _ => Disk.failsOnRefusal_overwrite _ _
  refine (Disk.failsOnRefusal_lift _).bind fun _ there _ _ => ?_
  split
  · exact Disk.failsOnRefusal_pure _
  · exact (Disk.failsOnRefusal_safeWrite _ _).bind fun _ _ _ _ => Disk.failsOnRefusal_pure _

/-- A scaffold that succeeds has a package. -/
lemma package_of_scaffold {u : Unit} (h : outcome p.scaffold d = (.ok u, d')) :
    ∃ k, p.package = .ok k := by
  obtain ⟨k, d₁, hk, -⟩ := Disk.outcome_bind_ok.1 h
  rw [Disk.outcome_liftExcept] at hk
  exact ⟨k, congrArg Prod.fst hk⟩

/-! ### Reading -/

lemma load_looks (root : Path) :
    Always Eq (load root : ExceptT Error (StateM Disk) Project).run := by
  unfold load
  refine (Disk.always_lift (Disk.always_look _)).andThen fun answer => ?_
  split
  · exact Disk.always_liftExcept _
  · exact Disk.always_throw _
  · exact Disk.always_throw _

lemma loadSchema_looks (p : Project) :
    Always Eq (p.loadSchema : ExceptT Error (StateM Disk) Document).run := by
  unfold loadSchema
  refine ((Disk.always_look _).orRefused _).andThen fun text => ?_
  split
  · exact Disk.always_pure _
  · exact Disk.always_throw _

lemma load_iff : outcome (load root) d = (.ok p, d') ↔
    d' = d ∧ ∃ text, (d.read (root / Layout.settingsFile)).bind Files.textOf = .ok text ∧
      ofText root text = .ok p := by
  have hread : outcome (liftM (Files.readText (root / Layout.settingsFile) :
        StateM Disk (Except Refusal String)) : ExceptT Error (StateM Disk) _) d =
      (.ok ((d.read (root / Layout.settingsFile)).bind Files.textOf), d) := rfl
  rw [load, Disk.outcome_bind, hread]
  cases (d.read (root / Layout.settingsFile)).bind Files.textOf with
  | ok text =>
    dsimp only
    rw [Disk.outcome_liftExcept, Prod.mk.injEq]
    refine ⟨fun ⟨hp, hd⟩ => ⟨hd.symm, text, rfl, hp⟩, ?_⟩
    rintro ⟨hd, text', ht, hp⟩
    rw [Except.ok.inj ht]
    exact ⟨hp, hd.symm⟩
  | error r => cases r <;> simp

/-! ### Generating -/

lemma generate_failsClean (p : Project) :
    FailsClean (p.generate : ExceptT Error (StateM Disk) (List Path)) := by
  refine (Disk.always_liftExcept _).failsClean fun k => ?_
  refine (loadSchema_looks p).failsClean fun schema => ?_
  refine (Disk.always_liftExcept _).failsClean fun model => FailsOnRefusal.clean ?_
  refine FailsOnRefusal.bind ?_ fun _ _ _ _ => ?_
  · refine (Disk.failsOnRefusal_lift _).bind fun _ answer _ _ => ?_
    split
    · exact Disk.failsOnRefusal_pure _
    · exact Disk.failsOnRefusal_pure _
    · exact Disk.failsOnRefusal_throw rfl
  · refine (Disk.failsOnRefusal_orRefused _ _).bind fun _ _ _ _ => ?_
    exact Disk.failsOnRefusal_mapM fun f =>
      (Disk.failsOnRefusal_overwrite _ _).bind fun _ _ _ _ => Disk.failsOnRefusal_pure _

/-! ### Packing -/

/-- Assembling fails only where a file cannot be read, or lies outside the root. -/
def Refused (a : Archive.Assembly) : Prop := ∀ e, a.failure = some e → e.kind = .io

lemma refused_ofFile (root f : Path) (d : Disk) :
    Refused (Disk.perform (Archive.ofFile root f) d).1 := by
  unfold Archive.ofFile
  cases hname : Archive.entryName root f with
  | error e =>
    intro e' he
    obtain rfl := Option.some.inj he
    unfold Archive.entryName at hname
    split at hname
    · cases hname
    · cases hname
      rfl
  | ok name =>
    dsimp only
    rw [Disk.perform_bind, Disk.perform_read]
    intro e he
    cases hread : d.read f with
    | ok bytes =>
      rw [hread] at he
      cases he
    | error r =>
      rw [hread] at he
      cases r <;> cases he <;> rfl

lemma refused_ofAll {α : Type} {entry : α → StateM Disk Archive.Assembly}
    (h : ∀ x d, Refused (Disk.perform (entry x) d).1) (xs : List α) (d : Disk) :
    Refused (Disk.perform (Archive.ofAll entry xs) d).1 := by
  induction xs generalizing d with
  | nil =>
    intro e he
    cases he
  | cons x xs ih =>
    unfold Archive.ofAll
    rw [Disk.perform_bind]
    cases hfail : (Disk.perform (entry x) d).1.failure with
    | some e => exact h x d
    | none => exact ih _

lemma refused_assemble (root : Path) (paths : List Path) (d : Disk) :
    Refused (Disk.perform (Archive.assemble root paths) d).1 := by
  refine refused_ofAll (fun f d => ?_) paths d
  unfold Archive.ofPath
  rw [Disk.perform_bind, Disk.perform_isDirectory]
  dsimp only
  split
  · unfold Archive.ofTree
    rw [Disk.perform_bind, Disk.perform_walk]
    cases hwalk : d.walk f with
    | error r =>
      intro e he
      cases he
      rfl
    | ok files => exact refused_ofAll (refused_ofFile root) files d
  · exact refused_ofFile root f d

lemma pack_failsClean (p : Project) (archive : Path) :
    FailsClean (p.pack archive : ExceptT Error (StateM Disk) Unit) := by
  refine (find_looks _ _).failsClean fun artifact => ?_
  refine (checkPlace_looks _ _).failsClean fun _ => FailsOnRefusal.clean ?_
  refine (Disk.failsOnRefusal_orRefused _ _).bind fun _ _ _ _ => ?_
  refine (Disk.failsOnRefusal_lift _).bind fun d₁ assembly _ hassembly => ?_
  refine (Disk.failsOnRefusal_orRefused _ _).bind fun _ _ _ _ => ?_
  have hrefused : Refused assembly := by
    have ha : (Disk.perform (Archive.assemble p.root (packedPaths p.root artifact)) d₁).1 =
        assembly := Except.ok.inj (congrArg Prod.fst hassembly)
    rw [← ha]
    exact refused_assemble _ _ d₁
  split
  · rename_i e he
    exact Disk.failsOnRefusal_throw (hrefused e he)
  · exact Disk.failsOnRefusal_pure _

end Project

namespace Command

variable {action : Action}

/-- The settings below the root can be read, and so can the schema that they lead to. -/
def Legible (d : Disk) (root : Path) : Prop :=
  ∃ settings p text schema,
    (d.read (root / Layout.settingsFile)).bind Files.textOf = .ok settings ∧
    Project.ofText root settings = .ok p ∧
    (d.read p.schemaPath).bind Files.textOf = .ok text ∧ Document.parse? text = some schema

lemma init_failsClean (root : Path) (typeName : String) (package : Option String) :
    FailsClean (perform root (.init typeName package) : ExceptT Error (StateM Disk) String) := by
  refine (Disk.always_liftExcept _).failsClean fun p => ?_
  intro d e d' h hk
  rcases hs : outcome p.declared.scaffold d with ⟨r, d₁⟩
  have hinit : outcome (ExceptT.lift p.init) d = (.ok (r, p.declared), d₁) :=
    congrArg (fun x => (Except.ok (x.1, p.declared), x.2)) hs
  rw [Disk.outcome_bind, hinit] at h
  dsimp only at h
  rw [Disk.outcome_bind, Disk.outcome_liftExcept] at h
  cases r with
  | error e₁ =>
    cases h
    exact Project.scaffold_failsClean _ d e d' hs hk
  | ok u =>
    obtain ⟨k, hpackage⟩ := Project.package_of_scaffold hs
    have hline : ∃ line, initialized p.declared = .ok line := by
      unfold initialized
      rw [hpackage]
      exact ⟨_, rfl⟩
    obtain ⟨line, hline⟩ := hline
    dsimp only at h
    rw [Disk.outcome_liftExcept, hline] at h
    cases h

lemma perform_failsClean (root : Path) (action : Action) :
    FailsClean (perform root action : ExceptT Error (StateM Disk) String) := by
  cases action with
  | init typeName package => exact init_failsClean root typeName package
  | generate =>
    exact (Project.load_looks root).failsClean fun p => (Project.generate_failsClean p).map _
  | pack output =>
    exact (Project.load_looks root).failsClean fun p => (Project.pack_failsClean p _).map _

/-- Generating looks until it has read the schema. -/
lemma generate_illegible (hnot : ¬ Legible d root)
    (h : outcome (perform root .generate) d = (.error e, d')) : d' = d := by
  rcases Disk.outcome_bind_error.1 h with hload | ⟨p, d₁, hload, h₁⟩
  · exact (Project.load_looks root).unchanged hload
  · obtain ⟨rfl, settings, hsettings, hp⟩ := Project.load_iff.1 hload
    -- the settings were read, so it is the schema that was not
    have hschema : ∀ schema, outcome p.loadSchema d₁ ≠ (.ok schema, d₁) := by
      intro schema hs
      obtain ⟨-, text, htext, hparse⟩ := Project.loadSchema_ok.1 hs
      exact hnot ⟨settings, p, text, schema, hsettings, hp, htext, hparse⟩
    rcases Disk.outcome_bind_error.1 h₁ with h₂ | ⟨_, _, -, hline⟩
    · rcases Disk.outcome_bind_error.1 h₂ with hpackage | ⟨k, d₂, hpackage, h₃⟩
      · exact (Disk.always_liftExcept _).unchanged hpackage
      · obtain rfl := (Disk.always_liftExcept _).unchanged hpackage
        rcases Disk.outcome_bind_error.1 h₃ with hload | ⟨schema, d₃, hload, -⟩
        · exact (Project.loadSchema_looks p).unchanged hload
        · obtain rfl := (Project.loadSchema_looks p).unchanged hload
          exact absurd hload (hschema schema)
    · cases hline

/-- **A command that fails has changed nothing, unless the file system refused something.** And
where the settings or the schema cannot be read, for whatever reason, generating has changed
nothing either. -/
theorem perform_fails (h : outcome (perform root action) d = (.error e, d')) :
    (e.kind ≠ .io → d' = d) ∧ (action = .generate → ¬ Legible d root → d' = d) := by
  refine ⟨perform_failsClean root action d e d' h, ?_⟩
  rintro rfl hnot
  exact generate_illegible hnot h

/-- A project with generated sources, and with a schema that is no record. -/
def harbour : Disk := ⟨[
  (["p"], .directory),
  (["p", ".cfn-java.toml"], .file "type_name = 'Harbour'".toUTF8),
  (["p", "harbour.json"], .file "[]".toUTF8),
  (["p", "target"], .directory),
  (["p", "target", "generated-sources"], .directory),
  (["p", "target", "generated-sources", "rpdk"], .directory),
  (["p", "target", "generated-sources", "rpdk", "Old.java"], .file "old".toUTF8)], []⟩

def harbourProject : Project := ⟨⟨"p"⟩, .ofTypeName "Harbour", ["Harbour"], by decide⟩

lemma harbour_text {n text : String} (hn : Path.IsName n) (hf : Disk.Fits n)
    (hv : (harbourProject.root / n).Valid)
    (h : harbour.at? ["p", n] = some (.file text.toUTF8)) :
    (harbour.read (harbourProject.root / n)).bind Files.textOf = .ok text := by
  have hsound : harbour.Sound := Disk.sound_of_entries (by decide) (by decide)
  have hends : (harbourProject.root / n).EndsInStep := hn.endsInStep_join
  have hsteps : (harbourProject.root / n).steps = ["p", n] := by
    rw [Path.steps_join_name hn]
    rfl
  have hplace : harbour.locate true (harbourProject.root / n) = .ok ["p", n] := by
    rw [← hsteps] at h ⊢
    refine hsound.locate_top rfl hv hends ?_ h (by simp)
    rw [hsteps]
    simpa using ⟨by decide, hf⟩
  rw [Disk.read_iff.2 ⟨_, hplace, h⟩]
  exact Files.textOf_toUTF8 text

lemma harbour_fails : ∃ e, outcome (perform ⟨"p"⟩ .generate) harbour = (.error e, harbour) ∧
    e.kind = .validation := by
  have hload : outcome (Project.load ⟨"p"⟩) harbour = (.ok harbourProject, harbour) := by
    refine Project.load_iff.2 ⟨rfl, "type_name = 'Harbour'",
      harbour_text (by decide) (by decide) (by decide) rfl, ?_⟩
    have hread : Settings.read "type_name = 'Harbour'" = .ok (.ofTypeName "Harbour") := by cbv
    rw [Project.ofText, hread]
    rfl
  have hschema : outcome harbourProject.loadSchema harbour = (.ok (.list []), harbour) :=
    Project.loadSchema_ok.2 ⟨rfl, "[]",
      harbour_text (by decide) (by decide) (by decide) rfl, by cbv⟩
  have hgenerate : outcome harbourProject.generate harbour =
      (.error (.badSchema "#" "schema must be an object"), harbour) := by
    refine Disk.outcome_bind_error.2 (Or.inr ⟨.derive ["Harbour"], harbour, rfl, ?_⟩)
    refine Disk.outcome_bind_error.2 (Or.inr ⟨_, harbour, hschema, ?_⟩)
    exact Disk.outcome_bind_error.2 (Or.inl (Disk.outcome_liftExcept _ _))
  exact ⟨_, Disk.outcome_bind_error.2 (Or.inr ⟨_, _, hload,
    Disk.outcome_bind_error.2 (Or.inl hgenerate)⟩), rfl⟩

/-- The generated sources are still there. -/
theorem harbour_unchanged : ∃ e d', outcome (perform ⟨"p"⟩ .generate) harbour = (.error e, d') ∧
    e.kind = .validation ∧ d' = harbour := by
  obtain ⟨e, h, hkind⟩ := harbour_fails
  have hother : e.kind ≠ .io := by
    rw [hkind]
    decide
  exact ⟨e, _, h, hkind, (perform_fails h).1 hother⟩

end Command

end ProviderGen
