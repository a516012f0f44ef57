import ProviderGen.Project.Scaffold
import ProviderGen.Proofs.Files.Write

/-!
The scaffold of a project spares what is the user's. Whether it succeeds or fails, no file is
written over but generated ones and the settings file, and nothing disappears. Where there are
no links, the settings file is left alone until everything else has been written.
-/

namespace ProviderGen.Project

open Disk (outcome Changes Keeps Always)
open Files (Marked safeWrite)
open Java (Package)
open Path (IsName)
open Template (Lines render)

section

variable {m : Type → Type} [Monad m] [Files m]

/-- The files of the scaffold but for the schema. -/
def writeFiles (p : Project) : ExceptT Error m Unit := do
  let k ← p.package
  writeSafely (p.root / ".gitignore", Template.ignoredFiles)
  makeSources (Layout.mainSources p.root k)
  makeSources (Layout.testSources p.root k)
  (p.scaffoldFiles k).forM writeSafely

/-- The scaffold but for the settings. -/
def writeScaffold (p : Project) : ExceptT Error m Unit := do
  p.writeFiles
  let _ ← p.writeExampleIfMissing (render (Template.exampleSchema p.typeName))

end

lemma scaffold_eq (p : Project) : (p.scaffold : ExceptT Error (StateM Disk) Unit) = (do
    p.writeScaffold
    p.save) := by
  simp [scaffold, writeScaffold, writeFiles]

variable {d d' : Disk} {p : Project} {q : Place} {n : String} {dir : Path}

/-- Where there are no links, a path leads to something of its last name. -/
lemma last_of_locate (hu : d.Unlinked) (hn : IsName n) (h : d.locate true (dir / n) = .ok q) :
    q.getLast? = some n := by
  have hv := (Disk.exists_way_of_locate h).1
  rw [Disk.locate_iff hv hn.endsInStep_join] at h
  obtain ⟨links, hw⟩ := h
  rw [Path.steps_join_name hn] at hw
  obtain ⟨links', r, -, hlast⟩ := hw.split
  cases hlast with
  | idle _ hidle _ => exact absurd hidle (not_or.2 (Disk.counts_iff.1 hn.counts))
  | up => exact absurd rfl hn.notUp
  | enter hp hf he hl hend =>
    cases hend
    simp
  | link hp hf he _ => exact absurd he (hu _ _)

/-- A name that a file of the scaffold may have. -/
def IsOther (n : String) : Prop := IsName n ∧ n ≠ Layout.settingsFile

instance (n : String) : Decidable (IsOther n) :=
  inferInstanceAs (Decidable (IsName n ∧ n ≠ Layout.settingsFile))

lemma scaffoldFiles_named {k : Package} {f : Path × Lines} (hf : f ∈ p.scaffoldFiles k) :
    ∃ (dir : Path) (n : String), f.1 = dir / n ∧ IsOther n := by
  rw [scaffoldFiles, List.mem_append, List.mem_append, List.mem_flatMap] at hf
  rcases hf with (hf | ⟨op, -, hf⟩) | hf
  · simp only [descriptors, List.mem_cons, List.not_mem_nil, or_false] at hf
    rcases hf with rfl | rfl | rfl
    · exact ⟨_, _, rfl, by decide⟩
    · exact ⟨_, _, rfl, by decide⟩
    · exact ⟨_, _, rfl, by decide⟩
  · simp only [stubs, List.mem_cons, List.not_mem_nil, or_false] at hf
    rcases hf with rfl | rfl
    · exact ⟨_, _, rfl, by cases op <;> decide⟩
    · exact ⟨_, _, rfl, by cases op <;> decide⟩
  · simp only [companions, List.mem_cons, List.not_mem_nil, or_false] at hf
    rcases hf with rfl | rfl | rfl
    · exact ⟨_, _, rfl, by decide⟩
    · exact ⟨_, _, rfl, by decide⟩
    · exact ⟨_, _, rfl, by decide⟩

/-- Only generated files are written over, and where there are no links no settings file is. -/
def Spares (d d' : Disk) : Prop :=
  d.Sound → Changes (fun q o => (∀ b ∈ o, Marked b) ∧
    (d'.Unlinked → q.getLast? ≠ some Layout.settingsFile)) d d'

lemma unlinked_of_keeps (hk : Keeps d d') (hu : d'.Unlinked) : d.Unlinked := fun q t h =>
  hu q t (hk.link h)

instance : IsPreorder Disk Spares where
  refl _ := .refl
  trans _ _ _ h h' hd := by
    have h' := h' (h hd).sound
    exact ((h hd).mono fun q hq => ⟨hq.1, fun hu => hq.2 (unlinked_of_keeps h'.keeps hu)⟩).trans
      (h'.mono fun q hq => hq)

lemma makeDirectory_spares {f : Path} (h : d.makeDirectory f = .ok d') : Spares d d' :=
  Disk.makeDirectory_within h

lemma safeWrite_spares (hn : IsOther n) (text : String) :
    Always Spares (safeWrite (dir / n) text : ExceptT Error (StateM Disk) Unit).run := by
  intro d hd
  refine (Files.safeWrite_changes hd rfl).mono fun q hq => ⟨hq.2.2, fun hu hlast => ?_⟩
  have := last_of_locate hu hn.1 hq.2.1
  rw [hlast, Option.some_inj] at this
  exact hn.2 this.symm

lemma writeFiles_spares (p : Project) :
    Always Spares (p.writeFiles : ExceptT Error (StateM Disk) Unit).run := by
  have hsources (dir : Path) :
      Always Spares (makeSources dir : ExceptT Error (StateM Disk) Unit).run :=
    (Disk.always_makeFrom fun _ _ _ _ => makeDirectory_spares).orRefused _
  refine (Disk.always_liftExcept _).andThen fun k => ?_
  refine (safeWrite_spares (by decide) _).andThen fun _ => ?_
  refine (hsources _).andThen fun _ => (hsources _).andThen fun _ => ?_
  refine Always.forM fun f hf => ?_
  obtain ⟨dir, n, hpath, hn⟩ := scaffoldFiles_named hf
  rw [writeSafely, hpath]
  exact safeWrite_spares hn _

lemma writeExample_changes {r : Except Error Bool} {text : String} (hd : d.Sound)
    (h : outcome (p.writeExampleIfMissing text) d = (r, d')) :
    Changes (fun q o => (∃ b, r = .ok b) ∧ d'.locate true p.schemaPath = .ok q ∧
      ∀ b ∈ o, Marked b) d d' := by
  rw [writeExampleIfMissing, Disk.outcome_bind, Disk.outcome_liftM] at h
  dsimp only at h
  split at h
  · obtain ⟨-, rfl⟩ := Prod.mk.inj h
    exact .refl hd
  · rw [Disk.outcome_bind] at h
    rcases hs : outcome (safeWrite p.schemaPath text) d with ⟨s, d₁⟩
    have hc := Files.safeWrite_changes hd hs
    have hthere : (Disk.perform (Files.isThere p.schemaPath) d).2 = d := rfl
    rw [hthere, hs] at h
    cases s with
    | error e =>
      obtain ⟨rfl, rfl⟩ := Prod.mk.inj h
      exact hc.mono fun q hq => ⟨absurd hq.1 (by simp), hq.2⟩
    | ok u =>
      obtain ⟨rfl, rfl⟩ := Prod.mk.inj h
      exact hc.mono fun q hq => ⟨⟨_, rfl⟩, hq.2⟩

/-- Where there are no links, a settings file changes only if it is the schema as well, and then
everything has been written. -/
lemma writeScaffold_changes {r : Except Error Unit} (hd : d.Sound)
    (h : outcome p.writeScaffold d = (r, d')) :
    Changes (fun q o => (∀ b ∈ o, Marked b) ∧
      (d'.Unlinked → q.getLast? = some Layout.settingsFile →
        (∃ u, r = .ok u) ∧ d'.locate true p.schemaPath = .ok q)) d d' := by
  rw [writeScaffold, Disk.outcome_bind] at h
  rcases hf : outcome p.writeFiles d with ⟨s, d₁⟩
  have hspares : Spares d d₁ := by
    have := writeFiles_spares p d
    rwa [show (Disk.perform (p.writeFiles).run d).2 = d₁ from congrArg Prod.snd hf] at this
  have hc := hspares hd
  rw [hf] at h
  cases s with
  | error e =>
    obtain ⟨-, rfl⟩ := Prod.mk.inj h
    exact hc.mono fun q hq => ⟨hq.1, fun hu hlast => absurd hlast (hq.2 hu)⟩
  | ok u =>
    dsimp only at h
    rw [Disk.outcome_bind] at h
    rcases he : outcome (p.writeExampleIfMissing (render (Template.exampleSchema p.typeName))) d₁
      with ⟨s, d₂⟩
    have hc' := writeExample_changes hc.sound he
    rw [he] at h
    have hd₂ : d₂ = d' := by
      cases s with
      | error e => exact congrArg Prod.snd h
      | ok b => exact congrArg Prod.snd h
    subst hd₂
    refine Changes.trans (hc.mono fun q hq => ⟨hq.1, fun hu hlast =>
      absurd hlast (hq.2 (unlinked_of_keeps hc'.keeps hu))⟩)
      (hc'.mono fun q hq => ⟨hq.2.2, fun _ _ => ⟨?_, hq.2.1⟩⟩)
    obtain ⟨b, rfl⟩ := hq.1
    exact ⟨_, congrArg Prod.fst h.symm⟩

lemma declared_root (p : Project) : p.declared.root = p.root := by
  unfold declared
  split
  · rfl
  · rfl

lemma declared_schemaFile (p : Project) : p.declared.schemaFile = p.schemaFile := by
  unfold declared
  split
  · rfl
  · rfl

lemma package_declared {k : Package} (hk : p.package = .ok k) : p.declared.package = .ok k := by
  unfold declared
  rw [hk]
  exact hk

lemma perform_init (p : Project) (d : Disk) : Disk.perform p.init d =
    (((outcome p.declared.scaffold d).1, p.declared), (outcome p.declared.scaffold d).2) := rfl

/-- **A scaffold spares what is the user's.** Whether it succeeds or fails, a file without the
marker has the same bytes afterwards unless the settings path leads to it, a settings path that
led somewhere leads there still, and nothing disappears. Where there are no links, what the
settings path leads to is touched by no writing but that of the settings, which comes when
everything else has succeeded, and that of a schema that is to have the same path, which comes
right before it. -/
theorem init_spares (hd : d.Sound) {p' : Project} {r : Except Error Unit}
    (h : Disk.perform (Project.init p) d = ((r, p'), d')) :
    (∀ q b, d.fileAt q = some b → ¬ Marked b →
      d'.fileAt q = some b ∨ d'.locate true p.settingsPath = .ok q) ∧
    (∀ q, d.locate true p.settingsPath = .ok q → d'.locate true p.settingsPath = .ok q) ∧
    Keeps d d' ∧
    (d.Unlinked → d'.Unlinked ∧ ∃ r₁ d₁, outcome p.declared.writeScaffold d = (r₁, d₁) ∧
      (∀ q, d'.locate true p.settingsPath = .ok q →
        d₁.fileAt q = d.fileAt q ∨
          ((∃ u, r₁ = .ok u) ∧ d₁.locate true p.schemaPath = .ok q)) ∧
      match r₁ with
      | .ok _ => outcome p.declared.save d₁ = (r, d')
      | .error e => r = .error e ∧ d' = d₁) := by
  obtain ⟨hresult, hdisk⟩ : (outcome p.declared.scaffold d).1 = r ∧
      (outcome p.declared.scaffold d).2 = d' :=
    ⟨congrArg (fun x => x.1.1) h, congrArg Prod.snd h⟩
  have hsettings : p.declared.settingsPath = p.settingsPath := by
    rw [settingsPath, declared_root, settingsPath]
  have hschema : p.declared.schemaPath = p.schemaPath := by
    rw [schemaPath, declared_root, declared_schemaFile, schemaPath]
  rcases hw : outcome p.declared.writeScaffold d with ⟨r₁, d₁⟩
  have hc := writeScaffold_changes hd hw
  rw [hschema] at hc
  rw [scaffold_eq, Disk.outcome_bind, hw] at hresult hdisk
  have hsave : Changes (fun q _ => d'.locate true p.settingsPath = .ok q) d₁ d' := by
    cases r₁ with
    | error e => exact hdisk ▸ .refl hc.sound
    | ok u =>
      have := Files.overwrite_changes (p := p.declared.settingsPath) (r := r) hc.sound
        (Prod.ext hresult hdisk)
      rw [hsettings] at this
      exact this.mono fun q hq => hq.2
  have hkeeps := hc.keeps.trans hsave.keeps
  refine ⟨fun q b hq hb => ?_, fun q hq => hkeeps.locate hq, hkeeps, fun hu =>
    ⟨hsave.unlinked (hc.unlinked hu), r₁, d₁, rfl, fun q hq => ?_, ?_⟩⟩
  · have hfirst := (hc.files q).resolve_right fun hm => hb (hm.1 b hq)
    rw [← hq, ← hfirst]
    exact hsave.files q
  · have hlast : q.getLast? = some Layout.settingsFile :=
      last_of_locate (hsave.unlinked (hc.unlinked hu)) (by decide) hq
    exact (hc.files q).imp_right fun hm => hm.2 (hc.unlinked hu) hlast
  · cases r₁ with
    | error e => exact ⟨hresult.symm, hdisk.symm⟩
    | ok u => exact Prod.ext hresult hdisk

/-- A project directory in which somebody has written a build descriptor. -/
def yard : Disk :=
  ⟨[(["p"], .directory), (["p", "pom.xml"], .file "<mine/>".toUTF8)], []⟩

def yardProject : Project := ⟨⟨"p"⟩, .ofTypeName "Aa::Bb", ["Aa", "Bb"], by decide⟩

lemma yard_sound : yard.Sound := Disk.sound_of_entries (by decide) (by decide)

lemma yard_unlinked : yard.Unlinked := Disk.unlinked_of_entries (by simp [yard])

theorem yard_descriptor_spared :
    yard.Sound ∧ yard.fileAt ["p", "pom.xml"] = some "<mine/>".toUTF8 ∧
      ¬ Marked "<mine/>".toUTF8 ∧
      (Disk.perform yardProject.init yard).2.fileAt ["p", "pom.xml"] = some "<mine/>".toUTF8 := by
  have hfile : yard.fileAt ["p", "pom.xml"] = some "<mine/>".toUTF8 := by rfl
  have hmarked : ¬ Marked "<mine/>".toUTF8 := by
    rintro ⟨blanks, rest, -, -, h⟩
    have hsize : "<mine/>".utf8ByteSize = (Template.marker ++ blanks).utf8ByteSize + rest.size := by
      simpa [ByteArray.size_append] using congrArg ByteArray.size h
    rw [String.utf8ByteSize_append] at hsize
    have hmarker : "<mine/>".utf8ByteSize < Template.marker.utf8ByteSize := by decide
    omega
  rcases h : Disk.perform yardProject.init yard with ⟨⟨r, p'⟩, d'⟩
  obtain ⟨hspared, -, -, hunlinked⟩ := init_spares yard_sound h
  refine ⟨yard_sound, hfile, hmarked, (hspared _ _ hfile hmarked).resolve_right fun h => ?_⟩
  have := last_of_locate (hunlinked yard_unlinked).1 (by decide) h
  exact absurd this (by decide)

end ProviderGen.Project
