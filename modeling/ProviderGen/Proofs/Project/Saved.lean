import ProviderGen.Proofs.Command
import ProviderGen.Proofs.Files.Again
import ProviderGen.Proofs.Project.Settings

/-!
A project that was saved is loaded as it was, and saving what is loaded changes nothing. The
settings are all that is written of a project; the segments are those of its type name again.
-/

namespace ProviderGen.Project

open Disk (outcome)
open Java (Package)

variable {d d' : Disk} {p p₀ : Project} {root : Path} {typeName : String} {k : Package}

/-! ### Saving and loading -/

lemma ofSettings_settings (p : Project) : ofSettings p.root p.settings = .ok p := by
  obtain ⟨root, settings, segments, h⟩ := p
  unfold ofSettings
  split
  · rename_i segments' h'
    obtain rfl := Except.ok.inj (h.symm.trans h')
    rfl
  · rename_i f h'
    rw [h] at h'
    cases h'

lemma ofText_text (p : Project) : ofText p.root p.settings.text = .ok p := by
  rw [ofText, Settings.read_text]
  exact ofSettings_settings p

lemma settingsPath_ends (p : Project) : p.settingsPath.EndsInStep :=
  Path.IsName.endsInStep_join (by decide)

lemma load_of_read (h : d.read p.settingsPath = .ok p.settings.text.toUTF8) :
    outcome (load p.root) d = (.ok p, d) := by
  have htext : (d.read (p.root / Layout.settingsFile)).bind Files.textOf =
      .ok p.settings.text := by
    rw [← settingsPath, h]
    exact Files.textOf_toUTF8 _
  exact load_iff.2 ⟨rfl, _, htext, ofText_text p⟩

/-- The settings file holds the settings of this project, and saving it leaves the disk as it
is. -/
structure Saved (d : Disk) (p : Project) : Prop where
  read : d.read p.settingsPath = .ok p.settings.text.toUTF8
  save : outcome p.save d = (.ok (), d)

lemma saved_of_save (hd : d.Sound) (h : outcome p.save d = (.ok (), d')) : Saved d' p := by
  obtain ⟨-, hread, hagain⟩ := Files.overwrite_again hd p.settingsPath_ends h
  exact ⟨hread, hagain⟩

lemma Saved.load (h : Saved d p) : outcome (load p.root) d = (.ok p, d) := load_of_read h.read

/-! ### Calls -/

/-- A call by which something is to be remembered. -/
inductive Call where
  | package (chosen : String)
  | runtime (value : String)
  | entrypoint (value : String)

/-- The project after a call. One that fails changes nothing. -/
def after (p : Project) : Call → Project
  | .package chosen =>
    match p.withPackage chosen with
    | .ok q => q
    | .error _ => p
  | .runtime value => p.withRuntime value
  | .entrypoint value => p.withEntrypoint value

/-- The project after calls, one after the other. -/
def afterAll (p : Project) (calls : List Call) : Project := calls.foldl after p

lemma withPackage_ok {q : Project} {chosen : String} : p.withPackage chosen = .ok q ↔
    (∃ k, readPackage chosen = .ok k) ∧
      q = { p with settings := { p.settings with package := some chosen } } := by
  rw [withPackage, bind_eq_ok, ← exists_and_right]
  refine exists_congr fun k => and_congr_right fun _ => ?_
  rw [Except.ok.injEq]
  exact eq_comm

/-- What a project keeps through all calls: its root, its type name and that it has a package. -/
structure Continues (p q : Project) : Prop where
  root : q.root = p.root
  typeName : q.typeName = p.typeName
  package : (∃ k, p.package = .ok k) → ∃ k, q.package = .ok k

lemma Continues.refl (p : Project) : Continues p p := ⟨rfl, rfl, id⟩

lemma Continues.trans {q r : Project} (h : Continues p q) (h' : Continues q r) : Continues p r :=
  ⟨h'.root.trans h.root, h'.typeName.trans h.typeName, fun hk => h'.package (h.package hk)⟩

lemma continues_after (p : Project) (c : Call) : Continues p (p.after c) := by
  cases c with
  | runtime value => exact ⟨rfl, rfl, id⟩
  | entrypoint value => exact ⟨rfl, rfl, id⟩
  | package chosen =>
    simp only [after]
    split
    · rename_i q h
      obtain ⟨hread, rfl⟩ := withPackage_ok.1 h
      exact ⟨rfl, rfl, fun _ => hread⟩
    · exact .refl p

lemma continues_afterAll (p : Project) (calls : List Call) : Continues p (p.afterAll calls) := by
  induction calls generalizing p with
  | nil => exact .refl p
  | cons c calls ih => exact (continues_after p c).trans (ih _)

/-- A new project has the root and type name it was asked for, and the derived package. -/
lemma new_ok (h : Project.new root typeName = .ok p) :
    p.root = root ∧ p.settings = .ofTypeName typeName ∧
      p.package = .ok (Package.derive p.segments) := by
  unfold Project.new ofSettings at h
  split at h
  · obtain rfl := Except.ok.inj h
    exact ⟨rfl, rfl, rfl⟩
  · cases h

/-- **What was saved is loaded.** After any calls on a new project, failed ones included, if
saving it succeeds, then the same root is loaded as the same project: with the same settings,
each text as it was and the same ones absent, hence with the same segments, names, paths and
package, which it has. The settings file holds the text of its settings, and saving the project
that is loaded leaves the disk as it is. -/
theorem load_saved (hd : d.Sound) (hnew : Project.new root typeName = .ok p₀) (calls : List Call)
    (hsave : outcome (p₀.afterAll calls).save d = (.ok (), d')) :
    ∃ q, outcome (load root) d' = (.ok q, d') ∧ q = p₀.afterAll calls ∧
      q.root = root ∧ q.typeName = typeName ∧ (∃ k, q.package = .ok k) ∧
      d'.read q.settingsPath = .ok q.settings.text.toUTF8 ∧
      outcome q.save d' = (.ok (), d') := by
  obtain ⟨hroot, hsettings, hpackage⟩ := new_ok hnew
  have hsaved : Saved d' (p₀.afterAll calls) := saved_of_save hd hsave
  have hcontinues := continues_afterAll p₀ calls
  have hsame : (p₀.afterAll calls).root = root := hcontinues.root.trans hroot
  have hname : (p₀.afterAll calls).typeName = typeName := by
    rw [hcontinues.typeName, Project.typeName, hsettings]
    rfl
  have hload := hsaved.load
  rw [hsame] at hload
  exact ⟨_, hload, rfl, hsame, hname, hcontinues.package ⟨_, hpackage⟩, hsaved.read, hsaved.save⟩

/-- An empty project directory. -/
def meadow : Disk := ⟨[(["p"], .directory)], []⟩

lemma meadow_sound : meadow.Sound := Disk.sound_of_entries (by decide) (by decide)

def meadowProject : Project := ⟨⟨"p"⟩, .ofTypeName "Acme::Meadow", ["Acme", "Meadow"], by decide⟩

/-- Calls with quotes, line breaks and a package that is refused. -/
def meadowCalls : List Call := [
  .runtime "java\"8'\r\n", .package "org.meadow", .package "class", .entrypoint ""]

lemma meadow_saved : ∃ d', outcome (meadowProject.afterAll meadowCalls).save meadow =
    (.ok (), d') := by
  have hroot : (meadowProject.afterAll meadowCalls).root = ⟨"p"⟩ :=
    (continues_afterAll meadowProject meadowCalls).root
  have hholds : Disk.Holds meadow ⟨"p"⟩ ["p"] := by
    refine ⟨by decide, ⟨[], ['p'], rfl, by decide⟩, ⟨Disk.linkLimit, ?_⟩, rfl⟩
    exact .enter rfl (by decide) (e := .directory) rfl (by simp) .done
  rw [save, settingsPath, hroot]
  exact ⟨_, (hholds.overwrite_iff (by decide) rfl).2 ⟨by decide, by decide, rfl⟩⟩

theorem meadow_loaded : meadow.Sound ∧ Project.new ⟨"p"⟩ "Acme::Meadow" = .ok meadowProject ∧
    ∃ d' q, outcome (meadowProject.afterAll meadowCalls).save meadow = (.ok (), d') ∧
      outcome (load ⟨"p"⟩) d' = (.ok q, d') ∧ q = meadowProject.afterAll meadowCalls := by
  have hnew : Project.new ⟨"p"⟩ "Acme::Meadow" = .ok meadowProject := rfl
  obtain ⟨d', hsave⟩ := meadow_saved
  obtain ⟨q, hload, hq, -⟩ := load_saved meadow_sound hnew meadowCalls hsave
  exact ⟨meadow_sound, hnew, d', q, hsave, hload, hq⟩

end ProviderGen.Project
