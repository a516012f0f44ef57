import ProviderGen.Proofs.Disk.Rewrite
import ProviderGen.Proofs.Files.Write

/-!
Writing a text once more. What was overwritten holds the text and can be overwritten again: the
directories that were made are there, and the same bytes in the same place leave the disk as it
is.
-/

namespace ProviderGen

open Files (makeDirectories makeFrom makeParent overwrite orRefused)

namespace Disk

variable {d d' d₁ : Disk} {f g : Path} {q : Place} {e : Entry} {bytes : ByteArray}

lemma put_of_lookup {es : List (Place × Entry)} (h : es.lookup q = some e) : put q e es = es := by
  induction es with
  | nil => cases h
  | cons x es ih =>
    obtain ⟨p, g⟩ := x
    rw [List.lookup_cons] at h
    by_cases hp : p = q
    · subst hp
      rw [beq_self_eq_true] at h
      obtain rfl := Option.some.inj h
      rw [put, if_pos rfl]
    · have hq : (q == p) = false := by simpa using Ne.symm hp
      rw [hq] at h
      rw [put, if_neg hp, ih h]

/-- To put something where it is changes nothing. -/
lemma set_of_at? (hq : q ≠ []) (h : d.at? q = some e) : d.set q e = d := by
  rw [Disk.at?, if_neg hq] at h
  rw [Disk.set, put_of_lookup h]

lemma Keeps.isDirectory (hk : Keeps d d') (h : d.isDirectory f = true) :
    d'.isDirectory f = true := by
  obtain ⟨q, hq, hdir⟩ := isDirectory_iff.1 h
  exact isDirectory_iff.2 ⟨q, hk.locate hq, hk.hasDirectory hdir⟩

/-- Nothing is made of a path without steps, but it may be there. -/
lemma makeDirectories_of_no_steps (hf : f.steps = []) (hne : f.text ≠ "") :
    perform (makeDirectories f) d = (.ok (), d') ↔ d' = d ∧ d.isDirectory f = true := by
  obtain ⟨r, hr, hm⟩ := makeDirectory_of_no_steps (d := d) hf hne
  rw [makeDirectories, perform_makeFrom hne (by rw [hm]; simpa using hr), ← settles_iff, Settles,
    hm]
  simp

/-- Directories that were made are there. -/
lemma makeDirectories_again (hends : g.EndsInStep ∨ g.steps = [])
    (h : perform (makeDirectories g) d = (.ok (), d₁)) (hk : Keeps d₁ d') :
    perform (makeDirectories g) d' = (.ok (), d') := by
  rcases hends with hends | hsteps
  · obtain ⟨hv, links, q, hm, hq⟩ := (makeDirectories_iff hends).1 h
    refine (makeDirectories_iff hends).2 ⟨hv, links, q, ?_, hk.hasDirectory hq⟩
    rw [hk.startOf, hm.keeps.startOf]
    exact (hm.way.keeps hk).makes
  · by_cases hne : g.text = ""
    · rw [makeDirectories, makeFrom_empty hne, perform_pure]
    · obtain ⟨rfl, hdir⟩ := (makeDirectories_of_no_steps hsteps hne).1 h
      exact (makeDirectories_of_no_steps hsteps hne).2 ⟨rfl, hk.isDirectory hdir⟩

/-- The same bytes in the same place leave the disk as it is. -/
lemma write_again (hf : f.EndsInStep) (hq : d.locate true f = .ok q)
    (hb : d.at? q = some (.file bytes)) : d.write f bytes = .ok d := by
  have hne : q ≠ [] := by
    rintro rfl
    cases hb
  rw [write_taken (find_of_locate hq) hf.not_asksForDirectory (hasDirectory_of_file hb),
    set_of_at? hne hb]

end Disk

namespace Files

open Disk (outcome Changes Keeps)

variable {d d' d₁ : Disk} {f : Path} {text : String}

lemma makeParent_again (hf : f.EndsInStep) (h : outcome (makeParent f) d = (.ok (), d₁))
    (hk : Keeps d₁ d') : outcome (makeParent f) d' = (.ok (), d') := by
  obtain ⟨g, hg, hparent⟩ := Path.exists_parent hf
  unfold makeParent at h ⊢
  rw [hg] at h ⊢
  exact Disk.outcome_orRefused_ok.2
    (Disk.makeDirectories_again hparent.ends (Disk.outcome_orRefused_ok.1 h) hk)

/-- **What was overwritten holds the text, and overwriting it with the same text again leaves the
disk as it is.** -/
lemma overwrite_again (hd : d.Sound) (hf : f.EndsInStep)
    (h : outcome (overwrite f text) d = (.ok (), d')) :
    d'.Sound ∧ d'.read f = .ok text.toUTF8 ∧ outcome (overwrite f text) d' = (.ok (), d') := by
  obtain ⟨u, d₁, hparent, hrest⟩ := Disk.outcome_bind_ok.1 h
  have hchanges : Changes (fun _ _ => True) d d₁ := makeParent_changes hd hparent
  have hsound : d₁.Sound := hchanges.sound
  have hwrite : d₁.write f text.toUTF8 = .ok d' :=
    Disk.perform_change_ok.1 (Disk.outcome_orRefused_ok.1 hrest)
  obtain ⟨a, hrewrites, hsound', hplace, hfile⟩ := Disk.exists_rewrites hsound hwrite
  refine ⟨hsound', Disk.read_iff.2 ⟨a, hplace, hfile⟩, Disk.outcome_bind_ok.2
    ⟨(), d', makeParent_again hf hparent hrewrites.keeps, ?_⟩⟩
  exact Disk.outcome_orRefused_ok.2
    (Disk.perform_change_ok.2 (Disk.write_again hf hplace hfile))

end Files

end ProviderGen
