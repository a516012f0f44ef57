import ProviderGen.Proofs.Disk.Sound
import Mathlib.Data.List.TakeWhile

/-!
What writing may change. Directories are only added, a file that is written safely was not there
or says in its first line that it was generated, and nothing that was there is gone afterwards.
A safe writing that fails has changed no file.
-/

namespace ProviderGen

namespace Disk

/-- The bytes of the file at a place. -/
def fileAt (d : Disk) (q : Place) : Option ByteArray :=
  match d.at? q with
  | some (.file bytes) => some bytes
  | _ => none

def Unlinked (d : Disk) : Prop := ∀ q t, d.at? q ≠ some (.link t)

lemma unlinked_of_entries {d : Disk} (h : ∀ q t, (q, Entry.link t) ∉ d.entries) : d.Unlinked :=
  fun q t hq => h q t (mem_of_link hq)

/-- Nothing is lost, and a file at a place differs only where it may. Whether it may can depend
on the bytes that were there, if any. -/
structure Changes (may : Place → Option ByteArray → Prop) (d d' : Disk) : Prop where
  sound : d'.Sound
  keeps : Keeps d d'
  unlinked : d.Unlinked → d'.Unlinked
  files : ∀ q, d'.fileAt q = d.fileAt q ∨ may q (d.fileAt q)

variable {may may' : Place → Option ByteArray → Prop} {d d' d'' : Disk} {q : Place} {n : String}
  {e : Entry} {p : Path} {bytes : ByteArray} {text : String}

lemma fileAt_iff : d.fileAt q = some bytes ↔ d.at? q = some (.file bytes) := by
  unfold fileAt
  cases d.at? q with
  | none => simp
  | some e => cases e <;> simp

lemma Changes.refl (hd : d.Sound) : Changes may d d :=
  ⟨hd, .refl d, id, fun _ => Or.inl rfl⟩

lemma Changes.trans (h : Changes may d d') (h' : Changes may d' d'') : Changes may d d'' := by
  refine ⟨h'.sound, h.keeps.trans h'.keeps, fun hu => h'.unlinked (h.unlinked hu), fun q => ?_⟩
  rcases h.files q with he | hm
  · rw [← he]
    exact h'.files q
  · exact Or.inr hm

lemma Changes.mono (h : Changes may d d') (hm : ∀ q, may q (d.fileAt q) → may' q (d.fileAt q)) :
    Changes may' d d' :=
  ⟨h.sound, h.keeps, h.unlinked, fun q => (h.files q).imp_right (hm q)⟩

/-- The changes of a run that starts from a sound disk. -/
def Within (may : Place → Option ByteArray → Prop) (d d' : Disk) : Prop :=
  d.Sound → Changes may d d'

instance : IsPreorder Disk (Within may) where
  refl _ := Changes.refl
  trans _ _ _ h h' hd := (h hd).trans (h' (h hd).sound)

lemma Puts.changes (hd : d.Sound) (h : Puts d e q n) (hl : ∀ t, e ≠ .link t)
    (hm : (∃ b, e = .file b) → may (q ++ [n]) (d.fileAt (q ++ [n]))) :
    Changes may d (d.set (q ++ [n]) e) := by
  refine ⟨h.sound hd, h.keeps, fun hu r t hr => ?_, fun r => ?_⟩
  · rw [at?_set e r (by simp)] at hr
    split at hr
    · exact hl t (Option.some.inj hr)
    · exact hu r t hr
  · by_cases hr : r = q ++ [n]
    · subst hr
      cases e with
      | file b => exact Or.inr (hm ⟨b, rfl⟩)
      | link t => exact absurd rfl (hl t)
      | directory =>
        refine Or.inl ?_
        unfold fileAt
        rw [at?_set _ _ (by simp), if_pos rfl]
        rcases h.free with hn | ⟨b, b', -, he⟩
        · rw [hn]
        · cases he
    · refine Or.inl ?_
      unfold fileAt
      rw [at?_set _ _ (by simp), if_neg hr]

lemma makeDirectory_within (h : d.makeDirectory p = .ok d') : Within may d d' := by
  intro hd
  obtain ⟨q, n, rfl, hputs⟩ := makeDirectory_ok h
  exact hputs.changes hd (by simp) (by simp)

end Disk

namespace Files

open Disk (outcome Changes Within)

/-- The first line is the marker, if blanks behind it are left away. -/
def Marked (bytes : ByteArray) : Prop :=
  ∃ (blanks : String) (rest : ByteArray), (∀ c ∈ blanks.toList, Text.isBlank c = true) ∧
    (rest.data[0]? = none ∨ rest.data[0]? = some 10) ∧
    bytes = (Template.marker ++ blanks).toUTF8 ++ rest

lemma toUTF8_of_textOf {bytes : ByteArray} {s : String} (h : textOf bytes = .ok s) :
    bytes = s.toUTF8 := by
  unfold textOf at h
  split at h
  · rename_i t ht
    obtain rfl := Except.ok.inj h
    unfold String.fromUTF8? at ht
    split at ht
    · exact (congrArg String.toUTF8 (Option.some.inj ht)).symm ▸ rfl
    · cases ht
  · cases h

lemma trimEnd_append (cs : List Char) :
    ∃ blanks, (∀ c ∈ blanks, Text.isBlank c = true) ∧ cs = Text.trimEnd cs ++ blanks := by
  refine ⟨(cs.reverse.takeWhile Text.isBlank).reverse, fun c hc => ?_, ?_⟩
  · exact List.mem_takeWhile_imp (List.mem_reverse.1 hc)
  · rw [Text.trimEnd, ← List.reverse_append, List.takeWhile_append_dropWhile,
      List.reverse_reverse]

/-- What lies behind the first line starts with a line feed. -/
lemma firstLine_append (bytes : ByteArray) :
    ∃ rest : ByteArray, (rest.data[0]? = none ∨ rest.data[0]? = some 10) ∧
      bytes = firstLine bytes ++ rest := by
  refine ⟨⟨(bytes.data.toList.dropWhile (· != 10)).toArray⟩, ?_, ?_⟩
  · have hhead := List.head?_dropWhile_not (· != 10) bytes.data.toList
    rw [List.getElem?_toArray, ← List.head?_eq_getElem?]
    cases hd : (bytes.data.toList.dropWhile (· != 10)).head? with
    | none => exact Or.inl rfl
    | some c =>
      rw [hd] at hhead
      exact Or.inr (by simpa using hhead)
  · apply ByteArray.ext
    rw [ByteArray.data_append, ← Array.toList_inj, Array.toList_append]
    exact (List.takeWhile_append_dropWhile ..).symm

lemma marked_of_isGenerated {bytes : ByteArray} (h : isGenerated bytes = .ok true) :
    Marked bytes := by
  obtain ⟨line, hline, h⟩ := bind_eq_ok.1 h
  have htrim : Text.trimEnd line.toList = Template.marker.toList := by simpa using h
  obtain ⟨blanks, hb, hcs⟩ := trimEnd_append line.toList
  obtain ⟨rest, hrest, hbytes⟩ := firstLine_append bytes
  refine ⟨String.ofList blanks, rest, by simpa using hb, hrest, ?_⟩
  have htext : line = Template.marker ++ String.ofList blanks := by
    rw [← String.toList_inj, String.toList_append, String.toList_ofList, ← htrim]
    exact hcs
  rw [← htext, ← toUTF8_of_textOf hline]
  exact hbytes

variable {may : Place → Option ByteArray → Prop} {d d' : Disk} {p : Path} {text : String}
  {r : Except Error Unit}

lemma makeParent_changes (hd : d.Sound) (h : outcome (makeParent p) d = (r, d')) :
    Changes may d d' := by
  have := Disk.always_makeParent (R := Within may) Disk.makeDirectory_within p d hd
  rwa [show (Disk.perform (makeParent p).run d).2 = d' from congrArg Prod.snd h] at this

/-- A file that is still there has the same bytes. -/
lemma read_of_extends {bytes : ByteArray} (hk : Disk.Extends d d') (h : d.read p = .ok bytes) :
    d'.read p = .ok bytes := by
  obtain ⟨q, hq, hb⟩ := Disk.read_iff.1 h
  exact Disk.read_iff.2 ⟨q, hk.keeps.locate hq, hk.at? hb⟩

/-- What is overwritten is what the path leads to afterwards. -/
lemma overwrite_changes (hd : d.Sound) (h : outcome (overwrite p text) d = (r, d')) :
    Changes (fun q _ => (∃ u, r = .ok u) ∧ d'.locate true p = .ok q) d d' := by
  rw [overwrite, Disk.outcome_bind] at h
  rcases h₁ : outcome (makeParent p) d with ⟨r₁, d₁⟩
  have hc : Changes (fun q _ => (∃ u, r = .ok u) ∧ d'.locate true p = .ok q) d d₁ :=
    makeParent_changes hd h₁
  rw [h₁] at h
  cases r₁ with
  | error e =>
    obtain rfl := congrArg Prod.snd h
    exact hc
  | ok u =>
    refine hc.trans ?_
    replace h : outcome (orRefused p (Disk.change (·.write p text.toUTF8))) d₁ = (r, d') := h
    rw [Disk.outcome_change] at h
    cases hw : d₁.write p text.toUTF8 with
    | error e =>
      rw [hw] at h
      obtain rfl := congrArg Prod.snd h
      exact .refl hc.sound
    | ok d₂ =>
      rw [hw] at h
      obtain ⟨rfl, rfl⟩ := Prod.mk.inj h
      obtain ⟨q, n, rfl, hputs, -, hlocate⟩ := Disk.write_ok hc.sound hw
      exact hputs.changes hc.sound (by simp) fun _ => ⟨⟨_, rfl⟩, hlocate⟩

/-- Safe writing once the parent directory is there. -/
lemma outcome_safeWrite {d₁ : Disk} (h : outcome (makeParent p) d = (.ok (), d₁)) :
    outcome (safeWrite p text) d =
      match d₁.createNew p text.toUTF8 with
      | .ok d' => (.ok (), d')
      | .error .occupied =>
        match (d₁.read p).bind isGenerated with
        | .ok true => outcome (overwrite p text) d₁
        | .ok false => (.error (.fileExists p), d₁)
        | .error r => (.error (.refused p r), d₁)
      | .error r => (.error (.refused p r), d₁) := by
  have hread : outcome (orRefused p (do pure ((← read p).bind isGenerated))) d₁ =
      (((d₁.read p).bind isGenerated).mapError (Error.refused p), d₁) := by
    rw [Disk.outcome_orRefused]
    rfl
  rw [safeWrite, Disk.outcome_bind, h]
  dsimp only
  rw [Disk.outcome_bind, Disk.outcome_liftM, Disk.perform_createNew]
  cases d₁.createNew p text.toUTF8 with
  | ok d' => rfl
  | error r =>
    cases r with
    | occupied =>
      dsimp only
      rw [Disk.outcome_bind, hread]
      rcases (d₁.read p).bind isGenerated with r | b
      · rfl
      · cases b with
        | true => rfl
        | false => rfl
    | _ => rfl

/-- A file that is written safely was not there before, or bears the marker. -/
lemma safeWrite_changes (hd : d.Sound) (h : outcome (safeWrite p text) d = (r, d')) :
    Changes (fun q o => (∃ u, r = .ok u) ∧ d'.locate true p = .ok q ∧ ∀ b ∈ o, Marked b) d d' := by
  rcases h₁ : outcome (makeParent p) d with ⟨r₁, d₁⟩
  have hc : Changes
      (fun q o => (∃ u, r = .ok u) ∧ d'.locate true p = .ok q ∧ ∀ b ∈ o, Marked b) d d₁ :=
    makeParent_changes hd h₁
  cases r₁ with
  | error e =>
    rw [safeWrite, Disk.outcome_bind, h₁] at h
    obtain rfl := congrArg Prod.snd h
    exact hc
  | ok u =>
    rw [outcome_safeWrite h₁] at h
    refine hc.trans ?_
    split at h
    · rename_i d₂ hnew
      obtain ⟨rfl, rfl⟩ := Prod.mk.inj h
      obtain ⟨q, n, rfl, hputs, hfree, hlocate⟩ := Disk.createNew_ok hnew
      refine hputs.changes hc.sound (by simp) fun _ => ⟨⟨_, rfl⟩, hlocate, ?_⟩
      simp [Disk.fileAt, hfree]
    · split at h
      · -- the file bears the marker
        rename_i hmarked
        obtain ⟨bytes, hread, hgenerated⟩ := bind_eq_ok.1 hmarked
        obtain ⟨q, hq, hbytes⟩ := Disk.read_iff.1 hread
        have ho := overwrite_changes hc.sound h
        refine ho.mono fun q' hq' => ⟨hq'.1, hq'.2, ?_⟩
        obtain rfl : q = q' := Except.ok.inj ((ho.keeps.locate hq).symm.trans hq'.2)
        simpa [Disk.fileAt, hbytes] using marked_of_isGenerated hgenerated
      · obtain rfl := congrArg Prod.snd h
        exact .refl hc.sound
      · obtain rfl := congrArg Prod.snd h
        exact .refl hc.sound
    · obtain rfl := congrArg Prod.snd h
      exact .refl hc.sound

end Files

end ProviderGen
