import Mathlib.Data.Bool.AllAny
import ProviderGen.Proofs.Project.Room
import ProviderGen.Proofs.Project.Written

/-!
A scaffold that meets files of the user's. Its files are written one after the other, and the first
of them that is the user's ends the matter: what comes earlier has been written, and all else is as
it was, but for directories. That is so whenever a project is scaffolded once more, for the first
file is not generated.
-/

namespace ProviderGen.Project

open Disk (Changes Fits Keeps outcome)
open Files (Generated Marked Owned Undotted makeDirectories)
open Java (Package)
open Path (IsName)
open Template (Lines render)

/-! ### The order of writing -/

/-- The files of the scaffold, in the order of writing. -/
def inOrder (p : Project) (k : Package) : List (Path × Lines) :=
  (p.root / ".gitignore", Template.ignoredFiles) :: p.scaffoldFiles k

/-- Where they lie, by directory and name. -/
def orderedPlaces (k : Package) : List (Place × String) := ([], ".gitignore") :: scaffoldPlaces k

section

variable {m : Type → Type} [Monad m] [Files m]

/-- What follows the first file. -/
def writeBehind (p : Project) (k : Package) : ExceptT Error m Unit := do
  makeSources (Layout.mainSources p.root k)
  makeSources (Layout.testSources p.root k)
  (p.scaffoldFiles k).forM writeSafely
  let _ ← p.writeExampleIfMissing (render (Template.exampleSchema p.typeName))
  p.save

end

variable {d d' e : Disk} {p : Project} {k : Package} {root : Path} {r s : Place} {n : String}
  {dirs : List Place} {files : List (Place × ByteArray)} {f : Path × Lines}
  {before after l : List (Path × Lines)}

lemma outcome_scaffold (hk : p.package = .ok k) (d : Disk) : outcome p.scaffold d =
    outcome (do
      writeSafely (p.root / ".gitignore", Template.ignoredFiles)
      p.writeBehind k) d := by
  rw [scaffold, hk]
  rfl

lemma inOrder_paths (hk : p.package = .ok k) : (p.inOrder k).map Prod.fst =
    (orderedPlaces k).map fun x => (x.1 ++ [x.2]).foldl (· / ·) p.root := by
  obtain ⟨hne, hnames⟩ := segments_of_package hk
  rw [inOrder, orderedPlaces, List.map_cons, List.map_cons, scaffoldFiles_paths hne hnames]
  rfl

lemma orderedPlaces_names :
    ∀ x ∈ orderedPlaces k, IsFileName x.2 ∧ x.2 ≠ Layout.settingsFile := by
  have hnames : ∀ n ∈ ".gitignore" :: scaffoldNames, IsFileName n ∧ n ≠ Layout.settingsFile := by
    decide
  intro x hx
  refine hnames _ ?_
  rcases List.mem_cons.1 hx with rfl | hx
  · exact List.mem_cons_self
  · exact List.mem_cons_of_mem _ (mem_scaffoldNames hx)

lemma orderedPlaces_nodup (k : Package) :
    ((orderedPlaces k).map fun x => x.1 ++ [x.2]).Nodup := by
  rw [orderedPlaces, List.map_cons, List.nodup_cons]
  exact ⟨not_mem_scaffoldPlaces (by decide), scaffoldPlaces_nodup k⟩

/-- The names of the source directories. -/
lemma names_of_folder (hk : p.package = .ok k) (hs : s = mainPlace k ∨ s = testPlace k) :
    s ≠ [] ∧ ∀ m ∈ s, IsName m ∧ '.' ∉ m.toList := by
  have hsegments : ∀ m ∈ k.segments, IsName m ∧ '.' ∉ m.toList := by
    intro m hm
    have htext := (isSegmentText_of_package hk).2 m hm
    exact ⟨isName_of_segment htext, fun hdot => absurd (htext.2 _ hdot) (by decide)⟩
  rcases hs with rfl | rfl
  · refine ⟨by simp [mainPlace], ?_⟩
    rw [mainPlace, List.forall_mem_append]
    exact ⟨by decide, hsegments⟩
  · refine ⟨by simp [testPlace], ?_⟩
    rw [testPlace, List.forall_mem_append]
    exact ⟨by decide, hsegments⟩

lemma orderedPlaces_folder {x : Place × String} (hx : x ∈ orderedPlaces k) :
    x.1 = [] ∨ x.1 = mainPlace k ∨ x.1 = testPlace k := by
  rcases List.mem_cons.1 hx with rfl | hx
  · exact Or.inl rfl
  · exact directory_of_scaffold hx

lemma orderedPlaces_named (hk : p.package = .ok k) {x : Place × String}
    (hx : x ∈ orderedPlaces k) : ∀ m ∈ x.1 ++ [x.2], IsName m := by
  rw [List.forall_mem_append, List.forall_mem_singleton]
  refine ⟨fun m hm => ?_, (orderedPlaces_names x hx).1.1.named⟩
  rcases orderedPlaces_folder hx with hs | hs
  · rw [hs] at hm
    cases hm
  · exact ((names_of_folder hk hs).2 m hm).1

lemma exists_lies (hk : p.package = .ok k) (hf : f ∈ p.inOrder k) :
    ∃ s n, Lies p.root f.1 s n ∧ (s, n) ∈ orderedPlaces k := by
  have hpath : f.1 ∈ (p.inOrder k).map Prod.fst := List.mem_map_of_mem hf
  rw [inOrder_paths hk] at hpath
  obtain ⟨x, hx, hfx⟩ := List.mem_map.1 hpath
  obtain ⟨hname, -⟩ := orderedPlaces_names x hx
  exact ⟨x.1, x.2, ⟨hfx.symm, orderedPlaces_named hk hx, hname.1.fits, hname.2⟩, hx⟩

lemma placeOf_lies {f : Path} (h : Lies root f s n) : placeOf root f = s ++ [n] := by
  rw [h.path, placeOf_foldl h.named]

/-- No two of them lie at the same place. -/
lemma inOrder_nodup (hk : p.package = .ok k) :
    ((p.inOrder k).map fun g => placeOf p.root g.1).Nodup := by
  have hplaces : (p.inOrder k).map (fun g => placeOf p.root g.1) =
      ((p.inOrder k).map Prod.fst).map (placeOf p.root) := by
    rw [List.map_map]
    rfl
  have hsame : (orderedPlaces k).map
      (placeOf p.root ∘ fun x => (x.1 ++ [x.2]).foldl (· / ·) p.root) =
      (orderedPlaces k).map fun x => x.1 ++ [x.2] :=
    List.map_congr_left fun x hx => placeOf_foldl (orderedPlaces_named hk hx)
  rw [hplaces, inOrder_paths hk, List.map_map, hsame]
  exact orderedPlaces_nodup k

/-! ### One file after the other -/

/-- A file of the user's is at the path: the marker is not its first line. -/
def InTheWay (d : Disk) (f : Path) : Prop := ∃ bytes, d.read f = .ok bytes ∧ ¬ Generated bytes

/-- There is nothing at the path, or a text. -/
def HoldsText (d : Disk) (f : Path) : Prop :=
  d.read f = .error .notFound ∨ ∃ text : String, d.read f = .ok text.toUTF8

lemma InTheWay.owned {f : Path} (h : InTheWay d f) (htext : HoldsText d f) :
    ∃ bytes, d.read f = .ok bytes ∧ Owned bytes := by
  obtain ⟨bytes, hread, hnot⟩ := h
  rcases htext with hmissing | ⟨text, htext⟩
  · rw [hread] at hmissing
    cases hmissing
  · obtain rfl := Except.ok.inj (hread.symm.trans htext)
    exact ⟨_, hread, Files.owned_text_iff.2 hnot⟩

/-- What is in nobody's way finds nothing, or a generated file. -/
lemma vacant {f : Path} (hd : Rooted d root r) (hf : Lies root f s n) (hs : ∀ m ∈ s, Fits m)
    (htext : HoldsText d f) (hnot : ¬ InTheWay d f) : Vacant d root r f s n := by
  rcases htext with hmissing | ⟨text, htext⟩
  · obtain ⟨hv, hnone⟩ := hd.at?_of_missing hf hs hmissing
    exact ⟨hf, hv, Or.inl hnone⟩
  · obtain ⟨hv, -, hb⟩ := hd.at?_of_read hf htext
    refine ⟨hf, hv, Or.inr ⟨_, hb, ?_⟩⟩
    by_contra hgenerated
    exact hnot ⟨_, htext, hgenerated⟩

/-- The place and the bytes of a file. -/
def contentOf (root : Path) (f : Path × Lines) : Place × ByteArray :=
  (placeOf root f.1, (render f.2).toUTF8)

lemma mem_contents {x : Place × ByteArray} (h : x ∈ (l.map (contentOf root)).reverse) :
    ∃ g ∈ l, contentOf root g = x := List.mem_map.1 (List.mem_reverse.1 h)

lemma outcome_forM_cons (act : Path × Lines → ExceptT Error (StateM Disk) PUnit)
    (h : outcome (act f) d = (.ok (), e)) :
    outcome ((f :: l).forM act) d = outcome (l.forM act) e := by
  show outcome (act f >>= fun _ => l.forM act) d = _
  rw [Disk.outcome_bind, h]

/-- Files that are in nobody's way are written one after the other. -/
lemma Written.forM (h : Written d r dirs files e) (hd : Rooted d root r)
    (hl : ∀ g ∈ l, ∃ s ∈ dirs, ∃ n, Vacant d root r g.1 s n)
    (hnodup : (l.map fun g => placeOf root g.1).Nodup)
    (hnew : ∀ g ∈ l, ∀ x ∈ files, placeOf root g.1 ≠ x.1) :
    ∃ e', (∀ rest, outcome ((l ++ rest).forM writeSafely) e = outcome (rest.forM writeSafely) e') ∧
      Written d r dirs ((l.map (contentOf root)).reverse ++ files) e' := by
  induction l generalizing e files with
  | nil => exact ⟨e, fun _ => rfl, h⟩
  | cons g l ih =>
    rw [List.forall_mem_cons] at hl hnew
    rw [List.map_cons, List.nodup_cons] at hnodup
    obtain ⟨⟨s, hs, n, hg⟩, hl⟩ := hl
    have hplace := placeOf_lies hg.lies
    obtain ⟨e₁, hwrite, hwritten⟩ := h.safeWrite hd hg hs (hplace ▸ hnew.1) (render g.2)
    obtain ⟨e', hrest, hwritten'⟩ := ih hwritten hl hnodup.2 fun g' hg' => by
      rw [List.forall_mem_cons]
      refine ⟨fun he => hnodup.1 ?_, hnew.2 g' hg'⟩
      rw [hplace]
      exact List.mem_map.2 ⟨g', hg', he⟩
    refine ⟨e', fun rest => ?_, ?_⟩
    · rw [List.cons_append, outcome_forM_cons _ hwrite, hrest]
    · rw [List.map_cons, List.reverse_cons, List.append_assoc, contentOf, hplace]
      exact hwritten'

/-! ### Where the matter ends -/

/-- What there is when the files `before` have been written and those `after` have not. -/
structure Stopped (p : Project) (k : Package) (before after : List (Path × Lines))
    (d d' : Disk) : Prop where
  sound : d'.Sound
  keeps : Keeps d d'
  written : ∀ g ∈ before, d'.read g.1 = .ok (render g.2).toUTF8
  later : ∀ g ∈ after, d'.read g.1 = d.read g.1
  settings : d'.read p.settingsPath = d.read p.settingsPath
  schema : ∀ q, d'.locate true p.schemaPath = .ok q →
    d'.fileAt q = d.fileAt q ∨ ∃ g ∈ before, d'.locate true g.1 = .ok q
  others : ∀ q, d'.at? q = d.at? q ∨ (∃ g ∈ before, d'.locate true g.1 = .ok q) ∨
    d.at? q = none ∧ d'.at? q = some .directory ∧ before ≠ [] ∧ ∃ r, d.Leads p.root r ∧
      (q <+: r ++ mainPlace k ∨ q <+: r ++ testPlace k)

/-- The directories of the scaffold. -/
def folders (k : Package) : List Place := [testPlace k, mainPlace k, []]

lemma mem_folders (h : (s, n) ∈ orderedPlaces k) : s ∈ folders k := by
  rcases orderedPlaces_folder h with rfl | rfl | rfl
  all_goals simp [folders]

lemma prefix_of_folders {q : Place} (hs : s ∈ folders k) (hq : q <+: r ++ s) :
    q <+: r ++ mainPlace k ∨ q <+: r ++ testPlace k := by
  simp only [folders, List.mem_cons, List.not_mem_nil, or_false] at hs
  rcases hs with rfl | rfl | rfl
  · exact Or.inr hq
  · exact Or.inl hq
  · rw [List.append_nil] at hq
    exact Or.inl (hq.trans (List.prefix_append _ _))

lemma lies_ignored (root : Path) : Lies root (root / ".gitignore") [] ".gitignore" :=
  ⟨rfl, by decide, by decide, by decide⟩

lemma lies_settings (p : Project) : Lies p.root p.settingsPath [] Layout.settingsFile :=
  ⟨rfl, by decide, by decide, by decide⟩

lemma stopped_at_once (hd : d.Sound) (p : Project) (k : Package) (after : List (Path × Lines)) :
    p.Stopped k [] after d d :=
  ⟨hd, .refl d, by simp, fun _ _ => rfl, rfl, fun _ _ => Or.inl rfl, fun _ => Or.inl rfl⟩

/-- Where a text can be read or is missing, the path can be asked for. -/
lemma HoldsText.valid {f : Path} (h : HoldsText d f) (hd : Rooted d root r) (hf : Lies root f s n)
    (hs : ∀ m ∈ s, Fits m) : f.Valid := by
  rcases h with hmissing | ⟨text, htext⟩
  · exact (hd.at?_of_missing hf hs hmissing).1
  · exact (hd.at?_of_read hf htext).1

section

variable (h : Written d r (folders k) (before.map (contentOf p.root)).reverse e)
  (hd : Rooted d p.root r) (hk : p.package = .ok k) (htexts : ∀ g ∈ p.inOrder k, HoldsText d g.1)
include h hd hk htexts

/-- What has been written can be read at its path. -/
lemma Written.there_of_mem (hsub : before ⊆ p.inOrder k) (hf : f ∈ before) :
    e.locate true f.1 = .ok (r ++ placeOf p.root f.1) ∧
      e.read f.1 = .ok (render f.2).toUTF8 := by
  obtain ⟨s, n, hlies, hplace⟩ := exists_lies hk (hsub hf)
  have hs := mem_folders hplace
  have hv := (htexts f (hsub hf)).valid hd hlies fun m hm => (h.undotted s hs m hm).2.1
  rw [placeOf_lies hlies, ← List.append_assoc]
  refine h.locate hd hlies hv hs ?_
  rw [← placeOf_lies hlies]
  exact List.mem_reverse.2 (List.mem_map_of_mem hf)

/-- The later files are read as they were. -/
lemma Written.read_later (hsplit : p.inOrder k = before ++ after) (hf : f ∈ after) :
    e.read f.1 = d.read f.1 := by
  have hmem : f ∈ p.inOrder k := by simp [hsplit, hf]
  obtain ⟨s, n, hlies, hplace⟩ := exists_lies hk hmem
  have hnodup := inOrder_nodup hk
  rw [hsplit, List.map_append, List.nodup_append] at hnodup
  refine h.read_eq hd hlies (mem_folders hplace) (fun x hx he => ?_)
    ((htexts f hmem).imp_right fun ⟨text, htext⟩ => ⟨_, htext⟩)
  obtain ⟨g, hg, rfl⟩ := mem_contents hx
  rw [← placeOf_lies hlies] at he
  exact hnodup.2.2 _ (List.mem_map_of_mem hg) _ (List.mem_map_of_mem hf) he.symm

omit htexts in
/-- The settings are none of the files. -/
lemma Written.read_settings (hsub : before ⊆ p.inOrder k) :
    e.read p.settingsPath = d.read p.settingsPath := by
  refine h.read_same hd (lies_settings p) (by simp [folders]) (fun x hx he => ?_)
    (by rw [List.append_nil]; exact hd.directory)
  obtain ⟨g, hg, rfl⟩ := mem_contents hx
  obtain ⟨s, n, hlies, hplace⟩ := exists_lies hk (hsub hg)
  have hlast : [] ++ [Layout.settingsFile] = s ++ [n] := he.trans (placeOf_lies hlies)
  have hname := List.singleton_inj.1 (List.append_inj' hlast rfl).2
  exact (orderedPlaces_names _ hplace).2 hname.symm

/-- All else is as it was, but for directories. -/
lemma Written.others_of_before (hsub : before ⊆ p.inOrder k) (hne : before ≠ []) (q : Place) :
    e.at? q = d.at? q ∨ (∃ g ∈ before, e.locate true g.1 = .ok q) ∨
      d.at? q = none ∧ e.at? q = some .directory ∧ before ≠ [] ∧ ∃ r, d.Leads p.root r ∧
        (q <+: r ++ mainPlace k ∨ q <+: r ++ testPlace k) := by
  by_cases hfile : ∀ x ∈ (before.map (contentOf p.root)).reverse, q ≠ r ++ x.1
  · refine (h.others q hfile).imp_right fun ⟨hnone, hnew, s, hs, hfront⟩ => Or.inr ?_
    exact ⟨hnone, hnew, hne, r, hd.leads, prefix_of_folders hs hfront⟩
  · push Not at hfile
    obtain ⟨x, hx, rfl⟩ := hfile
    obtain ⟨g, hg, rfl⟩ := mem_contents hx
    exact Or.inr (Or.inl ⟨g, hg, (h.there_of_mem hd hk htexts hsub hg).1⟩)

lemma Written.stopped (hne : before ≠ []) (hsplit : p.inOrder k = before ++ after) :
    p.Stopped k before after d e := by
  have hsub : before ⊆ p.inOrder k := by simp [hsplit]
  refine ⟨h.sound, h.keeps, fun g hg => (h.there_of_mem hd hk htexts hsub hg).2,
    fun g hg => h.read_later hd hk htexts hsplit hg, h.read_settings hd hk hsub, fun q _ => ?_,
    h.others_of_before hd hk htexts hsub hne⟩
  rcases h.others_of_before hd hk htexts hsub hne q with he | hwritten | ⟨hnone, hnew, -⟩
  · rw [Disk.fileAt, he, Disk.fileAt]
    exact Or.inl rfl
  · exact Or.inr hwritten
  · rw [Disk.fileAt, hnew, Disk.fileAt, hnone]
    exact Or.inl rfl

end

lemma outcome_forM_error {err : Error} (act : Path × Lines → ExceptT Error (StateM Disk) PUnit)
    (h : outcome (act f) d = (.error err, e)) :
    outcome ((f :: l).forM act) d = (.error err, e) := by
  show outcome (act f >>= fun _ => l.forM act) d = _
  rw [Disk.outcome_bind, h]

/-- Source directories that could be made at the start can be made. -/
lemma Written.makeSources (h : Written d r dirs files e) (hd : Rooted d p.root r)
    (hk : p.package = .ok k) (hs : s = mainPlace k ∨ s = testPlace k)
    (hmake : ∃ d₁, Disk.perform (makeDirectories (s.foldl (· / ·) p.root)) d = (.ok (), d₁)) :
    ∃ e', outcome (Project.makeSources (s.foldl (· / ·) p.root)) e = (.ok (), e') ∧
      Written d r (s :: dirs) files e' := by
  obtain ⟨hne, hnames⟩ := names_of_folder hk hs
  obtain ⟨d₁, hmake⟩ := hmake
  obtain ⟨hv, hfits, hfree⟩ :=
    hd.free_of_makeDirectories (fun m hm => (hnames m hm).1) hne hmake
  obtain ⟨e', hmade, hwritten⟩ := h.make hd
    (fun m hm => ⟨(hnames m hm).1, hfits m hm, (hnames m hm).2⟩) hne hv hfree
  exact ⟨e', Disk.outcome_orRefused_ok.2 hmade, hwritten⟩

/-- A file that is in nobody's way can be written where it belongs. -/
lemma Written.exists_vacant (h : Written d r (folders k) files e) (hd : Rooted d p.root r)
    (hk : p.package = .ok k) (hmem : f ∈ p.inOrder k) (htext : HoldsText d f.1)
    (hf : ¬ InTheWay d f.1) : ∃ s ∈ folders k, ∃ n, Vacant d p.root r f.1 s n := by
  obtain ⟨s, n, hlies, hplace⟩ := exists_lies hk hmem
  have hs := mem_folders hplace
  exact ⟨s, hs, n, vacant hd hlies (fun m hm => (h.undotted s hs m hm).2.1) htext hf⟩

/-- A file that is in the way ends the matter, unless it has been written before. -/
lemma Written.refused (h : Written d r (folders k) files e) (hd : Rooted d p.root r)
    (hk : p.package = .ok k) (hmem : f ∈ p.inOrder k) (htext : HoldsText d f.1)
    (hf : InTheWay d f.1) (hnew : ∀ x ∈ files, placeOf p.root f.1 ≠ x.1) :
    outcome (writeSafely f) e = (.error (.fileExists f.1), e) := by
  obtain ⟨s, n, hlies, hplace⟩ := exists_lies hk hmem
  obtain ⟨bytes, hread, howned⟩ := hf.owned htext
  rw [placeOf_lies hlies] at hnew
  exact h.safeWrite_owned hd hlies (mem_folders hplace) hnew hread howned _

/-- The files in front of the first one that is in the way are written, and no more. -/
lemma Written.forM_stopped {first : List (Path × Lines)}
    (h : Written d r (folders k) (first.map (contentOf p.root)).reverse e)
    (hd : Rooted d p.root r) (hk : p.package = .ok k) (htexts : ∀ g ∈ p.inOrder k, HoldsText d g.1)
    (hsplit : p.inOrder k = (first ++ before) ++ f :: after)
    (hbefore : ∀ g ∈ before, ¬ InTheWay d g.1) (hf : InTheWay d f.1) :
    ∃ e', outcome ((before ++ f :: after).forM writeSafely) e = (.error (.fileExists f.1), e') ∧
      Written d r (folders k) ((first ++ before).map (contentOf p.root)).reverse e' := by
  have hmem : ∀ g ∈ before ++ f :: after, g ∈ p.inOrder k := fun g hg => by
    rw [hsplit, List.append_assoc]
    exact List.mem_append_right _ hg
  have hnodup := inOrder_nodup hk
  rw [hsplit, List.map_append, List.nodup_append, List.map_append, List.nodup_append,
    ← List.map_append] at hnodup
  obtain ⟨⟨-, hnodup, hapart⟩, -, hlast⟩ := hnodup
  obtain ⟨e', hrun, h'⟩ := h.forM hd (l := before)
    (fun g hg => have hg' := hmem g (List.mem_append_left _ hg)
      h.exists_vacant hd hk hg' (htexts g hg') (hbefore g hg))
    hnodup
    (fun g hg x hx he => by
      obtain ⟨g', hg', rfl⟩ := mem_contents hx
      exact hapart _ (List.mem_map_of_mem hg') _ (List.mem_map_of_mem hg) he.symm)
  rw [← List.reverse_append, ← List.map_append] at h'
  have hf' := hmem f (by simp)
  refine ⟨e', ?_, h'⟩
  rw [hrun]
  refine outcome_forM_error _ (h'.refused hd hk hf' (htexts f hf') hf fun x hx he => ?_)
  obtain ⟨g, hg, rfl⟩ := mem_contents hx
  exact hlast _ (List.mem_map_of_mem hg) _ (by simp) he.symm

/-- The first file is written and the source directories are made, if they can be. -/
lemma Rooted.first_steps (hd : Rooted d p.root r) (hk : p.package = .ok k)
    (htext : HoldsText d (p.root / ".gitignore")) (hfree : ¬ InTheWay d (p.root / ".gitignore"))
    (hdirs : ∀ dir ∈ [Layout.mainSources p.root k, Layout.testSources p.root k],
      ∃ d₁, Disk.perform (makeDirectories dir) d = (.ok (), d₁))
    (rest : ExceptT Error (StateM Disk) Unit) :
    ∃ e, Written d r (folders k)
        ([(p.root / ".gitignore", Template.ignoredFiles)].map (contentOf p.root)).reverse e ∧
      outcome (do
        writeSafely (p.root / ".gitignore", Template.ignoredFiles)
        Project.makeSources (Layout.mainSources p.root k)
        Project.makeSources (Layout.testSources p.root k)
        rest) d = outcome rest e := by
  obtain ⟨hmain, htest⟩ := List.forall_mem_cons.1 hdirs
  rw [List.forall_mem_singleton] at htest
  obtain ⟨hne, hsegments⟩ := segments_of_package hk
  rw [mainSources_eq hne hsegments] at hmain ⊢
  rw [testSources_eq hne hsegments] at htest ⊢
  have hignored := vacant hd (lies_ignored p.root) (by simp) htext hfree
  obtain ⟨e₁, hwrite, h₁⟩ := (Written.start hd).safeWrite hd hignored (by simp) (by simp)
    (render Template.ignoredFiles)
  obtain ⟨e₂, hmain, h₂⟩ := h₁.makeSources hd hk (Or.inl rfl) hmain
  obtain ⟨e₃, htest, h₃⟩ := h₂.makeSources hd hk (Or.inr rfl) htest
  refine ⟨e₃, ?_, ?_⟩
  · rw [List.map_singleton, List.reverse_singleton, contentOf, placeOf_lies (lies_ignored p.root)]
    exact h₃
  · rw [Disk.outcome_bind, writeSafely, hwrite]
    dsimp only
    rw [Disk.outcome_bind, hmain]
    dsimp only
    rw [Disk.outcome_bind, htest]

/-- **The first file that is in the way ends the matter.** -/
lemma scaffold_stopped (hd : d.Sound) (hu : d.Unlinked) (hk : p.package = .ok k)
    (htexts : ∀ g ∈ p.inOrder k, HoldsText d g.1) (hsplit : p.inOrder k = before ++ f :: after)
    (hbefore : ∀ g ∈ before, ¬ InTheWay d g.1) (hf : InTheWay d f.1)
    (hdirs : before ≠ [] → ∀ dir ∈ [Layout.mainSources p.root k, Layout.testSources p.root k],
      ∃ d₁, Disk.perform (makeDirectories dir) d = (.ok (), d₁)) :
    ∃ d', outcome p.scaffold d = (.error (.fileExists f.1), d') ∧
      p.Stopped k before (f :: after) d d' := by
  have hmem : f ∈ p.inOrder k := by simp [hsplit]
  obtain ⟨s, n, hlies, hplace⟩ := exists_lies hk hmem
  obtain ⟨bytes, hread, howned⟩ := hf.owned (htexts f hmem)
  obtain ⟨r, hroot⟩ := exists_rooted hd hu hlies hread
  rw [outcome_scaffold hk]
  cases before with
  | nil =>
    obtain ⟨rfl, -⟩ := List.cons.inj hsplit
    refine ⟨d, Disk.outcome_bind_error.2 (Or.inl ?_), stopped_at_once hd p k _⟩
    exact (Written.start hroot).safeWrite_owned hroot (lies_ignored p.root) (by simp) (by simp)
      hread howned _
  | cons g before =>
    obtain ⟨rfl, -⟩ := List.cons.inj hsplit
    have hrest : p.scaffoldFiles k = before ++ f :: after := (List.cons.inj hsplit).2
    rw [List.forall_mem_cons] at hbefore
    have hfirst := htexts _ (List.mem_cons_self (l := p.scaffoldFiles k))
    obtain ⟨e, hwritten, hsteps⟩ := hroot.first_steps hk hfirst hbefore.1 (hdirs (by simp)) _
    obtain ⟨e', hrun, h'⟩ := hwritten.forM_stopped hroot hk htexts hsplit hbefore.2 hf
    rw [← hrest] at hrun
    refine ⟨e', hsteps.trans ?_, h'.stopped hroot hk htexts (by simp) hsplit⟩
    exact Disk.outcome_bind_error.2 (Or.inl hrun)

/-! ### Once more -/

/-- Only generated files are written over, and what the settings path leads to. -/
def Replaces (f : Path) (d d' : Disk) : Prop :=
  d.Sound → Changes (fun q o => (∀ b ∈ o, Marked b) ∨ d'.locate true f = .ok q) d d'

instance {f : Path} : IsPreorder Disk (Replaces f) where
  refl _ := .refl
  trans _ _ _ h h' hd := by
    have h' := h' (h hd).sound
    exact ((h hd).mono fun q hq => hq.imp_right h'.keeps.locate).trans h'

lemma safeWrite_replaces (f g : Path) (text : String) :
    Disk.Always (Replaces f) (Files.safeWrite g text : ExceptT Error (StateM Disk) Unit).run :=
  fun _ hd => (Files.safeWrite_changes hd rfl).mono fun _ hq => Or.inl hq.2.2

lemma writeBehind_replaces (p : Project) (k : Package) :
    Disk.Always (Replaces p.settingsPath)
      (p.writeBehind k : ExceptT Error (StateM Disk) Unit).run := by
  have hsources (dir : Path) : Disk.Always (Replaces p.settingsPath)
      (makeSources dir : ExceptT Error (StateM Disk) Unit).run :=
    (Disk.always_makeFrom (R := Replaces p.settingsPath)
      fun _ _ _ _ => Disk.makeDirectory_within).orRefused _
  refine (hsources _).andThen fun _ => (hsources _).andThen fun _ => ?_
  refine (Disk.Always.forM fun f _ => safeWrite_replaces _ _ _).andThen fun _ => ?_
  refine Disk.Always.andThen (fun d hd => ?_) fun _ d hd => ?_
  · have hchanges := writeExample_changes hd (Prod.eta
      (outcome (p.writeExampleIfMissing (render (Template.exampleSchema p.typeName))) d)).symm
    exact hchanges.mono fun q hq => Or.inl hq.2.2
  · exact (Files.overwrite_changes hd rfl).mono fun q hq => Or.inr hq.2

/-- The first file of the scaffold does not bear the marker. -/
lemma not_generated_ignored : ¬ Generated (render Template.ignoredFiles).toUTF8 := by
  have hsplit : Template.ignoredFiles = "# macOS" :: ".DS_Store" :: Template.ignoredFiles.drop 2 :=
    rfl
  intro h
  have hhead := Files.head_of_generated h
  rw [hsplit, Template.render_cons_cons, String.toList_append, String.toList_append,
    List.append_assoc] at hhead
  revert hhead
  decide

/-- After a scaffold that has succeeded, its first file is as it was written. -/
lemma ignored_of_scaffold (hd : d.Sound) (hu : d.Unlinked) (hk : p.package = .ok k)
    (h : outcome p.scaffold d = (.ok (), d')) : d'.Sound ∧
      d'.read (p.root / ".gitignore") = .ok (render Template.ignoredFiles).toUTF8 := by
  rw [outcome_scaffold hk] at h
  obtain ⟨_, d₁, hwrite, hbehind⟩ := Disk.outcome_bind_ok.1 h
  obtain ⟨hd₁, hread⟩ := Files.safeWrite_ok hd hwrite
  have hu₁ : d₁.Unlinked := (Files.safeWrite_changes hd hwrite).unlinked hu
  have hreplaces : Replaces p.settingsPath d₁ d' := by
    have := writeBehind_replaces p k d₁
    have hdisk : (Disk.perform (p.writeBehind k).run d₁).2 = d' := congrArg Prod.snd hbehind
    rwa [hdisk] at this
  have hchanges := hreplaces hd₁
  refine ⟨hchanges.sound, ?_⟩
  obtain ⟨q, hq, hb⟩ := Disk.read_iff.1 hread
  have hfile : d₁.fileAt q = some (render Template.ignoredFiles).toUTF8 := by
    rw [Disk.fileAt, hb]
  have hplace := hchanges.keeps.locate hq
  rcases hchanges.files q with hsame | hmarked | hsettings
  · rw [hfile] at hsame
    exact Disk.read_iff.2 ⟨q, hplace, Disk.fileAt_iff.1 hsame⟩
  · exact absurd (Files.marked_iff_generated.1 (hmarked _ hfile)) not_generated_ignored
  · have hu' := hchanges.unlinked hu₁
    have hignored : q.getLast? = some ".gitignore" := last_of_locate hu' (by decide) hplace
    rw [last_of_locate (n := Layout.settingsFile) hu' (by decide) hsettings] at hignored
    exact absurd hignored (by decide)

/-- Where the first file is the user's, nothing is done. -/
lemma scaffold_refused (hd : d.Sound) (hk : p.package = .ok k)
    (htext : HoldsText d (p.root / ".gitignore")) (h : InTheWay d (p.root / ".gitignore")) :
    outcome p.scaffold d = (.error (.fileExists (p.root / ".gitignore")), d) := by
  obtain ⟨bytes, hread, howned⟩ := h.owned htext
  rw [outcome_scaffold hk]
  refine Disk.outcome_bind_error.2 (Or.inl ?_)
  exact (Files.safeWriting hd (Disk.makeParent_there hd hread) _).kept _ hread howned

/-! ### The result -/

lemma inOrder_declared (p : Project) (k : Package) : p.declared.inOrder k = p.inOrder k := by
  unfold declared
  split
  · rfl
  · rfl

lemma Stopped.of_declared (h : p.declared.Stopped k before after d d') :
    p.Stopped k before after d d' := by
  unfold declared at h
  split at h
  · exact ⟨h.sound, h.keeps, h.written, h.later, h.settings, h.schema, h.others⟩
  · exact h

lemma init_stopped (hd : d.Sound) (hu : d.Unlinked) (hk : p.package = .ok k)
    (htexts : ∀ g ∈ p.inOrder k, HoldsText d g.1) (hsplit : p.inOrder k = before ++ f :: after)
    (hbefore : ∀ g ∈ before, ¬ InTheWay d g.1) (hf : InTheWay d f.1)
    (hdirs : before ≠ [] → ∀ dir ∈ [Layout.mainSources p.root k, Layout.testSources p.root k],
      ∃ d₁, Disk.perform (makeDirectories dir) d = (.ok (), d₁)) :
    ∃ d', Disk.perform p.init d = ((.error (.fileExists f.1), p.declared), d') ∧
      p.Stopped k before (f :: after) d d' := by
  rw [← inOrder_declared] at htexts hsplit
  rw [← declared_root] at hdirs
  obtain ⟨d', h, hstopped⟩ :=
    scaffold_stopped hd hu (package_declared hk) htexts hsplit hbefore hf hdirs
  exact ⟨d', by rw [perform_init, h], hstopped.of_declared⟩

/-- **A scaffold ends at the first file that is in its way.** Where there are no links, each file
of the scaffold is a text or not there, and the directories that are needed can be made, the files
in front of the first one that is the user's have been written, and all else is as it was but for
those directories: the later files and the settings, and the schema, unless its path leads to a
file that was written. Once a scaffold has succeeded, its first file is in the way of another one,
which does nothing at all for as long as that file is there. -/
theorem init_in_the_way (hk : p.package = .ok k) :
    (∀ d before f after, d.Sound → d.Unlinked → (∀ g ∈ p.inOrder k, HoldsText d g.1) →
      p.inOrder k = before ++ f :: after → (∀ g ∈ before, ¬ InTheWay d g.1) → InTheWay d f.1 →
      (before ≠ [] → ∀ dir ∈ [Layout.mainSources p.root k, Layout.testSources p.root k],
        ∃ d₁, Disk.perform (makeDirectories dir) d = (.ok (), d₁)) →
      ∃ d', Disk.perform p.init d = ((.error (.fileExists f.1), p.declared), d') ∧
        p.Stopped k before (f :: after) d d') ∧
    (∀ d d' q, d.Sound → d.Unlinked → Disk.perform p.init d = ((.ok (), q), d') → d'.Sound ∧
      d'.read (p.root / ".gitignore") = .ok (render Template.ignoredFiles).toUTF8 ∧
      InTheWay d' (p.root / ".gitignore")) ∧
    (∀ (q : Project) j e, q.root = p.root → q.package = .ok j → e.Sound →
      HoldsText e (p.root / ".gitignore") → InTheWay e (p.root / ".gitignore") →
      Disk.perform q.init e =
        ((.error (.fileExists (p.root / ".gitignore")), q.declared), e)) := by
  refine ⟨fun d before f after hd hu htexts hsplit hbefore hf hdirs =>
    init_stopped hd hu hk htexts hsplit hbefore hf hdirs, fun d d' q hd hu h => ?_,
    fun q j e hroot hj he htext hway => ?_⟩
  · rw [perform_init] at h
    obtain ⟨hpair, hdisk⟩ := Prod.mk.inj h
    have hresult : (outcome p.declared.scaffold d).1 = .ok () := congrArg Prod.fst hpair
    obtain ⟨hd', hread⟩ :=
      ignored_of_scaffold hd hu (package_declared hk) (Prod.ext hresult hdisk)
    rw [declared_root] at hread
    exact ⟨hd', hread, _, hread, not_generated_ignored⟩
  · have hfirst : q.declared.root = p.root := (declared_root q).trans hroot
    rw [← hfirst] at htext hway ⊢
    rw [perform_init, scaffold_refused he (package_declared hj) htext hway]

/-! ### A build descriptor that is the user's -/

/-- The package of the yard's projects. -/
def yardPackage : Package := .derive ["Aa", "Bb"]

/-- A project in the yard whose schema is to have the path of the first file. -/
def hedgeProject : Project :=
  ⟨⟨"p"⟩, { Settings.ofTypeName "Aa::Bb" with schemaFile := some ".gitignore" }, ["Aa", "Bb"],
    by decide⟩

lemma yard_rooted : Rooted yard ⟨"p"⟩ ["p"] :=
  ⟨yard_sound, yard_unlinked, ⟨_, .enter rfl (by decide) rfl (by simp) .done⟩, rfl⟩

section

variable (hroot : p.root = ⟨"p"⟩) (hk : p.package = .ok yardPackage)
include hroot hk

lemma yard_valid (hf : f ∈ p.inOrder yardPackage) : f.1.Valid := by
  have hchars : ∀ c ∈ "aa-bb".toList, c = '-' ∨ c.isAlphanum = true :=
    List.all_iff_forall_prop.1 (by decide)
  have hsite : Site ⟨"p"⟩ "aa-bb" yardPackage :=
    ⟨by decide, by decide, by decide, by decide, hchars⟩
  have hslots : ∀ x ∈ orderedPlaces yardPackage, Files.Slot ⟨"p"⟩ x.1 x.2 :=
    List.forall_mem_cons.2 ⟨hsite.top (by decide) (by decide), hsite.slot_scaffold⟩
  have hpath : f.1 ∈ (p.inOrder yardPackage).map Prod.fst := List.mem_map_of_mem hf
  rw [inOrder_paths hk, hroot] at hpath
  obtain ⟨x, hx, hfx⟩ := List.mem_map.1 hpath
  exact hfx ▸ (hslots x hx).valid

/-- Only the build descriptor is there. -/
lemma yard_read (hf : f ∈ p.inOrder yardPackage) : yard.read f.1 = .error .notFound ∨
    f.1 = ⟨"p/pom.xml"⟩ ∧ yard.read f.1 = .ok "<mine/>".toUTF8 := by
  have hnames : ∀ x ∈ orderedPlaces yardPackage, x = ([], "pom.xml") ∨
      ∃ m ∈ ["src", ".gitignore", "lombok.config", "template.yml", "README.md"],
        (x.1 ++ [x.2]).head? = some m := by decide
  have hothers : ∀ m ∈ ["src", ".gitignore", "lombok.config", "template.yml", "README.md"],
      Fits m ∧ (yard.at? (["p"] ++ [m])).isNone = true := by decide
  have hv := yard_valid hroot hk hf
  obtain ⟨s, n, hlies, hplace⟩ := exists_lies hk hf
  rw [hroot] at hlies
  rcases hnames _ hplace with heq | ⟨m, hm, hhead⟩
  · obtain ⟨rfl, rfl⟩ := Prod.mk.inj heq
    refine Or.inr ⟨hlies.path, ?_⟩
    rw [yard_rooted.read_eq hlies hv (by simp) rfl]
    rfl
  · obtain ⟨rest, hrest⟩ := List.head?_eq_some_iff.1 hhead
    obtain ⟨hfits, hnone⟩ := hothers m hm
    exact Or.inl (yard_rooted.read_absent hlies hv hrest hfits (Option.isNone_iff_eq_none.1 hnone))

lemma yard_texts : ∀ g ∈ p.inOrder yardPackage, HoldsText yard g.1 := fun _ hg =>
  (yard_read hroot hk hg).imp_right fun h => ⟨_, h.2⟩

lemma yard_missing : yard.read (p.root / ".gitignore") = .error .notFound := by
  have hfirst : (p.root / ".gitignore", Template.ignoredFiles) ∈ p.inOrder yardPackage :=
    List.mem_cons_self
  refine (yard_read hroot hk hfirst).resolve_right fun ⟨hpath, _⟩ => ?_
  rw [hroot] at hpath
  exact absurd hpath (by decide)

lemma yard_free : ¬ InTheWay yard (p.root / ".gitignore") := by
  rintro ⟨bytes, hread, -⟩
  rw [yard_missing hroot hk] at hread
  cases hread

omit hk in
lemma yard_descriptor : yard.read (p.root / "pom.xml") = .ok "<mine/>".toUTF8 := by
  have hlies : Lies ⟨"p"⟩ (Path.join ⟨"p"⟩ "pom.xml") [] "pom.xml" :=
    ⟨rfl, by decide, by decide, by decide⟩
  have hread := yard_rooted.read_eq hlies (by decide) (by simp) rfl
  rw [hroot]
  exact hread

omit hk in
lemma yard_taken : InTheWay yard (p.root / "pom.xml") :=
  ⟨_, yard_descriptor hroot, fun h => absurd (Files.head_of_generated h) (by decide)⟩

omit hk in
lemma yard_makes {s : Place} (hs : s = mainPlace yardPackage ∨ s = testPlace yardPackage) :
    ∃ d₁, Disk.perform (makeDirectories (s.foldl (· / ·) p.root)) yard = (.ok (), d₁) := by
  have hfacts : s ≠ [] ∧ (∀ m ∈ s, IsName m ∧ Fits m ∧ '.' ∉ m.toList) ∧
      (s.foldl (· / ·) (⟨"p"⟩ : Path)).Valid ∧ s.head? = some "src" := by
    rcases hs with rfl | rfl
    · decide
    · decide
  obtain ⟨hne, hundotted, hv, hhead⟩ := hfacts
  obtain ⟨rest, rfl⟩ := List.head?_eq_some_iff.1 hhead
  rw [hroot]
  obtain ⟨d₁, hmake, -⟩ := (Written.start yard_rooted).make yard_rooted hundotted hne hv
    fun t ht => by
      rcases List.prefix_cons_iff.1 ht with rfl | ⟨u, rfl, -⟩
      · exact Or.inr rfl
      · exact Or.inl (yard_sound.absent_below (p := ["p", "src"]) rfl u)
  exact ⟨d₁, hmake⟩

lemma yard_dirs :
    ∀ dir ∈ [Layout.mainSources p.root yardPackage, Layout.testSources p.root yardPackage],
      ∃ d₁, Disk.perform (makeDirectories dir) yard = (.ok (), d₁) := by
  obtain ⟨hne, hsegments⟩ := segments_of_package hk
  rw [mainSources_eq hne hsegments, testSources_eq hne hsegments, List.forall_mem_cons,
    List.forall_mem_singleton]
  exact ⟨yard_makes hroot (Or.inl rfl), yard_makes hroot (Or.inr rfl)⟩

end

/-- In the yard the first file is written and the build descriptor is in the way, and from then on
the first file is. -/
theorem yard_in_the_way : yard.Sound ∧ yard.Unlinked ∧ yardProject.package = .ok yardPackage ∧
    ∃ d', Disk.perform yardProject.init yard =
        ((.error (.fileExists ⟨"p/pom.xml"⟩), yardProject.declared), d') ∧
      d'.read ⟨"p/.gitignore"⟩ = .ok (render Template.ignoredFiles).toUTF8 ∧
      d'.read ⟨"p/pom.xml"⟩ = .ok "<mine/>".toUTF8 ∧
      Disk.perform yardProject.init d' =
        ((.error (.fileExists ⟨"p/.gitignore"⟩), yardProject.declared), d') := by
  have hk : yardProject.package = .ok yardPackage := rfl
  obtain ⟨hstop, -, hagain⟩ := init_in_the_way hk
  obtain ⟨d', hinit, hstopped⟩ := hstop yard
    [(yardProject.root / ".gitignore", Template.ignoredFiles)]
    (yardProject.root / "pom.xml", yardProject.buildDescriptor yardPackage)
    ((yardProject.inOrder yardPackage).drop 2) yard_sound yard_unlinked (yard_texts rfl hk) rfl
    (by simpa using yard_free rfl hk) (yard_taken rfl) fun _ => yard_dirs rfl hk
  have hignored := hstopped.written _ (List.mem_singleton_self _)
  have hdescriptor := (hstopped.later _ List.mem_cons_self).trans (yard_descriptor rfl)
  refine ⟨yard_sound, yard_unlinked, hk, d', hinit, hignored, hdescriptor, ?_⟩
  exact hagain yardProject yardPackage d' rfl hk hstopped.sound (Or.inr ⟨_, hignored⟩)
    ⟨_, hignored, not_generated_ignored⟩

/-- **A schema that is to have the path of an earlier file is written with it**, although a later
file is in the way. -/
theorem schema_before_in_the_way : yard.Sound ∧ yard.Unlinked ∧
    hedgeProject.package = .ok yardPackage ∧
    (∀ g ∈ hedgeProject.inOrder yardPackage, HoldsText yard g.1) ∧
    InTheWay yard ⟨"p/pom.xml"⟩ ∧ hedgeProject.schemaPath = ⟨"p/.gitignore"⟩ ∧
    (∀ dir ∈ [Layout.mainSources hedgeProject.root yardPackage,
      Layout.testSources hedgeProject.root yardPackage],
      ∃ d₁, Disk.perform (makeDirectories dir) yard = (.ok (), d₁)) ∧
    yard.read hedgeProject.schemaPath = .error .notFound ∧
    ∃ d', Disk.perform hedgeProject.init yard =
        ((.error (.fileExists ⟨"p/pom.xml"⟩), hedgeProject.declared), d') ∧
      d'.read hedgeProject.schemaPath = .ok (render Template.ignoredFiles).toUTF8 := by
  have hk : hedgeProject.package = .ok yardPackage := rfl
  have hsplit : hedgeProject.inOrder yardPackage =
      [(hedgeProject.root / ".gitignore", Template.ignoredFiles)] ++
        (hedgeProject.root / "pom.xml", hedgeProject.buildDescriptor yardPackage) ::
          (hedgeProject.inOrder yardPackage).drop 2 := rfl
  obtain ⟨d', hinit, hstopped⟩ := init_stopped yard_sound yard_unlinked hk (yard_texts rfl hk)
    hsplit (by simpa using yard_free rfl hk) (yard_taken rfl) fun _ => yard_dirs rfl hk
  have hdescriptor : hedgeProject.root / "pom.xml" = ⟨"p/pom.xml"⟩ := rfl
  have hschema : hedgeProject.schemaPath = hedgeProject.root / ".gitignore" := rfl
  have hignored : hedgeProject.root / ".gitignore" = ⟨"p/.gitignore"⟩ := rfl
  have hwritten := hstopped.written _ (List.mem_singleton_self _)
  rw [← hschema] at hwritten
  rw [← hdescriptor, ← hignored]
  exact ⟨yard_sound, yard_unlinked, hk, yard_texts rfl hk, yard_taken rfl, hschema,
    yard_dirs rfl hk, yard_missing rfl hk, d', hinit, hwritten⟩

end ProviderGen.Project
