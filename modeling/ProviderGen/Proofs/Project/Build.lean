import ProviderGen.Proofs.Files.Emit
import ProviderGen.Proofs.Files.Write
import ProviderGen.Proofs.Project.Straight

/-!
Building a generated root where there is none. Afterwards there is exactly what was to be built:
the directories of the package and, in the last one, the files. All else is as before, but for
directories on the way that were missing.
-/

namespace ProviderGen.Project

open Disk (outcome Holds Keeps Makes Fits linkLimit)
open Files (makeDirectories orRefused)
open Java (Package)
open Path (IsName)
open Template (Lines render)

/-- Below `g` there are the directories of these names, in the last one there are the files, and
that is all. -/
structure Tree (d : Disk) (g : Place) (names : List String) (files : List (String × Lines)) :
    Prop where
  directories : ∀ r, r <+: names → d.at? (g ++ r) = some .directory
  sources : ∀ f ∈ files, d.at? (g ++ names ++ [f.1]) = some (.file (render f.2).toUTF8)
  nothing : ∀ r, ¬ r <+: names → (∀ f ∈ files, r ≠ names ++ [f.1]) → d.at? (g ++ r) = none

variable {d d' d₁ e e' : Disk} {p : Project} {root : Path} {k : Package} {a g q : Place}
  {links : ℕ} {names : List String} {files : List (String × Lines)} {written : List Path}

lemma Tree.unique (h : Tree d g names files) (h' : Tree d' g names files) (r : Place) :
    d'.at? (g ++ r) = d.at? (g ++ r) := by
  by_cases hr : r <+: names
  · rw [h.directories r hr, h'.directories r hr]
  · by_cases hf : ∃ f ∈ files, r = names ++ [f.1]
    · obtain ⟨f, hf, rfl⟩ := hf
      rw [← List.append_assoc, h.sources f hf, h'.sources f hf]
    · have hf' : ∀ f ∈ files, r ≠ names ++ [f.1] := fun f hm e => hf ⟨f, hm, e⟩
      rw [h.nothing r hr hf', h'.nothing r hr hf']

/-! ### The paths -/

/-- What there is to know of the path of the generated package. -/
structure PackageAt (root : Path) (k : Package) : Prop where
  named : ∀ s ∈ rootName :: k.segments, IsName s
  ends : (generatedPackage root k).EndsInStep
  steps : (generatedPackage root k).steps = (holder root).steps ++ rootName :: k.segments
  start : ∀ d : Disk, d.startOf (generatedPackage root k) = d.startOf (holder root)
  text_front : (Layout.generatedRoot root).text.toList <+: (generatedPackage root k).text.toList

lemma packageAt (hp : p.package = .ok k) (root : Path) : PackageAt root k := by
  obtain ⟨hne, hnames⟩ := segments_of_package hp
  obtain ⟨hhead, hends, hsteps⟩ := packagePath_ok hne hnames
  refine ⟨?_, Path.endsInStep_join hhead hends, ?_, fun d => ?_, Path.text_front_join hhead⟩
  · exact List.forall_mem_cons.2 ⟨by decide, hnames⟩
  · rw [generatedPackage, Path.steps_join hhead, hsteps, steps_generatedRoot, List.append_assoc,
      List.singleton_append]
  · rw [← startOf_generatedRoot, Disk.startOf, Disk.startOf, generatedPackage,
      Path.isAbsolute_join hhead]

/-! ### Building -/

/-- What follows once the generated root is gone. -/
def build (root : Path) (k : Package) (files : List (String × Lines)) :
    ExceptT Error (StateM Disk) (List Path) := do
  orRefused (generatedPackage root k) (makeDirectories (generatedPackage root k))
  files.mapM (emit (generatedPackage root k))

/-- The disk after building below `a`. -/
def built (e : Disk) (a : Place) (names : List String) (files : List (String × Lines)) : Disk :=
  (e.grow a names).fill (a ++ names) files

@[simp] lemma here_built (e : Disk) (a : Place) (names : List String)
    (files : List (String × Lines)) : (built e a names files).here = e.here := by
  rw [built, Disk.here_fill, Disk.here_grow]

lemma at?_built_of_not_below (hq : ¬ a ++ [rootName] <+: q) :
    (built e a (rootName :: names) files).at? q = e.at? q := by
  have hcons (s : List String) : a ++ [rootName] <+: a ++ rootName :: s := by
    rw [List.prefix_append_right_inj]
    exact List.cons_prefix_cons.2 ⟨rfl, List.nil_prefix⟩
  rw [built, Disk.at?_fill_of_ne, Disk.at?_grow_of_ne]
  · rintro s hs hne rfl
    cases s with
    | nil => exact hne rfl
    | cons n s =>
      obtain ⟨rfl, -⟩ := List.cons_prefix_cons.1 hs
      exact hq (hcons s)
  · rintro f - rfl
    refine hq ((hcons names).trans (List.prefix_append _ _))

/-- **What was not there is built as it should be.** -/
lemma tree_built (names : List String) (he : e.Sound) (hfree : e.at? (a ++ [rootName]) = none)
    (hnodup : (files.map Prod.fst).Nodup) :
    Tree (built e a (rootName :: names) files) (a ++ [rootName]) names files := by
  have hcat (r : List String) : a ++ [rootName] ++ r = a ++ rootName :: r := by simp
  refine ⟨fun r hr => ?_, fun f hf => ?_, fun r hr hf => ?_⟩
  · rw [hcat, built, Disk.at?_fill_of_ne, Disk.at?_grow_new]
    · exact List.cons_prefix_cons.2 ⟨rfl, hr⟩
    · simp
    · intro f _ e
      rw [List.append_assoc, List.append_right_inj, List.cons_append, List.cons.injEq] at e
      have hlength := hr.length_le
      rw [e.2, List.length_append, List.length_singleton] at hlength
      omega
  · rw [hcat, built, Disk.at?_fill_new hnodup hf]
  · rw [hcat, built, Disk.at?_fill_of_ne, Disk.at?_grow_of_ne]
    · rw [← hcat]
      exact he.absent_below hfree r
    · intro s hs hne e
      rw [List.append_right_inj] at e
      subst e
      exact hr (List.cons_prefix_cons.1 hs).2
    · intro f hm e
      rw [List.append_assoc, List.append_right_inj, List.cons_append, List.cons.injEq] at e
      exact hf f hm e.2

lemma extends_built (he : e.Sound) (hfree : e.at? (a ++ [rootName]) = none) :
    Disk.Extends e (built e a (rootName :: names) files) := by
  refine ⟨here_built _ _ _ _, fun {q x} hq => ?_⟩
  rw [at?_built_of_not_below, hq]
  rintro ⟨r, rfl⟩
  rw [he.absent_below hfree r] at hq
  cases hq

/-- The paths and names of all that is built are within their limits. -/
def Fitting (root : Path) (k : Package) (files : List (String × Lines)) : Prop :=
  (generatedPackage root k).Valid ∧ (∀ n ∈ rootName :: k.segments, Fits n) ∧
    ∀ f ∈ files, (generatedPackage root k / f.1).Valid ∧ Fits f.1

lemma hasDirectory_of_makes {links' : ℕ} {n : String}
    (h : Makes d links q (n :: names) d' links' g) : d.hasDirectory q = true := by
  cases h with
  | pass hw _ =>
    cases hw with
    | idle hp => exact hp
    | up hp => exact hp
    | enter hp => exact hp
    | link hp => exact hp
  | make hp => exact hp

/-- Building goes through the directory of the generated root. -/
lemma makes_of_build (hk : PackageAt root k)
    (h : outcome (build root k files) d = (.ok written, d')) :
    (generatedPackage root k).Valid ∧ ∃ e links a e' links' q,
      Makes d linkLimit (d.startOf (holder root)) (holder root).steps e links a ∧
      Makes e links a (rootName :: k.segments) e' links' q ∧ e'.hasDirectory q = true ∧
      outcome (files.mapM (emit (generatedPackage root k))) e' = (.ok written, d') := by
  obtain ⟨u, d₁, hmake, hemit⟩ := Disk.outcome_bind_ok.1 h
  obtain ⟨hv, links, q, hm, hq⟩ := (Disk.makeDirectories_iff hk.ends).1
    (Disk.outcome_orRefused_ok.1 hmake)
  rw [hk.steps, hk.start] at hm
  obtain ⟨e, links₁, a, hfront, hrest⟩ := hm.split
  exact ⟨hv, e, links₁, a, d₁, links, q, hfront, hrest, hq, hemit⟩

/-- A new directory is empty. -/
lemma grow_empty {m : String} (names : List String) (he : e.Sound)
    (hfree : e.at? (a ++ [m]) = none) (n : String) :
    (e.grow a (m :: names)).at? (a ++ m :: names ++ [n]) = none := by
  rw [Disk.at?_grow_of_ne]
  · have hbelow := he.absent_below hfree (names ++ [n])
    rwa [List.append_assoc, List.singleton_append, ← List.cons_append,
      ← List.append_assoc] at hbelow
  · intro s hs _ e
    have hlength := hs.length_le
    rw [List.append_assoc, List.append_right_inj] at e
    rw [← e, List.length_append, List.length_singleton] at hlength
    omega

/-- Where the way leads to the directory of the generated root and there is nothing in its place,
building succeeds if all is within the limits. -/
lemma build_iff {links' : ℕ} (hk : PackageAt root k) (he : e.Sound)
    (hm : Makes d linkLimit (d.startOf (holder root)) (holder root).steps e links a)
    (hn : Makes e links a (rootName :: k.segments) e' links' q) (hq : e'.hasDirectory q = true)
    (hv : (generatedPackage root k).Valid) (hfree : e.at? (a ++ [rootName]) = none)
    (hnodup : (files.map Prod.fst).Nodup) (hnames : ∀ f ∈ files, IsName f.1) :
    outcome (files.mapM (emit (generatedPackage root k))) e' = (.ok written, d') ↔
      Fitting root k files ∧ written = files.map (fun f => generatedPackage root k / f.1) ∧
        d' = built e a (rootName :: k.segments) files := by
  obtain ⟨hfits, rfl, -, rfl⟩ := (Disk.makes_new_iff he (hasDirectory_of_makes hn) hk.named
    (by simpa using hfree)).1 hn
  have hholds : Holds (e.grow a (rootName :: k.segments)) (generatedPackage root k)
      (a ++ rootName :: k.segments) := by
    refine ⟨hv, hk.ends, ⟨links', ?_⟩, hq⟩
    have hway := (hm.append hn).way
    rw [hk.steps, hk.start, (hm.keeps.trans hn.keeps).startOf]
    exact hway
  rw [emitAll_iff hholds hnodup hnames fun f _ => grow_empty _ he hfree f.1]
  refine ⟨fun ⟨hall, hw, hd⟩ => ⟨⟨hv, hfits, hall⟩, hw, hd⟩, fun ⟨hf, hw, hd⟩ => ⟨hf.2.2, hw, hd⟩⟩

lemma extends_of_makes {links' : ℕ} {b : Place} (h : Makes d links a names d' links' b) :
    Disk.Extends d d' := by
  refine ⟨h.keeps.here, fun {q x} hq => ?_⟩
  rcases h.at? q with he | ⟨hn, -⟩
  · rw [he, hq]
  · rw [hn] at hq
    cases hq

/-! ### Building where nothing is -/

/-- The generated root can be built in `a`: the way there is made, as `e` shows, and there is
nothing in its place. -/
structure Ready (d e : Disk) (root : Path) (links : ℕ) (a : Place) : Prop where
  sound : e.Sound
  way : Makes d linkLimit (d.startOf (holder root)) (holder root).steps e links a
  directory : e.hasDirectory a = true
  free : e.at? (a ++ [rootName]) = none

lemma Ready.makes (h : Ready d e root links a) (hk : PackageAt root k)
    (hf : ∀ n ∈ rootName :: k.segments, Fits n) :
    Makes e links a (rootName :: k.segments) (e.grow a (rootName :: k.segments)) links
      (a ++ rootName :: k.segments) :=
  (Disk.makes_new_iff h.sound h.directory hk.named (by simpa using h.free)).2 ⟨hf, rfl, rfl, rfl⟩

lemma hasDirectory_grow (d : Disk) (a : Place) (n : String) (names : List String) :
    (d.grow a (n :: names)).hasDirectory (a ++ n :: names) = true :=
  Disk.hasDirectory_iff.2 (Disk.at?_grow_new (List.prefix_refl _) (by simp))

lemma Ready.build (h : Ready d e root links a) (hk : PackageAt root k)
    (hf : Fitting root k files) (hnodup : (files.map Prod.fst).Nodup)
    (hnames : ∀ f ∈ files, IsName f.1) :
    outcome (build root k files) d = (.ok (files.map fun f => generatedPackage root k / f.1),
      built e a (rootName :: k.segments) files) := by
  have hn := h.makes hk hf.2.1
  have hdir := hasDirectory_grow e a rootName k.segments
  refine Disk.outcome_bind_ok.2 ⟨(), _, Disk.outcome_orRefused_ok.2
    ((Disk.makeDirectories_iff hk.ends).2 ⟨hf.1, links, _, ?_, hdir⟩), ?_⟩
  · rw [hk.steps, hk.start]
    exact h.way.append hn
  · exact (build_iff hk h.sound h.way hn hdir hf.1 h.free hnodup hnames).2 ⟨hf, rfl, rfl⟩

lemma Ready.not_below (h : Ready d e root links a) {x : Entry} (hq : e.at? q = some x) :
    ¬ a ++ [rootName] <+: q := by
  rintro ⟨r, rfl⟩
  rw [h.sound.absent_below h.free r] at hq
  cases hq

lemma Ready.sound_built (h : Ready d e root links a) (hk : PackageAt root k)
    (hf : Fitting root k files) (hnames : ∀ f ∈ files, IsName f.1) :
    (built e a (rootName :: k.segments) files).Sound := by
  refine Disk.sound_fill ((h.makes hk hf.2.1).sound h.sound) (hasDirectory_grow _ _ _ _) hnames
    fun f _ => ?_
  rw [← Bool.not_eq_true, Disk.hasDirectory_iff, grow_empty _ h.sound h.free]
  simp

/-- After building, the path of the generated root leads to it. -/
lemma Ready.rootAt (h : Ready d e root links a) (hv : (Layout.generatedRoot root).Valid)
    (hk : Keeps e d') : Disk.At d' (Layout.generatedRoot root) rootName links a := by
  refine Project.rootAt hv ?_
  rw [hk.startOf, h.way.keeps.startOf]
  exact h.way.way.keeps hk

/-- Building once more gives the same. -/
lemma Ready.same (h : Ready d e root links a)
    (h' : Ready d₁ (d'.clear (a ++ [rootName])) root links a)
    (hnodup : (files.map Prod.fst).Nodup)
    (hd : d' = built e a (rootName :: names) files) (q : Place) :
    (built (d'.clear (a ++ [rootName])) a (rootName :: names) files).at? q = d'.at? q := by
  by_cases hq : a ++ [rootName] <+: q
  · obtain ⟨r, rfl⟩ := hq
    have htree := tree_built names h.sound h.free hnodup
    rw [← hd] at htree
    exact htree.unique (tree_built names h'.sound h'.free hnodup) r
  · rw [at?_built_of_not_below hq, Disk.at?_clear_of_not_below hq]

/-- A directory that has been made is that of an ancestor of the generated root. -/
lemma made_of_ready (h : Ready d e root links a) (hv : (Layout.generatedRoot root).Valid)
    (hk : Keeps e d') :
    e.at? q = d.at? q ∨ (d.at? q = none ∧ e.at? q = some .directory ∧
      ∃ f ∈ (Layout.generatedRoot root).ancestors, d'.locate true f = .ok q) := by
  refine (h.way.at? q).imp_right fun ⟨hnone, hdir, b, l, hb, hne, hway⟩ => ⟨hnone, hdir, ?_⟩
  have hsteps := steps_generatedRoot root
  have hb' : b <+: (Layout.generatedRoot root).steps := by
    rw [hsteps]
    exact hb.trans (List.prefix_append _ _)
  have hshort : b ≠ (Layout.generatedRoot root).steps := by
    rintro rfl
    have hlength := hb.length_le
    rw [hsteps, List.length_append, List.length_singleton] at hlength
    omega
  obtain ⟨f, hf, hfsteps, hfends, habsolute, htext⟩ :=
    Path.exists_ancestor (generatedRoot_ends root) hb' hshort hne
  refine ⟨f, hf, (Disk.locate_iff (hv.of_front htext hfends.text_ne) hfends).2 ⟨l, ?_⟩⟩
  have hstart : d'.startOf f = d.startOf (holder root) := by
    rw [← startOf_generatedRoot, Disk.startOf, Disk.startOf, habsolute, hk.here, h.way.keeps.here]
  rw [hstart, hfsteps]
  exact hway.keeps hk

lemma locate_source (h : Ready d e root links a) (hk : PackageAt root k)
    (hf : Fitting root k files) (hnodup : (files.map Prod.fst).Nodup)
    (hnames : ∀ f ∈ files, IsName f.1) {f : String × Lines} (hm : f ∈ files) :
    (built e a (rootName :: k.segments) files).locate true (generatedPackage root k / f.1) =
      .ok (a ++ [rootName] ++ k.segments ++ [f.1]) := by
  have hn := h.makes hk hf.2.1
  have hempty := fun f (_ : f ∈ files) => grow_empty k.segments h.sound h.free f.1
  have hholds : Holds (built e a (rootName :: k.segments) files) (generatedPackage root k)
      (a ++ rootName :: k.segments) := by
    refine Holds.keeps ⟨hf.1, hk.ends, ⟨links, ?_⟩, hasDirectory_grow _ _ _ _⟩
      (Disk.extends_fill hempty).keeps
    rw [hk.steps, hk.start, (h.way.keeps.trans hn.keeps).startOf]
    exact (h.way.append hn).way
  obtain ⟨hvalid, hfits⟩ := hf.2.2 f hm
  obtain ⟨links', hat⟩ := hholds.at (hnames f hm) hvalid
  have hfile := (tree_built k.segments h.sound h.free hnodup).sources f hm
  have hplace : a ++ [rootName] ++ k.segments = a ++ rootName :: k.segments := by simp
  rw [hplace] at hfile ⊢
  exact hat.locate_iff.2 ⟨links', .enter hholds.directory hfits hfile (by simp) .done⟩

lemma generated_nodup (hnodup : (files.map Prod.fst).Nodup) (hnames : ∀ f ∈ files, IsName f.1)
    (dir : Path) : (files.map fun f => dir / f.1).Nodup := by
  have hsteps : ((files.map fun f => dir / f.1).map fun g : Path => g.steps).Nodup := by
    have heq : ((files.map fun f => dir / f.1).map fun g : Path => g.steps) =
        (files.map Prod.fst).map fun n => dir.steps ++ [n] := by
      rw [List.map_map, List.map_map]
      exact List.map_congr_left fun f hf => Path.steps_join_name (hnames f hf)
    rw [heq]
    exact hnodup.map fun n m hnm => by simpa using hnm
  exact List.Nodup.of_map _ hsteps

end ProviderGen.Project
