import ProviderGen.Proofs.Disk.Making
import ProviderGen.Proofs.Project.Layout

/-!
The way to the generated root. It is straight if it does not lead through the generated root
itself. That holds where the path of the project does not go up and meets no link; both a step up
and a link can lead back out of what is about to be removed.
-/

namespace ProviderGen.Project

open Disk (Way Fits linkLimit)
open Files (makeDirectories)
open Path (IsName)

/-- The directory of the generated root. -/
def holder (root : Path) : Path := (Layout.generatedSegments.take 2).foldl (· / ·) root

/-- The name of the generated root. -/
def rootName : String := "rpdk"

/-- The disk without the generated root, if there is one. -/
def cleared (d : Disk) (root : Path) : Disk :=
  match d.locate false (Layout.generatedRoot root) with
  | .ok g => d.clear g
  | .error _ => d

/-- The way to the generated root does not lead through it: without the generated root, and with
the directories above it made where they are missing, its path leads to where it led before, if
that was anywhere, and there is nothing. -/
def Straight (d : Disk) (root : Path) : Prop :=
  ∀ e, Disk.perform (makeDirectories (holder root)) (cleared d root) = (.ok (), e) →
    ∃ g, e.find false (Layout.generatedRoot root) = .ok (.free g false) ∧
      ∀ q, d.locate false (Layout.generatedRoot root) = .ok q → q = g

variable {d e : Disk} {root : Path} {a g q : Place} {links links' : ℕ} {names : List String}

/-! ### The paths -/

lemma holder_ends (root : Path) : (holder root).EndsInStep :=
  Path.endsInStep_foldl (by decide) (by decide)

lemma generatedRoot_ends (root : Path) : (Layout.generatedRoot root).EndsInStep :=
  Path.endsInStep_foldl (by decide) (by decide)

lemma steps_holder (root : Path) :
    (holder root).steps = root.steps ++ ["target", "generated-sources"] :=
  Path.steps_foldl (by decide)

lemma steps_generatedRoot (root : Path) :
    (Layout.generatedRoot root).steps = (holder root).steps ++ [rootName] :=
  Path.steps_join_name (by decide)

lemma fits_rootName : Fits rootName := by decide

lemma startOf_generatedRoot (d : Disk) (root : Path) :
    d.startOf (Layout.generatedRoot root) = d.startOf (holder root) := by
  have habsolute : (Layout.generatedRoot root).isAbsolute = (holder root).isAbsolute :=
    Path.isAbsolute_join (by decide)
  rw [Disk.startOf, Disk.startOf, habsolute]

/-! ### What is left without the generated root -/

lemma cleared_of_ok (h : d.locate false (Layout.generatedRoot root) = .ok g) :
    cleared d root = d.clear g := by
  unfold cleared
  rw [h]

lemma cleared_of_error {r : Refusal} (h : d.locate false (Layout.generatedRoot root) = .error r) :
    cleared d root = d := by
  unfold cleared
  rw [h]

lemma sound_cleared (hd : d.Sound) (root : Path) : (cleared d root).Sound := by
  unfold cleared
  split
  · exact hd.clear _
  · exact hd

lemma extends_cleared (d : Disk) (root : Path) : Disk.Extends (cleared d root) d := by
  unfold cleared
  split
  · rename_i g _
    refine ⟨rfl, fun {q x} hq => ?_⟩
    by_cases hg : g <+: q
    · by_cases hnil : q = []
      · subst hnil
        exact hq
      · rw [Disk.at?_clear_of_below hg hnil] at hq
        cases hq
    · rwa [Disk.at?_clear_of_not_below hg] at hq
  · exact ⟨rfl, id⟩

lemma at?_cleared (h : ∀ r, d.locate false (Layout.generatedRoot root) = .ok r → r = g)
    (hq : ¬ g <+: q) : (cleared d root).at? q = d.at? q := by
  unfold cleared
  split
  · rename_i r hr
    rw [h r hr, Disk.at?_clear_of_not_below hq]
  · rfl

/-- The path of the generated root, once the way to its directory is known. -/
lemma rootAt (hv : (Layout.generatedRoot root).Valid)
    (hw : Way d linkLimit (d.startOf (holder root)) (holder root).steps links a) :
    Disk.At d (Layout.generatedRoot root) rootName links a := by
  refine ⟨hv, generatedRoot_ends root, _, steps_generatedRoot root, ?_⟩
  rwa [startOf_generatedRoot]

/-! ### Without links -/

/-- No entry on the way by these names is a link. -/
def Clear (d : Disk) (p : Place) (names : List String) : Prop :=
  ∀ r t, r <+: names → d.at? (p ++ r) ≠ some (.link t)

lemma Clear.tail {p : Place} {n : String} (h : Clear d p (n :: names)) :
    Clear d (p ++ [n]) names := fun r t hr => by
  rw [List.append_assoc]
  exact h (n :: r) t (List.cons_prefix_cons.2 ⟨rfl, hr⟩)

lemma Clear.way {p : Place} (h : Clear d p names) (hn : ∀ n ∈ names, IsName n)
    (hw : Way d links p names links' q) :
    links' = links ∧ q = p ++ names ∧ ∀ n ∈ names, Fits n := by
  induction names generalizing p with
  | nil =>
    cases hw
    simp
  | cons n names ih =>
    rw [List.forall_mem_cons] at hn
    cases hw with
    | idle _ hidle _ =>
      have := Disk.counts_iff.1 hn.1.counts
      simp_all
    | up => exact absurd rfl hn.1.notUp
    | enter _ hf _ _ hw =>
      obtain ⟨hl, hq, hfits⟩ := ih h.tail hn.2 hw
      exact ⟨hl, by rw [hq, List.append_assoc]; rfl, List.forall_mem_cons.2 ⟨hf, hfits⟩⟩
    | link _ _ he _ => exact absurd he (h [n] _ (List.cons_prefix_cons.2 ⟨rfl, List.nil_prefix⟩))

/-- Whatever is in the place of the generated root goes with it. -/
lemma cleared_absent (hd : d.Sound) (hv : (Layout.generatedRoot root).Valid)
    (hn : ∀ n ∈ (holder root).steps, IsName n)
    (hclear : Clear d (d.startOf (holder root)) (holder root).steps)
    (hfits : ∀ n ∈ (holder root).steps, Fits n) :
    (cleared d root).at? (d.startOf (holder root) ++ (holder root).steps ++ [rootName]) = none ∧
      ∀ q, d.locate false (Layout.generatedRoot root) = .ok q →
        q = d.startOf (holder root) ++ (holder root).steps ++ [rootName] := by
  have hfind : d.find false (Layout.generatedRoot root) = _ :=
    Disk.find_steps hv (generatedRoot_ends root)
  rw [steps_generatedRoot, startOf_generatedRoot] at hfind
  cases hq : d.locate false (Layout.generatedRoot root) with
  | ok q =>
    have htaken : d.find false (Layout.generatedRoot root) = .ok (.taken q) :=
      Disk.find_of_locate hq
    rw [hfind] at htaken
    obtain ⟨links, b, hw⟩ := Disk.exists_way_of_follow htaken
      ⟨rootName, by simp, fits_rootName.counts.1⟩
    obtain rfl := (hclear.way hn hw).2.1
    rw [hw.follow_append (Or.inr (by simp))] at htaken
    obtain rfl := Disk.follow_single_taken fits_rootName htaken
    refine ⟨?_, fun q' h' => (Except.ok.inj h').symm⟩
    rw [cleared_of_ok hq]
    exact Disk.at?_clear_of_below (List.prefix_refl _) (by simp)
  | error r =>
    refine ⟨?_, fun q' h' => by cases h'⟩
    rw [cleared_of_error hq]
    cases hx : d.at? (d.startOf (holder root) ++ (holder root).steps ++ [rootName]) with
    | none => rfl
    | some x =>
      have hdir := hd.inDirectory hx
      have hw := hd.way_of_at? linkLimit hfits (Disk.hasDirectory_iff.1 hdir) (by simp)
      rw [hw.follow_append (Or.inr (by simp)),
        Disk.follow_single_of_at? hdir fits_rootName hx] at hfind
      rw [Disk.locate, hfind] at hq
      cases hq

/-- **Where the path of the project does not go up and no link is on the way to the directory of
the generated root, the way is straight.** -/
theorem straight_of_clear (hd : d.Sound) (hv : (Layout.generatedRoot root).Valid)
    (hup : ".." ∉ root.steps)
    (hclear : Clear d (d.startOf (holder root)) (holder root).steps) : Straight d root := by
  have hn : ∀ n ∈ (holder root).steps, IsName n := by
    rw [steps_holder, List.forall_mem_append]
    exact ⟨fun n h => Path.isName_of_mem_steps h fun hu => hup (hu ▸ h), by decide⟩
  intro e he
  obtain ⟨-, links, a, hm, hdir⟩ := (Disk.makeDirectories_iff (holder_ends root)).1 he
  have hstart : (cleared d root).startOf (holder root) = d.startOf (holder root) :=
    ((extends_cleared d root).keeps.startOf _).symm
  rw [hstart] at hm
  have hclear' : Clear e (d.startOf (holder root)) (holder root).steps := fun r t hr ht => by
    rcases hm.at? (d.startOf (holder root) ++ r) with heq | ⟨-, hmade, -⟩
    · rw [heq] at ht
      exact hclear r t hr ((extends_cleared d root).at? ht)
    · rw [hmade] at ht
      cases ht
  obtain ⟨rfl, rfl, hfits⟩ := hclear'.way hn hm.way
  obtain ⟨hgone, hplace⟩ := cleared_absent hd hv hn hclear hfits
  refine ⟨_, ?_, hplace⟩
  have hway := hm.way
  rw [← hstart, ← hm.keeps.startOf] at hway
  have hfree : e.at? (d.startOf (holder root) ++ (holder root).steps ++ [rootName]) = none := by
    refine (hm.at? _).elim (fun heq => heq.trans hgone) fun ⟨_, _, b, l, hb, _, hw⟩ => ?_
    have hnb : ∀ n ∈ b, IsName n := fun n h => hn n (hb.subset h)
    have hcb : Clear e (d.startOf (holder root)) b := fun r t hr => hclear' r t (hr.trans hb)
    have hq := (hcb.way hnb hw).2.1
    rw [List.append_assoc, List.append_right_inj] at hq
    have hlength := hb.length_le
    rw [← hq, List.length_append, List.length_singleton] at hlength
    omega
  rw [(rootAt hv hway).find, hm.keeps.startOf, hstart,
    Disk.follow_absent hdir ⟨by decide, by decide, by decide⟩ hfree]
  rfl

end ProviderGen.Project
