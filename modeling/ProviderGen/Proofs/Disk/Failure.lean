import ProviderGen.Proofs.Disk.Run

/-!
Runs that fail. A run that only looks leaves the disk as it was, whatever comes of it, and a run
that acts may fail only where the file system refuses something. One that looks first and then
acts has changed nothing if it fails for another reason.
-/

namespace ProviderGen

namespace Disk

open Files (orRefused makeParent safeWrite overwrite)

variable {α β : Type} {x : ExceptT Error (StateM Disk) α} {y : StateM Disk α}
  {g : α → ExceptT Error (StateM Disk) β} {d d' : Disk} {e : Error} {p : Path}

lemma outcome_bind_error : outcome (x >>= g) d = (.error e, d') ↔
    outcome x d = (.error e, d') ∨
      ∃ a d₁, outcome x d = (.ok a, d₁) ∧ outcome (g a) d₁ = (.error e, d') := by
  rw [outcome_bind]
  rcases outcome x d with ⟨r, d₁⟩
  cases r with
  | error e => simp
  | ok a => simp

/-- Whatever comes of it, the disk is as it was. -/
lemma Always.unchanged {r : Except Error α} (h : Always Eq x.run)
    (ho : outcome x d = (r, d')) : d' = d := by
  have hd : d = (outcome x d).2 := h d
  rw [ho] at hd
  exact hd.symm

/-- It fails only where the file system refuses something. -/
def FailsOnRefusal (x : ExceptT Error (StateM Disk) α) : Prop :=
  ∀ d e d', outcome x d = (.error e, d') → e.kind = .io

/-- Where it fails for another reason, the disk is as it was. -/
def FailsClean (x : ExceptT Error (StateM Disk) α) : Prop :=
  ∀ d e d', outcome x d = (.error e, d') → e.kind ≠ .io → d' = d

lemma FailsOnRefusal.clean (h : FailsOnRefusal x) : FailsClean x :=
  fun d e d' ho hk => absurd (h d e d' ho) hk

/-- Looking comes before acting. -/
lemma Always.failsClean (hx : Always Eq x.run) (hg : ∀ a, FailsClean (g a)) :
    FailsClean (x >>= g) := by
  intro d e d' ho hk
  rcases outcome_bind_error.1 ho with hfail | ⟨a, d₁, hok, hfail⟩
  · exact hx.unchanged hfail
  · rw [hg a d₁ e d' hfail hk, hx.unchanged hok]

lemma FailsClean.map (hx : FailsClean x) (f : α → β) : FailsClean (x >>= fun a => pure (f a)) := by
  intro d e d' ho hk
  rcases outcome_bind_error.1 ho with hfail | ⟨a, d₁, -, hfail⟩
  · exact hx d e d' hfail hk
  · cases hfail

lemma FailsOnRefusal.bind (hx : FailsOnRefusal x)
    (hg : ∀ d a d', outcome x d = (.ok a, d') → FailsOnRefusal (g a)) :
    FailsOnRefusal (x >>= g) := by
  intro d e d' ho
  rcases outcome_bind_error.1 ho with hfail | ⟨a, d₁, hok, hfail⟩
  · exact hx d e d' hfail
  · exact hg d a d₁ hok d₁ e d' hfail

lemma failsOnRefusal_pure (a : α) :
    FailsOnRefusal (pure a : ExceptT Error (StateM Disk) α) := by
  intro d e d' ho
  cases ho

lemma failsOnRefusal_throw (h : e.kind = .io) :
    FailsOnRefusal (throw e : ExceptT Error (StateM Disk) α) := by
  intro d e' d' ho
  cases ho
  exact h

lemma failsOnRefusal_lift (y : StateM Disk α) :
    FailsOnRefusal (liftM y : ExceptT Error (StateM Disk) α) := by
  intro d e d' ho
  cases ho

lemma failsOnRefusal_orRefused (p : Path) (y : StateM Disk (Except Refusal α)) :
    FailsOnRefusal (orRefused p y) := by
  intro d e d' ho
  rw [outcome_orRefused] at ho
  cases h : (perform y d).1 with
  | ok a =>
    rw [h] at ho
    cases ho
  | error r =>
    rw [h] at ho
    cases ho
    rfl

lemma failsOnRefusal_forM {l : List β} {act : β → ExceptT Error (StateM Disk) PUnit}
    (h : ∀ b, FailsOnRefusal (act b)) : FailsOnRefusal (l.forM act) := by
  induction l with
  | nil => exact failsOnRefusal_pure _
  | cons b l ih => exact (h b).bind fun _ _ _ _ => ih

lemma failsOnRefusal_mapM {l : List α} (h : ∀ a, FailsOnRefusal (g a)) :
    FailsOnRefusal (l.mapM g) := by
  induction l with
  | nil => exact failsOnRefusal_pure _
  | cons a l ih =>
    rw [List.mapM_cons]
    exact (h a).bind fun _ _ _ _ => ih.bind fun _ _ _ _ => failsOnRefusal_pure _

lemma failsOnRefusal_makeParent (p : Path) :
    FailsOnRefusal (makeParent p : ExceptT Error (StateM Disk) Unit) := by
  unfold makeParent
  split
  · exact failsOnRefusal_orRefused _ _
  · exact failsOnRefusal_pure _

lemma failsOnRefusal_overwrite (p : Path) (text : String) :
    FailsOnRefusal (overwrite p text : ExceptT Error (StateM Disk) Unit) :=
  (failsOnRefusal_makeParent p).bind fun _ _ _ _ => failsOnRefusal_orRefused _ _

lemma failsOnRefusal_safeWrite (p : Path) (text : String) :
    FailsOnRefusal (safeWrite p text : ExceptT Error (StateM Disk) Unit) := by
  refine (failsOnRefusal_makeParent p).bind fun _ _ _ _ => ?_
  refine (failsOnRefusal_lift _).bind fun _ answer _ _ => ?_
  split
  · exact failsOnRefusal_pure _
  · refine (failsOnRefusal_orRefused _ _).bind fun _ marked _ _ => ?_
    split
    · exact failsOnRefusal_overwrite _ _
    · exact failsOnRefusal_throw rfl
  · exact failsOnRefusal_throw rfl

end Disk

end ProviderGen
