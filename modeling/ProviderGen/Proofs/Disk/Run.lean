import ProviderGen.Disk.Files
import ProviderGen.Files.Write
import Mathlib.Order.Defs.Unbundled
import Mathlib.Tactic.Common

/-!
Runs on a disk. A run that does one thing after the other stops at the first error and keeps what
was done until then. Whatever holds between the disks before and after each request, and can be
chained, holds between the disks before and after a run, whether it succeeds or not.
-/

namespace ProviderGen

variable {α β ε : Type}

lemma bind_eq_ok {x : Except ε α} {g : α → Except ε β} {b : β} :
    x >>= g = .ok b ↔ ∃ a, x = .ok a ∧ g a = .ok b := by
  cases x with
  | error e => simp [bind, Except.bind]
  | ok a => simp [bind, Except.bind]

namespace Disk

open Files (orRefused orThere makeFrom makeParent)

/-! ### Outcomes -/

/-- The answer of a computation and the disk that it leaves behind. -/
def perform (y : StateM Disk α) (d : Disk) : α × Disk := y.run d

/-- The result of a computation that can fail and the disk that it leaves behind. -/
def outcome (x : ExceptT Error (StateM Disk) α) (d : Disk) : Except Error α × Disk :=
  perform x.run d

variable {d d' : Disk} {a : α} {b : β} {e : Error} {p : Path} {r : Refusal}

@[simp] lemma perform_pure (a : α) (d : Disk) : perform (pure a) d = (a, d) := rfl

@[simp] lemma perform_bind (y : StateM Disk α) (g : α → StateM Disk β) (d : Disk) :
    perform (y >>= g) d = perform (g (perform y d).1) (perform y d).2 := rfl

lemma perform_look (request : Disk → α) (d : Disk) : perform (look request) d = (request d, d) :=
  rfl

lemma perform_read (p : Path) (d : Disk) : perform (Files.read p) d = (d.read p, d) :=
  perform_look _ d

lemma perform_list (p : Path) (d : Disk) : perform (Files.list p) d = (d.list p, d) :=
  perform_look _ d

lemma perform_walk (p : Path) (d : Disk) : perform (Files.walk p) d = (d.walk p, d) :=
  perform_look _ d

lemma perform_canonical (p : Path) (d : Disk) :
    perform (Files.canonical p) d = (d.canonical p, d) := perform_look _ d

lemma perform_isFile (p : Path) (d : Disk) : perform (Files.isFile p) d = (d.isFile p, d) :=
  perform_look _ d

lemma perform_isDirectory (p : Path) (d : Disk) :
    perform (Files.isDirectory p) d = (d.isDirectory p, d) := perform_look _ d

lemma perform_change (request : Disk → Except Refusal Disk) (d : Disk) :
    perform (change request) d =
      match request d with
      | .ok d' => (.ok (), d')
      | .error r => (.error r, d) := rfl

lemma perform_makeDirectory (f : Path) (d : Disk) :
    perform (Files.makeDirectory f) d =
      match d.makeDirectory f with
      | .ok d' => (.ok (), d')
      | .error r => (.error r, d) := perform_change (·.makeDirectory f) d

lemma perform_createNew (f : Path) (bytes : ByteArray) (d : Disk) :
    perform (Files.createNew f bytes) d =
      match d.createNew f bytes with
      | .ok d' => (.ok (), d')
      | .error r => (.error r, d) := perform_change (·.createNew f bytes) d

lemma perform_removeTree (f : Path) (d : Disk) :
    perform (Files.removeTree f) d =
      match d.removeTree f with
      | .ok d' => (.ok (), d')
      | .error r => (.error r, d) := perform_change (·.removeTree f) d

lemma perform_change_ok {request : Disk → Except Refusal Disk} :
    perform (change request) d = (.ok (), d') ↔ request d = .ok d' := by
  rw [perform_change]
  cases request d <;> simp

lemma outcome_bind (x : ExceptT Error (StateM Disk) α) (g : α → ExceptT Error (StateM Disk) β)
    (d : Disk) : outcome (x >>= g) d =
      match outcome x d with
      | (.ok a, d') => outcome (g a) d'
      | (.error e, d') => (.error e, d') := by
  unfold outcome
  rw [ExceptT.run_bind, perform_bind]
  rcases perform x.run d with ⟨r, d'⟩
  cases r with
  | ok a => rfl
  | error e => rfl

@[simp] lemma outcome_pure (a : α) (d : Disk) :
    outcome (pure a : ExceptT Error (StateM Disk) α) d = (.ok a, d) := rfl

@[simp] lemma outcome_throw (e : Error) (d : Disk) :
    outcome (throw e : ExceptT Error (StateM Disk) α) d = (.error e, d) := rfl

@[simp] lemma outcome_liftExcept (r : Except Error α) (d : Disk) :
    outcome (liftM r : ExceptT Error (StateM Disk) α) d = (r, d) := by
  cases r with
  | ok a => rfl
  | error e => rfl

@[simp] lemma outcome_lift (y : StateM Disk α) (d : Disk) :
    outcome (ExceptT.lift y) d = (.ok (perform y d).1, (perform y d).2) := rfl

@[simp] lemma outcome_liftM (y : StateM Disk α) (d : Disk) :
    outcome (liftM y : ExceptT Error (StateM Disk) α) d =
      (.ok (perform y d).1, (perform y d).2) := rfl

lemma outcome_bind_ok {x : ExceptT Error (StateM Disk) α}
    {g : α → ExceptT Error (StateM Disk) β} :
    outcome (x >>= g) d = (.ok b, d') ↔
      ∃ a d₁, outcome x d = (.ok a, d₁) ∧ outcome (g a) d₁ = (.ok b, d') := by
  rw [outcome_bind]
  rcases outcome x d with ⟨r, d₁⟩
  cases r with
  | ok a =>
    refine ⟨fun h => ⟨a, d₁, rfl, h⟩, ?_⟩
    rintro ⟨a', d₁', he, h⟩
    cases he
    exact h
  | error e => simp

lemma outcome_orRefused (p : Path) (y : StateM Disk (Except Refusal α)) (d : Disk) :
    outcome (orRefused p y) d =
      ((perform y d).1.mapError (Error.refused p), (perform y d).2) := by
  unfold orRefused
  rw [outcome_bind, outcome_lift]
  cases (perform y d).1 with
  | ok a => rfl
  | error r => rfl

lemma outcome_orRefused_ok {y : StateM Disk (Except Refusal α)} :
    outcome (orRefused p y) d = (.ok a, d') ↔ perform y d = (.ok a, d') := by
  rw [outcome_orRefused]
  rcases perform y d with ⟨r, d₁⟩
  cases r <;> simp [Except.mapError]

lemma outcome_change (p : Path) (request : Disk → Except Refusal Disk) (d : Disk) :
    outcome (orRefused p (change request)) d =
      match request d with
      | .ok d' => (.ok (), d')
      | .error r => (.error (.refused p r), d) := by
  rw [outcome_orRefused, perform_change]
  cases request d with
  | ok d' => rfl
  | error r => rfl

/-! ### Whatever is kept throughout -/

/-- However it ends, `R` holds between the disks before and after. -/
def Always (R : Disk → Disk → Prop) (y : StateM Disk α) : Prop := ∀ d, R d (perform y d).2

section

variable {R : Disk → Disk → Prop} [IsPreorder Disk R]

lemma always_pure (a : α) : Always R (pure a) := fun d => refl_of R d

lemma always_look (request : Disk → α) : Always R (look request) := fun d => refl_of R d

lemma always_change {request : Disk → Except Refusal Disk}
    (h : ∀ {d d'}, request d = .ok d' → R d d') : Always R (change request) := by
  intro d
  rw [perform_change]
  cases hr : request d with
  | ok d' => exact h hr
  | error r => exact refl_of R d

lemma Always.bind {y : StateM Disk α} {g : α → StateM Disk β} (hy : Always R y)
    (hg : ∀ a, Always R (g a)) : Always R (y >>= g) := fun d =>
  trans_of R (hy d) (hg _ _)

lemma Always.andThen {x : ExceptT Error (StateM Disk) α} {g : α → ExceptT Error (StateM Disk) β}
    (hx : Always R x.run) (hg : ∀ a, Always R (g a).run) : Always R (x >>= g).run := by
  intro d
  show R d (outcome (x >>= g) d).2
  have hd : R d (outcome x d).2 := hx d
  rw [outcome_bind]
  cases ho : outcome x d with
  | mk r d' =>
    rw [ho] at hd
    cases r with
    | ok a => exact trans_of R hd (hg a d')
    | error e => exact hd

omit [IsPreorder Disk R] in
lemma always_lift {y : StateM Disk α} (hy : Always R y) :
    Always R (liftM y : ExceptT Error (StateM Disk) α).run := hy

omit [IsPreorder Disk R] in
lemma Always.orRefused {y : StateM Disk (Except Refusal α)} (p : Path) (hy : Always R y) :
    Always R (orRefused p y).run := by
  intro d
  show R d (outcome (Files.orRefused p y) d).2
  rw [outcome_orRefused]
  exact hy d

lemma always_throw (e : Error) : Always R (throw e : ExceptT Error (StateM Disk) α).run :=
  fun d => refl_of R d

lemma always_liftExcept (r : Except Error α) :
    Always R (liftM r : ExceptT Error (StateM Disk) α).run := by
  intro d
  show R d (outcome _ d).2
  rw [outcome_liftExcept]
  exact refl_of R d

lemma Always.forM {l : List β} {g : β → ExceptT Error (StateM Disk) PUnit}
    (h : ∀ b ∈ l, Always R (g b).run) : Always R (l.forM g).run := by
  induction l with
  | nil => exact always_pure _
  | cons b l ih =>
    show Always R (g b >>= fun _ => l.forM g).run
    exact (h b List.mem_cons_self).andThen fun _ =>
      ih fun c hc => h c (List.mem_cons_of_mem _ hc)

/-- What only looks either ends the matter or hands over the same disk. -/
lemma Always.outcome_bind {x : ExceptT Error (StateM Disk) α}
    {g : α → ExceptT Error (StateM Disk) β} {r : Except Error β} (hx : Always Eq x.run)
    (h : outcome (x >>= g) d = (r, d')) : (d' = d ∧ ∃ e, r = .error e) ∨
      ∃ a, outcome x d = (.ok a, d) ∧ outcome (g a) d = (r, d') := by
  have hsame : d = (outcome x d).2 := hx d
  rw [Disk.outcome_bind] at h
  rcases ho : outcome x d with ⟨s, d₁⟩
  rw [ho] at h hsame
  obtain rfl : d = d₁ := hsame
  cases s with
  | error e =>
    obtain ⟨rfl, rfl⟩ := Prod.mk.inj h
    exact Or.inl ⟨rfl, e, rfl⟩
  | ok a => exact Or.inr ⟨a, rfl, h⟩

/-- A directory that is to be there is made, or what is there is left alone. -/
lemma always_makeFrom {up : List Path} {p : Path}
    (h : ∀ g ∈ p :: up, ∀ d d', d.makeDirectory g = .ok d' → R d d') :
    Always R (makeFrom p up : StateM Disk (Except Refusal Unit)) := by
  have hthere (p : Path) (s : Except Refusal Unit) :
      Always R (orThere p s : StateM Disk (Except Refusal Unit)) := by
    cases s with
    | ok _ => exact always_pure _
    | error r => exact (always_look _).bind fun _ => always_pure _
  induction up generalizing p with
  | nil =>
    have hmake : Always R (Files.makeDirectory p : StateM Disk (Except Refusal Unit)) :=
      always_change (h p List.mem_cons_self _ _)
    unfold makeFrom
    split
    · exact always_pure _
    · refine hmake.bind fun answer => ?_
      split
      · exact always_pure _
      · exact hthere p answer
  | cons q rest ih =>
    have hmake : Always R (Files.makeDirectory p : StateM Disk (Except Refusal Unit)) :=
      always_change (h p List.mem_cons_self _ _)
    unfold makeFrom
    split
    · exact always_pure _
    · refine hmake.bind fun answer => ?_
      split
      · refine (ih fun g hg => h g (List.mem_cons_of_mem _ hg)).bind fun s => ?_
        split
        · exact hmake.bind fun answer => hthere p answer
        · exact always_pure _
      · exact hthere p answer

lemma always_makeParent (h : ∀ {d p d'}, d.makeDirectory p = .ok d' → R d d') (p : Path) :
    Always R (makeParent p : ExceptT Error (StateM Disk) Unit).run := by
  unfold makeParent
  split
  · exact (always_makeFrom fun _ _ _ _ => h).orRefused _
  · exact always_pure _

end

end Disk

end ProviderGen
