import Mathlib.Data.Finset.Card
import Mathlib.Data.Set.Finite.Basic
import Mathlib.Logic.Relation
import Mathlib.Tactic.Common

/-!
The depth-first order of first discovery. A stack holds what is still to be visited; what has
been met before is skipped, anything else comes next in the order and puts what it leads to on
top of the stack. There is at most one order, and there is one if the stack leads to finitely many
things only; started with nothing met it lists exactly what can be reached from the stack.
-/

namespace ProviderGen

open Relation (ReflTransGen)

variable {α : Type*} {next : α → List α}

inductive DepthFirst (next : α → List α) : List α → List α → List α → Prop where
  | done {seen : List α} : DepthFirst next seen [] []
  | skip {seen rest order : List α} {a : α} (met : a ∈ seen)
      (tail : DepthFirst next seen rest order) : DepthFirst next seen (a :: rest) order
  | visit {seen rest order : List α} {a : α} (new : a ∉ seen)
      (tail : DepthFirst next (a :: seen) (next a ++ rest) order) :
      DepthFirst next seen (a :: rest) (a :: order)

namespace DepthFirst

variable {seen stack order : List α}

theorem unique {order' : List α} (h : DepthFirst next seen stack order)
    (h' : DepthFirst next seen stack order') : order = order' := by
  induction h generalizing order' with
  | done =>
    cases h'
    rfl
  | skip met tail ih =>
    cases h' with
    | skip _ tail' => exact ih tail'
    | visit new _ => exact absurd met new
  | visit new tail ih =>
    cases h' with
    | skip met _ => exact absurd met new
    | visit _ tail' => rw [ih tail']

/-- What is listed can be reached from the stack. -/
theorem reached (h : DepthFirst next seen stack order) {b : α} (hb : b ∈ order) :
    ∃ a ∈ stack, ReflTransGen (fun x y => y ∈ next x) a b := by
  induction h with
  | done => simp at hb
  | skip met tail ih =>
    obtain ⟨a, ha, hab⟩ := ih hb
    exact ⟨a, List.mem_cons_of_mem _ ha, hab⟩
  | @visit seen rest order c new tail ih =>
    rcases List.mem_cons.1 hb with rfl | hb
    · exact ⟨_, by simp, .refl⟩
    · obtain ⟨a, ha, hab⟩ := ih hb
      rcases List.mem_append.1 ha with ha | ha
      · exact ⟨c, by simp, hab.head ha⟩
      · exact ⟨a, List.mem_cons_of_mem _ ha, hab⟩

/-- The stack is listed, and with anything listed all that it leads to, unless met before. -/
theorem closed (h : DepthFirst next seen stack order) :
    (∀ a ∈ stack, a ∈ seen ∨ a ∈ order) ∧
      ∀ a ∈ order, ∀ b ∈ next a, b ∈ seen ∨ b ∈ order := by
  induction h with
  | done => simp
  | skip met tail ih =>
    refine ⟨?_, ih.2⟩
    rw [List.forall_mem_cons]
    exact ⟨Or.inl met, ih.1⟩
  | @visit seen rest order c new tail ih =>
    have move : ∀ {b : α}, b ∈ c :: seen ∨ b ∈ order → b ∈ seen ∨ b ∈ c :: order := by
      intro b hb
      rcases hb with hb | hb
      · rcases List.mem_cons.1 hb with rfl | hb
        · exact Or.inr (by simp)
        · exact Or.inl hb
      · exact Or.inr (List.mem_cons_of_mem _ hb)
    refine ⟨?_, ?_⟩
    · rw [List.forall_mem_cons]
      exact ⟨Or.inr (by simp), fun a ha => move (ih.1 a (List.mem_append_right _ ha))⟩
    · rw [List.forall_mem_cons]
      exact ⟨fun b hb => move (ih.1 b (List.mem_append_left _ hb)),
        fun a ha b hb => move (ih.2 a ha b hb)⟩

/-- **Started afresh, exactly what the stack leads to is listed.** -/
theorem mem_iff (h : DepthFirst next [] stack order) {b : α} :
    b ∈ order ↔ ∃ a ∈ stack, ReflTransGen (fun x y => y ∈ next x) a b := by
  refine ⟨h.reached, ?_⟩
  rintro ⟨a, ha, hab⟩
  induction hab with
  | refl => simpa using h.closed.1 a ha
  | tail _ hbc ih => simpa using h.closed.2 _ ih _ hbc

/-- Within finitely many places there is an order. -/
theorem exists_order {places : Set α} (hfinite : places.Finite)
    (hnext : ∀ a ∈ places, ∀ b ∈ next a, b ∈ places) (seen stack : List α)
    (hstack : ∀ a ∈ stack, a ∈ places) : ∃ order, DepthFirst next seen stack order := by
  classical
  -- every visit leaves fewer places that have not been met, and a skip leaves a shorter stack
  induction hn : (hfinite.toFinset \ seen.toFinset).card using Nat.strong_induction_on
    generalizing seen stack with
  | _ n ih =>
    induction stack with
    | nil => exact ⟨[], .done⟩
    | cons a rest ihrest =>
      rw [List.forall_mem_cons] at hstack
      by_cases ha : a ∈ seen
      · obtain ⟨order, h⟩ := ihrest hstack.2
        exact ⟨order, .skip ha h⟩
      · have hless : (hfinite.toFinset \ (a :: seen).toFinset).card < n := by
          rw [← hn]
          refine Finset.card_lt_card ((Finset.ssubset_iff_of_subset ?_).2 ⟨a, ?_, ?_⟩)
          · exact Finset.sdiff_subset_sdiff (Finset.Subset.refl _) (by simp)
          · simp [hstack.1, ha]
          · simp
        obtain ⟨order, h⟩ := ih _ hless (a :: seen) (next a ++ rest)
          (List.forall_mem_append.2 ⟨hnext a hstack.1, hstack.2⟩) rfl
        exact ⟨a :: order, .visit ha h⟩

end DepthFirst

end ProviderGen
