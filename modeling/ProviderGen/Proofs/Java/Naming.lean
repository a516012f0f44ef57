import ProviderGen.Proofs.Java.FreeName
import Mathlib.Data.Finset.Card

/-!
The search for free names, one try at a time. A series of names goes through one set of taken
names: each name puts its candidates to the set, itself first and then itself with the numbers
from one on, and the first candidate that is not in the set is put into it and is what the name
gets. Nothing bounds the search but the set. Candidates differ, so not more of them can fail than
the set has names, and the series gets the names that `freeNames` gives it.
-/

namespace ProviderGen.Java

/-- The candidates for a name, in the order in which they are tried. -/
def candidate (name : String) : ℕ → String
  | 0 => name
  | k + 1 => numbered name (k + 1)

/-- A series on its way: the set of taken names, the words given so far, the names that wait, and
how many candidates of the first of them have failed. -/
structure Naming where
  taken : Finset String
  given : List String
  waiting : List String
  failed : ℕ

namespace Naming

def start (taken : Finset String) (names : List String) : Naming := ⟨taken, [], names, 0⟩

/-- One try. -/
def step (s : Naming) : Naming :=
  match s.waiting with
  | [] => s
  | name :: rest =>
    let word := candidate name s.failed
    if word ∈ s.taken then { s with failed := s.failed + 1 }
    else ⟨insert word s.taken, s.given ++ [word], rest, 0⟩

def run : ℕ → Naming → Naming
  | 0, s => s
  | n + 1, s => run n s.step

/-- From here `k` tries fail, which changes nothing else, and with the next one the name that waits
gets `word`, which is put into the set. -/
structure Settles (s : Naming) (k : ℕ) (word : String) : Prop where
  fails : ∀ n ≤ k, run n s = { s with failed := n }
  gives : run (k + 1) s = ⟨insert word s.taken, s.given ++ [word], s.waiting.tail, 0⟩

/-- The words given are all different, none of them was taken at the start, and the set has grown
by these words and by nothing else. -/
structure Kept (taken : Finset String) (s : Naming) : Prop where
  nodup : s.given.Nodup
  fresh : ∀ word ∈ s.given, word ∉ taken
  set : s.taken = taken ∪ s.given.toFinset

end Naming

open Naming (start step run Settles Kept)

variable {taken given rest : List String} {set : Finset String} {name word : String}
  {s : Naming} {k n : ℕ}

/-! ### Candidates -/

lemma candidate_injective (name : String) : Function.Injective (candidate name) := by
  have hne : ∀ k, name ≠ numbered name k := by
    intro k h
    have hchars := congrArg String.toList h
    simp [numbered] at hchars
  intro i j h
  cases i with
  | zero =>
    cases j with
    | zero => rfl
    | succ j => exact absurd h (hne _)
  | succ i =>
    cases j with
    | zero => exact absurd h.symm (hne _)
    | succ j => exact numbered_inj h

/-- Not more candidates fail than there are taken names. -/
lemma le_card_of_candidates (h : ∀ i < k, candidate name i ∈ set) : k ≤ set.card := by
  have hsub : (Finset.range k).image (candidate name) ⊆ set := by
    intro word hword
    obtain ⟨i, hi, rfl⟩ := Finset.mem_image.1 hword
    exact h i (Finset.mem_range.1 hi)
  have hcard := Finset.card_le_card hsub
  rwa [Finset.card_image_of_injective _ (candidate_injective name), Finset.card_range] at hcard

/-- The word for a name is the first candidate that is free. -/
lemma NextFree.exists_candidate (h : NextFree taken name word) :
    ∃ k, word = candidate name k ∧ candidate name k ∉ taken ∧
      ∀ i < k, candidate name i ∈ taken := by
  cases h with
  | itself hfree => exact ⟨0, rfl, hfree, fun i hi => absurd hi (Nat.not_lt_zero i)⟩
  | @number k hin hk hfree hless =>
    obtain ⟨k, rfl⟩ := Nat.exists_eq_add_of_le' hk
    refine ⟨k + 1, rfl, hfree, fun i hi => ?_⟩
    cases i with
    | zero => exact hin
    | succ i => exact hless (i + 1) (by omega) hi

/-! ### Tries -/

lemma run_add (m n : ℕ) (s : Naming) : run (m + n) s = run n (run m s) := by
  induction m generalizing s with
  | zero => rw [Nat.zero_add, run]
  | succ m ih => rw [Nat.succ_add, run, run, ih]

lemma run_succ (n : ℕ) (s : Naming) : run (n + 1) s = (run n s).step := run_add n 1 s

lemma step_fails (h : candidate name k ∈ set) :
    step ⟨set, given, name :: rest, k⟩ = ⟨set, given, name :: rest, k + 1⟩ := if_pos h

lemma step_gives (h : candidate name k ∉ set) :
    step ⟨set, given, name :: rest, k⟩ =
      ⟨insert (candidate name k) set, given ++ [candidate name k], rest, 0⟩ := if_neg h

lemma run_fails (h : ∀ i < n, candidate name i ∈ set) :
    run n ⟨set, given, name :: rest, 0⟩ = ⟨set, given, name :: rest, n⟩ := by
  induction n with
  | zero => rfl
  | succ n ih =>
    rw [run_succ, ih fun i hi => h i (Nat.lt_succ_of_lt hi), step_fails (h n n.lt_succ_self)]

lemma settles_candidate (hfail : ∀ i < k, candidate name i ∈ set)
    (hfree : candidate name k ∉ set) :
    Settles ⟨set, given, name :: rest, 0⟩ k (candidate name k) where
  fails n hn := run_fails fun i hi => hfail i (Nat.lt_of_lt_of_le hi hn)
  gives := by rw [run_succ, run_fails hfail, step_gives hfree, List.tail_cons]

/-- A name gets its free name, and the tries are not more than the taken names and one. -/
lemma settles_freeName (taken : List String) (name : String) :
    ∃ k ≤ taken.toFinset.card, ∀ given rest,
      Settles ⟨taken.toFinset, given, name :: rest, 0⟩ k (freeName taken name) := by
  obtain ⟨k, hword, hfree, hfail⟩ := (nextFree_freeName taken name).exists_candidate
  have hfail' : ∀ i < k, candidate name i ∈ taken.toFinset :=
    fun i hi => List.mem_toFinset.2 (hfail i hi)
  rw [hword]
  exact ⟨k, le_card_of_candidates hfail',
    fun given rest => settles_candidate hfail' (mt List.mem_toFinset.1 hfree)⟩

/-! ### Series -/

lemma toFinset_snoc (words : List String) (word : String) :
    (words ++ [word]).toFinset = insert word words.toFinset := by
  rw [List.toFinset_append, Finset.union_comm, Finset.insert_eq]
  rfl

/-- A series gets its free names, whatever waits behind it. -/
lemma exists_run (taken given names : List String) :
    ∃ n ≤ names.length * (taken.toFinset.card + names.length), ∀ later,
      run n ⟨taken.toFinset, given, names ++ later, 0⟩ =
        ⟨taken.toFinset ∪ (freeNames taken names).toFinset, given ++ freeNames taken names,
          later, 0⟩ := by
  induction names generalizing taken given with
  | nil => exact ⟨0, Nat.zero_le _, fun later => by simp [run, freeNames]⟩
  | cons name names ih =>
    obtain ⟨k, hk, hsettles⟩ := settles_freeName taken name
    obtain ⟨n, hn, hrun⟩ := ih (freeName taken name :: taken) (given ++ [freeName taken name])
    rw [List.toFinset_cons] at hn hrun
    have hcard := Finset.card_insert_le (freeName taken name) taken.toFinset
    refine ⟨k + 1 + n, ?_, fun later => ?_⟩
    · calc k + 1 + n
          ≤ taken.toFinset.card + 1 + names.length * (taken.toFinset.card + 1 + names.length) :=
            Nat.add_le_add (Nat.succ_le_succ hk)
              (hn.trans (Nat.mul_le_mul_left _ (Nat.add_le_add_right hcard _)))
        _ ≤ (names.length + 1) * (taken.toFinset.card + (names.length + 1)) := by
            have hshift : taken.toFinset.card + 1 + names.length =
              taken.toFinset.card + (names.length + 1) := by omega
            rw [hshift, Nat.succ_mul]
            omega
    · rw [List.cons_append, run_add, (hsettles _ _).gives]
      refine (hrun later).trans ?_
      rw [freeNames, List.toFinset_cons, Finset.insert_union, Finset.union_insert,
        List.append_assoc, List.singleton_append]

lemma Naming.Kept.step (h : Kept set s) : Kept set s.step := by
  obtain ⟨now, given, waiting, k⟩ := s
  obtain ⟨hnodup, hfresh, hset⟩ := h
  dsimp only at hnodup hfresh hset
  cases waiting with
  | nil => exact ⟨hnodup, hfresh, hset⟩
  | cons name rest =>
    by_cases hin : candidate name k ∈ now
    · rw [step_fails hin]
      exact ⟨hnodup, hfresh, hset⟩
    · rw [step_gives hin]
      rw [hset, Finset.mem_union, List.mem_toFinset, not_or] at hin
      refine ⟨?_, ?_, ?_⟩
      · exact List.nodup_append.2 ⟨hnodup, List.nodup_singleton _, fun a ha b hb e =>
          hin.2 (List.mem_singleton.1 hb ▸ e ▸ ha)⟩
      · exact List.forall_mem_append.2 ⟨hfresh, List.forall_mem_singleton.2 hin.1⟩
      · rw [toFinset_snoc, Finset.union_insert, hset]

/-- At any time of a series. -/
lemma kept_run (set : Finset String) (names : List String) (n : ℕ) :
    Kept set (run n (start set names)) := by
  induction n with
  | zero =>
    exact ⟨List.nodup_nil, fun _ h => absurd h List.not_mem_nil, (Finset.union_empty set).symm⟩
  | succ n ih =>
    rw [run_succ]
    exact ih.step

/-- **The search for free names comes to an end**, for every name after as many tries as there are
taken names and one, at the latest. What it gives a name is the name itself if that is free and
otherwise the name with the smallest number, from one on, that makes it free; the set grows by this
word. So a series gets words that are all different and were free at the start, at any time of the
search, and the same ones whatever names come later. -/
theorem naming_settles (taken : List String) :
    (∀ name, NextFree taken name (freeName taken name) ∧ freeName taken name ∉ taken ∧
      ∃ k ≤ taken.toFinset.card, ∀ given rest,
        Settles ⟨taken.toFinset, given, name :: rest, 0⟩ k (freeName taken name)) ∧
    (∀ names n, Kept taken.toFinset (run n (start taken.toFinset names))) ∧
    ∀ names, (freeNames taken names).Nodup ∧ (freeNames taken names).Disjoint taken ∧
      (∃ n ≤ names.length * (taken.toFinset.card + names.length), ∀ later,
        run n (start taken.toFinset (names ++ later)) =
          ⟨taken.toFinset ∪ (freeNames taken names).toFinset, freeNames taken names, later, 0⟩) ∧
      ∀ later, freeNames taken names <+: freeNames taken (names ++ later) := by
  refine ⟨fun name => ⟨nextFree_freeName taken name, freeName_not_mem taken name,
    settles_freeName taken name⟩, kept_run taken.toFinset, fun names => ?_⟩
  obtain ⟨n, hn, hrun⟩ := exists_run taken [] names
  have hkept := kept_run taken.toFinset (names ++ []) n
  rw [start, hrun []] at hkept
  refine ⟨hkept.nodup, fun word hword hin => hkept.fresh word hword (List.mem_toFinset.2 hin),
    ⟨n, hn, hrun⟩, fun later => ?_⟩
  rw [freeNames_append]
  exact List.prefix_append _ _

/-- A number may lead to a word that another name asks for later. -/
example : freeNames ["Rule1"] ["Tag", "Tag", "Rule", "Rule", "Tag1"] =
    ["Tag", "Tag1", "Rule", "Rule2", "Tag11"] := by decide

end ProviderGen.Java
