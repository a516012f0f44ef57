import ProviderGen.Java.FreeName
import Mathlib.Data.List.Nodup
import Mathlib.Data.List.Perm.Subperm
import Mathlib.Data.List.Range

/-!
A free name is free. If the search gave up on a name that is taken, then it has met one taken
name more than there are, for numbered names differ. So the names of a series are all different,
and none of them was taken at the start.
-/

namespace ProviderGen.Java

variable {taken names : List String} {name : String} {n k : Nat}

lemma numbered_inj {i j : Nat} (h : numbered name i = numbered name j) : i = j := by
  rw [numbered, numbered, String.append_right_inj, Nat.toString_eq_ofList_toDigits,
    Nat.toString_eq_ofList_toDigits, String.ofList_inj] at h
  rw [← Nat.ofDigitChars_ten_toDigits (n := i), h, Nat.ofDigitChars_ten_toDigits]

/-- A name that the search gives up on is the last of a row of taken ones. -/
lemma firstFree_taken (h : firstFree taken name n k ∈ taken) :
    ∀ i ≤ n, numbered name (k + i) ∈ taken := by
  induction n generalizing k with
  | zero =>
    intro i hi
    obtain rfl : i = 0 := by omega
    exact h
  | succ n ih =>
    unfold firstFree at h
    split at h
    · rename_i hk
      intro i hi
      cases i with
      | zero => exact hk
      | succ i =>
        have := ih h i (by omega)
        rwa [show k + (i + 1) = k + 1 + i by omega]
    · rename_i hk
      exact absurd h hk

/-- There are not more taken names than there are. -/
lemma lt_length_of_taken (h : ∀ i ≤ n, numbered name (k + i) ∈ taken) : n < taken.length := by
  have hnodup : ((List.range (n + 1)).map fun i => numbered name (k + i)).Nodup := by
    refine List.Nodup.map ?_ List.nodup_range
    intro i j e
    have := numbered_inj e
    omega
  have hsub : ((List.range (n + 1)).map fun i => numbered name (k + i)) ⊆ taken := by
    intro x hx
    obtain ⟨i, hi, rfl⟩ := List.mem_map.1 hx
    rw [List.mem_range] at hi
    exact h i (by omega)
  have hlength := (hnodup.subperm hsub).length_le
  rw [List.length_map, List.length_range] at hlength
  omega

theorem freeName_not_mem (taken : List String) (name : String) : freeName taken name ∉ taken := by
  unfold freeName
  split
  · intro h
    have := lt_length_of_taken (firstFree_taken h)
    omega
  · assumption

/-- The names of a series are different, and none was taken before. -/
theorem freeNames_nodup (taken names : List String) :
    (freeNames taken names).Nodup ∧ ∀ x ∈ freeNames taken names, x ∉ taken := by
  induction names generalizing taken with
  | nil => exact ⟨List.nodup_nil, by simp [freeNames]⟩
  | cons name r ih =>
    obtain ⟨hr, hfree⟩ := ih (freeName taken name :: taken)
    rw [freeNames, List.nodup_cons, List.forall_mem_cons]
    refine ⟨⟨fun h => hfree _ h (by simp), hr⟩, freeName_not_mem taken name, fun x hx h => ?_⟩
    exact hfree x hx (List.mem_cons_of_mem _ h)

/-- The word that a name gets: itself if it is free, or else the smallest number behind it, from
one on, that makes it free. -/
inductive NextFree (taken : List String) (name : String) : String → Prop where
  | itself (h : name ∉ taken) : NextFree taken name name
  | number {k : Nat} (h : name ∈ taken) (hk : 1 ≤ k) (hfree : numbered name k ∉ taken)
      (hless : ∀ i, 1 ≤ i → i < k → numbered name i ∈ taken) :
      NextFree taken name (numbered name k)

/-- The search passes over numbers that give taken names only. -/
lemma firstFree_passes (taken : List String) (name : String) (n k : Nat) :
    ∃ j, k ≤ j ∧ firstFree taken name n k = numbered name j ∧
      ∀ i, k ≤ i → i < j → numbered name i ∈ taken := by
  induction n generalizing k with
  | zero => exact ⟨k, le_rfl, rfl, fun i hi hik => by omega⟩
  | succ n ih =>
    unfold firstFree
    split
    · rename_i hk
      obtain ⟨j, hj, heq, hless⟩ := ih (k + 1)
      refine ⟨j, by omega, heq, fun i hi hij => ?_⟩
      rcases hi.eq_or_lt with rfl | hi
      · exact hk
      · exact hless i hi hij
    · exact ⟨k, le_rfl, rfl, fun i hi hik => by omega⟩

theorem nextFree_freeName (taken : List String) (name : String) :
    NextFree taken name (freeName taken name) := by
  have hfree := freeName_not_mem taken name
  unfold freeName at hfree ⊢
  split
  · rename_i h
    obtain ⟨k, hk, heq, hless⟩ := firstFree_passes taken name taken.length 1
    rw [if_pos h, heq] at hfree
    rw [heq]
    exact .number h hk hfree hless
  · rename_i h
    exact .itself h

lemma NextFree.eq_or_number {word : String} (h : NextFree taken name word) :
    word = name ∨ ∃ k, 1 ≤ k ∧ word = numbered name k := by
  cases h with
  | itself => exact Or.inl rfl
  | number _ hk => exact Or.inr ⟨_, hk, rfl⟩

lemma NextFree.eq_of_free {word : String} (h : NextFree taken name word) (hn : name ∉ taken) :
    word = name := by
  cases h with
  | itself => rfl
  | number hin => exact absurd hin hn

lemma NextFree.congr {taken' : List String} {word : String} (h : NextFree taken name word)
    (ht : ∀ x, x ∈ taken' ↔ x ∈ taken) : NextFree taken' name word := by
  cases h with
  | itself hn => exact .itself fun hin => hn ((ht _).1 hin)
  | number hn hk hfree hless =>
    exact .number ((ht _).2 hn) hk (fun hin => hfree ((ht _).1 hin))
      fun i hi hik => (ht _).2 (hless i hi hik)

/-- A series goes on with everything taken that it has given so far. -/
lemma freeNames_append (taken before after : List String) :
    freeNames taken (before ++ after) = freeNames taken before ++
      freeNames ((freeNames taken before).reverse ++ taken) after := by
  induction before generalizing taken with
  | nil => rfl
  | cons name r ih => simp [freeNames, ih]

end ProviderGen.Java
