import ProviderGen.Schema.Graph
import Mathlib.Data.List.Nodup

/-!
The objects and keys of a graph after an insertion, and the object at a key.
-/

namespace ProviderGen.Schema.Graph

variable {g g' : Graph} {k : Key}

lemma mem_put {o p : Object} {os : List Object} (hn : (os.map Object.key).Nodup) :
    o ∈ put p os ↔ o = p ∨ (o ∈ os ∧ o.key ≠ p.key) := by
  induction os with
  | nil => simp [put]
  | cons q r ih =>
    rw [List.map_cons, List.nodup_cons] at hn
    unfold put
    split
    · rename_i hq
      have hr : ∀ o ∈ r, o.key ≠ p.key := by
        intro o ho e
        exact hn.1 (List.mem_map.2 ⟨o, ho, e.trans hq.symm⟩)
      refine ⟨?_, ?_⟩
      · intro h
        rcases List.mem_cons.1 h with rfl | h
        · exact Or.inl rfl
        · exact Or.inr ⟨List.mem_cons_of_mem _ h, hr o h⟩
      · rintro (rfl | ⟨h, hk⟩)
        · exact List.mem_cons_self
        · rcases List.mem_cons.1 h with rfl | h
          · exact absurd hq hk
          · exact List.mem_cons_of_mem _ h
    · rename_i hq
      rw [List.mem_cons, ih hn.2, List.mem_cons]
      refine ⟨?_, ?_⟩
      · rintro (rfl | rfl | ⟨h, hk⟩)
        · exact Or.inr ⟨Or.inl rfl, hq⟩
        · exact Or.inl rfl
        · exact Or.inr ⟨Or.inr h, hk⟩
      · rintro (rfl | ⟨rfl | h, hk⟩)
        · exact Or.inr (Or.inl rfl)
        · exact Or.inl rfl
        · exact Or.inr (Or.inr ⟨h, hk⟩)

lemma mem_insert {o p : Object} :
    o ∈ (g.insert p).objects ↔ o = p ∨ (o ∈ g.objects ∧ o.key ≠ p.key) :=
  mem_put g.distinct

lemma mem_keys_insert {p : Object} : k ∈ (g.insert p).keys ↔ k = p.key ∨ k ∈ g.keys := by
  rw [keys_insert]
  split
  · rename_i hp
    refine ⟨?_, ?_⟩
    · exact Or.inr
    · rintro (rfl | h)
      · exact hp
      · exact h
  · rw [List.mem_append, List.mem_singleton, or_comm]

lemma mem_keys_of_kept (h : ∀ o ∈ g.objects, o ∈ g'.objects) (hk : k ∈ g.keys) :
    k ∈ g'.keys := by
  obtain ⟨o, ho, rfl⟩ := List.mem_map.1 hk
  exact List.mem_map.2 ⟨o, h o ho, rfl⟩

/-- There is one object at a key. -/
lemma eq_of_key {o p : Object} (ho : o ∈ g.objects) (hp : p ∈ g.objects) (hk : o.key = p.key) :
    o = p :=
  List.inj_on_of_nodup_map g.distinct ho hp hk

end ProviderGen.Schema.Graph
