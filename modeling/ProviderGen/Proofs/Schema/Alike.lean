import ProviderGen.Proofs.Schema.Typing

/-!
Two walks at once. The second starts with more objects in its graph, and with any object it has
all those that the object leads to. Then the second finds the same types as the first, skips
nothing that is new to it, and stores what is new exactly as the first does.
-/

namespace ProviderGen.Schema

open Document (Members)

/-- Keys of objects of the schema, which with an object hold all the objects that it leads to. -/
structure Closed (schema : Members) (C : Key → Prop) : Prop where
  object : ∀ k, C k → ∃ s, Located schema s ∧ s.isObject = true ∧ s.key = k
  reached : ∀ s, Located schema s → s.isObject = true → C s.key → ∀ b,
    Reaches (definitionsOf schema) s b → b.isObject = true → C b.key

/-- The second graph has the keys of the first and those in `C`, and apart from these the two
hold the same objects. -/
structure Alike (C : Key → Prop) (g h : Graph) : Prop where
  keys : ∀ k, k ∈ h.keys ↔ k ∈ g.keys ∨ C k
  objects : ∀ o : Object, ¬ C o.key → (o ∈ h.objects ↔ o ∈ g.objects)

variable {schema m : Members} {opening : List String} {g g' h : Graph} {s : Site} {t : FlatType}
  {C : Key → Prop} {name : String} {body : Document} {k : Key}

lemma Alike.insert (ha : Alike C g h) (o : Object) : Alike C (g.insert o) (h.insert o) := by
  refine ⟨?_, ?_⟩
  · intro k
    rw [Graph.mem_keys_insert, Graph.mem_keys_insert, ha.keys, or_assoc]
  · intro p hp
    rw [Graph.mem_insert, Graph.mem_insert, ha.objects p hp]

lemma Alike.not_mem (ha : Alike C g h) (hg : k ∉ g.keys) (hk : ¬ C k) : k ∉ h.keys := by
  intro hin
  rcases (ha.keys k).1 hin with hin | hin
  · exact hg hin
  · exact hk hin

/-- What the first walk does below an object with a key in `C` is nothing new. -/
lemma Alike.absorb (hC : Closed schema C) (ha : Alike C g h)
    (hd : (Task.node s t).Done schema opening g g') (hl : Located schema s)
    (ho : s.isObject = true) (hk : C s.key) : Alike C g' h := by
  have old : ∀ o ∈ g'.objects, o ∈ g.objects ∨ C o.key := by
    intro o hin
    rcases hd.stored o hin with hin | ⟨a, hmem, b, hr, hb⟩
    · exact Or.inl hin
    · obtain rfl : a = s := by simpa [Task.sites] using hmem
      rw [← hb.key]
      exact Or.inr (hC.reached a hl ho hk b hr hb.isObject)
  refine ⟨?_, ?_⟩
  · intro k
    rw [ha.keys]
    refine ⟨?_, ?_⟩
    · rintro (hin | hin)
      · exact Or.inl (Graph.mem_keys_of_kept hd.kept hin)
      · exact Or.inr hin
    · rintro (hin | hin)
      · obtain ⟨o, ho, rfl⟩ := List.mem_map.1 hin
        rcases old o ho with ho | ho
        · exact Or.inl (List.mem_map.2 ⟨o, ho, rfl⟩)
        · exact Or.inr ho
      · exact Or.inr hin
  · intro o hn
    rw [ha.objects o hn]
    refine ⟨?_, ?_⟩
    · exact hd.kept o
    · intro hin
      rcases old o hin with hin | hin
      · exact hin
      · exact absurd hin hn

/-- A definition with a key in `C` is an object. -/
lemma Closed.isObject (hC : Closed schema C) (hd : (definitionsOf schema).lookup name = some body)
    (hk : C (.definition name)) : Site.isObject ⟨.definition name, body⟩ = true := by
  obtain ⟨s, hs, ho, e⟩ := hC.object _ hk
  rwa [(located_definition hd).eq hs e.symm]

/-- **The second walk goes on like the first.** -/
theorem Walks.alike (hsch : (Document.record schema).Distinct) (hC : Closed schema C) {task : Task}
    (hw : Walks (definitionsOf schema) opening g task g') (hf : task.Fits schema opening g)
    (ha : Alike C g h) :
    ∃ h', Walks (definitionsOf schema) opening h task h' ∧ Alike C g' h' := by
  induction hw generalizing h with
  | leaf hs => exact ⟨h, .leaf hs, ha⟩
  | absent hs hd => exact ⟨h, .absent hs hd, ha⟩
  | known hs hd hg => exact ⟨h, .known hs hd ((ha.keys _).2 (Or.inl hg)), ha⟩
  | @«open» _ g k _ name body hs hd hg ho =>
    have hobj := hf.not_isObject hs hd hg ho
    have hk : ¬ C (.definition name) := by
      intro hk
      rw [hC.isObject hd hk] at hobj
      cases hobj
    exact ⟨h, .open hs hd (ha.not_mem hg hk) ho, ha⟩
  | @enter opening g g' k _ name body t hs hd hg ho hw ih =>
    have hfit : (Task.node _ t).Fits schema (name :: opening) g :=
      .open hd (hf.pass hsch (passes_reference k hs hd))
    by_cases hk : C (.definition name)
    · -- the second walk has the definition already, and the first finds nothing new below it
      have hobj := hC.isObject hd hk
      have hdone := hw.done hsch hfit
      rw [hdone.types.of_isObject hobj]
      exact ⟨h, .known hs hd ((ha.keys _).2 (Or.inr hk)),
        ha.absorb hC hdone (located_definition hd) hobj hk⟩
    · obtain ⟨h', hw', ha'⟩ := ih hfit ha
      exact ⟨h', .enter hs hd (ha.not_mem hg hk) ho hw', ha'⟩
  | arrayOfAny hs => exact ⟨h, .arrayOfAny hs, ha⟩
  | @array _ _ _ k _ _ _ _ hs hw ih =>
    obtain ⟨h', hw', ha'⟩ := ih (hf.pass hsch (passes_items _ k hs)) ha
    exact ⟨h', .array hs hw', ha'⟩
  | mapOfAny hs => exact ⟨h, .mapOfAny hs, ha⟩
  | @map _ _ _ k _ _ _ _ hs hw ih =>
    obtain ⟨h', hw', ha'⟩ := ih (hf.pass hsch (passes_pattern _ k hs)) ha
    exact ⟨h', .map hs hw', ha'⟩
  | again hs hg => exact ⟨h, .again hs ((ha.keys _).2 (Or.inl hg)), ha⟩
  | @hoist opening g g' k m ps properties hs hg hp hw ih =>
    have hfit : (Task.members (k.child "properties") (requiredNames m) ps properties).Fits schema
      opening (g.insert ⟨k, []⟩) := hf.properties hsch hs hp
    have hobj : Site.isObject ⟨k, .record m⟩ = true := isObject_of_shape hs
    by_cases hk : C k
    · have hdone := Task.Done.hoist hf hs hg hp (hw.done hsch hfit)
      exact ⟨h, .again hs ((ha.keys _).2 (Or.inr hk)),
        ha.absorb hC hdone (hf.located _ (by simp [Task.sites])) hobj hk⟩
    · obtain ⟨h', hw', ha'⟩ := ih hfit (ha.insert ⟨k, []⟩)
      exact ⟨_, .hoist hs (ha.not_mem hg hk) hp hw', ha'.insert ⟨k, properties⟩⟩
  | nil => exact ⟨h, .nil, ha⟩
  | cons hn hr ihn ihr =>
    have hhead := hn.done hsch hf.head
    obtain ⟨h₁, hw₁, ha₁⟩ := ihn hf.head ha
    obtain ⟨h₂, hw₂, ha₂⟩ := ihr (hf.tail hhead.faithful hhead.kept) ha₁
    exact ⟨h₂, .cons hw₁ hw₂, ha₂⟩

end ProviderGen.Schema
