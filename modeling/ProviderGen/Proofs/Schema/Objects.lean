import ProviderGen.Proofs.Schema.Discovery
import ProviderGen.Proofs.Schema.Typing
import Mathlib.Data.List.Forall2

/-!
The graph of a schema, read off the schema. It holds the root and the objects that the
properties of the root lead to, each once, and the order is the one in which they are first
discovered; every object holds the properties that its own node declares.
-/

namespace ProviderGen.Schema

open Document (Members)

variable {schema m ps : Members} {g : Graph} {path : Key} {required : List String}
  {properties : List Property} {name : String}

/-- The sites that the properties of the root lead to. -/
def Visited (schema : Members) (s : Site) : Prop :=
  ∃ a ∈ propertySites .root schema, Reaches (definitionsOf schema) a s

/-- The objects of a schema: the root, and any other that is visited. -/
inductive Hoisted (schema : Members) : Site → Prop where
  | root : Hoisted schema ⟨.root, .record schema⟩
  | visited {s : Site} (hs : Visited schema s) (ho : s.isObject = true) : Hoisted schema s

/-- The name is one of the texts in the node's list of required names. -/
def Requires (m : Members) (name : String) : Prop :=
  ∃ names, m.lookup "required" = some (.list names) ∧ .text name ∈ names

lemma text?_eq_some {d : Document} : d.text? = some name ↔ d = .text name := by
  cases d <;> simp [Document.text?]

lemma contains_requiredNames : (requiredNames m).contains name = true ↔ Requires m name := by
  unfold requiredNames Requires
  split
  · rename_i names h
    rw [h, List.contains_iff_mem, List.mem_filterMap]
    refine ⟨?_, ?_⟩
    · rintro ⟨d, hd, ht⟩
      rw [text?_eq_some] at ht
      exact ⟨names, rfl, ht ▸ hd⟩
    · rintro ⟨names', e, hn⟩
      obtain rfl := Document.list.inj (Option.some.inj e)
      exact ⟨_, hn, rfl⟩
  · rename_i h
    refine ⟨?_, ?_⟩
    · intro hn
      simp at hn
    · rintro ⟨names, e, -⟩
      exact absurd e (h names)

/-- Declared properties are listed in the order of the members, with their names and flags. -/
lemma Declared.lists {definitions : Members} {opening : List String}
    (h : Declared definitions opening path (requiredNames m) ps properties) :
    List.Forall₂ (fun p q => p.name = q.1 ∧ (p.required = true ↔ Requires m q.1))
      properties ps := by
  refine List.Forall₂.imp ?_ h.flip
  rintro p q ⟨hn, hr, -⟩
  exact ⟨hn, by rw [hr, contains_requiredNames]⟩

/-! ### From the place of the root -/

lemma mem_reserved {o : Object} : o ∈ Graph.reserved.objects ↔ o = ⟨.root, []⟩ := by
  simp [Graph.reserved, Graph.mem_insert, Graph.empty]

/-- While nothing is open, the walk may go on to any members. -/
lemma fits_members (hf : g.Faithful schema) (hl : ∀ s ∈ memberSites path ps, Located schema s) :
    (Task.members path required ps properties).Fits schema [] g := by
  refine ⟨hf, hl, ?_, ?_⟩
  · intro s hs name hn
    simp at hn
  · intro name hn
    simp at hn

lemma fits_reserved (hl : ∀ s ∈ memberSites path ps, Located schema s) :
    (Task.members path required ps properties).Fits schema [] Graph.reserved := by
  refine fits_members ?_ hl
  intro k hk
  rw [Graph.keys_reserved, List.mem_singleton] at hk
  exact Or.inl hk

lemma met_reserved : Met schema [] Graph.reserved :=
  ⟨by simp, by simp⟩

/-- From the place of the root on, members are discovered in depth-first order. -/
lemma depthFirst_of_walks (hsch : (Document.record schema).Distinct)
    (hl : ∀ s ∈ memberSites path ps, Located schema s)
    (hw : Walks (definitionsOf schema) [] Graph.reserved
      (.members path required ps properties) g) :
    ∃ order, DepthFirst (leads (definitionsOf schema)) [] (memberSites path ps) order ∧
      g.keys = .root :: (order.filter Site.isObject).map Site.key ∧ ∀ s ∈ order, s.Sound := by
  have hready : (Task.members path required ps properties).Ready schema [] [] Graph.reserved :=
    ⟨by simp, by simp⟩
  obtain ⟨new, hnew⟩ := hw.discovered hsch [] met_reserved hl hready
  refine ⟨new, ?_, by simpa using hnew.keys, hnew.sound⟩
  simpa using hnew.order [] [] .done

/-- From the place of the root on, the objects that the members lead to join the graph. -/
lemma mem_keys_of_walks (hsch : (Document.record schema).Distinct)
    (hl : ∀ s ∈ memberSites path ps, Located schema s)
    (hw : Walks (definitionsOf schema) [] Graph.reserved
      (.members path required ps properties) g) {k : Key} :
    k ∈ g.keys ↔ k = .root ∨ ∃ a ∈ memberSites path ps, ∃ s,
      Reaches (definitionsOf schema) a s ∧ s.isObject = true ∧ s.key = k := by
  obtain ⟨order, ho, hk, -⟩ := depthFirst_of_walks hsch hl hw
  rw [hk, List.mem_cons, List.mem_map]
  refine ⟨?_, ?_⟩
  · rintro (hr | ⟨s, hs, rfl⟩)
    · exact Or.inl hr
    · rw [List.mem_filter] at hs
      obtain ⟨a, ha, has⟩ := ho.mem_iff.1 hs.1
      exact Or.inr ⟨a, ha, s, has, hs.2, rfl⟩
  · rintro (hr | ⟨a, ha, s, has, hobj, rfl⟩)
    · exact Or.inl hr
    · exact Or.inr ⟨s, List.mem_filter.2 ⟨ho.mem_iff.2 ⟨a, ha, has⟩, hobj⟩, rfl⟩

/-- From the place of the root on, objects are stored as their nodes declare them. -/
lemma stored_of_walks (hsch : (Document.record schema).Distinct)
    (hl : ∀ s ∈ memberSites path ps, Located schema s)
    (hw : Walks (definitionsOf schema) [] Graph.reserved
      (.members path required ps properties) g) {o : Object} (ho : o ∈ g.objects)
    (hk : o.key ≠ .root) :
    ∃ a ∈ memberSites path ps, ∃ s, Reaches (definitionsOf schema) a s ∧ Stored schema s o := by
  rcases (hw.done hsch (fits_reserved hl)).stored o ho with ho | hst
  · rw [mem_reserved.1 ho] at hk
    exact absurd rfl hk
  · exact hst

/-- The object of the root is inserted last. -/
lemma mem_insert_root {o : Object} (hk : o.key ≠ .root) :
    o ∈ (g.insert ⟨.root, properties⟩).objects ↔ o ∈ g.objects := by
  rw [Graph.mem_insert]
  refine ⟨?_, ?_⟩
  · rintro (rfl | ⟨ho, -⟩)
    · exact absurd rfl hk
    · exact ho
  · intro ho
    exact Or.inr ⟨ho, hk⟩

lemma located_root (hsch : (Document.record schema).Distinct)
    (hp : schema.lookup "properties" = some (.record ps)) :
    ∀ s ∈ memberSites rootPath ps, Located schema s := by
  intro s hs
  refine located_propertySites (k := .root) hsch rfl ?_
  rw [propertySites_of_lookup hp]
  exact hs

/-! ### The graph of a schema -/

/-- The keys of the graph, in their order. -/
lemma keys_of_document (hsch : (Document.record schema).Distinct)
    (hg : Graph.ofDocument (.record schema) = .ok g) :
    ∃ order, DepthFirst (leads (definitionsOf schema)) [] (propertySites .root schema) order ∧
      g.keys = .root :: (order.filter Site.isObject).map Site.key := by
  rcases ofDocument_record.1 hg with ⟨hp, rfl⟩ | ⟨ps, properties, g₁, hp, hw, rfl⟩
  · have hnil : propertySites .root schema = [] := by simp only [propertySites, hp]
    refine ⟨[], ?_, rfl⟩
    rw [hnil]
    exact .done
  · obtain ⟨order, ho, hk, -⟩ := depthFirst_of_walks hsch (located_root hsch hp) hw
    have hroot : Key.root ∈ g₁.keys := by simp [hk]
    refine ⟨order, ?_, ?_⟩
    · rw [propertySites_of_lookup hp]
      exact ho
    · rw [Graph.keys_insert, if_pos hroot, hk]

/-- An object of the graph that is not the root is stored as its node declares it. -/
lemma stored_of_document (hsch : (Document.record schema).Distinct) {o : Object}
    (hg : Graph.ofDocument (.record schema) = .ok g) (ho : o ∈ g.objects) (hk : o.key ≠ .root) :
    ∃ s, Visited schema s ∧ Stored schema s o := by
  rcases ofDocument_record.1 hg with ⟨hp, rfl⟩ | ⟨ps, properties, g₁, hp, hw, rfl⟩
  · rw [mem_reserved.1 ho] at hk
    exact absurd rfl hk
  · obtain ⟨a, ha, s, hs, hst⟩ :=
      stored_of_walks hsch (located_root hsch hp) hw ((mem_insert_root hk).1 ho) hk
    refine ⟨s, ⟨a, ?_, hs⟩, hst⟩
    rw [propertySites_of_lookup hp]
    exact ha

/-- The root holds the properties that the schema itself declares, if any. -/
lemma root_of_document (hsch : (Document.record schema).Distinct) {o : Object}
    (hg : Graph.ofDocument (.record schema) = .ok g) (ho : o ∈ g.objects) (hk : o.key = .root) :
    (schema.lookup "properties" = none ∧ o.properties = []) ∨
    ∃ ps, schema.lookup "properties" = some (.record ps) ∧
      Declared (definitionsOf schema) [] rootPath (requiredNames schema) ps o.properties := by
  rcases ofDocument_record.1 hg with ⟨hp, rfl⟩ | ⟨ps, properties, g₁, hp, hw, rfl⟩
  · obtain rfl := mem_reserved.1 ho
    exact Or.inl ⟨hp, rfl⟩
  · have hdone := hw.done hsch (fits_reserved (located_root hsch hp))
    rcases Graph.mem_insert.1 ho with rfl | ⟨-, hne⟩
    · exact Or.inr ⟨ps, hp, hdone.types⟩
    · exact absurd hk hne

/-- An object of the graph holds what its own node declares. -/
lemma node_of_object (hsch : (Document.record schema).Distinct) {o : Object}
    (hg : Graph.ofDocument (.record schema) = .ok g) (ho : o ∈ g.objects) :
    ∃ m, Hoisted schema ⟨o.key, .record m⟩ ∧
      (Document.record schema).follow? o.key.segments = some (.record m) ∧
      ((∃ ps, m.lookup "properties" = some (.record ps) ∧
          List.Forall₂ (fun p q => p.name = q.1 ∧ (p.required = true ↔ Requires m q.1))
            o.properties ps) ∨
        (o.key = .root ∧ m.lookup "properties" = none ∧ o.properties = [])) := by
  by_cases hk : o.key = .root
  · have hroot : (⟨o.key, .record schema⟩ : Site) = ⟨.root, .record schema⟩ := by rw [hk]
    refine ⟨schema, hroot ▸ .root, by rw [hk]; rfl, ?_⟩
    rcases root_of_document hsch hg ho hk with ⟨hp, hnil⟩ | ⟨ps, hp, hps⟩
    · exact Or.inr ⟨hk, hp, hnil⟩
    · exact Or.inl ⟨ps, hp, hps.lists⟩
  · obtain ⟨⟨k, node⟩, hs, hst⟩ := stored_of_document hsch hg ho hk
    obtain ⟨opening, m, ps, rfl, hp, -, hps⟩ := hst.declared
    obtain rfl : k = o.key := hst.key
    exact ⟨m, .visited hs hst.isObject, hst.located.2, Or.inl ⟨ps, hp, hps.lists⟩⟩

/-- **The graph is exactly the objects that can be reached**, the root first and the others in
depth-first order of first discovery, and each holds what its own node declares. -/
theorem objects_of_document {d : Document} (hd : d.Distinct) (hg : Graph.ofDocument d = .ok g) :
    ∃ schema, d = .record schema ∧
      (∃! order, DepthFirst (leads (definitionsOf schema)) [] (propertySites .root schema) order ∧
        g.keys = .root :: (order.filter Site.isObject).map Site.key) ∧
      (∀ k, k ∈ g.keys ↔ ∃ s, Hoisted schema s ∧ s.key = k) ∧
      g.keys.Nodup ∧
      ∀ o ∈ g.objects, ∃ m, Hoisted schema ⟨o.key, .record m⟩ ∧
        d.follow? o.key.segments = some (.record m) ∧
        ((∃ ps, m.lookup "properties" = some (.record ps) ∧
            List.Forall₂ (fun p q => p.name = q.1 ∧ (p.required = true ↔ Requires m q.1))
              o.properties ps) ∨
          (o.key = .root ∧ m.lookup "properties" = none ∧ o.properties = [])) := by
  cases d with
  | record schema =>
    refine ⟨schema, rfl, ?_, ?_, g.distinct, ?_⟩
    · obtain ⟨order, ho, hk⟩ := keys_of_document hd hg
      exact ⟨order, ⟨ho, hk⟩, fun order' h' => h'.1.unique ho⟩
    · intro k
      obtain ⟨order, ho, hk⟩ := keys_of_document hd hg
      rw [hk, List.mem_cons, List.mem_map]
      refine ⟨?_, ?_⟩
      · rintro (rfl | ⟨s, hs, rfl⟩)
        · exact ⟨_, .root, rfl⟩
        · rw [List.mem_filter] at hs
          exact ⟨s, .visited (ho.mem_iff.1 hs.1) hs.2, rfl⟩
      · rintro ⟨s, hs, rfl⟩
        cases hs with
        | root => exact Or.inl rfl
        | visited hs hobj => exact Or.inr ⟨s, List.mem_filter.2 ⟨ho.mem_iff.2 hs, hobj⟩, rfl⟩
    · exact fun o ho => node_of_object hd hg ho
  | _ => cases hg

/-- A tree: a node holds an array of further nodes. -/
def tree : Members :=
  [("properties", .record [("top", .record [("$ref", .text "#/definitions/Node")])]),
   ("definitions", .record [("Node", .record [("type", .text "object"),
     ("properties", .record [("children", .record [("type", .text "array"),
       ("items", .record [("$ref", .text "#/definitions/Node")])])])])])]

theorem objects_of_tree :
    (Document.record tree).Distinct ∧ ∃ g, Graph.ofDocument (.record tree) = .ok g ∧
      g.keys = [.root, .definition "Node"] ∧
      ∀ k, k ∈ g.keys ↔ ∃ s, Hoisted tree s ∧ s.key = k := by
  have hd : (Document.record tree).Distinct := by simp [tree]
  have hg : Graph.ofDocument (.record tree) = .ok _ :=
    ofDocument_record.2 (Or.inr ⟨_, _, _, rfl, .cons (.enter rfl rfl (by decide) (by decide)
      (.hoist rfl (by decide) rfl (.cons (.array rfl (.known rfl rfl (by decide))) .nil))) .nil,
      rfl⟩)
  obtain ⟨schema, e, -, hkeys, -⟩ := objects_of_document hd hg
  obtain rfl := Document.record.inj e
  exact ⟨hd, _, hg, rfl, hkeys⟩

end ProviderGen.Schema
