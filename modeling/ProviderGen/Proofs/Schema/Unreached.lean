import ProviderGen.Proofs.Schema.Objects

/-!
Definitions that are not reached. The walk asks for a definition only where it has been led to a
node that refers to it, and it asks by name. So neither the order of the definitions nor those
that no chain of references leads to have a part in what it finds, be it a graph or a defect.
-/

namespace ProviderGen.Schema

open Document (Members)

/-- The node refers to the definition of that name. -/
def Site.RefersTo (s : Site) (name : String) : Prop :=
  ∃ m, s.node = .record m ∧ shape m = .ok (.reference name)

/-- Some chain of references from the properties of the root comes to the name. -/
def Reached (schema : Members) (name : String) : Prop :=
  ∃ s, Visited schema s ∧ s.RefersTo name

/-- The second schema has the definitions that are reached in the first. -/
def KeepsReached (schema schema' : Members) : Prop :=
  ∀ name body, Reached schema name → (definitionsOf schema).lookup name = some body →
    (definitionsOf schema').lookup name = some body

/-- The schemas differ in nothing but the order of their definitions, and definitions that are
not reached. -/
structure SameReached (schema schema' : Members) : Prop where
  elsewhere : ∀ name, name ≠ "definitions" → schema'.lookup name = schema.lookup name
  kept : KeepsReached schema schema'
  added : KeepsReached schema' schema

inductive SameButUnreached : Document → Document → Prop where
  | same (d : Document) : SameButUnreached d d
  | records {schema schema' : Members} (h : SameReached schema schema') :
      SameButUnreached (.record schema) (.record schema')

variable {schema schema' definitions definitions' m : Members} {a b s : Site} {name : String}
  {k : Key} {g : Graph}

/-! ### The same definitions are reached -/

lemma refersTo_of_shape (h : shape m = .ok (.reference name)) :
    Site.RefersTo ⟨k, .record m⟩ name :=
  ⟨m, rfl, h⟩

/-- What a site leads to, it leads to wherever the definition is kept that it refers to. -/
lemma mem_leads_of_kept (h : ∀ name body, a.RefersTo name → definitions.lookup name = some body →
    definitions'.lookup name = some body) (hb : b ∈ leads definitions a) :
    b ∈ leads definitions' a := by
  obtain ⟨k, node⟩ := a
  cases node with
  | record m =>
    unfold leads at hb ⊢
    dsimp only at hb ⊢
    split at hb
    · rename_i r hr
      split at hb
      · rename_i name hn
        obtain ⟨body, hbody, rfl⟩ := List.mem_map.1 hb
        rw [Option.mem_toList] at hbody
        have hs : shape m = .ok (.reference name) := by simp only [shape, hr, hn, Except.map]
        simp [h name body (refersTo_of_shape hs) hbody]
      · exact hb
    · exact hb
    · exact hb
  | _ => exact hb

lemma propertySites_congr (h : schema'.lookup "properties" = schema.lookup "properties") :
    propertySites k schema' = propertySites k schema := by
  unfold propertySites
  rw [h]

/-- What is visited in one schema is visited in the other, if the definitions met on the way are
kept. -/
lemma Visited.of_kept (hp : schema'.lookup "properties" = schema.lookup "properties")
    (hk : ∀ name body, Reached schema name → Reached schema' name →
      (definitionsOf schema).lookup name = some body →
      (definitionsOf schema').lookup name = some body)
    (h : Visited schema s) : Visited schema' s := by
  obtain ⟨a, ha, has⟩ := h
  have ha' : a ∈ propertySites .root schema' := by rwa [propertySites_congr hp]
  refine ⟨a, ha', ?_⟩
  induction has with
  | refl => exact .refl
  | @tail c _ hac hb ih =>
    refine ih.tail (mem_leads_of_kept (fun name body hr => ?_) hb)
    exact hk name body ⟨c, ⟨a, ha, hac⟩, hr⟩ ⟨c, ⟨a, ha', ih⟩, hr⟩

lemma SameReached.properties (h : SameReached schema schema') :
    schema'.lookup "properties" = schema.lookup "properties" :=
  h.elsewhere "properties" (by decide)

/-- A name that is reached means the same in both schemas. -/
lemma SameReached.lookup_eq (h : SameReached schema schema') (hr : Reached schema name) :
    (definitionsOf schema').lookup name = (definitionsOf schema).lookup name := by
  obtain ⟨s, hs, hname⟩ := hr
  have hr' : Reached schema' name :=
    ⟨s, hs.of_kept h.properties fun name body hr _ => h.kept name body hr, hname⟩
  cases hd : (definitionsOf schema).lookup name with
  | some body => exact h.kept name body ⟨s, hs, hname⟩ hd
  | none =>
    cases hd' : (definitionsOf schema').lookup name with
    | none => rfl
    | some body =>
      rw [h.added name body hr' hd'] at hd
      cases hd

/-- It is enough to know which names the first schema reaches. -/
lemma SameReached.of_lookup
    (helse : ∀ name, name ≠ "definitions" → schema'.lookup name = schema.lookup name)
    (h : ∀ name, Reached schema name →
      (definitionsOf schema').lookup name = (definitionsOf schema).lookup name) :
    SameReached schema schema' := by
  refine ⟨helse, fun name body hr hd => (h name hr).trans hd, ?_⟩
  rintro name body ⟨s, hs, hname⟩ hd
  have hs' : Visited schema s := hs.of_kept (helse "properties" (by decide)).symm
    fun name body _ hr hd => (h name hr).symm.trans hd
  exact (h name ⟨s, hs', hname⟩).symm.trans hd

/-! ### The walks are the same -/

/-- Wherever the walk from a site gets, a name that it asks for means the same. -/
def AgreeFrom (definitions definitions' : Members) (a : Site) : Prop :=
  ∀ s, Reaches definitions a s → ∀ name, s.RefersTo name →
    definitions'.lookup name = definitions.lookup name

lemma AgreeFrom.lead (h : AgreeFrom definitions definitions' a) (hb : b ∈ leads definitions a) :
    AgreeFrom definitions definitions' b :=
  fun s hs => h s (hs.head hb)

lemma AgreeFrom.here (h : AgreeFrom definitions definitions' ⟨k, .record m⟩)
    (hs : shape m = .ok (.reference name)) :
    definitions'.lookup name = definitions.lookup name :=
  h _ .refl name (refersTo_of_shape hs)

/-- The three functions of the walk at once. -/
theorem walk_agrees (definitions definitions' : Members) :
    (∀ opening k node g, AgreeFrom definitions definitions' ⟨k, node⟩ →
      typeAt definitions' opening k node g = typeAt definitions opening k node g) ∧
    (∀ opening k m g, (∀ a ∈ propertySites k m, AgreeFrom definitions definitions' a) →
      hoist definitions' opening k m g = hoist definitions opening k m g) ∧
    (∀ opening path required ps g,
      (∀ a ∈ memberSites path ps, AgreeFrom definitions definitions' a) →
      propertiesAt definitions' opening path required ps g =
        propertiesAt definitions opening path required ps g) := by
  apply typeAt.mutual_induct definitions
  -- a record, by its shape
  · intro opening k g m fault hs h
    simp only [typeAt_record, hs]
  · intro opening k g m t hs h
    simp only [typeAt_record, hs]
  · intro opening k g m name hs hd h
    simp only [typeAt_record, hs, h.here hs, hd]
  · intro opening k g m name hs body hd hg h
    rw [Graph.contains_iff] at hg
    simp only [typeAt_record, hs, h.here hs, hd, if_pos hg]
  · intro opening k g m name hs body hd hg ho h
    rw [Graph.contains_iff] at hg
    simp only [typeAt_record, hs, h.here hs, hd, if_neg hg, if_pos ho]
  · intro opening k g m name hs body hd hg ho ih h
    rw [Graph.contains_iff] at hg
    simp only [typeAt_record, hs, h.here hs, hd, if_neg hg, if_neg ho]
    exact ih (h.lead (by simp [leads_reference hs hd]))
  · intro opening k g m unique hs h
    simp only [typeAt_record, hs]
  · intro opening k g m items unique hs ih h
    simp only [typeAt_record, hs, ih (h.lead (by simp [leads_items hs]))]
  · intro opening k g m hs ih h
    have hall : ∀ a ∈ propertySites k m, AgreeFrom definitions definitions' a :=
      fun a ha => h.lead (by rwa [leads_of_shape hs])
    simp only [typeAt_record, hs, ih hall]
  · intro opening k g m hs h
    simp only [typeAt_record, hs]
  · intro opening k g m pattern value hs ih h
    simp only [typeAt_record, hs, ih (h.lead (by simp [leads_pattern hs]))]
  -- a node that is no record
  · intro opening k node g hn h
    cases node with
    | record m => exact absurd rfl (hn m)
    | _ => simp only [typeAt]
  -- an object: found before, without properties, with some, with what are none
  · intro opening k m g hg h
    rw [Graph.contains_iff] at hg
    rw [hoist_eq, hoist_eq, if_pos hg, if_pos hg]
  · intro opening k m g hg hp h
    simp only [hoist_eq, hp]
  · intro opening k m g hg ps hp ih h
    rw [propertySites_of_lookup hp] at h
    simp only [hoist_eq, hp, ih h]
  · intro opening k m g hg d hd hp h
    rw [hoist_eq, hoist_eq, hp]
    cases d with
    | record ps => exact absurd rfl (hd ps)
    | _ => rfl
  -- its properties, one after the other
  · intro opening path required g h
    simp only [propertiesAt]
  · intro opening path required g name node r ihn ihr h
    obtain ⟨hnode, hrest⟩ := List.forall_mem_cons.1 h
    unfold propertiesAt
    rw [ihn hnode]
    refine bind_congr fun result => ?_
    obtain ⟨t, g'⟩ := result
    dsimp only
    rw [ihr g' hrest]

lemma requiredNames_congr (h : schema'.lookup "required" = schema.lookup "required") :
    requiredNames schema' = requiredNames schema := by
  unfold requiredNames
  rw [h]

lemma SameReached.ofDocument_eq (h : SameReached schema schema') :
    Graph.ofDocument (.record schema') = Graph.ofDocument (.record schema) := by
  have hagree : ∀ a ∈ propertySites .root schema,
      AgreeFrom (definitionsOf schema) (definitionsOf schema') a :=
    fun a ha s has name hname => h.lookup_eq ⟨s, ⟨a, ha, has⟩, hname⟩
  calc hoist (definitionsOf schema') [] .root schema' .empty
      = hoist (definitionsOf schema') [] .root schema .empty := by
        rw [hoist_eq, hoist_eq, h.properties, requiredNames_congr (h.elsewhere _ (by decide))]
    _ = hoist (definitionsOf schema) [] .root schema .empty :=
        (walk_agrees _ _).2.1 [] .root schema .empty hagree

/-- **Only definitions that are reached have a part in the graph of a schema.** Put in another
order, and with others added, taken away or changed, the definitions give the same graph, with its
objects in the same order, or the same defect. -/
theorem ofDocument_of_sameButUnreached {d d' : Document} (h : SameButUnreached d d') :
    Graph.ofDocument d = Graph.ofDocument d' := by
  cases h with
  | same => rfl
  | records h => exact h.ofDocument_eq.symm

/-! ### Shelves and items -/

def toShelf : Document := .record [("$ref", .text "#/definitions/Shelf")]

def toItem : Document := .record [("$ref", .text "#/definitions/Item")]

/-- A shelf has an item on it, and the item has its shelf. -/
def shelf : Document :=
  .record [("type", .text "object"), ("properties", .record [("holds", toItem)])]

def item : Document :=
  .record [("type", .text "object"), ("properties", .record [("on", toShelf)])]

/-- A schema with one property, which refers to a shelf. -/
def store (definitions : Members) : Members :=
  [("properties", .record [("front", toShelf)]), ("definitions", .record definitions)]

/-- The nodes that are visited in a store, whatever else it defines. -/
def storeNodes : List Document := [toShelf, shelf, toItem, item]

lemma storeNodes_closed (hshelf : definitions.lookup "Shelf" = some shelf)
    (hitem : definitions.lookup "Item" = some item) (ha : a.node ∈ storeNodes)
    (hb : b ∈ leads definitions a) : b.node ∈ storeNodes := by
  obtain ⟨k, node⟩ := a
  simp only [storeNodes, List.mem_cons, List.not_mem_nil, or_false] at ha ⊢
  rcases ha with rfl | rfl | rfl | rfl
  · rw [toShelf, leads_reference rfl hshelf, List.mem_singleton] at hb
    exact Or.inr (Or.inl (congrArg Site.node hb))
  · rw [shelf, leads_object _ k rfl rfl] at hb
    obtain rfl := List.mem_singleton.1 hb
    exact Or.inr (Or.inr (Or.inl rfl))
  · rw [toItem, leads_reference rfl hitem, List.mem_singleton] at hb
    exact Or.inr (Or.inr (Or.inr (congrArg Site.node hb)))
  · rw [item, leads_object _ k rfl rfl] at hb
    obtain rfl := List.mem_singleton.1 hb
    exact Or.inl rfl

lemma reached_store (hshelf : definitions.lookup "Shelf" = some shelf)
    (hitem : definitions.lookup "Item" = some item) (h : Reached (store definitions) name) :
    name = "Shelf" ∨ name = "Item" := by
  obtain ⟨s, ⟨a, ha, has⟩, m, hm, hname⟩ := h
  obtain rfl := List.mem_singleton.1 ha
  have hs : s.node ∈ storeNodes := by
    clear hm
    induction has with
    | refl => exact List.mem_cons_self
    | tail _ hb ih => exact storeNodes_closed hshelf hitem ih hb
  simp only [storeNodes, List.mem_cons, List.not_mem_nil, or_false, hm] at hs
  rcases hs with e | e | e | e
  all_goals
    obtain rfl := Document.record.inj e
    cases hname
  · exact Or.inl rfl
  · exact Or.inr rfl

/-- One store defines something that is no schema, the other has its definitions in another order
and something else among them. -/
theorem ofDocument_store :
    let first := store [("Shelf", shelf), ("Item", item), ("Spare", .null)]
    let second := store [("Item", item), ("Crate", toItem), ("Shelf", shelf)]
    SameButUnreached (.record first) (.record second) ∧
      Graph.ofDocument (.record first) = Graph.ofDocument (.record second) ∧
      ∃ g, Graph.ofDocument (.record first) = .ok g ∧
        g.keys = [.root, .definition "Shelf", .definition "Item"] := by
  intro first second
  have hsame : SameReached first second := by
    refine .of_lookup (fun name hname => ?_) fun name hr => ?_
    · have hne : (name == "definitions") = false := by simpa using hname
      simp [first, second, store, List.lookup_cons, hne]
    · rcases reached_store rfl rfl hr with rfl | rfl <;> rfl
  have hg : Graph.ofDocument (.record first) = .ok _ :=
    ofDocument_record.2 (Or.inr ⟨_, _, _, rfl, .cons (.enter rfl rfl (by decide) (by decide)
      (.hoist rfl (by decide) rfl (.cons (.enter rfl rfl (by decide) (by decide)
        (.hoist rfl (by decide) rfl (.cons (.known rfl rfl (by decide)) .nil))) .nil))) .nil,
      rfl⟩)
  exact ⟨.records hsame, ofDocument_of_sameButUnreached (.records hsame), _, hg, rfl⟩

end ProviderGen.Schema
