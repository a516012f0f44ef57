import ProviderGen.Proofs.Schema.Visit

/-!
What the walk finds, without its state. The graph so far has no part in the type of a node: a
reference is cut short by the graph only if it names an object, and then the type is that object
anyway. What does have a part are the definitions that are open, so every object is stored with
the properties that its node declares, typed under the definitions that were open at that time.
-/

namespace ProviderGen.Schema

open Document (Members)

/-- The type of a site while some definitions are open. -/
inductive Typed (definitions : Members) : List String → Site → FlatType → Prop where
  | leaf {opening k m t} (h : shape m = .ok (.leaf t)) :
      Typed definitions opening ⟨k, .record m⟩ t
  | absent {opening k m name} (h : shape m = .ok (.reference name))
      (hd : definitions.lookup name = none) :
      Typed definitions opening ⟨k, .record m⟩ (.object (.definition name))
  | toObject {opening k m name body} (h : shape m = .ok (.reference name))
      (hd : definitions.lookup name = some body)
      (ho : Site.isObject ⟨.definition name, body⟩ = true) :
      Typed definitions opening ⟨k, .record m⟩ (.object (.definition name))
  | open {opening k m name body} (h : shape m = .ok (.reference name))
      (hd : definitions.lookup name = some body)
      (ho : Site.isObject ⟨.definition name, body⟩ = false) (hn : name ∈ opening) :
      Typed definitions opening ⟨k, .record m⟩ .any
  | enter {opening k m name body t} (h : shape m = .ok (.reference name))
      (hd : definitions.lookup name = some body)
      (ho : Site.isObject ⟨.definition name, body⟩ = false) (hn : name ∉ opening)
      (ht : Typed definitions (name :: opening) ⟨.definition name, body⟩ t) :
      Typed definitions opening ⟨k, .record m⟩ t
  | arrayOfAny {opening k m unique} (h : shape m = .ok (.array none unique)) :
      Typed definitions opening ⟨k, .record m⟩ (collection unique .any)
  | array {opening k m unique items t} (h : shape m = .ok (.array (some items) unique))
      (ht : Typed definitions opening ⟨k.child "items", items⟩ t) :
      Typed definitions opening ⟨k, .record m⟩ (collection unique t)
  | mapOfAny {opening k m} (h : shape m = .ok (.map none)) :
      Typed definitions opening ⟨k, .record m⟩ (.map .any)
  | map {opening k m pattern value t} (h : shape m = .ok (.map (some (pattern, value))))
      (ht : Typed definitions opening
        ⟨(k.child "patternProperties").child pattern, value⟩ t) :
      Typed definitions opening ⟨k, .record m⟩ (.map t)
  | object {opening k m} (h : shape m = .ok .object) :
      Typed definitions opening ⟨k, .record m⟩ (.object k)

/-- The members typed in their order, with their required flags. -/
def Declared (definitions : Members) (opening : List String) (path : Key)
    (required : List String) : Members → List Property → Prop :=
  List.Forall₂ fun m p => p.name = m.1 ∧ p.required = required.contains m.1 ∧
    Typed definitions opening ⟨path.child m.1, m.2⟩ p.type

/-- The open definitions lead to the site. -/
def Opened (definitions : Members) (opening : List String) (s : Site) : Prop :=
  ∀ name ∈ opening, ∃ body, definitions.lookup name = some body ∧
    Reaches definitions ⟨.definition name, body⟩ s

/-- The object at a site is stored as its node declares it, typed under definitions that were
open when the walk came to it. -/
structure Stored (schema : Members) (s : Site) (o : Object) : Prop where
  key : s.key = o.key
  located : Located schema s
  isObject : s.isObject = true
  declared : ∃ opening m ps, s.node = .record m ∧ m.lookup "properties" = some (.record ps) ∧
    Opened (definitionsOf schema) opening s ∧
    Declared (definitionsOf schema) opening (s.key.child "properties") (requiredNames m) ps
      o.properties

variable {definitions schema m : Members} {opening : List String} {g g' : Graph} {s : Site}
  {t t' : FlatType} {k : Key}

/-- The open definitions lead on where the site leads. -/
lemma Opened.lead {b : Site} (h : Opened definitions opening s) (hb : b ∈ leads definitions s) :
    Opened definitions opening b := by
  intro name hn
  obtain ⟨body, hd, hr⟩ := h name hn
  exact ⟨body, hd, hr.tail hb⟩

lemma Opened.cons {name : String} {body : Document} (hd : definitions.lookup name = some body)
    (h : Opened definitions opening ⟨.definition name, body⟩) :
    Opened definitions (name :: opening) ⟨.definition name, body⟩ := by
  intro other hn
  rcases List.mem_cons.1 hn with rfl | hn
  · exact ⟨body, hd, .refl⟩
  · exact h other hn

lemma shape_of_isObject (h : Site.isObject ⟨k, .record m⟩ = true) {sh : Shape}
    (hs : shape m = .ok sh) : sh = .object := by
  rw [isObject_of_shape hs] at h
  cases sh with
  | object => rfl
  | _ => cases h

lemma Typed.of_isObject (h : Typed definitions opening s t) (ho : s.isObject = true) :
    t = .object s.key := by
  cases h with
  | object => rfl
  | leaf h => cases shape_of_isObject ho h
  | absent h => cases shape_of_isObject ho h
  | toObject h => cases shape_of_isObject ho h
  | «open» h => cases shape_of_isObject ho h
  | enter h => cases shape_of_isObject ho h
  | arrayOfAny h => cases shape_of_isObject ho h
  | array h => cases shape_of_isObject ho h
  | mapOfAny h => cases shape_of_isObject ho h
  | map h => cases shape_of_isObject ho h

/-- A site has one type at most. -/
theorem Typed.unique (h : Typed definitions opening s t) (h' : Typed definitions opening s t') :
    t = t' := by
  induction h generalizing t' with
  | leaf h => cases h' <;> simp_all
  | absent h hd => cases h' <;> simp_all [-List.lookup_eq_none_iff]
  | toObject h hd ho => cases h' <;> simp_all
  | «open» h hd ho hn => cases h' <;> simp_all
  | enter h hd ho hn ht ih =>
    cases h' with
    | enter h' hd' _ _ ht' =>
      obtain rfl := Shape.reference.inj (Except.ok.inj (h.symm.trans h'))
      obtain rfl := Option.some.inj (hd.symm.trans hd')
      exact ih ht'
    | _ => simp_all
  | arrayOfAny h => cases h' <;> simp_all
  | array h ht ih =>
    cases h' with
    | array h' ht' =>
      obtain ⟨e, rfl⟩ := Shape.array.inj (Except.ok.inj (h.symm.trans h'))
      obtain rfl := Option.some.inj e
      rw [ih ht']
    | _ => simp_all
  | mapOfAny h => cases h' <;> simp_all
  | map h ht ih =>
    cases h' with
    | map h' ht' =>
      obtain ⟨rfl, rfl⟩ := Prod.mk.inj (Option.some.inj (Shape.map.inj
        (Except.ok.inj (h.symm.trans h'))))
      rw [ih ht']
    | _ => simp_all
  | object h => cases h' <;> simp_all

/-! ### What a part of the walk needs -/

/-- The sites at which a part of the walk begins. -/
def Task.sites : Task → List Site
  | .node s _ => [s]
  | .members path _ ps _ => memberSites path ps

/-- The objects in the graph, but for the root, are where the schema has them. -/
def Graph.Faithful (schema : Members) (g : Graph) : Prop :=
  ∀ k ∈ g.keys, k = .root ∨ ∃ s, Located schema s ∧ s.isObject = true ∧ s.key = k

/-- An open definition that is an object has its place in the graph, unless the walk has just
come to it. -/
def Task.Placed (definitions : Members) (opening : List String) (g : Graph) (task : Task) : Prop :=
  ∀ name ∈ opening, ∀ body, definitions.lookup name = some body →
    Site.isObject ⟨.definition name, body⟩ = true →
    .definition name ∈ g.keys ∨ ∃ t, task = .node ⟨.definition name, body⟩ t

structure Task.Fits (schema : Members) (opening : List String) (g : Graph) (task : Task) :
    Prop where
  faithful : g.Faithful schema
  located : ∀ s ∈ task.sites, Located schema s
  opened : ∀ s ∈ task.sites, Opened (definitionsOf schema) opening s
  placed : task.Placed (definitionsOf schema) opening g

/-- A definition in the graph is an object. -/
lemma Graph.Faithful.isObject {name : String} {body : Document} (h : g.Faithful schema)
    (hd : (definitionsOf schema).lookup name = some body) (hg : .definition name ∈ g.keys) :
    Site.isObject ⟨.definition name, body⟩ = true := by
  have hl := located_definition hd
  rcases h _ hg with hr | ⟨s, hs, ho, hk⟩
  · exact absurd hr hl.1
  · rwa [hl.eq hs hk.symm]

lemma Graph.Faithful.insert {o : Object} (h : g.Faithful schema) (hl : Located schema s)
    (ho : s.isObject = true) (hk : s.key = o.key) : (g.insert o).Faithful schema := by
  intro k hin
  rcases Graph.mem_keys_insert.1 hin with rfl | hin
  · exact Or.inr ⟨s, hl, ho, hk⟩
  · exact h k hin

/-- From a site that is no object the walk may go on where that site leads. -/
lemma Task.Fits.pass {b : Site} (hsch : (Document.record schema).Distinct)
    (h : (Task.node s t).Fits schema opening g) (hp : Passes (definitionsOf schema) s b) :
    (Task.node b t').Fits schema opening g := by
  have hloc : Located schema s := h.located s (by simp [Task.sites])
  have hopen : Opened (definitionsOf schema) opening s := h.opened s (by simp [Task.sites])
  refine ⟨h.faithful, ?_, ?_, ?_⟩
  · simpa [Task.sites] using hloc.of_leads hsch hp.2
  · simpa [Task.sites] using hopen.lead hp.2
  · intro name hn body hd ho
    rcases h.placed name hn body hd ho with hg | ⟨_, e⟩
    · exact Or.inl hg
    · cases e
      rw [hp.1] at ho
      cases ho

/-- The definition that the walk has come to may be opened. -/
lemma Task.Fits.open {name : String} {body : Document}
    (hd : (definitionsOf schema).lookup name = some body)
    (h : (Task.node ⟨.definition name, body⟩ t).Fits schema opening g) :
    (Task.node ⟨.definition name, body⟩ t).Fits schema (name :: opening) g := by
  refine ⟨h.faithful, h.located, ?_, ?_⟩
  · intro s hs
    have hopen := h.opened s hs
    obtain rfl : s = _ := by simpa [Task.sites] using hs
    exact hopen.cons hd
  · intro other hn body' hd' ho
    rcases List.mem_cons.1 hn with rfl | hn
    · obtain rfl := Option.some.inj (hd.symm.trans hd')
      exact Or.inr ⟨t, rfl⟩
    · exact h.placed other hn body' hd' ho

/-! ### Every part of the walk -/

/-- What the walk finds for a part is what there is to find without its state. -/
def Task.Types (definitions : Members) (opening : List String) : Task → Prop
  | .node s t => Typed definitions opening s t
  | .members path required ps properties => Declared definitions opening path required ps properties

structure Task.Done (schema : Members) (opening : List String) (g g' : Graph) (task : Task) :
    Prop where
  types : task.Types (definitionsOf schema) opening
  faithful : g'.Faithful schema
  kept : ∀ o ∈ g.objects, o ∈ g'.objects
  stored : ∀ o ∈ g'.objects, o ∈ g.objects ∨
    ∃ a ∈ task.sites, ∃ s, Reaches (definitionsOf schema) a s ∧ Stored schema s o

/-- Nothing joined the graph. -/
lemma Task.Fits.stay {task : Task} (h : task.Fits schema opening g)
    (ht : task.Types (definitionsOf schema) opening) : task.Done schema opening g g :=
  ⟨ht, h.faithful, fun _ ho => ho, fun _ ho => Or.inl ho⟩

lemma Task.Done.pass {b : Site} {opening' : List String}
    (h : (Task.node b t').Done schema opening' g g') (hp : Passes (definitionsOf schema) s b)
    (ht : Typed (definitionsOf schema) opening s t) :
    (Task.node s t).Done schema opening g g' := by
  refine ⟨ht, h.faithful, h.kept, fun o ho => ?_⟩
  rcases h.stored o ho with ho | ⟨a, ha, u, hr, hu⟩
  · exact Or.inl ho
  · obtain rfl : a = b := by simpa [Task.sites] using ha
    exact Or.inr ⟨s, by simp [Task.sites], u, hr.head hp.2, hu⟩

/-- With a place for the object, the walk may go on to its properties. -/
lemma Task.Fits.properties {ps : Members} {properties : List Property}
    (hsch : (Document.record schema).Distinct)
    (h : (Task.node ⟨k, .record m⟩ t).Fits schema opening g)
    (hs : shape m = .ok .object) (hp : m.lookup "properties" = some (.record ps)) :
    (Task.members (k.child "properties") (requiredNames m) ps properties).Fits schema opening
      (g.insert ⟨k, []⟩) := by
  have hloc : Located schema ⟨k, .record m⟩ := h.located _ (by simp [Task.sites])
  have hopen : Opened (definitionsOf schema) opening ⟨k, .record m⟩ :=
    h.opened _ (by simp [Task.sites])
  have hl := leads_object (definitionsOf schema) k hs hp
  refine ⟨h.faithful.insert hloc (isObject_of_shape hs) rfl, ?_, ?_, ?_⟩
  · intro s hs
    exact hloc.of_leads hsch (hl ▸ hs)
  · intro s hs
    exact hopen.lead (hl ▸ hs)
  · intro name hn body hd hb
    rcases h.placed name hn body hd hb with hg | ⟨_, e⟩
    · exact Or.inl (Graph.mem_keys_insert.2 (Or.inr hg))
    · cases e
      exact Or.inl (Graph.mem_keys_insert.2 (Or.inl rfl))

lemma Task.Fits.head {path : Key} {required : List String} {name : String} {node : Document}
    {ps : Members} {properties : List Property}
    (h : (Task.members path required ((name, node) :: ps) properties).Fits schema opening g) :
    (Task.node ⟨path.child name, node⟩ t).Fits schema opening g := by
  have hmem : ⟨path.child name, node⟩ ∈ memberSites path ((name, node) :: ps) :=
    List.mem_cons_self
  refine ⟨h.faithful, ?_, ?_, ?_⟩
  · simpa [Task.sites] using h.located _ hmem
  · simpa [Task.sites] using h.opened _ hmem
  · intro other hn body hd ho
    rcases h.placed other hn body hd ho with hg | ⟨_, e⟩
    · exact Or.inl hg
    · cases e

lemma Task.Fits.tail {path : Key} {required : List String} {member : String × Document}
    {ps : Members} {properties properties' : List Property}
    (h : (Task.members path required (member :: ps) properties).Fits schema opening g)
    (hf : g'.Faithful schema) (hkept : ∀ o ∈ g.objects, o ∈ g'.objects) :
    (Task.members path required ps properties').Fits schema opening g' := by
  refine ⟨hf, fun s hs => h.located s (List.mem_cons_of_mem _ hs),
    fun s hs => h.opened s (List.mem_cons_of_mem _ hs), ?_⟩
  intro name hn body hd ho
  rcases h.placed name hn body hd ho with hg | ⟨_, e⟩
  · exact Or.inl (Graph.mem_keys_of_kept hkept hg)
  · cases e

/-- An object whose properties have been found takes the place that was kept for it. -/
lemma Task.Done.hoist {ps : Members} {properties : List Property}
    (h : (Task.node ⟨k, .record m⟩ t).Fits schema opening g) (hs : shape m = .ok .object)
    (hg : k ∉ g.keys) (hp : m.lookup "properties" = some (.record ps))
    (ih : (Task.members (k.child "properties") (requiredNames m) ps properties).Done schema
      opening (g.insert ⟨k, []⟩) g') :
    (Task.node ⟨k, .record m⟩ (.object k)).Done schema opening g
      (g'.insert ⟨k, properties⟩) := by
  have ho : Site.isObject ⟨k, .record m⟩ = true := isObject_of_shape hs
  have hloc : Located schema ⟨k, .record m⟩ := h.located _ (by simp [Task.sites])
  have hopen : Opened (definitionsOf schema) opening ⟨k, .record m⟩ :=
    h.opened _ (by simp [Task.sites])
  refine ⟨.object hs, ih.faithful.insert hloc ho rfl, ?_, ?_⟩
  · intro o hin
    have hk : o.key ≠ k := fun e => hg (List.mem_map.2 ⟨o, hin, e⟩)
    exact Graph.mem_insert.2 (Or.inr ⟨ih.kept o (Graph.mem_insert.2 (Or.inr ⟨hin, hk⟩)), hk⟩)
  · intro o hin
    rcases Graph.mem_insert.1 hin with rfl | ⟨hin, hk⟩
    · exact Or.inr ⟨_, by simp [Task.sites], _, .refl, rfl, hloc, ho,
        opening, m, ps, rfl, hp, hopen, ih.types⟩
    · rcases ih.stored o hin with hin | ⟨a, ha, u, hr, hu⟩
      · -- the place that was kept has been taken
        rcases Graph.mem_insert.1 hin with rfl | ⟨hin, -⟩
        · exact absurd rfl hk
        · exact Or.inl hin
      · have hlead : a ∈ leads (definitionsOf schema) ⟨k, .record m⟩ := by
          rw [leads_object _ k hs hp]
          exact ha
        exact Or.inr ⟨⟨k, .record m⟩, by simp [Task.sites], u, hr.head hlead, hu⟩

/-- An open object would have its place in the graph. -/
lemma Task.Fits.not_isObject {name : String} {body : Document}
    (h : (Task.node ⟨k, .record m⟩ t).Fits schema opening g)
    (hs : shape m = .ok (.reference name)) (hd : (definitionsOf schema).lookup name = some body)
    (hg : .definition name ∉ g.keys) (hn : name ∈ opening) :
    Site.isObject ⟨.definition name, body⟩ = false := by
  cases ho : Site.isObject ⟨.definition name, body⟩ with
  | false => rfl
  | true =>
    rcases h.placed name hn body hd ho with hg' | ⟨_, e⟩
    · exact absurd hg' hg
    · cases e
      cases shape_of_isObject ho hs

/-- **The walk finds what its state has no part in**, whatever objects are in the graph. -/
theorem Walks.done (hsch : (Document.record schema).Distinct) {task : Task}
    (h : Walks (definitionsOf schema) opening g task g') (hf : task.Fits schema opening g) :
    task.Done schema opening g g' := by
  induction h with
  | leaf hs => exact hf.stay (.leaf hs)
  | absent hs hd => exact hf.stay (.absent hs hd)
  | known hs hd hg => exact hf.stay (.toObject hs hd (hf.faithful.isObject hd hg))
  | «open» hs hd hg ho => exact hf.stay (.open hs hd (hf.not_isObject hs hd hg ho) ho)
  | @enter _ _ _ k _ name body t hs hd hg ho hw ih =>
    have hp := passes_reference k hs hd
    have hdone := ih (.open hd (hf.pass hsch hp))
    refine hdone.pass hp ?_
    cases hobj : Site.isObject ⟨.definition name, body⟩ with
    | false => exact .enter hs hd hobj ho hdone.types
    | true =>
      rw [hdone.types.of_isObject hobj]
      exact .toObject hs hd hobj
  | arrayOfAny hs => exact hf.stay (.arrayOfAny hs)
  | @array _ _ _ k _ _ _ _ hs hw ih =>
    have hp := passes_items (definitionsOf schema) k hs
    have hdone := ih (hf.pass hsch hp)
    exact hdone.pass hp (.array hs hdone.types)
  | mapOfAny hs => exact hf.stay (.mapOfAny hs)
  | @map _ _ _ k _ _ _ _ hs hw ih =>
    have hp := passes_pattern (definitionsOf schema) k hs
    have hdone := ih (hf.pass hsch hp)
    exact hdone.pass hp (.map hs hdone.types)
  | again hs hg => exact hf.stay (.object hs)
  | hoist hs hg hp hw ih => exact .hoist hf hs hg hp (ih (hf.properties hsch hs hp))
  | nil => exact hf.stay .nil
  | @cons _ g g₁ g₂ path required name node ps t properties hn hr ihn ihr =>
    have hhead := ihn hf.head
    have htail := ihr (hf.tail hhead.faithful hhead.kept)
    refine ⟨.cons ⟨rfl, rfl, hhead.types⟩ htail.types, htail.faithful,
      fun o ho => htail.kept o (hhead.kept o ho), fun o ho => ?_⟩
    rcases htail.stored o ho with ho | ⟨a, ha, hu⟩
    · rcases hhead.stored o ho with ho | ⟨a, ha, hu⟩
      · exact Or.inl ho
      · obtain rfl : a = _ := by simpa [Task.sites] using ha
        exact Or.inr ⟨_, List.mem_cons_self, hu⟩
    · exact Or.inr ⟨a, List.mem_cons_of_mem _ ha, hu⟩

end ProviderGen.Schema
