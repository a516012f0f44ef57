import ProviderGen.Proofs.Schema.Objects
import ProviderGen.Proofs.Schema.Translation

/-!
Where the references of a graph lead. A reference leads to an object of the graph, or to a
definition that the schema does not have and that some site on the walk refers to. No such site
is lost: the way on from a property to it may go through definitions that are open, but those
lead to objects, and a way that leads to an object does not end at a missing definition.
-/

namespace ProviderGen.Schema

open Document (Members)
open Relation (ReflTransGen TransGen)

variable {definitions schema m ps : Members} {opening : List String} {g : Graph}
  {a b o s : Site} {k : Key} {name : String} {t : FlatType}

/-- The site refers to a definition that is not there. -/
def Misses (definitions : Members) (s : Site) (name : String) : Prop :=
  ∃ m, s.node = .record m ∧ shape m = .ok (.reference name) ∧ definitions.lookup name = none

/-- The schema refers to a definition that it does not have. -/
def Missing (schema : Members) (name : String) : Prop :=
  ∃ s, Visited schema s ∧ Misses (definitionsOf schema) s name

/-! ### Types refer to what their sites lead to -/

lemma reference?_collection (unique : Bool) (t : FlatType) :
    (collection unique t).reference? = t.reference? := by
  cases unique <;> rfl

lemma reference?_of_leaf (h : shape m = .ok (.leaf t)) : t.reference? = none := by
  rcases shape_cases h with ⟨r, name, -, -, e⟩ | ⟨-, h⟩
  · cases e
  · unfold shapeOfType at h
    split at h <;> (try split at h) <;> (try split at h) <;> cases h <;> rfl

/-- What a site with a type leads to is an object at the key, or a site that misses it. -/
lemma Typed.leads_to (h : Typed definitions opening a t) (hk : t.reference? = some k) :
    ∃ s, Reaches definitions a s ∧ ((s.isObject = true ∧ s.key = k) ∨
      ∃ name, Misses definitions s name ∧ k = .definition name) := by
  have further {a b : Site} (hb : b ∈ leads definitions a)
      (h : ∃ s, Reaches definitions b s ∧ ((s.isObject = true ∧ s.key = k) ∨
        ∃ name, Misses definitions s name ∧ k = .definition name)) :
      ∃ s, Reaches definitions a s ∧ ((s.isObject = true ∧ s.key = k) ∨
        ∃ name, Misses definitions s name ∧ k = .definition name) := by
    obtain ⟨s, hs, h⟩ := h
    exact ⟨s, hs.head hb, h⟩
  induction h with
  | leaf h =>
    rw [reference?_of_leaf h] at hk
    cases hk
  | absent h hd =>
    obtain rfl := Option.some.inj hk
    exact ⟨_, .refl, Or.inr ⟨_, ⟨_, rfl, h, hd⟩, rfl⟩⟩
  | toObject h hd ho =>
    obtain rfl := Option.some.inj hk
    exact ⟨_, .single (passes_reference _ h hd).2, Or.inl ⟨ho, rfl⟩⟩
  | «open» => cases hk
  | enter h hd _ _ _ ih => exact further (passes_reference _ h hd).2 (ih hk)
  | arrayOfAny =>
    rw [reference?_collection] at hk
    cases hk
  | array h _ ih =>
    rw [reference?_collection] at hk
    exact further (passes_items _ _ h).2 (ih hk)
  | mapOfAny => cases hk
  | map h _ ih => exact further (passes_pattern _ _ h).2 (ih hk)
  | object h =>
    obtain rfl := Option.some.inj hk
    exact ⟨_, .refl, Or.inl ⟨isObject_of_shape h, rfl⟩⟩

/-! ### A missing definition is told by the type of a property -/

lemma Misses.not_isObject (h : Misses definitions s name) : s.isObject = false := by
  obtain ⟨k, node⟩ := s
  obtain ⟨m, rfl, hs, -⟩ := h
  exact isObject_of_shape hs

lemma Misses.leads_nil (h : Misses definitions s name) : leads definitions s = [] := by
  obtain ⟨k, node⟩ := s
  obtain ⟨m, rfl, hs, hd⟩ := h
  simp [leads_of_shape hs, Shape.sites, hd]

lemma exists_finds (h : Reaches definitions a o) (ho : o.isObject = true) :
    ∃ o', Finds definitions a o' := by
  induction h using ReflTransGen.head_induction_on with
  | refl => exact ⟨o, .refl, ho⟩
  | @head a b hab _ ih =>
    cases ha : a.isObject with
    | true => exact ⟨a, .refl, ha⟩
    | false =>
      obtain ⟨o', ho'⟩ := ih
      exact ⟨o', (Passes.finds_iff ⟨ha, hab⟩).2 ho'⟩

/-- What leads to an object has no way on to a missing definition. -/
lemma Misses.not_passes (h : Misses definitions s name) (hr : Reaches definitions a o)
    (ho : o.isObject = true) : ¬ ReflTransGen (Passes definitions) a s := by
  intro hs
  obtain ⟨o', ho'⟩ := exists_finds hr ho
  have hf : Finds definitions s o' := by
    rcases Relation.reflTransGen_iff_eq_or_transGen.1 hs with rfl | hs
    · exact ho'
    · exact (finds_iff_of_transGen hs).1 ho'
  exact not_finds_of_leads_nil h.not_isObject h.leads_nil hf

/-- A way that goes round does not end. -/
lemma Misses.not_round (h : Misses definitions s name)
    (hs : ReflTransGen (Passes definitions) a s) : ¬ TransGen (Passes definitions) a a := by
  intro hround
  induction hs using ReflTransGen.head_induction_on with
  | refl =>
    obtain ⟨b, hb, -⟩ := TransGen.head'_iff.1 hround
    have := hb.2
    simp [h.leads_nil] at this
  | @head a b hab _ ih =>
    obtain ⟨c, hac, hca⟩ := TransGen.head'_iff.1 hround
    obtain rfl := leads_unique hab.1 hab.2 hac.2
    exact ih (TransGen.tail' hca hab)

/-- No open definition has a way on to the site, unless through the present one. -/
def Ahead (definitions : Members) (opening : List String) (a s : Site) : Prop :=
  ∀ name ∈ opening, ∀ body, definitions.lookup name = some body →
    ReflTransGen (Passes definitions) ⟨.definition name, body⟩ s →
    ReflTransGen (Passes definitions) ⟨.definition name, body⟩ a

lemma Ahead.pass (h : Ahead definitions opening a s) (hab : Passes definitions a b) :
    Ahead definitions opening b s :=
  fun name hn body hd hs => (h name hn body hd hs).tail hab

lemma Ahead.open {body : Document} (hd : definitions.lookup name = some body)
    (h : Ahead definitions opening ⟨.definition name, body⟩ s) :
    Ahead definitions (name :: opening) ⟨.definition name, body⟩ s := by
  intro other hn body' hd' hs
  rcases List.mem_cons.1 hn with rfl | hn
  · obtain rfl := Option.some.inj (hd.symm.trans hd')
    exact .refl
  · exact h other hn body' hd' hs

/-- The one way on from `a` is through `b`. -/
lemma Misses.onward (h : Misses definitions s name) (hab : Passes definitions a b)
    (hs : ReflTransGen (Passes definitions) a s) : ReflTransGen (Passes definitions) b s := by
  rcases hs.cases_head with rfl | ⟨c, hac, hcs⟩
  · have := hab.2
    simp [h.leads_nil] at this
  · obtain rfl := leads_unique hab.1 hab.2 hac.2
    exact hcs

/-- Where there is no way on, the site itself misses the definition. -/
lemma Misses.of_stop (h : Misses definitions s name) {sh : Shape} (hm : shape m = .ok sh)
    (hl : leads definitions ⟨k, .record m⟩ = [])
    (hs : ReflTransGen (Passes definitions) ⟨k, .record m⟩ s) : sh = .reference name := by
  rcases hs.cases_head with rfl | ⟨c, hac, -⟩
  · obtain ⟨m', e, hs', -⟩ := h
    cases e
    rw [hm] at hs'
    exact Except.ok.inj hs'
  · have := hac.2
    simp [hl] at this

/-- The type of a site from which the way on ends at a missing definition tells it. -/
lemma Typed.tells (h : Typed definitions opening a t) (hm : Misses definitions s name)
    (hs : ReflTransGen (Passes definitions) a s) (ha : Ahead definitions opening a s) :
    t.reference? = some (.definition name) := by
  induction h with
  | leaf h =>
    cases hm.of_stop h (by simp [leads_of_shape h, Shape.sites]) hs
  | absent h hd =>
    cases hm.of_stop h (by simp [leads_of_shape h, Shape.sites, hd]) hs
    rfl
  | toObject h hd ho =>
    exact absurd (hm.onward (passes_reference _ h hd) hs) (hm.not_passes .refl ho)
  | @«open» _ k m other body h hd ho hn =>
    have hp := passes_reference k h hd
    have hback := ha other hn body hd (hm.onward hp hs)
    exact absurd (TransGen.head' hp hback) (hm.not_round hs)
  | @enter _ k m other body _ h hd _ _ _ ih =>
    have hp := passes_reference k h hd
    exact ih (hm.onward hp hs) (.open hd (ha.pass hp))
  | arrayOfAny h =>
    cases hm.of_stop h (by simp [leads_of_shape h, Shape.sites]) hs
  | @array _ k _ _ _ _ h _ ih =>
    rw [reference?_collection]
    have hp := passes_items definitions k h
    exact ih (hm.onward hp hs) (ha.pass hp)
  | mapOfAny h =>
    cases hm.of_stop h (by simp [leads_of_shape h, Shape.sites]) hs
  | @map _ k _ _ _ _ h _ ih =>
    have hp := passes_pattern definitions k h
    exact ih (hm.onward hp hs) (ha.pass hp)
  | object h =>
    exact absurd hs (hm.not_passes .refl (isObject_of_shape h))

/-- The last object on a way, and what it leads to. -/
lemma last_object (h : Reaches definitions a s) :
    ReflTransGen (Passes definitions) a s ∨ ∃ o b, Reaches definitions a o ∧
      o.isObject = true ∧ b ∈ leads definitions o ∧ ReflTransGen (Passes definitions) b s := by
  induction h with
  | refl => exact Or.inl .refl
  | @tail b c hab hbc ih =>
    cases hb : b.isObject with
    | true => exact Or.inr ⟨b, c, hab, hb, hbc, .refl⟩
    | false =>
      rcases ih with hp | ⟨o, d, hao, ho, hd, hp⟩
      · exact Or.inl (hp.tail ⟨hb, hbc⟩)
      · exact Or.inr ⟨o, d, hao, ho, hd, hp.tail ⟨hb, hbc⟩⟩

/-! ### The references of a graph -/

/-- A property of an object in the graph is typed at a site that the walk visits. -/
lemma typed_of_document (hsch : (Document.record schema).Distinct)
    (hg : Graph.ofDocument (.record schema) = .ok g) {o : Object} (ho : o ∈ g.objects)
    {p : Property} (hp : p ∈ o.properties) :
    ∃ opening s, Visited schema s ∧ Typed (definitionsOf schema) opening s p.type := by
  by_cases hk : o.key = .root
  · rcases root_of_document hsch hg ho hk with ⟨-, hnil⟩ | ⟨ps, hps, hdecl⟩
    · rw [hnil] at hp
      simp at hp
    · obtain ⟨q, hq, -, -, ht⟩ := exists_of_forall₂ hdecl hp
      refine ⟨[], _, ⟨_, ?_, .refl⟩, ht⟩
      rw [propertySites_of_lookup hps]
      exact List.mem_map.2 ⟨q, hq, rfl⟩
  · obtain ⟨⟨k, node⟩, ⟨a, ha, hs⟩, hst⟩ := stored_of_document hsch hg ho hk
    obtain ⟨opening, m, ps, rfl, hps, -, hdecl⟩ := hst.declared
    obtain ⟨q, hq, -, -, ht⟩ := exists_of_forall₂ hdecl hp
    refine ⟨opening, _, ⟨a, ha, hs.tail ?_⟩, ht⟩
    rw [hst.leads hps]
    exact List.mem_map.2 ⟨q, hq, rfl⟩

lemma visited_mem_keys (hsch : (Document.record schema).Distinct)
    (hg : Graph.ofDocument (.record schema) = .ok g) (hv : Visited schema s)
    (ho : s.isObject = true) : s.key ∈ g.keys := by
  obtain ⟨order, hdf, hk⟩ := keys_of_document hsch hg
  rw [hk]
  exact List.mem_cons_of_mem _ (List.mem_map.2 ⟨s, List.mem_filter.2 ⟨hdf.mem_iff.2 hv, ho⟩, rfl⟩)

/-- **A reference of the graph leads to an object of the graph or to a missing definition.** -/
theorem reference_leads (hsch : (Document.record schema).Distinct)
    (hg : Graph.ofDocument (.record schema) = .ok g) {o : Object} (ho : o ∈ g.objects)
    {p : Property} (hp : p ∈ o.properties) (hk : p.type.reference? = some k) :
    k ∈ g.keys ∨ ∃ name, Missing schema name ∧ k = .definition name := by
  obtain ⟨opening, a, ⟨b, hb, hba⟩, ht⟩ := typed_of_document hsch hg ho hp
  obtain ⟨s, has, h⟩ := ht.leads_to hk
  have hv : Visited schema s := ⟨b, hb, hba.trans has⟩
  rcases h with ⟨hobj, rfl⟩ | ⟨name, hm, rfl⟩
  · exact Or.inl (visited_mem_keys hsch hg hv hobj)
  · exact Or.inr ⟨name, ⟨s, hv, hm⟩, rfl⟩

/-- No object of the graph has the key of a missing definition. -/
lemma Missing.not_mem_keys (hsch : (Document.record schema).Distinct)
    (hg : Graph.ofDocument (.record schema) = .ok g) (h : Missing schema name) :
    .definition name ∉ g.keys := by
  intro hk
  obtain ⟨o, ho, hkey⟩ := List.mem_map.1 hk
  have hne : o.key ≠ .root := by simp [hkey, Key.definition, Key.root]
  obtain ⟨s, -, hst⟩ := stored_of_document hsch hg ho hne
  have hf := hst.located.2
  obtain ⟨_, _, _, _, _, hd⟩ := h
  rw [hst.key, hkey] at hf
  simp only [Key.definition, Document.follow?, Document.member?] at hf
  unfold definitionsOf at hd
  cases hl : schema.lookup "definitions" with
  | none => simp [hl] at hf
  | some ds =>
    rw [hl] at hf hd
    cases ds with
    | record ds => simp [hd] at hf
    | _ => simp at hf

/-- **A missing definition is told**: some property of the graph refers to it. -/
theorem Missing.told (hsch : (Document.record schema).Distinct)
    (hg : Graph.ofDocument (.record schema) = .ok g) (h : Missing schema name) :
    ∃ o ∈ g.objects, ∃ p ∈ o.properties, p.type.reference? = some (.definition name) := by
  obtain ⟨s, ⟨a, ha, has⟩, hm⟩ := h
  rcases last_object has with hp | ⟨o, b, hao, ho, hb, hp⟩
  · -- the way on starts at a property of the root
    obtain ⟨ro, hro, hkey⟩ : ∃ ro ∈ g.objects, ro.key = .root := by
      obtain ⟨order, -, hk⟩ := keys_of_document hsch hg
      exact List.mem_map.1 (show Key.root ∈ g.keys by rw [hk]; exact List.mem_cons_self)
    rcases root_of_document hsch hg hro hkey with ⟨hnone, -⟩ | ⟨ps, hps, hdecl⟩
    · simp [propertySites, hnone] at ha
    · rw [propertySites_of_lookup hps] at ha
      obtain ⟨q, hq, rfl⟩ := List.mem_map.1 ha
      obtain ⟨p, hp', -, -, ht⟩ := exists_of_forall₂ hdecl.flip hq
      exact ⟨ro, hro, p, hp', ht.tells hm hp fun _ hn => by simp at hn⟩
  · -- the way on starts at a property of the object `o`
    have hv : Visited schema o := ⟨a, ha, hao⟩
    obtain ⟨x, hx, hkey⟩ := List.mem_map.1 (visited_mem_keys hsch hg hv ho)
    have hloc : Located schema o := by
      have hroot := located_propertySites (k := .root) hsch rfl ha
      exact hroot.of_reaches hsch hao
    obtain ⟨⟨k, node⟩, -, hst⟩ := stored_of_document hsch hg hx (hkey ▸ hloc.1)
    obtain rfl := hst.located.eq hloc (hst.key.trans hkey)
    obtain ⟨opening, m, ps, rfl, hps, hopen, hdecl⟩ := hst.declared
    rw [hst.leads hps] at hb
    obtain ⟨q, hq, rfl⟩ := List.mem_map.1 hb
    obtain ⟨p, hp', -, -, ht⟩ := exists_of_forall₂ hdecl.flip hq
    refine ⟨x, hx, p, hp', ht.tells hm hp ?_⟩
    intro other hn body hd hs
    obtain ⟨body', hd', hr⟩ := hopen other hn
    obtain rfl := Option.some.inj (hd.symm.trans hd')
    exact absurd hs (hm.not_passes hr ho)

end ProviderGen.Schema
