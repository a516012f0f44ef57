import ProviderGen.Proofs.Schema.Alike
import ProviderGen.Proofs.Schema.Translation
import Mathlib.Data.List.Induction
import Mathlib.Data.List.Perm.Basic

/-!
The order in which the root declares its properties. It has no part in whether there is a graph,
in the keys of the graph, in the properties of the root, or in the names and required flags of
any other object. It may have a part in the types of the other objects, for the definitions that
are open when an object is met are those on the way from the first property that leads to it.
Every order gives the same types just if any two properties of the root, each taken alone, agree
on the objects that both lead to.
-/

namespace ProviderGen.Schema

open Document (Members)

/-- The schema with other properties at its root. -/
def withProperties (qs schema : Members) : Members := schema.put "properties" (.record qs)

/-- The walk from the place of the root through some properties. -/
def RootWalk (schema qs : Members) (properties : List Property) (g : Graph) : Prop :=
  Walks (definitionsOf schema) [] Graph.reserved
    (.members rootPath (requiredNames schema) qs properties) g

variable {schema qs : Members} {g : Graph} {properties : List Property}

lemma lookup_withProperties (name : String) :
    (withProperties qs schema).lookup name =
      if name = "properties" then some (.record qs) else schema.lookup name := by
  unfold withProperties
  induction schema with
  | nil =>
    by_cases h : name = "properties"
    · simp [Document.Members.put, h]
    · simp [Document.Members.put, h, List.lookup_cons, beq_false_of_ne h]
  | cons m r ih =>
    obtain ⟨n, v⟩ := m
    unfold Document.Members.put
    by_cases hn : n = "properties"
    · subst hn
      by_cases h : name = "properties"
      · simp [h]
      · simp [h, List.lookup_cons, beq_false_of_ne h]
    · rw [if_neg hn, List.lookup_cons, List.lookup_cons, ih]
      by_cases h : name = n
      · subst h
        simp [hn]
      · simp [beq_false_of_ne h]

lemma definitionsOf_withProperties :
    definitionsOf (withProperties qs schema) = definitionsOf schema := by
  simp only [definitionsOf, lookup_withProperties]
  rfl

lemma requiredNames_withProperties :
    requiredNames (withProperties qs schema) = requiredNames schema := by
  simp only [requiredNames, lookup_withProperties]
  rfl

lemma ofDocument_withProperties :
    Graph.ofDocument (.record (withProperties qs schema)) = .ok g ↔
      ∃ properties g₁, RootWalk schema qs properties g₁ ∧ g = g₁.insert ⟨.root, properties⟩ := by
  rw [ofDocument_record, lookup_withProperties, if_pos rfl, definitionsOf_withProperties,
    requiredNames_withProperties]
  refine ⟨?_, ?_⟩
  · rintro (⟨h, -⟩ | ⟨ps, properties, g₁, e, hw, rfl⟩)
    · cases h
    · obtain rfl := Document.record.inj (Option.some.inj e)
      exact ⟨properties, g₁, hw, rfl⟩
  · rintro ⟨properties, g₁, hw, rfl⟩
    exact Or.inr ⟨qs, properties, g₁, rfl, hw, rfl⟩

/-- Where no fault can be met, there is a walk. -/
lemma exists_rootWalk
    (hs : ∀ a ∈ memberSites rootPath qs, ∀ b, Reaches (definitionsOf schema) a b → b.Sound) :
    ∃ properties g, RootWalk schema qs properties g := by
  have hr := (walk_result (definitionsOf schema)).2.2 [] rootPath (requiredNames schema) qs
    Graph.reserved
  cases hp : propertiesAt (definitionsOf schema) [] rootPath (requiredNames schema) qs
      Graph.reserved with
  | error e =>
    rw [hp] at hr
    obtain ⟨a, ha, b, hb, hns, -⟩ := hr
    exact absurd (hs a ha b hb) hns
  | ok r => exact ⟨r.1, r.2, walks_members hp⟩

namespace RootWalk

/-- A walk meets no fault. -/
lemma sound (hsch : (Document.record schema).Distinct)
    (hl : ∀ s ∈ memberSites rootPath qs, Located schema s) (h : RootWalk schema qs properties g) :
    ∀ a ∈ memberSites rootPath qs, ∀ b, Reaches (definitionsOf schema) a b → b.Sound := by
  obtain ⟨order, ho, -, hs⟩ := depthFirst_of_walks hsch hl h
  exact fun a ha b hb => hs b (ho.mem_iff.2 ⟨a, ha, hb⟩)

lemma done (hsch : (Document.record schema).Distinct)
    (hl : ∀ s ∈ memberSites rootPath qs, Located schema s) (h : RootWalk schema qs properties g) :
    (Task.members rootPath (requiredNames schema) qs properties).Done schema []
      Graph.reserved g :=
  Walks.done hsch h (fits_reserved hl)

/-- Apart from the root, the graph holds what it leads to. -/
lemma closed (hsch : (Document.record schema).Distinct)
    (hl : ∀ s ∈ memberSites rootPath qs, Located schema s) (h : RootWalk schema qs properties g) :
    Closed schema fun k => k ∈ g.keys ∧ k ≠ .root := by
  have hk := fun k => mem_keys_of_walks hsch hl h (k := k)
  refine ⟨?_, ?_⟩
  · rintro k ⟨hin, hne⟩
    rcases (hk k).1 hin with hr | ⟨a, ha, s, has, ho, e⟩
    · exact absurd hr hne
    · exact ⟨s, (hl a ha).of_reaches hsch has, ho, e⟩
  · rintro s hs ho ⟨hin, hne⟩ b hb hbo
    rcases (hk _).1 hin with hr | ⟨a, ha, s', has, ho', e⟩
    · exact absurd hr hne
    · obtain rfl := ((hl a ha).of_reaches hsch has).eq hs e
      exact ⟨(hk _).2 (Or.inr ⟨a, ha, b, has.trans hb, hbo, rfl⟩), (hs.of_reaches hsch hb).1⟩

/-- Apart from the objects found so far, the graph is as at the beginning. -/
lemma alike_reserved (hsch : (Document.record schema).Distinct)
    (hl : ∀ s ∈ memberSites rootPath qs, Located schema s) (h : RootWalk schema qs properties g) :
    Alike (fun k => k ∈ g.keys ∧ k ≠ .root) Graph.reserved g := by
  have hd := h.done hsch hl
  refine ⟨?_, ?_⟩
  · intro k
    rw [Graph.keys_reserved, List.mem_singleton]
    refine ⟨?_, ?_⟩
    · intro hin
      by_cases hr : k = .root
      · exact Or.inl hr
      · exact Or.inr ⟨hin, hr⟩
    · rintro (rfl | ⟨hin, -⟩)
      · exact Graph.mem_keys_of_kept hd.kept (by simp)
      · exact hin
  · intro o hn
    refine ⟨?_, ?_⟩
    · intro hin
      by_cases hr : o.key = .root
      · -- the place of the root is still there, and it has one object
        have hroot := hd.kept _ (mem_reserved.2 rfl)
        rw [Graph.eq_of_key hin hroot hr]
        exact mem_reserved.2 rfl
      · exact absurd ⟨List.mem_map.2 ⟨o, hin, rfl⟩, hr⟩ hn
    · exact hd.kept o

end RootWalk

/-! ### One property at a time -/

lemma walks_append {definitions : Members} {opening : List String} {path : Key}
    {required : List String} {as bs : Members} {g' : Graph}
    (h : Walks definitions opening g (.members path required (as ++ bs) properties) g') :
    ∃ xs ys g₁, Walks definitions opening g (.members path required as xs) g₁ ∧
      Walks definitions opening g₁ (.members path required bs ys) g' := by
  induction as generalizing g properties with
  | nil => exact ⟨[], properties, g, .nil, h⟩
  | cons m r ih =>
    cases h with
    | cons hn hr =>
      obtain ⟨xs, ys, g₁, h₁, h₂⟩ := ih hr
      exact ⟨_, ys, g₁, .cons hn h₁, h₂⟩

namespace RootWalk

/-- What the first property finds alone, it finds before all others. -/
lemma first {p : String × Document} {alone : List Property} {gp : Graph}
    (hsch : (Document.record schema).Distinct)
    (hl : ∀ s ∈ memberSites rootPath (p :: qs), Located schema s)
    (h : RootWalk schema (p :: qs) properties g) (hp : RootWalk schema [p] alone gp) :
    ∀ o ∈ gp.objects, o ∈ g.objects := by
  have hf : (Task.members rootPath (requiredNames schema) (p :: qs) properties).Fits schema []
    Graph.reserved := fits_reserved hl
  cases h with
  | cons hn hr =>
    cases hp with
    | cons hn' hr' =>
      cases hr'
      obtain ⟨-, rfl⟩ := hn.unique hn'
      have hdone := hn.done hsch hf.head
      exact (hr.done hsch (hf.tail hdone.faithful hdone.kept)).kept

/-- **Every object but the root is stored as some property finds it alone.** -/
theorem alone (hsch : (Document.record schema).Distinct)
    (hl : ∀ s ∈ memberSites rootPath qs, Located schema s) (h : RootWalk schema qs properties g)
    {o : Object} (ho : o ∈ g.objects) (hk : o.key ≠ .root) :
    ∃ q ∈ qs, ∃ alone gq, RootWalk schema [q] alone gq ∧ o ∈ gq.objects := by
  induction qs using List.reverseRecOn generalizing properties g with
  | nil =>
    cases h
    rw [mem_reserved.1 ho] at hk
    exact absurd rfl hk
  | append_singleton qs q ih =>
    have hsites : memberSites rootPath (qs ++ [q]) =
        memberSites rootPath qs ++ memberSites rootPath [q] := List.map_append ..
    rw [hsites] at hl
    have hl₁ := fun s hs => hl s (List.mem_append_left _ hs)
    have hlq := fun s hs => hl s (List.mem_append_right _ hs)
    obtain ⟨xs, ys, g₁, h₁, h₂⟩ := walks_append h
    have hd₁ := done hsch hl₁ h₁
    -- the last property alone, and then after the others
    have hsound : ∀ a ∈ memberSites rootPath [q], ∀ b, Reaches (definitionsOf schema) a b →
        b.Sound := by
      intro a ha
      refine h.sound hsch (hsites ▸ hl) a ?_
      rw [hsites]
      exact List.mem_append_right _ ha
    obtain ⟨alone, gq, hq⟩ := exists_rootWalk hsound
    obtain ⟨g₂, hw, ha⟩ := Walks.alike hsch (closed hsch hl₁ h₁) hq (fits_reserved hlq)
      (alike_reserved hsch hl₁ h₁)
    obtain ⟨-, rfl⟩ := hw.unique_members h₂
    by_cases hold : o.key ∈ g₁.keys
    · obtain ⟨p, hp, e⟩ := List.mem_map.1 hold
      have hkept := (h₂.done hsch (fits_members hd₁.faithful hlq)).kept
      obtain rfl := Graph.eq_of_key (hkept p hp) ho e
      obtain ⟨q', hq', rest⟩ := ih hl₁ h₁ hp
      exact ⟨q', List.mem_append_left _ hq', rest⟩
    · have hnew : ¬ (o.key ∈ g₁.keys ∧ o.key ≠ .root) := fun h => hold h.1
      exact ⟨q, by simp, alone, gq, hq, (ha.objects o hnew).1 ho⟩

end RootWalk

/-! ### Every order -/

/-- Alone, any two properties store the objects that both lead to alike. -/
def Agreeing (schema ps : Members) : Prop :=
  ∀ p ∈ ps, ∀ q ∈ ps, ∀ gp gq,
    Graph.ofDocument (.record (withProperties [p] schema)) = .ok gp →
    Graph.ofDocument (.record (withProperties [q] schema)) = .ok gq →
    ∀ o ∈ gp.objects, ∀ o' ∈ gq.objects, o.key = o'.key → o.key ≠ .root → o = o'

/-- The names and required flags of an object's properties. -/
def Object.outline (o : Object) : List (String × Bool) :=
  o.properties.map fun p => (p.name, p.required)

lemma Declared.outline {definitions ps : Members} {opening : List String} {path : Key}
    {required : List String} (h : Declared definitions opening path required ps properties) :
    (properties.map fun p => (p.name, p.required)) =
      ps.map fun m => (m.1, required.contains m.1) := by
  induction h with
  | nil => rfl
  | cons hp _ ih =>
    obtain ⟨hn, hr, -⟩ := hp
    rw [List.map_cons, List.map_cons, ih, hn, hr]

/-- The node of an object fixes its names and required flags. -/
lemma Stored.outline {s : Site} {o o' : Object} (h : Stored schema s o) (h' : Stored schema s o') :
    o.outline = o'.outline := by
  obtain ⟨opening, m, ps, hm, hps, -, hd⟩ := h.declared
  obtain ⟨opening', m', ps', hm', hps', -, hd'⟩ := h'.declared
  obtain rfl := Document.record.inj (hm.symm.trans hm')
  obtain rfl := Document.record.inj (Option.some.inj (hps.symm.trans hps'))
  exact hd.outline.trans hd'.outline.symm

/-- The properties that permuted members declare are permuted. -/
lemma Declared.perm {definitions ps : Members} {opening : List String} {path : Key}
    {required : List String} {properties' : List Property}
    (h : Declared definitions opening path required ps properties)
    (h' : Declared definitions opening path required qs properties') (hp : qs.Perm ps) :
    properties'.Perm properties := by
  refine List.rel_perm_imp ?_ h' h hp
  rintro m ⟨n, t, r⟩ ⟨n', t', r'⟩ ⟨hn, hr, ht⟩ ⟨hn', hr', ht'⟩
  rw [Property.mk.injEq]
  exact ⟨hn.trans hn'.symm, ht.unique ht', hr.trans hr'.symm⟩

lemma located_of_subset {ps : Members} (hsch : (Document.record schema).Distinct)
    (hp : schema.lookup "properties" = some (.record ps)) (hq : ∀ q ∈ qs, q ∈ ps) :
    ∀ s ∈ memberSites rootPath qs, Located schema s := by
  intro s hs
  obtain ⟨q, hin, rfl⟩ := List.mem_map.1 hs
  exact located_root hsch hp _ (List.mem_map.2 ⟨q, hq q hin, rfl⟩)

/-- Any choice from the properties of the root can be walked alone. -/
lemma exists_walk_of_subset {ps : Members} (hsch : (Document.record schema).Distinct)
    (hp : schema.lookup "properties" = some (.record ps)) (hg : RootWalk schema ps properties g)
    (hq : ∀ q ∈ qs, q ∈ ps) : ∃ properties g, RootWalk schema qs properties g := by
  refine exists_rootWalk fun a ha => ?_
  obtain ⟨q, hin, rfl⟩ := List.mem_map.1 ha
  exact hg.sound hsch (located_root hsch hp) _ (List.mem_map.2 ⟨q, hq q hin, rfl⟩)

/-- The keys do not depend on the order. -/
lemma RootWalk.keys_iff {ps : Members} {properties' : List Property} {g' : Graph}
    (hsch : (Document.record schema).Distinct)
    (hl : ∀ s ∈ memberSites rootPath ps, Located schema s) (h : RootWalk schema ps properties g)
    (h' : RootWalk schema qs properties' g') (hq : qs.Perm ps) {k : Key} :
    k ∈ g'.keys ↔ k ∈ g.keys := by
  have hsites : ∀ a, a ∈ memberSites rootPath qs ↔ a ∈ memberSites rootPath ps :=
    fun a => (hq.map _).mem_iff
  rw [mem_keys_of_walks hsch (fun s hs => hl s ((hsites s).1 hs)) h', mem_keys_of_walks hsch hl h]
  simp only [hsites]

/-- Where properties agree, what is stored in one order is stored in any other. -/
lemma Agreeing.stored {ps qs' : Members} {properties' : List Property} {g' : Graph}
    (hsch : (Document.record schema).Distinct)
    (hp : schema.lookup "properties" = some (.record ps)) (ha : Agreeing schema ps)
    (hq : qs.Perm ps) (hq' : qs'.Perm ps) (h : RootWalk schema qs properties g)
    (h' : RootWalk schema qs' properties' g') {o : Object} (ho : o ∈ g.objects)
    (hk : o.key ≠ .root) : o ∈ g'.objects := by
  have hl := located_of_subset hsch hp fun q => hq.mem_iff.1
  have hl' := located_of_subset hsch hp fun q => hq'.mem_iff.1
  have hin : o.key ∈ g'.keys :=
    (h.keys_iff hsch hl h' (hq'.trans hq.symm)).2 (List.mem_map.2 ⟨o, ho, rfl⟩)
  obtain ⟨o', ho', e⟩ := List.mem_map.1 hin
  obtain ⟨p, hpin, ap, gp, hwp, hop⟩ := h.alone hsch hl ho hk
  obtain ⟨q, hqin, aq, gq, hwq, hoq⟩ := h'.alone hsch hl' ho' (e ▸ hk)
  obtain rfl := ha p (hq.mem_iff.1 hpin) q (hq'.mem_iff.1 hqin) _ _
    (ofDocument_withProperties.2 ⟨ap, gp, hwp, rfl⟩)
    (ofDocument_withProperties.2 ⟨aq, gq, hwq, rfl⟩)
    o ((mem_insert_root hk).2 hop) o' ((mem_insert_root (e ▸ hk)).2 hoq) e.symm hk
  exact ho'

/-- Where every order stores the same objects, any two properties agree: each may come first. -/
lemma agreeing_of_orders {ps : Members} (hsch : (Document.record schema).Distinct)
    (hp : schema.lookup "properties" = some (.record ps)) (hg : RootWalk schema ps properties g)
    (h : ∀ qs, qs.Perm ps → ∀ properties' g', RootWalk schema qs properties' g' →
      ∀ o : Object, o.key ≠ .root → o ∈ g'.objects → o ∈ g.objects) : Agreeing schema ps := by
  have early : ∀ p ∈ ps, ∀ gp, Graph.ofDocument (.record (withProperties [p] schema)) = .ok gp →
      ∀ o ∈ gp.objects, o.key ≠ .root → o ∈ g.objects := by
    intro p hin gp hgp o ho hk
    obtain ⟨alone, g₁, hw, rfl⟩ := ofDocument_withProperties.1 hgp
    obtain ⟨before, after, rfl⟩ := List.append_of_mem hin
    have hq : (p :: (before ++ after)).Perm (before ++ p :: after) := List.perm_middle.symm
    have hsub : ∀ q ∈ p :: (before ++ after), q ∈ before ++ p :: after := fun q => hq.mem_iff.1
    obtain ⟨properties', g', hw'⟩ := exists_walk_of_subset hsch hp hg hsub
    exact h _ hq _ _ hw' o hk
      (hw'.first hsch (located_of_subset hsch hp hsub) hw o ((mem_insert_root hk).1 ho))
  intro p hpin q hqin gp gq hgp hgq o ho o' ho' e hk
  exact Graph.eq_of_key (early p hpin gp hgp o ho hk) (early q hqin gq hgq o' ho' (e ▸ hk)) e

/-- Where only objects may lead back to themselves, an object is stored in one way. -/
lemma Stored.unique {s : Site} {o o' : Object} (hgr : Grounded (definitionsOf schema))
    (h : Stored schema s o) (h' : Stored schema s o') : o = o' := by
  obtain ⟨k, node⟩ := s
  obtain ⟨opening, m, ps, rfl, hps, ho, hd⟩ := h.declared
  obtain ⟨opening', m', ps', hm', hps', ho', hd'⟩ := h'.declared
  obtain rfl := Document.record.inj hm'
  obtain rfl := Document.record.inj (Option.some.inj (hps.symm.trans hps'))
  have hl := h.leads hps
  have ht := hd.alone hgr fun s hs => ho.lead (hl ▸ hs)
  have ht' := hd'.alone hgr fun s hs => ho'.lead (hl ▸ hs)
  have hu : Relator.RightUnique
      (DeclaredAlone (definitionsOf schema) (k.child "properties") (requiredNames m)) := by
    rintro m ⟨n, t, r⟩ ⟨n', t', r'⟩ ⟨hn, hr, ht⟩ ⟨hn', hr', ht'⟩
    rw [Property.mk.injEq]
    exact ⟨hn.trans hn'.symm, (ht' _).1 ((ht _).2 rfl), hr.trans hr'.symm⟩
  rw [Object.mk.injEq]
  exact ⟨h.key.symm.trans h'.key, List.right_unique_forall₂' hu ht ht'⟩

/-- **Cycles that pass through objects only do no harm.** -/
theorem agreeing_of_grounded {ps : Members} (hsch : (Document.record schema).Distinct)
    (hp : schema.lookup "properties" = some (.record ps))
    (hgr : Grounded (definitionsOf schema)) : Agreeing schema ps := by
  have stored : ∀ p ∈ ps, ∀ gp, Graph.ofDocument (.record (withProperties [p] schema)) = .ok gp →
      ∀ o ∈ gp.objects, o.key ≠ .root → ∃ s, Stored schema s o := by
    intro p hin gp hgp o ho hk
    obtain ⟨alone, g₁, hw, rfl⟩ := ofDocument_withProperties.1 hgp
    have hl : ∀ s ∈ memberSites rootPath [p], Located schema s :=
      located_of_subset hsch hp (by simpa using hin)
    obtain ⟨a, -, s, -, hst⟩ := stored_of_walks hsch hl hw ((mem_insert_root hk).1 ho) hk
    exact ⟨s, hst⟩
  intro p hpin q hqin gp gq hgp hgq o ho o' ho' e hk
  obtain ⟨s, hst⟩ := stored p hpin gp hgp o ho hk
  obtain ⟨s', hst'⟩ := stored q hqin gq hgq o' ho' (e ▸ hk)
  obtain rfl := hst.located.eq hst'.located (hst.key.trans (e.trans hst'.key.symm))
  exact hst.unique hgr hst'

/-- **What the order of the root's properties may change.** Every order gives a graph with the
same keys and outlines and the same properties of the root; it gives the same objects, whatever
the order is, if and only if any two properties agree. -/
theorem reordered {ps : Members} (hsch : (Document.record schema).Distinct)
    (hp : schema.lookup "properties" = some (.record ps))
    (hg : Graph.ofDocument (.record schema) = .ok g) :
    (∀ qs, qs.Perm ps → ∃ g', Graph.ofDocument (.record (withProperties qs schema)) = .ok g' ∧
      (∀ k, k ∈ g'.keys ↔ k ∈ g.keys) ∧
      ∀ o ∈ g.objects, ∀ o' ∈ g'.objects, o'.key = o.key →
        (o.key = .root → o'.properties.Perm o.properties) ∧
        (o.key ≠ .root → o'.outline = o.outline)) ∧
    (∀ p ∈ ps, ∃ gp, Graph.ofDocument (.record (withProperties [p] schema)) = .ok gp) ∧
    ((∀ qs, qs.Perm ps → ∀ g', Graph.ofDocument (.record (withProperties qs schema)) = .ok g' →
        ∀ o : Object, o.key ≠ .root → (o ∈ g'.objects ↔ o ∈ g.objects)) ↔
      Agreeing schema ps) := by
  obtain ⟨properties, g₁, hw, rfl⟩ : ∃ properties g₁, RootWalk schema ps properties g₁ ∧
      g = g₁.insert ⟨.root, properties⟩ := by
    rcases ofDocument_record.1 hg with ⟨hnone, -⟩ | ⟨ps', properties, g₁, hps, hw, rfl⟩
    · rw [hp] at hnone
      cases hnone
    · obtain rfl := Document.record.inj (Option.some.inj (hp.symm.trans hps))
      exact ⟨properties, g₁, hw, rfl⟩
  have hl := located_root hsch hp
  refine ⟨fun qs hq => ?_, fun p hin => ?_, fun h => ?_, fun h qs hq g' hg' o hk => ?_⟩
  · have hsub : ∀ q ∈ qs, q ∈ ps := fun q => hq.mem_iff.1
    have hlq := located_of_subset hsch hp hsub
    obtain ⟨properties', g', hw'⟩ := exists_walk_of_subset hsch hp hw hsub
    refine ⟨_, ofDocument_withProperties.2 ⟨properties', g', hw', rfl⟩, fun k => ?_, ?_⟩
    · rw [Graph.mem_keys_insert, Graph.mem_keys_insert, hw.keys_iff hsch hl hw' hq]
    · intro o ho o' ho' e
      refine ⟨fun hk => ?_, fun hk => ?_⟩
      · have root : ∀ {f : Graph} {x : Object} {as : List Property}, x.key = .root →
            x ∈ (f.insert ⟨.root, as⟩).objects → x.properties = as := by
          intro f x as hx hin
          rw [Graph.eq_of_key hin (Graph.mem_insert.2 (Or.inl rfl)) hx]
        rw [root hk ho, root (e.trans hk) ho']
        exact (hw.done hsch hl).types.perm (hw'.done hsch hlq).types hq
      · have hk' : o'.key ≠ .root := by
          rw [e]
          exact hk
        obtain ⟨a, ha, s, -, hst⟩ :=
          stored_of_walks hsch hl hw ((mem_insert_root hk).1 ho) hk
        obtain ⟨a', ha', s', -, hst'⟩ :=
          stored_of_walks hsch hlq hw' ((mem_insert_root hk').1 ho') hk'
        obtain rfl := hst'.located.eq hst.located (hst'.key.trans (e.trans hst.key.symm))
        exact hst'.outline hst
  · have hsub : ∀ q ∈ [p], q ∈ ps := by simpa using hin
    obtain ⟨alone, gp, hwp⟩ := exists_walk_of_subset hsch hp hw hsub
    exact ⟨_, ofDocument_withProperties.2 ⟨alone, gp, hwp, rfl⟩⟩
  · refine agreeing_of_orders hsch hp hw fun qs hq properties' g' hw' o hk ho => ?_
    have hg' := ofDocument_withProperties.2 ⟨properties', g', hw', rfl⟩
    exact (mem_insert_root hk).1 ((h qs hq _ hg' o hk).1 ((mem_insert_root hk).2 ho))
  · obtain ⟨properties', g₂, hw', rfl⟩ := ofDocument_withProperties.1 hg'
    rw [mem_insert_root hk, mem_insert_root hk]
    refine ⟨?_, ?_⟩
    · intro ho
      exact h.stored hsch hp hq (.refl _) hw' hw ho hk
    · intro ho
      exact h.stored hsch hp (.refl _) hq hw hw' ho hk

def toMany : Document := .record [("$ref", .text "#/definitions/Many")]

def toOne : Document := .record [("$ref", .text "#/definitions/One")]

/-- A thing that refers to many of its kind, and a root that refers to many and to one. -/
def crossing : Members :=
  [("properties", .record [("x", toMany), ("y", toOne)]),
   ("definitions", .record [
     ("Many", .record [("type", .text "array"), ("items", toOne)]),
     ("One", .record [("type", .text "object"), ("properties", .record [("more", toMany)])])])]

/-- If the many come first, they are open when the one is met. -/
lemma ofDocument_crossing :
    ∃ g, Graph.ofDocument (.record crossing) = .ok g ∧
      ⟨.definition "One", [⟨"more", .any, false⟩]⟩ ∈ g.objects :=
  ⟨_, ofDocument_record.2 (Or.inr ⟨_, _, _, rfl,
    .cons (.enter rfl rfl (by decide) (by decide) (.array rfl
      (.enter rfl rfl (by decide) (by decide) (.hoist rfl (by decide) rfl
        (.cons (.open rfl rfl (by decide) (by decide)) .nil)))))
    (.cons (.known rfl rfl (by decide)) .nil), rfl⟩), .tail _ (.head _)⟩

theorem reordered_keys_of_crossing :
    (Document.record crossing).Distinct ∧
      crossing.lookup "properties" = some (.record [("x", toMany), ("y", toOne)]) ∧
      ∃ g g', Graph.ofDocument (.record crossing) = .ok g ∧
        Graph.ofDocument (.record (withProperties [("y", toOne), ("x", toMany)] crossing)) =
          .ok g' ∧
        ∀ k, k ∈ g'.keys ↔ k ∈ g.keys := by
  have hd : (Document.record crossing).Distinct := by
    simp [crossing, toMany, toOne]
  obtain ⟨g, hg, -⟩ := ofDocument_crossing
  obtain ⟨g', hg', hkeys, -⟩ := (reordered hd rfl hg).1 _ (List.Perm.swap _ _ _)
  exact ⟨hd, rfl, g, g', hg, hg', hkeys⟩

/-- **The order matters**: the same property of the same object has two types. -/
theorem reordered_types_of_crossing :
    [("y", toOne), ("x", toMany)].Perm [("x", toMany), ("y", toOne)] ∧
    ∃ g g', Graph.ofDocument (.record crossing) = .ok g ∧
      Graph.ofDocument (.record (withProperties [("y", toOne), ("x", toMany)] crossing)) =
        .ok g' ∧
      ⟨.definition "One", [⟨"more", .any, false⟩]⟩ ∈ g.objects ∧
      ⟨.definition "One", [⟨"more", .list (.object (.definition "One")), false⟩]⟩ ∈
        g'.objects := by
  obtain ⟨g, hg, ho⟩ := ofDocument_crossing
  have hg' : Graph.ofDocument
      (.record (withProperties [("y", toOne), ("x", toMany)] crossing)) = .ok _ :=
    ofDocument_record.2 (Or.inr ⟨_, _, _, rfl,
      .cons (.enter rfl rfl (by decide) (by decide) (.hoist rfl (by decide) rfl
        (.cons (.enter rfl rfl (by decide) (by decide)
          (.array rfl (.known rfl rfl (by decide)))) .nil)))
      (.cons (.enter rfl rfl (by decide) (by decide)
        (.array rfl (.known rfl rfl (by decide)))) .nil), rfl⟩)
  exact ⟨.swap _ _ _, g, _, hg, hg', ho, .tail _ (.head _)⟩

end ProviderGen.Schema
