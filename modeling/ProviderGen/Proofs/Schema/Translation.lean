import ProviderGen.Proofs.Schema.Objects

/-!
The types of a schema, without a walk. The translation of a site is read off its node, and a
reference is translated as the definition that it names; nothing is remembered. Where no
definition leads back to itself, every property that the walk finds has one translation, and
that is the type that the walk gives it.
-/

namespace ProviderGen.Schema

open Document (Members)
open Relation (TransGen)

/-- The types that are declared by their names. -/
def leafTypes : List (String × FlatType) :=
  [("string", .string), ("integer", .integer), ("number", .number), ("boolean", .boolean),
    ("null", .any)]

/-- A node that declares an object, or patterns without a type, and no properties. -/
def IsMap (m : Members) : Prop :=
  m.lookup "properties" = none ∧ (declaredType? m = some "object" ∨
    declaredType? m = none ∧ m.lookup "patternProperties" ≠ none)

/-- The type of a site by itself. -/
inductive Translates (definitions : Members) : Site → FlatType → Prop where
  | absent {k m r name} (hr : m.lookup "$ref" = some (.text r)) (hn : referenceName r = .ok name)
      (hd : definitions.lookup name = none) :
      Translates definitions ⟨k, .record m⟩ (.object (.definition name))
  | reference {k m r name body t} (hr : m.lookup "$ref" = some (.text r))
      (hn : referenceName r = .ok name) (hd : definitions.lookup name = some body)
      (ht : Translates definitions ⟨.definition name, body⟩ t) :
      Translates definitions ⟨k, .record m⟩ t
  | leaf {k m name t} (hr : m.lookup "$ref" = none) (hd : declaredType? m = some name)
      (hl : (name, t) ∈ leafTypes) : Translates definitions ⟨k, .record m⟩ t
  | untyped {k m} (hr : m.lookup "$ref" = none) (hd : declaredType? m = none)
      (hp : m.lookup "properties" = none) (hq : m.lookup "patternProperties" = none) :
      Translates definitions ⟨k, .record m⟩ .any
  | arrayOfAny {k m} (hr : m.lookup "$ref" = none) (hd : declaredType? m = some "array")
      (hi : m.lookup "items" = none) :
      Translates definitions ⟨k, .record m⟩ (collection (isUnique m) .any)
  | array {k m items t} (hr : m.lookup "$ref" = none) (hd : declaredType? m = some "array")
      (hi : m.lookup "items" = some items)
      (ht : Translates definitions ⟨k.child "items", items⟩ t) :
      Translates definitions ⟨k, .record m⟩ (collection (isUnique m) t)
  | object {k m} (hr : m.lookup "$ref" = none)
      (hd : declaredType? m = some "object" ∨ declaredType? m = none)
      (hp : m.lookup "properties" ≠ none) : Translates definitions ⟨k, .record m⟩ (.object k)
  | mapOfAny {k m} (hr : m.lookup "$ref" = none) (hm : IsMap m) (hf : firstPattern? m = none) :
      Translates definitions ⟨k, .record m⟩ (.map .any)
  | map {k m pattern value t} (hr : m.lookup "$ref" = none) (hm : IsMap m)
      (hf : firstPattern? m = some (pattern, value))
      (ht : Translates definitions ⟨(k.child "patternProperties").child pattern, value⟩ t) :
      Translates definitions ⟨k, .record m⟩ (.map t)

variable {definitions schema m : Members} {opening : List String} {s : Site} {t : FlatType}
  {k : Key} {g : Graph}

/-- By the shape of a node. -/
def Shape.Translates (definitions : Members) (k : Key) (t : FlatType) : Shape → Prop
  | .leaf u => t = u
  | .reference name =>
    match definitions.lookup name with
    | none => t = .object (.definition name)
    | some body => Schema.Translates definitions ⟨.definition name, body⟩ t
  | .array none unique => t = collection unique .any
  | .array (some items) unique =>
    ∃ u, Schema.Translates definitions ⟨k.child "items", items⟩ u ∧ t = collection unique u
  | .object => t = .object k
  | .map none => t = .map .any
  | .map (some (pattern, value)) =>
    ∃ u, Schema.Translates definitions ⟨(k.child "patternProperties").child pattern, value⟩ u ∧
      t = .map u

lemma shape_of_reference {r name : String} (hr : m.lookup "$ref" = some (.text r))
    (hn : referenceName r = .ok name) : shape m = .ok (.reference name) := by
  unfold shape
  simp only [hr, hn, Except.map]

lemma shape_of_type (hr : m.lookup "$ref" = none) :
    shape m = shapeOfType m (declaredType? m) := by
  unfold shape
  simp only [hr]

lemma shape_of_leaf {name : String} (hr : m.lookup "$ref" = none)
    (hd : declaredType? m = some name) (hl : (name, t) ∈ leafTypes) : shape m = .ok (.leaf t) := by
  rw [shape_of_type hr, hd]
  simp only [leafTypes, List.mem_cons, Prod.mk.injEq, List.not_mem_nil, or_false] at hl
  rcases hl with ⟨rfl, rfl⟩ | ⟨rfl, rfl⟩ | ⟨rfl, rfl⟩ | ⟨rfl, rfl⟩ | ⟨rfl, rfl⟩ <;> rfl

lemma shape_of_isMap (hr : m.lookup "$ref" = none) (hm : IsMap m) :
    shape m = .ok (.map (firstPattern? m)) := by
  obtain ⟨hp, hd⟩ := hm
  have hp' : has "properties" m = false := by rw [has, hp, Option.isSome_none]
  rw [shape_of_type hr]
  rcases hd with hd | ⟨hd, hq⟩
  · simp only [hd, shapeOfType, hp', Bool.false_eq_true, if_false]
  · have hq' : has "patternProperties" m = true := Option.isSome_iff_ne_none.2 hq
    simp only [hd, shapeOfType, hp', hq', Bool.false_eq_true, if_false, if_true]

lemma shape_of_object (hr : m.lookup "$ref" = none)
    (hd : declaredType? m = some "object" ∨ declaredType? m = none)
    (hp : m.lookup "properties" ≠ none) : shape m = .ok .object := by
  have hp' : has "properties" m = true := Option.isSome_iff_ne_none.2 hp
  rw [shape_of_type hr]
  rcases hd with hd | hd
  · simp only [hd, shapeOfType, hp', if_true]
  · simp only [hd, shapeOfType, hp', if_true]

lemma shape_of_untyped (hr : m.lookup "$ref" = none) (hd : declaredType? m = none)
    (hp : m.lookup "properties" = none) (hq : m.lookup "patternProperties" = none) :
    shape m = .ok (.leaf .any) := by
  rw [shape_of_type hr, hd]
  simp only [shapeOfType, has, hp, hq, Option.isSome_none, Bool.false_eq_true, if_false]

lemma lookup_eq_none_of_has {name : String} (h : ¬ has name m = true) : m.lookup name = none := by
  cases hl : m.lookup name with
  | none => rfl
  | some d => simp [has, hl] at h

/-- The definition that a reference names, or none. -/
lemma translates_reference {r name : String} (hr : m.lookup "$ref" = some (.text r))
    (hn : referenceName r = .ok name) (h : (Shape.reference name).Translates definitions k t) :
    Translates definitions ⟨k, .record m⟩ t := by
  cases hd : definitions.lookup name with
  | none =>
    simp only [Shape.Translates, hd] at h
    obtain rfl := h
    exact .absent hr hn hd
  | some body =>
    simp only [Shape.Translates, hd] at h
    exact .reference hr hn hd h

/-- The items of an array, or none. -/
lemma translates_array (hr : m.lookup "$ref" = none) (hd : declaredType? m = some "array")
    (h : (Shape.array (m.lookup "items") (isUnique m)).Translates definitions k t) :
    Translates definitions ⟨k, .record m⟩ t := by
  cases hi : m.lookup "items" with
  | none =>
    rw [hi] at h
    obtain rfl := h
    exact .arrayOfAny hr hd hi
  | some items =>
    rw [hi] at h
    obtain ⟨u, hu, rfl⟩ := h
    exact .array hr hd hi hu

/-- The first pattern of a map, or none. -/
lemma translates_map (hr : m.lookup "$ref" = none) (hm : IsMap m)
    (h : (Shape.map (firstPattern? m)).Translates definitions k t) :
    Translates definitions ⟨k, .record m⟩ t := by
  cases hf : firstPattern? m with
  | none =>
    rw [hf] at h
    obtain rfl := h
    exact .mapOfAny hr hm hf
  | some p =>
    rw [hf] at h
    obtain ⟨u, hu, rfl⟩ := h
    exact .map hr hm hf hu

lemma translates_of_shapeOfType {sh : Shape} (hr : m.lookup "$ref" = none)
    (hs : shapeOfType m (declaredType? m) = .ok sh) (h : sh.Translates definitions k t) :
    Translates definitions ⟨k, .record m⟩ t := by
  unfold shapeOfType at hs
  split at hs
  case h_5 hd =>
    obtain rfl := Except.ok.inj hs
    exact translates_array hr hd h
  case h_6 hd =>
    split at hs
    · rename_i hp
      obtain rfl := Except.ok.inj hs
      obtain rfl := h
      exact .object hr (Or.inl hd) (Option.isSome_iff_ne_none.1 hp)
    · rename_i hp
      obtain rfl := Except.ok.inj hs
      exact translates_map hr ⟨lookup_eq_none_of_has hp, Or.inl hd⟩ h
  case h_8 => cases hs
  case h_9 hd =>
    split at hs
    · rename_i hp
      obtain rfl := Except.ok.inj hs
      obtain rfl := h
      exact .object hr (Or.inr hd) (Option.isSome_iff_ne_none.1 hp)
    · rename_i hp
      split at hs
      · rename_i hq
        obtain rfl := Except.ok.inj hs
        exact translates_map hr
          ⟨lookup_eq_none_of_has hp, Or.inr ⟨hd, Option.isSome_iff_ne_none.1 hq⟩⟩ h
      · rename_i hq
        obtain rfl := Except.ok.inj hs
        obtain rfl := h
        exact .untyped hr hd (lookup_eq_none_of_has hp) (lookup_eq_none_of_has hq)
  all_goals
    rename_i hd
    obtain rfl := Except.ok.inj hs
    obtain rfl := h
    exact .leaf hr hd (by simp [leafTypes])

/-- A translation goes by the shape. -/
lemma translates_iff_of_shape {sh : Shape} (hs : shape m = .ok sh) :
    Translates definitions ⟨k, .record m⟩ t ↔ sh.Translates definitions k t := by
  have known : ∀ {sh'}, shape m = .ok sh' → sh = sh' :=
    fun h => Except.ok.inj (hs.symm.trans h)
  refine ⟨fun h => ?_, fun h => ?_⟩
  · cases h with
    | absent hr hn hd =>
      obtain rfl := known (shape_of_reference hr hn)
      simp only [Shape.Translates, hd]
    | reference hr hn hd ht =>
      obtain rfl := known (shape_of_reference hr hn)
      simpa only [Shape.Translates, hd] using ht
    | leaf hr hd hl =>
      obtain rfl := known (shape_of_leaf hr hd hl)
      rfl
    | untyped hr hd hp hq =>
      obtain rfl := known (shape_of_untyped hr hd hp hq)
      rfl
    | arrayOfAny hr hd hi =>
      obtain rfl := known (by rw [shape_of_type hr, hd, shapeOfType, hi])
      rfl
    | array hr hd hi ht =>
      obtain rfl := known (by rw [shape_of_type hr, hd, shapeOfType, hi])
      exact ⟨_, ht, rfl⟩
    | object hr hd hp =>
      obtain rfl := known (shape_of_object hr hd hp)
      rfl
    | mapOfAny hr hm hf =>
      obtain rfl := known (hf ▸ shape_of_isMap hr hm)
      rfl
    | map hr hm hf ht =>
      obtain rfl := known (hf ▸ shape_of_isMap hr hm)
      exact ⟨_, ht, rfl⟩
  · rcases shape_cases hs with ⟨r, name, hr, hn, rfl⟩ | ⟨hr, ht⟩
    · exact translates_reference hr hn h
    · exact translates_of_shapeOfType hr ht h

/-! ### Where no definition leads back to itself -/

def Acyclic (definitions : Members) : Prop :=
  ∀ name body, definitions.lookup name = some body →
    ¬ TransGen (fun a b => b ∈ leads definitions a)
      ⟨.definition name, body⟩ ⟨.definition name, body⟩

/-- Only objects may lead back to themselves. -/
def Grounded (definitions : Members) : Prop :=
  ∀ name body, definitions.lookup name = some body →
    Site.isObject ⟨.definition name, body⟩ = false →
    ¬ TransGen (fun a b => b ∈ leads definitions a)
      ⟨.definition name, body⟩ ⟨.definition name, body⟩

lemma Acyclic.grounded (h : Acyclic definitions) : Grounded definitions :=
  fun name body hd _ => h name body hd

lemma shape_object (ho : Site.isObject ⟨k, .record m⟩ = true) : shape m = .ok .object := by
  simp only [Site.isObject, Bool.and_eq_true, Bool.or_eq_true, beq_iff_eq, has,
    Bool.not_eq_true', Option.isSome_eq_false_iff, Option.isNone_iff_eq_none] at ho
  obtain ⟨⟨hr, hp⟩, ht⟩ := ho
  unfold shape
  rw [hr]
  rcases ht with ht | ht
  · simp only [ht, shapeOfType, has, hp, if_true]
  · simp only [ht, shapeOfType, has, hp, if_true]

lemma translates_object (ho : s.isObject = true) :
    Translates definitions s t ↔ t = .object s.key := by
  obtain ⟨k, node⟩ := s
  cases node with
  | record m => exact translates_iff_of_shape (shape_object ho)
  | _ => cases ho

/-- A definition that is open is not referred to again, unless it is an object. -/
lemma Grounded.not_mem (hgr : Grounded definitions) {name : String} {body : Document}
    (ho : Opened definitions opening s) (hd : definitions.lookup name = some body)
    (hobj : Site.isObject ⟨.definition name, body⟩ = false)
    (hl : ⟨.definition name, body⟩ ∈ leads definitions s) : name ∉ opening := by
  intro hn
  obtain ⟨body', hd', hr⟩ := ho name hn
  obtain rfl := Option.some.inj (hd.symm.trans hd')
  exact hgr name body hd hobj (TransGen.tail' hr hl)

/-- The type of a site is its only translation, whatever led to it. -/
theorem translates_iff_of_typed (hgr : Grounded definitions) (h : Typed definitions opening s t)
    (ho : Opened definitions opening s) {u : FlatType} : Translates definitions s u ↔ u = t := by
  induction h generalizing u with
  | leaf hs => exact translates_iff_of_shape hs
  | absent hs hd =>
    rw [translates_iff_of_shape hs]
    simp only [Shape.Translates, hd]
  | toObject hs hd hobj =>
    rw [translates_iff_of_shape hs]
    simp only [Shape.Translates, hd]
    exact translates_object hobj
  | @«open» _ k _ _ _ hs hd hobj hn =>
    exact absurd hn (hgr.not_mem ho hd hobj (passes_reference k hs hd).2)
  | @enter _ k _ _ _ _ hs hd hobj hn ht ih =>
    rw [translates_iff_of_shape hs]
    simp only [Shape.Translates, hd]
    exact ih ((ho.lead (passes_reference k hs hd).2).cons hd)
  | arrayOfAny hs => exact translates_iff_of_shape hs
  | @array _ k _ _ _ _ hs ht ih =>
    rw [translates_iff_of_shape hs]
    simp only [Shape.Translates, ih (ho.lead (passes_items definitions k hs).2), exists_eq_left]
  | mapOfAny hs => exact translates_iff_of_shape hs
  | @map _ k _ _ _ _ hs ht ih =>
    rw [translates_iff_of_shape hs]
    simp only [Shape.Translates, ih (ho.lead (passes_pattern definitions k hs).2), exists_eq_left]
  | object hs => exact translates_iff_of_shape hs

/-- The property that a member declares, with the one type that the member has by itself. -/
def DeclaredAlone (definitions : Members) (path : Key) (required : List String)
    (m : String × Document) (p : Property) : Prop :=
  p.name = m.1 ∧ p.required = required.contains m.1 ∧
    ∀ t, Translates definitions ⟨path.child m.1, m.2⟩ t ↔ t = p.type

variable {path : Key} {required : List String} {ps : Members} {properties : List Property}

lemma Declared.alone (hgr : Grounded definitions)
    (h : Declared definitions opening path required ps properties)
    (ho : ∀ s ∈ memberSites path ps, Opened definitions opening s) :
    List.Forall₂ (DeclaredAlone definitions path required) ps properties := by
  have hopen : ∀ m ∈ ps, Opened definitions opening ⟨path.child m.1, m.2⟩ :=
    fun m hm => ho _ (List.mem_map.2 ⟨m, hm, rfl⟩)
  refine List.Forall₂.imp ?_ ((List.forall₂_and_left ps properties).2 ⟨hopen, h⟩)
  rintro m p ⟨hopen, hn, hr, ht⟩
  exact ⟨hn, hr, fun _ => translates_iff_of_typed hgr ht hopen⟩

lemma exists_of_forall₂ {α β : Type*} {R : α → β → Prop} {as : List α} {bs : List β} {b : β}
    (h : List.Forall₂ R as bs) (hb : b ∈ bs) : ∃ a ∈ as, R a b := by
  induction h with
  | nil => simp at hb
  | cons hab _ ih =>
    rcases List.mem_cons.1 hb with rfl | hb
    · exact ⟨_, List.mem_cons_self, hab⟩
    · obtain ⟨a, ha, hr⟩ := ih hb
      exact ⟨a, List.mem_cons_of_mem _ ha, hr⟩

/-- A property that a member declares has its place below the path, and there the type that its
node has by itself. -/
lemma place_of_declaredAlone {p : Property}
    (h : List.Forall₂ (DeclaredAlone definitions path required) ps properties)
    (hp : p ∈ properties) :
    ∃ node, ⟨path.child p.name, node⟩ ∈ memberSites path ps ∧
      ∀ t, Translates definitions ⟨path.child p.name, node⟩ t ↔ t = p.type := by
  obtain ⟨⟨name, node⟩, hm, hn, -, ht⟩ := exists_of_forall₂ h hp
  rw [hn]
  exact ⟨node, List.mem_map.2 ⟨_, hm, rfl⟩, ht⟩

lemma opened_nil (definitions : Members) (s : Site) : Opened definitions [] s := by
  intro name hn
  simp at hn

/-- An object of the schema leads to the properties that its node declares. -/
lemma Stored.leads {o : Object} (h : Stored schema ⟨k, .record m⟩ o)
    (hp : m.lookup "properties" = some (.record ps)) :
    Schema.leads (definitionsOf schema) ⟨k, .record m⟩ = memberSites (k.child "properties") ps :=
  leads_object _ k (shape_object h.isObject) hp

/-- **Every property has the type that is the translation of its own node**, provided that no
definition leads back to itself. -/
theorem properties_translated (hsch : (Document.record schema).Distinct)
    (hac : Acyclic (definitionsOf schema)) (hg : Graph.ofDocument (.record schema) = .ok g) :
    ∀ o ∈ g.objects, ∀ p ∈ o.properties, ∃ node,
      (Document.record schema).follow? ((o.key.child "properties").child p.name).segments =
        some node ∧
      ∀ t, Translates (definitionsOf schema) ⟨(o.key.child "properties").child p.name, node⟩ t ↔
        t = p.type := by
  intro o ho p hp
  by_cases hk : o.key = .root
  · rcases root_of_document hsch hg ho hk with ⟨-, hnil⟩ | ⟨ps, hps, hdecl⟩
    · rw [hnil] at hp
      simp at hp
    · have htr := hdecl.alone hac.grounded fun s _ => opened_nil _ s
      obtain ⟨node, hm, ht⟩ := place_of_declaredAlone htr hp
      rw [hk]
      exact ⟨node, (located_root hsch hps _ hm).2, ht⟩
  · obtain ⟨⟨k, node⟩, -, hst⟩ := stored_of_document hsch hg ho hk
    obtain ⟨opening, m, ps, rfl, hps, hopen, hdecl⟩ := hst.declared
    obtain rfl : k = o.key := hst.key
    have hl := hst.leads hps
    have htr := hdecl.alone hac.grounded fun s hs => hopen.lead (hl ▸ hs)
    obtain ⟨node, hm, ht⟩ := place_of_declaredAlone htr hp
    exact ⟨node, (hst.located.of_leads hsch (hl ▸ hm)).2, ht⟩

def price : Document := .record [("type", .text "number")]

def toPrice : Document := .record [("$ref", .text "#/definitions/Price")]

def prices : Document := .record [("type", .text "array"), ("items", toPrice)]

/-- A list of prices, and an item with a price. -/
def shop : Members :=
  [("properties", .record [
     ("prices", .record [("$ref", .text "#/definitions/Prices")]),
     ("item", .record [("properties", .record [("price", toPrice)])])]),
   ("definitions", .record [("Prices", prices), ("Price", price)])]

/-- A way that goes on at all goes on along the only lead. -/
lemma transGen_of_leads {a b c : Site} (hl : leads definitions a = [b])
    (h : TransGen (fun x y => y ∈ leads definitions x) a c) :
    c = b ∨ TransGen (fun x y => y ∈ leads definitions x) b c := by
  obtain ⟨d, hd, hdc⟩ := TransGen.head'_iff.1 h
  obtain rfl : d = b := by simpa [hl] using hd
  rcases hdc.cases_head with rfl | hdc
  · exact Or.inl rfl
  · exact Or.inr (TransGen.head'_iff.2 hdc)

lemma not_transGen_of_leads {a c : Site} (hl : leads definitions a = []) :
    ¬ TransGen (fun x y => y ∈ leads definitions x) a c := by
  intro h
  obtain ⟨d, hd, -⟩ := TransGen.head'_iff.1 h
  simp [hl] at hd

lemma acyclic_shop : Acyclic (definitionsOf shop) := by
  have hprice : leads (definitionsOf shop) ⟨.definition "Price", price⟩ = [] := rfl
  have hitem : leads (definitionsOf shop) ⟨(Key.definition "Prices").child "items", toPrice⟩ =
    [⟨.definition "Price", price⟩] := rfl
  have hprices : leads (definitionsOf shop) ⟨.definition "Prices", prices⟩ =
    [⟨(Key.definition "Prices").child "items", toPrice⟩] := rfl
  intro name body hd ht
  have hmem : (name, body) ∈ [("Prices", prices), ("Price", price)] :=
    Document.Members.mem_of_lookup hd
  rcases List.mem_cons.1 hmem with e | hmem
  · cases e
    rcases transGen_of_leads hprices ht with e | ht
    · exact absurd (congrArg Site.key e) (by decide)
    · rcases transGen_of_leads hitem ht with e | ht
      · exact absurd (congrArg Site.key e) (by decide)
      · exact not_transGen_of_leads hprice ht
  · obtain ⟨rfl, rfl⟩ := Prod.mk.inj (List.mem_singleton.1 hmem)
    exact not_transGen_of_leads hprice ht

theorem properties_translated_shop :
    (Document.record shop).Distinct ∧ Acyclic (definitionsOf shop) ∧
      ∃ g, Graph.ofDocument (.record shop) = .ok g ∧ ∃ node,
        (Document.record shop).follow? (rootPath.child "prices").segments = some node ∧
        ∀ t, Translates (definitionsOf shop) ⟨rootPath.child "prices", node⟩ t ↔
          t = .list .number := by
  have hd : (Document.record shop).Distinct := by
    simp [shop, prices, price, toPrice]
  have hg : Graph.ofDocument (.record shop) = .ok _ :=
    ofDocument_record.2 (Or.inr ⟨_, _, _, rfl,
      .cons (.enter rfl rfl (by decide) (by decide)
        (.array rfl (.enter rfl rfl (by decide) (by decide) (.leaf rfl))))
      (.cons (.hoist rfl (by decide) rfl
        (.cons (.enter rfl rfl (by decide) (by decide) (.leaf rfl)) .nil)) .nil), rfl⟩)
  refine ⟨hd, acyclic_shop, _, hg, ?_⟩
  exact properties_translated hd acyclic_shop hg _ (List.Mem.head _) _ (List.Mem.head _)

end ProviderGen.Schema
