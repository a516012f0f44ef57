import ProviderGen.Schema.Walk
import ProviderGen.Proofs.Document.Distinct
import Mathlib.Logic.Relation

/-!
Where the walk through a schema can go. A site is a node together with the way to it; a site
leads to other sites, in an order. Objects lead to their properties, and every other site leads
to one site at most, so from a site that is no object there is a single way on: it ends at an
object, or nowhere, or it goes round for ever.
-/

namespace ProviderGen.Schema

open Document (Members)
open Relation (ReflTransGen TransGen)

structure Site where
  key : Key
  node : Document

def memberSites (path : Key) (ps : Members) : List Site :=
  ps.map fun p => ⟨path.child p.1, p.2⟩

/-- The properties that a node declares, each at its own place. -/
def propertySites (k : Key) (m : Members) : List Site :=
  match m.lookup "properties" with
  | some (.record ps) => memberSites (k.child "properties") ps
  | _ => []

/-- A node with properties, and without a reference, that is declared an object or not at all. -/
def Site.isObject (s : Site) : Bool :=
  match s.node with
  | .record m =>
    !has "$ref" m && has "properties" m &&
      (declaredType? m == some "object" || declaredType? m == none)
  | _ => false

/-- Where a node without a reference leads, by its declared type. -/
def leadsByType (k : Key) (m : Members) : Option String → List Site
  | some "array" => (m.lookup "items").toList.map fun d => ⟨k.child "items", d⟩
  | some "object" | none =>
    if has "properties" m then propertySites k m
    else (firstPattern? m).toList.map fun p =>
      ⟨(k.child "patternProperties").child p.1, p.2⟩
  | _ => []

/-- The sites that a site leads to. -/
def leads (definitions : Members) (s : Site) : List Site :=
  match s.node with
  | .record m =>
    match m.lookup "$ref" with
    | some (.text r) =>
      match referenceName r with
      | .ok name => (definitions.lookup name).toList.map fun d => ⟨.definition name, d⟩
      | .error _ => []
    | some _ => []
    | none => leadsByType s.key m (declaredType? m)
  | _ => []

abbrev Reaches (definitions : Members) : Site → Site → Prop :=
  ReflTransGen fun a b => b ∈ leads definitions a

/-! ### By the shape of a node -/

/-- Where a node of the given shape leads. -/
def Shape.sites (definitions : Members) (k : Key) (m : Members) : Shape → List Site
  | .reference name => (definitions.lookup name).toList.map fun d => ⟨.definition name, d⟩
  | .leaf _ => []
  | .array items _ => items.toList.map fun d => ⟨k.child "items", d⟩
  | .object => propertySites k m
  | .map first => first.toList.map fun p => ⟨(k.child "patternProperties").child p.1, p.2⟩

def Shape.isObject : Shape → Bool
  | .object => true
  | _ => false

variable {definitions m : Members} {k : Key} {s : Shape}

lemma firstPattern?_eq_none (h : has "patternProperties" m = false) : firstPattern? m = none := by
  unfold has at h
  unfold firstPattern?
  rw [Option.isSome_eq_false_iff, Option.isNone_iff_eq_none] at h
  rw [h]

lemma leadsByType_of_shapeOfType {t : Option String} (h : shapeOfType m t = .ok s) :
    leadsByType k m t = s.sites definitions k m := by
  unfold shapeOfType at h
  split at h <;> (try split at h) <;> (try split at h) <;> cases h <;>
    simp_all [leadsByType, Shape.sites, firstPattern?_eq_none]

lemma isObject_of_shapeOfType {t : Option String} (h : shapeOfType m t = .ok s) :
    s.isObject = (has "properties" m && (t == some "object" || t == none)) := by
  unfold shapeOfType at h
  split at h <;> (try split at h) <;> (try split at h) <;> cases h <;>
    simp_all [Shape.isObject]

/-- A reference comes before the declared type. -/
lemma shape_cases (h : shape m = .ok s) :
    (∃ r name, m.lookup "$ref" = some (.text r) ∧ referenceName r = .ok name ∧
      s = .reference name) ∨
    (m.lookup "$ref" = none ∧ shapeOfType m (declaredType? m) = .ok s) := by
  unfold shape at h
  split at h
  · rename_i r hr
    cases hn : referenceName r with
    | error e => simp [hn, Except.map] at h
    | ok name => exact Or.inl ⟨r, name, hr, hn, by simpa [hn, Except.map, eq_comm] using h⟩
  · simp at h
  · exact Or.inr ⟨by assumption, h⟩

lemma leads_of_shape (h : shape m = .ok s) :
    leads definitions ⟨k, .record m⟩ = s.sites definitions k m := by
  rcases shape_cases h with ⟨r, name, hr, hn, rfl⟩ | ⟨hr, ht⟩
  · simp only [leads, hr, hn, Shape.sites]
  · simp only [leads, hr]
    exact leadsByType_of_shapeOfType ht

lemma leads_reference {name : String} {d : Document} (h : shape m = .ok (.reference name))
    (hd : definitions.lookup name = some d) :
    leads definitions ⟨k, .record m⟩ = [⟨.definition name, d⟩] := by
  simp [leads_of_shape h, Shape.sites, hd]

lemma leads_items {items : Document} {unique : Bool}
    (h : shape m = .ok (.array (some items) unique)) :
    leads definitions ⟨k, .record m⟩ = [⟨k.child "items", items⟩] := by
  simp [leads_of_shape h, Shape.sites]

lemma leads_pattern {pattern : String} {value : Document}
    (h : shape m = .ok (.map (some (pattern, value)))) :
    leads definitions ⟨k, .record m⟩ =
      [⟨(k.child "patternProperties").child pattern, value⟩] := by
  simp [leads_of_shape h, Shape.sites]

lemma propertySites_of_lookup {ps : Members} (h : m.lookup "properties" = some (.record ps)) :
    propertySites k m = memberSites (k.child "properties") ps := by
  simp only [propertySites, h]

lemma leads_object (definitions : Members) (k : Key) {ps : Members} (h : shape m = .ok .object)
    (hp : m.lookup "properties" = some (.record ps)) :
    leads definitions ⟨k, .record m⟩ = memberSites (k.child "properties") ps := by
  rw [leads_of_shape h, Shape.sites, propertySites_of_lookup hp]

lemma isObject_of_shape (h : shape m = .ok s) :
    Site.isObject ⟨k, .record m⟩ = s.isObject := by
  rcases shape_cases h with ⟨r, name, hr, hn, rfl⟩ | ⟨hr, ht⟩
  · simp only [Site.isObject, has, hr, Option.isSome_some, Bool.not_true, Bool.false_and,
      Shape.isObject]
  · rw [isObject_of_shapeOfType ht]
    simp only [Site.isObject, has, hr, Option.isSome_none, Bool.not_false, Bool.true_and]

/-- Objects apart, a site leads to one site at most. -/
lemma leads_eq_toList {a : Site} (ha : a.isObject = false) :
    ∃ o : Option Site, leads definitions a = o.toList := by
  obtain ⟨k, node⟩ := a
  unfold leads
  split
  · rename_i m hm
    obtain rfl : node = .record m := hm
    split
    · split
      · exact ⟨_, (Option.toList_map ..).symm⟩
      · exact ⟨none, rfl⟩
    · exact ⟨none, rfl⟩
    · rename_i hr
      have hn : has "$ref" m = false := by simp only [has, hr, Option.isSome_none]
      simp only [Site.isObject, hn] at ha
      unfold leadsByType
      split
      · exact ⟨_, (Option.toList_map ..).symm⟩
      · rename_i ht
        split
        · rename_i hp
          simp [ht, hp] at ha
        · exact ⟨_, (Option.toList_map ..).symm⟩
      · rename_i ht
        split
        · rename_i hp
          simp [ht, hp] at ha
        · exact ⟨_, (Option.toList_map ..).symm⟩
      · exact ⟨none, rfl⟩
  · exact ⟨none, rfl⟩

lemma leads_unique {a b c : Site} (ha : a.isObject = false) (hb : b ∈ leads definitions a)
    (hc : c ∈ leads definitions a) : b = c := by
  obtain ⟨o, ho⟩ := leads_eq_toList ha
  rw [ho, Option.mem_toList] at hb hc
  exact Option.mem_unique hb hc

lemma has_properties_of_object (h : shape m = .ok .object) : m.lookup "properties" ≠ none := by
  have ho : Site.isObject ⟨.root, .record m⟩ = true := isObject_of_shape h
  simp only [Site.isObject, has, Bool.and_eq_true] at ho
  intro hn
  rw [hn] at ho
  cases ho.1.2

/-- A node that the walk can read: it has a shape, and the properties of an object are members. -/
def Site.Sound (s : Site) : Prop :=
  ∃ m sh, s.node = .record m ∧ shape m = .ok sh ∧
    (sh = .object → ∃ ps, m.lookup "properties" = some (.record ps))

lemma sound_of_shape (h : shape m = .ok s) (ho : s.isObject = false) :
    Site.Sound ⟨k, .record m⟩ := by
  refine ⟨m, s, rfl, h, ?_⟩
  rintro rfl
  cases ho

/-! ### True places -/

/-- The way of a site, which is not the root, leads through the schema to its node. -/
def Located (schema : Members) (s : Site) : Prop :=
  s.key ≠ .root ∧ (Document.record schema).follow? s.key.segments = some s.node

variable {schema : Members} {a b o : Site}

lemma Located.eq (ha : Located schema a) (hb : Located schema b) (hk : a.key = b.key) :
    a = b := by
  obtain ⟨ka, na⟩ := a
  obtain ⟨kb, nb⟩ := b
  obtain rfl : ka = kb := hk
  obtain rfl : na = nb := by simpa using ha.2.symm.trans hb.2
  rfl

/-- A member of a located node is located. -/
lemma located_child {ms : Members} {name : String} {d : Document}
    (hk : (Document.record schema).follow? k.segments = some (.record ms))
    (hd : ms.lookup name = some d) : Located schema ⟨k.child name, d⟩ := by
  refine ⟨?_, ?_⟩
  · simp [Key.child, Key.root]
  · simp [Document.follow?_append, hk, Document.follow?, Document.member?, hd]

lemma located_definition {name : String} {d : Document}
    (hd : (definitionsOf schema).lookup name = some d) :
    Located schema ⟨.definition name, d⟩ := by
  unfold definitionsOf at hd
  split at hd
  · rename_i ds hs
    refine ⟨?_, ?_⟩
    · simp [Key.definition, Key.root]
    · simp [Key.definition, Document.follow?, Document.member?, hs, hd]
  · simp at hd

lemma located_propertySites (hs : (Document.record schema).Distinct)
    (hk : (Document.record schema).follow? k.segments = some (.record m))
    (hb : b ∈ propertySites k m) : Located schema b := by
  unfold propertySites at hb
  split at hb
  · rename_i ps hps
    obtain ⟨⟨name, d⟩, hp, rfl⟩ := List.mem_map.1 hb
    have hd := hs.of_follow? hk
    have hn := (Document.distinct_record.1 (hd.of_lookup hps)).1
    exact located_child (located_child hk hps).2 (Document.Members.lookup_of_mem hn hp)
  · simp at hb

lemma Located.of_leads (hs : (Document.record schema).Distinct) (ha : Located schema a)
    (hb : b ∈ leads (definitionsOf schema) a) : Located schema b := by
  obtain ⟨k, node⟩ := a
  unfold leads at hb
  split at hb
  · rename_i m hm
    obtain rfl : node = .record m := hm
    split at hb
    · split at hb
      · obtain ⟨d, hd, rfl⟩ := List.mem_map.1 hb
        exact located_definition (Option.mem_toList.1 hd)
      · simp at hb
    · simp at hb
    · unfold leadsByType at hb
      have hpatterns : b ∈ (firstPattern? m).toList.map (fun p =>
          (⟨(k.child "patternProperties").child p.1, p.2⟩ : Site)) → Located schema b := by
        intro hb
        obtain ⟨⟨name, d⟩, hd, rfl⟩ := List.mem_map.1 hb
        have hd := Option.mem_toList.1 hd
        unfold firstPattern? at hd
        split at hd
        · rename_i ps hps
          obtain ⟨r, rfl⟩ := List.head?_eq_some_iff.1 hd
          exact located_child (located_child ha.2 hps).2 (by simp)
        · simp at hd
      split at hb
      · obtain ⟨d, hd, rfl⟩ := List.mem_map.1 hb
        exact located_child ha.2 (Option.mem_toList.1 hd)
      · split at hb
        · exact located_propertySites hs ha.2 hb
        · exact hpatterns hb
      · split at hb
        · exact located_propertySites hs ha.2 hb
        · exact hpatterns hb
      · simp at hb
  · simp at hb

lemma Located.of_reaches (hs : (Document.record schema).Distinct) (ha : Located schema a)
    (hab : Reaches (definitionsOf schema) a b) : Located schema b := by
  induction hab with
  | refl => exact ha
  | tail _ hbc ih => exact ih.of_leads hs hbc

/-! ### The way on from a site that is no object -/

def Passes (definitions : Members) (a b : Site) : Prop :=
  a.isObject = false ∧ b ∈ leads definitions a

lemma passes_of_leads (h : shape m = .ok s) (ho : s.isObject = false)
    (hb : leads definitions ⟨k, .record m⟩ = [b]) : Passes definitions ⟨k, .record m⟩ b :=
  ⟨by rw [isObject_of_shape h, ho], by simp [hb]⟩

lemma passes_reference (k : Key) {name : String} {d : Document}
    (h : shape m = .ok (.reference name)) (hd : definitions.lookup name = some d) :
    Passes definitions ⟨k, .record m⟩ ⟨.definition name, d⟩ :=
  passes_of_leads h rfl (leads_reference h hd)

lemma passes_items (definitions : Members) (k : Key) {items : Document} {unique : Bool}
    (h : shape m = .ok (.array (some items) unique)) :
    Passes definitions ⟨k, .record m⟩ ⟨k.child "items", items⟩ :=
  passes_of_leads h rfl (leads_items h)

lemma passes_pattern (definitions : Members) (k : Key) {pattern : String} {value : Document}
    (h : shape m = .ok (.map (some (pattern, value)))) :
    Passes definitions ⟨k, .record m⟩ ⟨(k.child "patternProperties").child pattern, value⟩ :=
  passes_of_leads h rfl (leads_pattern h)

/-- The object at the end of the way on. -/
def Finds (definitions : Members) (a o : Site) : Prop :=
  ReflTransGen (Passes definitions) a o ∧ o.isObject = true

lemma finds_iff_eq (ha : a.isObject = true) : Finds definitions a o ↔ o = a := by
  refine ⟨?_, ?_⟩
  · rintro ⟨h, -⟩
    rcases h.cases_head with h | ⟨b, hb, -⟩
    · exact h.symm
    · rw [hb.1] at ha
      cases ha
  · rintro rfl
    exact ⟨.refl, ha⟩

lemma Passes.finds_iff (h : Passes definitions a b) :
    Finds definitions a o ↔ Finds definitions b o := by
  refine ⟨?_, ?_⟩
  · rintro ⟨hao, ho⟩
    rcases hao.cases_head with rfl | ⟨c, hc, hco⟩
    · rw [h.1] at ho
      cases ho
    · obtain rfl := leads_unique h.1 h.2 hc.2
      exact ⟨hco, ho⟩
  · rintro ⟨hbo, ho⟩
    exact ⟨hbo.head h, ho⟩

lemma finds_iff_of_transGen (h : TransGen (Passes definitions) a b) :
    Finds definitions a o ↔ Finds definitions b o := by
  induction h with
  | single h => exact h.finds_iff
  | tail _ h ih => exact ih.trans h.finds_iff

/-- Where there is no way on, nothing is found. -/
lemma not_finds_of_leads_nil (ha : a.isObject = false) (hl : leads definitions a = []) :
    ¬ Finds definitions a o := by
  rintro ⟨hao, ho⟩
  rcases hao.cases_head with rfl | ⟨b, hb, -⟩
  · rw [ha] at ho
    cases ho
  · have := hb.2
    simp [hl] at this

/-- A way that goes round finds nothing. -/
lemma not_finds_of_round (h : TransGen (Passes definitions) a a) : ¬ Finds definitions a o := by
  rintro ⟨hao, ho⟩
  have round : TransGen (Passes definitions) o o := by
    clear ho
    induction hao with
    | refl => exact h
    | @tail b c _ hbc ih =>
      obtain ⟨d, hbd, hdb⟩ := TransGen.head'_iff.1 ih
      obtain rfl := leads_unique hbc.1 hbc.2 hbd.2
      exact TransGen.tail' hdb hbc
  obtain ⟨c, hc, -⟩ := TransGen.head'_iff.1 round
  rw [hc.1] at ho
  cases ho

end ProviderGen.Schema
