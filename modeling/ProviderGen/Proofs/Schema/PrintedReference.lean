import ProviderGen.Proofs.Java.Copy
import ProviderGen.Proofs.Schema.Escape
import ProviderGen.Proofs.Schema.References

/-!
References that are spelled like printed keys. A reference is read as it stands, while a key is
printed with escapes. So the printed key of a definition refers to that definition if its name
needs no escape, and otherwise to a definition that is called what is written there, which is
another one or none.
-/

namespace ProviderGen.Schema

open Document (Members)
open Java (classesOf)

variable {definitions schema ps m node body : Members} {g : Graph} {p name : String}

/-- A node that is an object with nothing but leaves for its properties. -/
structure IsFlatObject (m : Members) : Prop where
  object : shape m = .ok .object
  leaves : ∃ ps, m.lookup "properties" = some (.record ps) ∧
    ∀ q ∈ ps, ∃ n t, q.2 = .record n ∧ shape n = .ok (.leaf t)

/-- The type of the root's property `p`. -/
def TypedAs (g : Graph) (p : String) (t : FlatType) : Prop :=
  ∃ o ∈ g.objects, o.key = .root ∧ ∃ q ∈ o.properties, q.name = p ∧ q.type = t

/-- What becomes of the property `p` of the root if its node refers to a definition `name`: with
such a definition there is a type for it, whatever the walk has met before, and the object is
there; without one the reference is left dangling. -/
structure LandsOn (schema node : Members) (p name : String) : Prop where
  there : ∀ body, (definitionsOf schema).lookup name = some (.record body) → IsFlatObject body →
    (∀ k g, ∃ g', typeAt (definitionsOf schema) [] k (.record node) g =
      .ok (.object (.definition name), g') ∧ .definition name ∈ g'.keys) ∧
    ∀ g, Graph.ofDocument (.record schema) = .ok g →
      TypedAs g p (.object (.definition name)) ∧ .definition name ∈ g.keys ∧
      ∀ rootName package e, classesOf rootName package g = .error e →
        e.missing ≠ .definition name
  missing : (definitionsOf schema).lookup name = none →
    ∀ g, Graph.ofDocument (.record schema) = .ok g →
      TypedAs g p (.object (.definition name)) ∧ .definition name ∉ g.keys ∧
      ∀ rootName package, ∃ e, classesOf rootName package g = .error e

/-! ### From a reference to an object -/

/-- Leaves are typed without a change to the graph. -/
lemma walks_leaves {opening : List String} {path : Key} {required : List String}
    (h : ∀ q ∈ ps, ∃ n t, q.2 = .record n ∧ shape n = .ok (.leaf t)) :
    ∃ properties, Walks definitions opening g (.members path required ps properties) g := by
  induction ps with
  | nil => exact ⟨[], .nil⟩
  | cons q r ih =>
    obtain ⟨q, d⟩ := q
    obtain ⟨⟨n, t, rfl, hleaf⟩, hr⟩ := List.forall_mem_cons.1 h
    obtain ⟨properties, hw⟩ := ih hr
    exact ⟨_, .cons (.leaf hleaf) hw⟩

/-- From a reference the walk comes to the object, or it has been there before. -/
lemma walks_reference (h : shape node = .ok (.reference name))
    (hd : definitions.lookup name = some (.record body)) (hbody : IsFlatObject body) (k : Key)
    (g : Graph) : ∃ g', Walks definitions [] g
      (.node ⟨k, .record node⟩ (.object (.definition name))) g' ∧ .definition name ∈ g'.keys := by
  by_cases hg : Key.definition name ∈ g.keys
  · exact ⟨g, .known h hd hg, hg⟩
  · obtain ⟨ps, hps, hleaves⟩ := hbody.leaves
    obtain ⟨properties, hw⟩ := walks_leaves hleaves
    exact ⟨_, .enter h hd hg List.not_mem_nil (.hoist hbody.object hg hps hw),
      Graph.mem_keys_insert.2 (Or.inl rfl)⟩

/-! ### At the root -/

/-- A member among the root's properties is a property with the type of its node. -/
lemma typedAs_of_typed (hd : (Document.record schema).Distinct)
    (hps : schema.lookup "properties" = some (.record ps)) (hp : (p, .record node) ∈ ps)
    (hg : Graph.ofDocument (.record schema) = .ok g) {t : FlatType}
    (ht : Typed (definitionsOf schema) [] ⟨rootPath.child p, .record node⟩ t) :
    TypedAs g p t := by
  obtain ⟨o, ho, hroot⟩ : ∃ o ∈ g.objects, o.key = .root := by
    obtain ⟨order, -, hk⟩ := keys_of_document hd hg
    exact List.mem_map.1 (show Key.root ∈ g.keys by rw [hk]; exact List.mem_cons_self)
  rcases root_of_document hd hg ho hroot with ⟨hnone, -⟩ | ⟨ps', hps', hdeclared⟩
  · rw [hps] at hnone
    cases hnone
  · obtain rfl := Document.record.inj (Option.some.inj (hps.symm.trans hps'))
    obtain ⟨q, hq, hname, -, ht'⟩ := exists_of_forall₂ hdeclared.flip hp
    exact ⟨o, ho, hroot, q, hq, hname, ht'.unique ht⟩

lemma visited_of_reference (hps : schema.lookup "properties" = some (.record ps))
    (hp : (p, .record node) ∈ ps) : Visited schema ⟨rootPath.child p, .record node⟩ := by
  refine ⟨_, ?_, .refl⟩
  rw [propertySites_of_lookup hps]
  exact List.mem_map.2 ⟨_, hp, rfl⟩

lemma landsOn_of_shape (hd : (Document.record schema).Distinct)
    (hps : schema.lookup "properties" = some (.record ps)) (hp : (p, .record node) ∈ ps)
    (h : shape node = .ok (.reference name)) : LandsOn schema node p name := by
  have hvisited := visited_of_reference hps hp
  constructor
  · intro body hbody hflat
    refine ⟨fun k g => ?_, fun g hg => ?_⟩
    · obtain ⟨g', hw, hin⟩ := walks_reference h hbody hflat k g
      exact ⟨g', hw.answers, hin⟩
    · have hobject : Site.isObject ⟨.definition name, .record body⟩ = true :=
        isObject_of_shape hflat.object
      have hin : Key.definition name ∈ g.keys := by
        obtain ⟨a, ha, has⟩ := hvisited
        exact visited_mem_keys hd hg (s := ⟨.definition name, .record body⟩)
          ⟨a, ha, has.tail (passes_reference _ h hbody).2⟩ hobject
      refine ⟨typedAs_of_typed hd hps hp hg (.toObject h hbody hobject), hin, ?_⟩
      intro rootName package e he hmissing
      exact Java.missing_not_mem he (hmissing ▸ hin)
  · intro hnone g hg
    have hmissing : Missing schema name := ⟨_, hvisited, node, rfl, h, hnone⟩
    have htyped := typedAs_of_typed hd hps hp hg (.absent h hnone)
    have hnot := hmissing.not_mem_keys hd hg
    refine ⟨htyped, hnot, fun rootName package => ?_⟩
    have hr := Java.classesOf_result rootName package g
    cases hc : classesOf rootName package g with
    | error e => exact ⟨e, rfl⟩
    | ok classes =>
      rw [hc] at hr
      obtain ⟨o, ho, -, q, hq, -, ht⟩ := htyped
      exact absurd (hr.1 o ho q hq _ (by rw [ht]; rfl)) hnot

/-- **A printed key refers to the definition that is called what is written in it.** That is the
definition with the key if its name needs no escape, and is not if it does. -/
theorem printed_reference (hd : (Document.record schema).Distinct)
    (hps : schema.lookup "properties" = some (.record ps)) (hp : (p, .record node) ∈ ps)
    (href : node.lookup "$ref" = some (.text (Key.definition name).text)) (hname : name ≠ "") :
    (IsPlainName name → LandsOn schema node p name) ∧
      (¬ IsPlainName name → written name ≠ name ∧ LandsOn schema node p (written name)) := by
  have hshape : shape node = .ok (.reference (written name)) := by
    rw [shape, href]
    dsimp only
    rw [referenceName_text hname]
    rfl
  have hlands := landsOn_of_shape hd hps hp hshape
  refine ⟨fun hplain => ?_, fun hplain => ⟨fun h => hplain (written_eq_iff.1 h), hlands⟩⟩
  rwa [written_eq_iff.2 hplain] at hlands

/-- A definition with a name that is odd, but needs no escape. -/
def hatch : Members :=
  [("properties", .record [("lid", .record [("$ref", .text "#/definitions/Lid (50 %)")])]),
   ("definitions", .record [("Lid (50 %)", .record [("type", .text "object"),
     ("properties", .record [("size", .record [("type", .text "integer")])])])])]

theorem printed_reference_hatch : (Document.record hatch).Distinct ∧
    IsPlainName "Lid (50 %)" ∧ ∃ g, Graph.ofDocument (.record hatch) = .ok g ∧
      TypedAs g "lid" (.object (.definition "Lid (50 %)")) ∧
      .definition "Lid (50 %)" ∈ g.keys := by
  have hd : (Document.record hatch).Distinct := by simp [hatch]
  have hplain : IsPlainName "Lid (50 %)" := by decide
  have hg : Graph.ofDocument (.record hatch) = .ok _ :=
    ofDocument_record.2 (Or.inr ⟨_, _, _, rfl, .cons (.enter rfl rfl (by decide) (by decide)
      (.hoist rfl (by decide) rfl (.cons (.leaf rfl) .nil))) .nil, rfl⟩)
  have htext : (Key.definition "Lid (50 %)").text = "#/definitions/Lid (50 %)" := by
    rw [text_definition]
    decide
  have href : [("$ref", Document.text "#/definitions/Lid (50 %)")].lookup "$ref" =
      some (.text (Key.definition "Lid (50 %)").text) := by
    rw [htext]
    rfl
  obtain ⟨hlands, -⟩ := printed_reference hd (p := "lid") rfl List.mem_cons_self href (by decide)
  obtain ⟨-, hall⟩ := (hlands hplain).there _ rfl
    ⟨rfl, _, rfl, List.forall_mem_singleton.2 ⟨_, _, rfl, rfl⟩⟩
  obtain ⟨htyped, hin, -⟩ := hall _ hg
  exact ⟨hd, hplain, _, hg, htyped, hin⟩

/-- The printed key of a definition with a slash in its name, as a reference. -/
def fork : Members :=
  [("properties", .record [("way", .record [("$ref", .text "#/definitions/left~1right")])]),
   ("definitions", .record [("left/right", .record [("type", .text "object"),
     ("properties", .record [("sign", .record [("type", .text "string")])])])])]

/-- The definition is an object and the reference is its printed key, but there are no classes. -/
theorem slash_left_dangling : (Document.record fork).Distinct ∧
    (Key.definition "left/right").text = "#/definitions/left~1right" ∧
    (∃ body, (definitionsOf fork).lookup "left/right" = some (.record body) ∧ IsFlatObject body) ∧
    ∃ g, Graph.ofDocument (.record fork) = .ok g ∧
      ¬ TypedAs g "way" (.object (.definition "left/right")) ∧
      .definition "left/right" ∉ g.keys ∧
      ∀ rootName package, ∃ e, classesOf rootName package g = .error e := by
  have hd : (Document.record fork).Distinct := by simp [fork]
  have hg : Graph.ofDocument (.record fork) = .ok _ :=
    ofDocument_record.2 (Or.inr ⟨_, _, _, rfl, .cons (.absent rfl rfl) .nil, rfl⟩)
  have hlands := landsOn_of_shape hd (p := "way") rfl List.mem_cons_self rfl
  obtain ⟨-, -, hdangling⟩ := hlands.missing rfl _ hg
  have htext : (Key.definition "left/right").text = "#/definitions/left~1right" := by
    rw [text_definition]
    decide
  have hflat : ∃ body, (definitionsOf fork).lookup "left/right" = some (.record body) ∧
      IsFlatObject body :=
    ⟨_, rfl, rfl, _, rfl, List.forall_mem_singleton.2 ⟨_, _, rfl, rfl⟩⟩
  refine ⟨hd, htext, hflat, _, hg, ?_, by decide, hdangling⟩
  rintro ⟨o, ho, -, q, hq, -, ht⟩
  obtain rfl := List.mem_singleton.1 ho
  obtain rfl := List.mem_singleton.1 hq
  exact absurd ht (by decide)

end ProviderGen.Schema
