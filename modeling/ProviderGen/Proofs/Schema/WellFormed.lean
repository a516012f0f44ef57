import ProviderGen.Error
import ProviderGen.Proofs.Schema.Failure
import ProviderGen.Proofs.Text.Join

/-!
Which schemas are read, and what is said of the others. A schema is read exactly if every node
that can be reached in it is well formed; nodes that nothing leads to are not looked at. Otherwise
the error points at the first node that is not, in the order in which the nodes are visited.
-/

namespace ProviderGen.Schema

open Document (Members)

/-- A reference to a definition at the top of the schema. -/
def IsReference (d : Document) : Prop :=
  ∃ name : String, d = .text ("#/definitions/" ++ name) ∧ name ≠ "" ∧ '/' ∉ name.toList

def typeNames : List String :=
  ["string", "integer", "number", "boolean", "array", "object", "null"]

/-- A node that can be read. The root is an object whatever it refers to and whatever its type,
so only its properties count. -/
def Site.WellFormed (s : Site) : Prop :=
  ∃ m, s.node = .record m ∧
    (s.key ≠ .root → (∀ r, m.lookup "$ref" = some r → IsReference r) ∧
      (m.lookup "$ref" = none → ∀ t, declaredType? m = some t → t ∈ typeNames)) ∧
    (s.key = .root ∨ s.isObject = true →
      ∀ d, m.lookup "properties" = some d → ∃ ps, d = .record ps)

/-- The root, and all that its properties lead to. -/
inductive Reachable : Document → Site → Prop where
  | root {d : Document} : Reachable d ⟨.root, d⟩
  | visited {schema : Members} {s : Site} (h : Visited schema s) :
      Reachable (.record schema) s

/-- The order of visits: the root first, and what its properties lead to in depth-first order. -/
inductive Traversal : Document → List Site → Prop where
  | record {schema : Members} {order : List Site}
      (h : DepthFirst (leads (definitionsOf schema)) [] (propertySites .root schema) order) :
      Traversal (.record schema) (⟨.root, .record schema⟩ :: order)
  | other {d : Document} (h : ∀ schema, d ≠ .record schema) : Traversal d [⟨.root, d⟩]

variable {schema m : Members} {d : Document} {s : Site} {order : List Site}

lemma Traversal.unique {order' : List Site} (h : Traversal d order) (h' : Traversal d order') :
    order = order' := by
  cases h with
  | record h =>
    cases h' with
    | record h' => rw [h.unique h']
    | other h' => exact absurd rfl (h' _)
  | other h =>
    cases h' with
    | record h' => exact absurd rfl (h _)
    | other h' => rfl

lemma Traversal.mem_iff (h : Traversal d order) : s ∈ order ↔ Reachable d s := by
  cases h with
  | record h =>
    rw [List.mem_cons, h.mem_iff]
    refine ⟨?_, ?_⟩
    · rintro (rfl | hs)
      · exact .root
      · exact .visited hs
    · intro hs
      cases hs with
      | root => exact Or.inl rfl
      | visited hs => exact Or.inr hs
  | other h =>
    rw [List.mem_singleton]
    refine ⟨?_, ?_⟩
    · rintro rfl
      exact .root
    · intro hs
      cases hs with
      | root => rfl
      | visited hs => exact absurd rfl (h _)

/-! ### What can be read -/

lemma isReference_iff {r : String} :
    (∃ name, referenceName r = .ok name) ↔ IsReference (.text r) := by
  have hstart : referencePrefix.toList.isPrefixOf r.toList = true ↔
      ∃ name : String, r = referencePrefix ++ name := by
    rw [List.isPrefixOf_iff_prefix]
    refine ⟨?_, ?_⟩
    · rintro ⟨cs, hcs⟩
      exact ⟨String.ofList cs, String.toList_inj.1 (by simp [← hcs])⟩
    · rintro ⟨name, rfl⟩
      exact ⟨name.toList, by simp⟩
  have hdrop : ∀ name : String,
      (referencePrefix ++ name).toList.drop referencePrefix.length = name.toList :=
    Text.drop_append referencePrefix
  unfold referenceName
  refine ⟨?_, ?_⟩
  · rintro ⟨found, h⟩
    split at h
    · rename_i hp
      obtain ⟨name, rfl⟩ := hstart.1 hp
      rw [hdrop] at h
      dsimp only at h
      split at h
      · cases h
      · rename_i hok
        simp only [Bool.or_eq_true, List.isEmpty_iff, List.contains_iff_mem, not_or] at hok
        refine ⟨name, rfl, ?_, hok.2⟩
        rintro rfl
        exact hok.1 rfl
    · cases h
  · rintro ⟨name, hr, hne, hslash⟩
    obtain rfl : r = referencePrefix ++ name := Document.text.inj hr
    rw [if_pos (hstart.2 ⟨name, rfl⟩), hdrop]
    have hok : ¬ (name.toList.isEmpty || name.toList.contains '/') = true := by
      simp only [Bool.or_eq_true, List.isEmpty_iff, List.contains_iff_mem, not_or]
      exact ⟨fun h => hne (String.toList_inj.1 (by simpa using h)), hslash⟩
    exact ⟨_, if_neg hok⟩

lemma shapeOfType_iff {t : Option String} :
    (∃ sh, shapeOfType m t = .ok sh) ↔ ∀ u, t = some u → u ∈ typeNames := by
  unfold shapeOfType
  split
  case h_8 t hs hi hn hb ha ho hnull =>
    have hnot : t ∉ typeNames := by simp_all [typeNames]
    simp [hnot]
  case h_6 => split <;> simp [typeNames]
  case h_9 =>
    split
    · simp
    · split <;> simp
  all_goals simp [typeNames]

lemma shape_iff : (∃ sh, shape m = .ok sh) ↔
    (∀ r, m.lookup "$ref" = some r → IsReference r) ∧
      (m.lookup "$ref" = none → ∀ t, declaredType? m = some t → t ∈ typeNames) := by
  refine ⟨?_, ?_⟩
  · rintro ⟨sh, hs⟩
    rcases shape_cases hs with ⟨r, name, hr, hn, rfl⟩ | ⟨hr, ht⟩
    · refine ⟨fun r' hr' => ?_, fun hnone => ?_⟩
      · obtain rfl := Option.some.inj (hr.symm.trans hr')
        exact isReference_iff.1 ⟨name, hn⟩
      · rw [hr] at hnone
        cases hnone
    · refine ⟨fun r' hr' => ?_, fun _ => shapeOfType_iff.1 ⟨sh, ht⟩⟩
      rw [hr] at hr'
      cases hr'
  · rintro ⟨href, htype⟩
    unfold shape
    cases hr : m.lookup "$ref" with
    | none => exact shapeOfType_iff.2 (htype hr)
    | some r =>
      obtain ⟨name, rfl, hname⟩ := href r hr
      obtain ⟨found, hfound⟩ := isReference_iff.2 ⟨name, rfl, hname⟩
      exact ⟨.reference found, by simp only [hfound, Except.map]⟩

/-- A node behind the root is well formed exactly if the walk can read it. -/
lemma sound_iff_wellFormed (hk : s.key ≠ .root) : s.Sound ↔ s.WellFormed := by
  obtain ⟨k, node⟩ := s
  refine ⟨?_, ?_⟩
  · rintro ⟨m, sh, rfl, hs, hp⟩
    refine ⟨m, rfl, fun _ => shape_iff.1 ⟨sh, hs⟩, ?_⟩
    rintro (hroot | ho) d hd
    · exact absurd hroot hk
    · rw [isObject_of_shape hs] at ho
      cases sh with
      | object =>
        obtain ⟨ps, hps⟩ := hp rfl
        exact ⟨ps, Option.some.inj (hd.symm.trans hps)⟩
      | _ => cases ho
  · rintro ⟨m, rfl, hread, hp⟩
    obtain ⟨sh, hs⟩ := shape_iff.2 (hread hk)
    refine ⟨m, sh, rfl, hs, ?_⟩
    rintro rfl
    obtain ⟨d, hd⟩ := Option.ne_none_iff_exists'.1 (has_properties_of_object hs)
    obtain ⟨ps, rfl⟩ := hp (Or.inr (isObject_of_shape hs)) d hd
    exact ⟨ps, hd⟩

lemma root_wellFormed :
    Site.WellFormed ⟨.root, .record schema⟩ ↔
      ∀ d, schema.lookup "properties" = some d → ∃ ps, d = .record ps := by
  refine ⟨?_, ?_⟩
  · rintro ⟨m, hm, -, hp⟩
    obtain rfl := Document.record.inj hm
    exact hp (Or.inl rfl)
  · intro hp
    exact ⟨schema, rfl, fun hk => absurd rfl hk, fun _ => hp⟩

/-! ### Accepted and refused schemas -/

lemma Visited.located (hd : (Document.record schema).Distinct) (h : Visited schema s) :
    Located schema s := by
  obtain ⟨a, ha, has⟩ := h
  exact (located_propertySites (k := .root) hd rfl ha).of_reaches hd has

/-- A schema from which a graph is made is well formed wherever it is looked at. -/
lemma wellFormed_of_document (hd : d.Distinct) {g : Graph} (hg : Graph.ofDocument d = .ok g) :
    ∀ s, Reachable d s → s.WellFormed := by
  intro s hs
  cases d with
  | record schema =>
    rcases ofDocument_record.1 hg with ⟨hp, -⟩ | ⟨ps, properties, g₁, hp, hw, -⟩
    · cases hs with
      | root => exact root_wellFormed.2 (by simp [hp])
      | visited hs =>
        obtain ⟨a, ha, -⟩ := hs
        simp [propertySites, hp] at ha
    · cases hs with
      | root => exact root_wellFormed.2 (by simp [hp])
      | visited hs =>
        have hkey := (hs.located hd).1
        obtain ⟨a, ha, has⟩ := hs
        rw [propertySites_of_lookup hp] at ha
        obtain ⟨order, ho, -, hsound⟩ := depthFirst_of_walks hd (located_root hd hp) hw
        exact (sound_iff_wellFormed hkey).1 (hsound s (ho.mem_iff.2 ⟨a, ha, has⟩))
  | _ => cases hg

/-- A schema from which no graph is made has a first node that is not well formed. -/
lemma ill_formed_of_document (hd : d.Distinct) {e : Defect} (he : Graph.ofDocument d = .error e) :
    ∃ before s after, Traversal d (before ++ s :: after) ∧ (∀ u ∈ before, u.WellFormed) ∧
      ¬ s.WellFormed ∧ s.key = e.place ∧ d.follow? s.key.segments = some s.node := by
  cases d with
  | record schema =>
    rcases refused_of_document hd he with
      ⟨hk, d, hp, hno⟩ | ⟨⟨ps, hp⟩, before, b, after, hk, hl, hb, hbefore, ho⟩
    · obtain ⟨order, ho⟩ := exists_order [] hd
        fun s hs => located_propertySites (k := .root) hd rfl hs
      refine ⟨[], ⟨.root, .record schema⟩, order, .record ho, by simp, ?_, hk.symm, rfl⟩
      rw [root_wellFormed]
      intro h
      obtain ⟨ps, rfl⟩ := h d hp
      exact hno ps rfl
    · have hroot : Site.WellFormed ⟨.root, .record schema⟩ := root_wellFormed.2 (by simp [hp])
      refine ⟨⟨.root, .record schema⟩ :: before, b, after, .record ho,
        List.forall_mem_cons.2 ⟨hroot, fun u hu => ?_⟩, fun h => hb ?_, hk, hl.2⟩
      · have hvisited : Visited schema u := ho.reached (List.mem_append_left _ hu)
        exact (sound_iff_wellFormed (hvisited.located hd).1).1 (hbefore u hu)
      · exact (sound_iff_wellFormed hl.1).2 h
  | _ =>
    obtain rfl := Except.error.inj he
    refine ⟨[], ⟨.root, _⟩, [], .other (by simp), by simp, ?_, rfl, rfl⟩
    rintro ⟨m, hm, -⟩
    cases hm

/-- **A schema is accepted exactly if all that can be reached in it is well formed**, and a refusal
points at the first node on the way that is not. -/
theorem accepted_iff_wellFormed (hd : d.Distinct) :
    ((∃ g, Graph.ofDocument d = .ok g) ↔ ∀ s, Reachable d s → s.WellFormed) ∧
      ∀ error, (Graph.ofDocument d).mapError Error.ofDefect = .error error →
        ∃ before s after reason,
          (∀ order, Traversal d order ↔ order = before ++ s :: after) ∧
          (∀ u ∈ before, u.WellFormed) ∧ ¬ s.WellFormed ∧
          d.follow? s.key.segments = some s.node ∧ error = .badSchema s.key.text reason := by
  refine ⟨⟨?_, ?_⟩, ?_⟩
  · rintro ⟨g, hg⟩
    exact wellFormed_of_document hd hg
  · intro hall
    cases hg : Graph.ofDocument d with
    | ok g => exact ⟨g, rfl⟩
    | error e =>
      obtain ⟨before, s, after, ht, -, hill, -⟩ := ill_formed_of_document hd hg
      exact absurd (hall s (ht.mem_iff.1 (by simp))) hill
  · intro error he
    cases hg : Graph.ofDocument d with
    | ok g =>
      rw [hg] at he
      cases he
    | error e =>
      rw [hg] at he
      obtain rfl : Error.ofDefect e = error := Except.error.inj he
      obtain ⟨before, s, after, ht, hbefore, hill, hk, hfollow⟩ := ill_formed_of_document hd hg
      refine ⟨before, s, after, e.fault.message, fun order => ⟨fun h => h.unique ht, ?_⟩,
        hbefore, hill, hfollow, by rw [hk]; rfl⟩
      rintro rfl
      exact ht

/-- A chain of links that refer to the chain again, with a bad property behind the reference; the
unused definition and the type of the root are not looked at. -/
def chain : Members :=
  [("type", .text "chain"),
   ("properties", .record [("head", .record [("$ref", .text "#/definitions/Chain")]),
     ("tail", .record [("type", .text "link")])]),
   ("definitions", .record [("Unused", .null),
     ("Chain", .record [("type", .text "array"),
       ("items", .record [("$ref", .text "#/definitions/Link")])]),
     ("Link", .record [("properties", .record [
       ("next", .record [("$ref", .text "#/definitions/Chain")]), ("size", .bool true)])])])]

lemma chain_defect : Graph.ofDocument (.record chain) =
    .error ⟨⟨["definitions", "Link", "properties", "size"]⟩, .nodeNotRecord⟩ := by
  have hchain : shape [("$ref", .text "#/definitions/Chain")] = .ok (.reference "Chain") := rfl
  have hlink : shape [("$ref", .text "#/definitions/Link")] = .ok (.reference "Link") := rfl
  have hitems : shape [("type", .text "array"),
      ("items", .record [("$ref", .text "#/definitions/Link")])] =
      .ok (.array (some (.record [("$ref", .text "#/definitions/Link")])) false) := rfl
  have hobject : shape [("properties", .record [
      ("next", .record [("$ref", .text "#/definitions/Chain")]), ("size", .bool true)])] =
      .ok .object := rfl
  simp [Graph.ofDocument, hoist_eq, typeAt_record, propertiesAt, typeAt, chain, hchain, hlink,
    hitems, hobject, definitionsOf, Graph.keys_insert, List.lookup_cons, bind, Except.bind, Key.root,
    Key.definition, Key.child]

theorem chain_refused :
    (Document.record chain).Distinct ∧
      ¬ (∃ g, Graph.ofDocument (.record chain) = .ok g) ∧
      ¬ (∀ s, Reachable (.record chain) s → s.WellFormed) ∧
      ∃ before s after, Traversal (.record chain) (before ++ s :: after) ∧
        (∀ u ∈ before, u.WellFormed) ∧ ¬ s.WellFormed ∧
        s.key.text = "#/definitions/Link/properties/size" := by
  have hd : (Document.record chain).Distinct := by simp [chain]
  have hno : ¬ ∃ g, Graph.ofDocument (.record chain) = .ok g := by simp [chain_defect]
  obtain ⟨hiff, herror⟩ := accepted_iff_wellFormed hd
  obtain ⟨before, s, after, reason, ht, hbefore, hill, -, e⟩ :=
    herror (.ofDefect ⟨⟨["definitions", "Link", "properties", "size"]⟩, .nodeNotRecord⟩)
      (by rw [chain_defect]; rfl)
  exact ⟨hd, hno, mt hiff.2 hno, before, s, after, (ht _).2 rfl, hbefore, hill,
    (Error.badSchema.inj e).1.symm.trans (by decide)⟩

end ProviderGen.Schema
