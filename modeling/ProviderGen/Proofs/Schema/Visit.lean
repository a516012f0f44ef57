import ProviderGen.Proofs.Schema.Graph
import ProviderGen.Proofs.Schema.Site

/-!
The walk through a schema as a relation, with one rule for each thing that it can do. A part of
the walk either finds the type of one node or the properties declared by some members; it starts
and ends with a graph.
-/

namespace ProviderGen.Schema

open Document (Members)

/-- A part of the walk, together with what it finds. -/
inductive Task where
  | node (site : Site) (type : FlatType)
  | members (path : Key) (required : List String) (ps : Members) (properties : List Property)

inductive Walks (definitions : Members) : List String → Graph → Task → Graph → Prop where
  | leaf {opening g k m t} (h : shape m = .ok (.leaf t)) :
      Walks definitions opening g (.node ⟨k, .record m⟩ t) g
  | absent {opening g k m name} (h : shape m = .ok (.reference name))
      (hd : definitions.lookup name = none) :
      Walks definitions opening g (.node ⟨k, .record m⟩ (.object (.definition name))) g
  | known {opening g k m name body} (h : shape m = .ok (.reference name))
      (hd : definitions.lookup name = some body) (hg : .definition name ∈ g.keys) :
      Walks definitions opening g (.node ⟨k, .record m⟩ (.object (.definition name))) g
  | open {opening g k m name body} (h : shape m = .ok (.reference name))
      (hd : definitions.lookup name = some body) (hg : .definition name ∉ g.keys)
      (ho : name ∈ opening) : Walks definitions opening g (.node ⟨k, .record m⟩ .any) g
  | enter {opening g g' k m name body t} (h : shape m = .ok (.reference name))
      (hd : definitions.lookup name = some body) (hg : .definition name ∉ g.keys)
      (ho : name ∉ opening)
      (hw : Walks definitions (name :: opening) g (.node ⟨.definition name, body⟩ t) g') :
      Walks definitions opening g (.node ⟨k, .record m⟩ t) g'
  | arrayOfAny {opening g k m unique} (h : shape m = .ok (.array none unique)) :
      Walks definitions opening g (.node ⟨k, .record m⟩ (collection unique .any)) g
  | array {opening g g' k m unique items t} (h : shape m = .ok (.array (some items) unique))
      (hw : Walks definitions opening g (.node ⟨k.child "items", items⟩ t) g') :
      Walks definitions opening g (.node ⟨k, .record m⟩ (collection unique t)) g'
  | mapOfAny {opening g k m} (h : shape m = .ok (.map none)) :
      Walks definitions opening g (.node ⟨k, .record m⟩ (.map .any)) g
  | map {opening g g' k m pattern value t} (h : shape m = .ok (.map (some (pattern, value))))
      (hw : Walks definitions opening g
        (.node ⟨(k.child "patternProperties").child pattern, value⟩ t) g') :
      Walks definitions opening g (.node ⟨k, .record m⟩ (.map t)) g'
  | again {opening g k m} (h : shape m = .ok .object) (hg : k ∈ g.keys) :
      Walks definitions opening g (.node ⟨k, .record m⟩ (.object k)) g
  | hoist {opening g g' k m ps properties} (h : shape m = .ok .object) (hg : k ∉ g.keys)
      (hp : m.lookup "properties" = some (.record ps))
      (hw : Walks definitions opening (g.insert ⟨k, []⟩)
        (.members (k.child "properties") (requiredNames m) ps properties) g') :
      Walks definitions opening g (.node ⟨k, .record m⟩ (.object k)) (g'.insert ⟨k, properties⟩)
  | nil {opening g path required} : Walks definitions opening g (.members path required [] []) g
  | cons {opening g g' g'' path required name node ps t properties}
      (hn : Walks definitions opening g (.node ⟨path.child name, node⟩ t) g')
      (hr : Walks definitions opening g' (.members path required ps properties) g'') :
      Walks definitions opening g (.members path required ((name, node) :: ps)
        (⟨name, t, required.contains name⟩ :: properties)) g''

variable {definitions : Members} {opening : List String} {g g' : Graph}

/-! ### Every walk that ends well is described, and any other meets an unsound node -/

def NodeResult (definitions : Members) (opening : List String) (s : Site) (g : Graph) :
    Except Defect (FlatType × Graph) → Prop
  | .ok (t, g') => Walks definitions opening g (.node s t) g'
  | .error e => ∃ b, Reaches definitions s b ∧ ¬ b.Sound ∧ b.key = e.place

def MembersResult (definitions : Members) (opening : List String) (path : Key)
    (required : List String) (ps : Members) (g : Graph) :
    Except Defect (List Property × Graph) → Prop
  | .ok (properties, g') => Walks definitions opening g (.members path required ps properties) g'
  | .error e => ∃ a ∈ memberSites path ps, ∃ b, Reaches definitions a b ∧ ¬ b.Sound ∧
      b.key = e.place

/-- The three ways in which an object joins the graph: it is there already, it declares no
properties, or the properties that it declares are found. -/
def HoistResult (definitions : Members) (opening : List String) (k : Key) (m : Members)
    (g : Graph) : Except Defect Graph → Prop
  | .ok g' =>
    (k ∈ g.keys ∧ g' = g) ∨
    (k ∉ g.keys ∧ m.lookup "properties" = none ∧ g' = g.insert ⟨k, []⟩) ∨
    ∃ ps properties g₁, k ∉ g.keys ∧ m.lookup "properties" = some (.record ps) ∧
      Walks definitions opening (g.insert ⟨k, []⟩)
        (.members (k.child "properties") (requiredNames m) ps properties) g₁ ∧
      g' = g₁.insert ⟨k, properties⟩
  | .error e =>
    (e.place = k ∧ ∀ ps, m.lookup "properties" ≠ some (.record ps)) ∨
    ∃ a ∈ propertySites k m, ∃ b, Reaches definitions a b ∧ ¬ b.Sound ∧ b.key = e.place

/-- The walk at a record, without the measure in the way. -/
lemma typeAt_record (k : Key) (m : Members) :
    typeAt definitions opening k (.record m) g =
      match shape m with
      | .ok (.leaf t) => .ok (t, g)
      | .ok (.reference name) =>
        match definitions.lookup name with
        | none => .ok (.object (.definition name), g)
        | some body =>
          if .definition name ∈ g.keys then .ok (.object (.definition name), g)
          else if name ∈ opening then .ok (.any, g)
          else typeAt definitions (name :: opening) (.definition name) body g
      | .ok (.array none unique) => .ok (collection unique .any, g)
      | .ok (.array (some items) unique) => do
        let (t, g) ← typeAt definitions opening (k.child "items") items g
        .ok (collection unique t, g)
      | .ok .object => do
        let g ← hoist definitions opening k m g
        .ok (.object k, g)
      | .ok (.map none) => .ok (.map .any, g)
      | .ok (.map (some (pattern, value))) => do
        let (t, g) ←
          typeAt definitions opening ((k.child "patternProperties").child pattern) value g
        .ok (.map t, g)
      | .error fault => .error ⟨k, fault⟩ := by
  conv_lhs => unfold typeAt
  split <;> rename_i hs <;> simp only [hs]
  split <;> rename_i hd <;> simp only [hd, Graph.contains_iff]
  split
  · rfl
  · split <;> rfl

lemma hoist_eq (k : Key) (m : Members) :
    hoist definitions opening k m g =
      if k ∈ g.keys then .ok g
      else
        match m.lookup "properties" with
        | none => .ok (g.insert ⟨k, []⟩)
        | some (.record ps) => do
          let (properties, g) ← propertiesAt definitions opening (k.child "properties")
            (requiredNames m) ps (g.insert ⟨k, []⟩)
          .ok (g.insert ⟨k, properties⟩)
        | some _ => .error ⟨k, .propertiesNotRecord⟩ := by
  conv_lhs => unfold hoist
  simp only [Graph.contains_iff]
  split
  · rfl
  · split <;> rename_i hp <;> simp only [hp]

/-- A fault met further on is met from here. -/
lemma unsound_of_leads {a b : Site} {e : Defect} (hb : b ∈ leads definitions a)
    (h : ∃ c, Reaches definitions b c ∧ ¬ c.Sound ∧ c.key = e.place) :
    ∃ c, Reaches definitions a c ∧ ¬ c.Sound ∧ c.key = e.place := by
  obtain ⟨c, hc, hs⟩ := h
  exact ⟨c, hc.head hb, hs⟩

lemma hoist_result_node {k : Key} {m : Members} (hs : shape m = .ok .object)
    (h : HoistResult definitions opening k m g (hoist definitions opening k m g)) :
    NodeResult definitions opening ⟨k, .record m⟩ g
      (typeAt definitions opening k (.record m) g) := by
  rw [typeAt_record, hs]
  dsimp only
  cases hr : hoist definitions opening k m g with
  | error e =>
    rw [hr] at h
    rcases h with ⟨he, hp⟩ | ⟨a, ha, hb⟩
    · refine ⟨_, .refl, ?_, he.symm⟩
      rintro ⟨m', sh, hm, hs', hr'⟩
      cases hm
      obtain rfl : Shape.object = sh := by simpa [hs] using hs'
      obtain ⟨ps, hps⟩ := hr' rfl
      exact hp ps hps
    · refine unsound_of_leads ?_ hb
      rw [leads_of_shape hs]
      exact ha
  | ok g' =>
    rw [hr] at h
    rcases h with ⟨hk, rfl⟩ | ⟨_, hp, _⟩ | ⟨ps, properties, g₁, hk, hp, hw, rfl⟩
    · exact .again hs hk
    · exact absurd hp (has_properties_of_object hs)
    · exact .hoist hs hk hp hw

/-- The three functions of the walk at once. -/
theorem walk_result (definitions : Members) :
    (∀ opening k node g, NodeResult definitions opening ⟨k, node⟩ g
      (typeAt definitions opening k node g)) ∧
    (∀ opening k m g, HoistResult definitions opening k m g (hoist definitions opening k m g)) ∧
    (∀ opening path required ps g, MembersResult definitions opening path required ps g
      (propertiesAt definitions opening path required ps g)) := by
  apply typeAt.mutual_induct definitions
  · intro opening k g m fault hs
    rw [typeAt_record, hs]
    refine ⟨_, .refl, ?_, rfl⟩
    rintro ⟨m', sh, hm, hs', -⟩
    cases hm
    rw [hs] at hs'
    cases hs'
  · intro opening k g m t hs
    rw [typeAt_record, hs]
    exact .leaf hs
  · intro opening k g m name hs hd
    simp only [typeAt_record, hs, hd]
    exact .absent hs hd
  · intro opening k g m name hs body hd hg
    rw [Graph.contains_iff] at hg
    simp only [typeAt_record, hs, hd, if_pos hg]
    exact .known hs hd hg
  · intro opening k g m name hs body hd hg ho
    rw [Graph.contains_iff] at hg
    simp only [typeAt_record, hs, hd, if_neg hg, if_pos ho]
    exact .open hs hd hg ho
  · intro opening k g m name hs body hd hg ho ih
    rw [Graph.contains_iff] at hg
    simp only [typeAt_record, hs, hd, if_neg hg, if_neg ho]
    cases hr : typeAt definitions (name :: opening) (.definition name) body g with
    | error e =>
      rw [hr] at ih
      refine unsound_of_leads ?_ ih
      simp [leads_reference hs hd]
    | ok p =>
      rw [hr] at ih
      exact .enter hs hd hg ho ih
  · intro opening k g m unique hs
    rw [typeAt_record, hs]
    exact .arrayOfAny hs
  · intro opening k g m items unique hs ih
    rw [typeAt_record, hs]
    dsimp only
    cases hr : typeAt definitions opening (k.child "items") items g with
    | error e =>
      rw [hr] at ih
      refine unsound_of_leads ?_ ih
      simp [leads_items hs]
    | ok p =>
      rw [hr] at ih
      exact .array hs ih
  · intro opening k g m hs ih
    exact hoist_result_node hs ih
  · intro opening k g m hs
    rw [typeAt_record, hs]
    exact .mapOfAny hs
  · intro opening k g m pattern value hs ih
    rw [typeAt_record, hs]
    dsimp only
    cases hr : typeAt definitions opening ((k.child "patternProperties").child pattern)
        value g with
    | error e =>
      rw [hr] at ih
      refine unsound_of_leads ?_ ih
      simp [leads_pattern hs]
    | ok p =>
      rw [hr] at ih
      exact .map hs ih
  · intro opening k node g hn
    unfold typeAt
    split
    · exact absurd rfl (hn _)
    · refine ⟨_, .refl, ?_, rfl⟩
      rintro ⟨m, -, hm, -⟩
      exact hn m hm
  · intro opening k m g hg
    rw [Graph.contains_iff] at hg
    rw [hoist_eq, if_pos hg]
    exact Or.inl ⟨hg, rfl⟩
  · intro opening k m g hg hp
    rw [Graph.contains_iff] at hg
    rw [hoist_eq, if_neg hg, hp]
    exact Or.inr (Or.inl ⟨hg, hp, rfl⟩)
  · intro opening k m g hg ps hp ih
    rw [Graph.contains_iff] at hg
    rw [hoist_eq, if_neg hg, hp]
    dsimp only
    cases hr : propertiesAt definitions opening (k.child "properties") (requiredNames m) ps
        (g.insert ⟨k, []⟩) with
    | error e =>
      rw [hr] at ih
      refine Or.inr ?_
      rw [propertySites_of_lookup hp]
      exact ih
    | ok p =>
      rw [hr] at ih
      exact Or.inr (Or.inr ⟨ps, p.1, p.2, hg, hp, ih, rfl⟩)
  · intro opening k m g hg d hd hp
    rw [Graph.contains_iff] at hg
    have he : hoist definitions opening k m g = .error ⟨k, .propertiesNotRecord⟩ := by
      rw [hoist_eq, if_neg hg, hp]
      cases d with
      | record ps => exact absurd rfl (hd ps)
      | _ => rfl
    rw [he]
    refine Or.inl ⟨rfl, fun ps hps => ?_⟩
    rw [hp, Option.some.injEq] at hps
    exact hd ps hps
  · intro opening path required g
    unfold propertiesAt
    exact .nil
  · intro opening path required g name node r ihn ihr
    unfold propertiesAt
    cases hn : typeAt definitions opening (path.child name) node g with
    | error e =>
      rw [hn] at ihn
      exact ⟨_, by simp [memberSites], ihn⟩
    | ok p =>
      rw [hn] at ihn
      have ihr := ihr p.2
      cases hr : propertiesAt definitions opening path required r p.2 with
      | error e =>
        rw [hr] at ihr
        obtain ⟨a, ha, hb⟩ := ihr
        simp only [bind, Except.bind, hr]
        exact ⟨a, List.mem_cons_of_mem _ ha, hb⟩
      | ok q =>
        rw [hr] at ihr
        simp only [bind, Except.bind, hr]
        exact .cons ihn ihr

/-! ### Nothing but the walk is described -/

/-- The function's own answer for a part of the walk. -/
def Task.Answers (definitions : Members) (opening : List String) (g : Graph) (g' : Graph) :
    Task → Prop
  | .node s t => typeAt definitions opening s.key s.node g = .ok (t, g')
  | .members path required ps properties =>
    propertiesAt definitions opening path required ps g = .ok (properties, g')

theorem Walks.answers {task : Task} (h : Walks definitions opening g task g') :
    task.Answers definitions opening g g' := by
  induction h with
  | leaf hs => simp only [Task.Answers, typeAt_record, hs]
  | absent hs hd => simp only [Task.Answers, typeAt_record, hs, hd]
  | known hs hd hg => simp only [Task.Answers, typeAt_record, hs, hd, if_pos hg]
  | «open» hs hd hg ho => simp only [Task.Answers, typeAt_record, hs, hd, if_neg hg, if_pos ho]
  | enter hs hd hg ho hw ih =>
    simp only [Task.Answers, typeAt_record, hs, hd, if_neg hg, if_neg ho]
    exact ih
  | arrayOfAny hs => simp only [Task.Answers, typeAt_record, hs]
  | array hs hw ih =>
    simp only [Task.Answers] at ih
    simp only [Task.Answers, typeAt_record, hs, ih]
    rfl
  | mapOfAny hs => simp only [Task.Answers, typeAt_record, hs]
  | map hs hw ih =>
    simp only [Task.Answers] at ih
    simp only [Task.Answers, typeAt_record, hs, ih]
    rfl
  | again hs hg =>
    simp only [Task.Answers, typeAt_record, hs, hoist_eq, if_pos hg]
    rfl
  | hoist hs hg hp hw ih =>
    simp only [Task.Answers] at ih
    simp only [Task.Answers, typeAt_record, hs, hoist_eq, if_neg hg, hp, ih]
    rfl
  | nil => simp only [Task.Answers, propertiesAt]
  | cons hn hr ihn ihr =>
    simp only [Task.Answers] at ihn ihr
    simp only [Task.Answers, propertiesAt, ihn, ihr, bind, Except.bind]

lemma walks_members {path : Key} {required : List String} {ps : Members}
    {properties : List Property}
    (h : propertiesAt definitions opening path required ps g = .ok (properties, g')) :
    Walks definitions opening g (.members path required ps properties) g' := by
  have := (walk_result definitions).2.2 opening path required ps g
  rwa [h] at this

/-- The walk from a site is a function of the graph it starts with. -/
theorem Walks.unique {s : Site} {t t' : FlatType} {g'' : Graph}
    (h : Walks definitions opening g (.node s t) g')
    (h' : Walks definitions opening g (.node s t') g'') : t = t' ∧ g' = g'' := by
  have e := h.answers.symm.trans h'.answers
  simpa using e

theorem Walks.unique_members {path : Key} {required : List String} {ps : Members}
    {properties properties' : List Property} {g'' : Graph}
    (h : Walks definitions opening g (.members path required ps properties) g')
    (h' : Walks definitions opening g (.members path required ps properties') g'') :
    properties = properties' ∧ g' = g'' := by
  have e := h.answers.symm.trans h'.answers
  simpa using e

/-! ### The whole walk -/

/-- The graph that holds nothing but the place of the root. -/
def Graph.reserved : Graph := Graph.empty.insert ⟨.root, []⟩

@[simp] lemma Graph.keys_reserved : Graph.reserved.keys = [.root] := rfl

def rootPath : Key := Key.root.child "properties"

lemma ofDocument_record {schema : Members} {g : Graph} :
    Graph.ofDocument (.record schema) = .ok g ↔
      (schema.lookup "properties" = none ∧ g = Graph.reserved) ∨
      ∃ ps properties g₁, schema.lookup "properties" = some (.record ps) ∧
        Walks (definitionsOf schema) [] Graph.reserved
          (.members rootPath (requiredNames schema) ps properties) g₁ ∧
        g = g₁.insert ⟨.root, properties⟩ := by
  refine ⟨?_, ?_⟩
  · intro h
    have hr := (walk_result (definitionsOf schema)).2.1 [] .root schema .empty
    rw [show hoist (definitionsOf schema) [] .root schema .empty = .ok g from h] at hr
    rcases hr with ⟨hk, _⟩ | ⟨_, hp, rfl⟩ | ⟨ps, properties, g₁, _, hp, hw, rfl⟩
    · simp at hk
    · exact Or.inl ⟨hp, rfl⟩
    · exact Or.inr ⟨ps, properties, g₁, hp, hw, rfl⟩
  · have he : Key.root ∉ Graph.empty.keys := by simp
    rintro (⟨hp, rfl⟩ | ⟨ps, properties, g₁, hp, hw, rfl⟩)
    · simp only [Graph.ofDocument, hoist_eq, if_neg he, hp]
      rfl
    · have ha : propertiesAt (definitionsOf schema) [] (Key.root.child "properties")
          (requiredNames schema) ps (Graph.empty.insert ⟨.root, []⟩) = .ok (properties, g₁) :=
        hw.answers
      simp only [Graph.ofDocument, hoist_eq, if_neg he, hp, ha]
      rfl

end ProviderGen.Schema
