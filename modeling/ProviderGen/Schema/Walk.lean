import ProviderGen.Schema.Shape

/-!
From a schema to the graph of its objects. The walk starts at the root and follows properties
in their order; an object enters the graph before its properties are visited, and a definition
that is being visited and is referred to again has no type of its own, so the walk ends on every
schema: a definition is entered only while it is not open, and otherwise the nodes get smaller.
-/

namespace ProviderGen.Schema

open Document (Members)

/-- The definitions that are not open. -/
def unopened (definitions : Members) (opening : List String) : Members :=
  definitions.filter fun m => !opening.contains m.1

theorem length_unopened_cons {definitions : Members} {opening : List String} {name : String}
    {body : Document} (h : definitions.lookup name = some body) (hn : name ∉ opening) :
    (unopened definitions (name :: opening)).length < (unopened definitions opening).length := by
  have hm := Members.mem_of_lookup h
  have hsub : unopened definitions (name :: opening) =
      (unopened definitions opening).filter fun m => m.1 != name := by
    simp only [unopened, List.filter_filter]
    apply List.filter_congr
    intro m _
    by_cases e : m.1 = name <;> simp [e]
  rw [hsub]
  have hin : (name, body) ∈ unopened definitions opening := by
    simp [unopened, hm, hn]
  exact List.length_filter_lt_length_iff_exists.2 ⟨_, hin, by simp⟩

def collection (unique : Bool) (item : FlatType) : FlatType :=
  if unique then .set item else .list item

def requiredNames (node : Members) : List String :=
  match node.lookup "required" with
  | some (.list names) => names.filterMap Document.text?
  | _ => []

mutual

/-- The type of the node at `path`; the objects met on the way join the graph. -/
def typeAt (definitions : Members) (opening : List String) (path : Key) (node : Document)
    (g : Graph) : Except Defect (FlatType × Graph) :=
  match node with
  | .record members =>
    match _h : shape members with
    | .error fault => .error ⟨path, fault⟩
    | .ok (.leaf t) => .ok (t, g)
    | .ok (.reference name) =>
      match _h : definitions.lookup name with
      | none => .ok (.object (.definition name), g)
      | some body =>
        if g.contains (.definition name) then .ok (.object (.definition name), g)
        else if _hn : name ∈ opening then .ok (.any, g)
        else typeAt definitions (name :: opening) (.definition name) body g
    | .ok (.array none unique) => .ok (collection unique .any, g)
    | .ok (.array (some items) unique) => do
      let (t, g) ← typeAt definitions opening (path.child "items") items g
      .ok (collection unique t, g)
    | .ok .object => do
      let g ← hoist definitions opening path members g
      .ok (.object path, g)
    | .ok (.map none) => .ok (.map .any, g)
    | .ok (.map (some (pattern, value))) => do
      let (t, g) ←
        typeAt definitions opening ((path.child "patternProperties").child pattern) value g
      .ok (.map t, g)
  | _ => .error ⟨path, .nodeNotRecord⟩
termination_by ((unopened definitions opening).length, sizeOf node)
decreasing_by
  · exact Prod.Lex.left _ _ (length_unopened_cons _h _hn)
  · refine Prod.Lex.right _ ?_
    have := sizeOf_items _h
    simp only [Document.record.sizeOf_spec]
    omega
  · refine Prod.Lex.right _ ?_
    simp only [Document.record.sizeOf_spec]
    omega
  · refine Prod.Lex.right _ ?_
    have := sizeOf_pattern _h
    simp only [Document.record.sizeOf_spec]
    omega

/-- The graph with the object at `key`, unless it is there already. -/
def hoist (definitions : Members) (opening : List String) (key : Key) (members : Members)
    (g : Graph) : Except Defect Graph :=
  if g.contains key then .ok g
  else
    match _h : members.lookup "properties" with
    | none => .ok (g.insert ⟨key, []⟩)
    | some (.record ps) => do
      let (properties, g) ← propertiesAt definitions opening (key.child "properties")
        (requiredNames members) ps (g.insert ⟨key, []⟩)
      .ok (g.insert ⟨key, properties⟩)
    | some _ => .error ⟨key, .propertiesNotRecord⟩
termination_by ((unopened definitions opening).length, sizeOf members)
decreasing_by
  refine Prod.Lex.right _ ?_
  have := Members.sizeOf_lt_of_lookup _h
  simp only [Document.record.sizeOf_spec] at this
  omega

/-- The properties declared below `path`, in their order. -/
def propertiesAt (definitions : Members) (opening : List String) (path : Key)
    (required : List String) (ps : Members) (g : Graph) :
    Except Defect (List Property × Graph) :=
  match ps with
  | [] => .ok ([], g)
  | (name, node) :: r => do
    let (t, g) ← typeAt definitions opening (path.child name) node g
    let (properties, g) ← propertiesAt definitions opening path required r g
    .ok (⟨name, t, required.contains name⟩ :: properties, g)
termination_by ((unopened definitions opening).length, sizeOf ps)
decreasing_by
  · refine Prod.Lex.right _ ?_
    simp only [List.cons.sizeOf_spec, Prod.mk.sizeOf_spec]
    omega
  · refine Prod.Lex.right _ ?_
    simp only [List.cons.sizeOf_spec, Prod.mk.sizeOf_spec]
    omega

end

/-- The definitions of a schema; anything but a record of them counts as none. -/
def definitionsOf (schema : Members) : Members :=
  match schema.lookup "definitions" with
  | some (.record ds) => ds
  | _ => []

def Graph.ofDocument : Document → Except Defect Graph
  | .record schema => hoist (definitionsOf schema) [] .root schema .empty
  | _ => .error ⟨.root, .rootNotRecord⟩

end ProviderGen.Schema
