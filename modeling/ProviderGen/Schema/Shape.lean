import ProviderGen.Document
import ProviderGen.Schema.Defect
import ProviderGen.Schema.Graph

/-!
The shape of one schema node, read off its own members. A reference comes before everything
else; then the declared type decides, and where none is declared the presence of properties or
of patterns does.
-/

namespace ProviderGen.Schema

open Document (Members)

inductive Shape where
  | reference (name : String)
  | leaf (type : FlatType)
  | array (items : Option Document) (unique : Bool)
  | object
  | map (first : Option (String × Document))

/-- The declared type; of a list, the first that is not null. -/
def declaredType? (node : Members) : Option String :=
  match node.lookup "type" with
  | some (.text t) => some t
  | some (.list ts) => (ts.filterMap Document.text?).find? (· != "null")
  | _ => none

def referencePrefix : String := "#/definitions/"

/-- The name of the top-level definition that a reference points to. -/
def referenceName (r : String) : Except Fault String :=
  if referencePrefix.toList.isPrefixOf r.toList then
    let name := r.toList.drop referencePrefix.length
    if name.isEmpty || name.contains '/' then .error (.referenceNested r)
    else .ok (String.ofList name)
  else .error (.referenceElsewhere r)

def isUnique (node : Members) : Bool :=
  match node.lookup "uniqueItems" with
  | some (.bool b) => b
  | _ => false

/-- The first pattern of a node, with the schema of its values. -/
def firstPattern? (node : Members) : Option (String × Document) :=
  match node.lookup "patternProperties" with
  | some (.record ps) => ps.head?
  | _ => none

def has (name : String) (node : Members) : Bool := (node.lookup name).isSome

/-- The shape of a node without a reference, by its declared type. -/
def shapeOfType (node : Members) : Option String → Except Fault Shape
  | some "string" => .ok (.leaf .string)
  | some "integer" => .ok (.leaf .integer)
  | some "number" => .ok (.leaf .number)
  | some "boolean" => .ok (.leaf .boolean)
  | some "array" => .ok (.array (node.lookup "items") (isUnique node))
  | some "object" =>
    if has "properties" node then .ok .object else .ok (.map (firstPattern? node))
  | some "null" => .ok (.leaf .any)
  | some t => .error (.typeUnknown t)
  | none =>
    if has "properties" node then .ok .object
    else if has "patternProperties" node then .ok (.map (firstPattern? node))
    else .ok (.leaf .any)

def shape (node : Members) : Except Fault Shape :=
  match node.lookup "$ref" with
  | some (.text r) => (referenceName r).map .reference
  | some _ => .error .referenceNotText
  | none => shapeOfType node (declaredType? node)

theorem shapeOfType_items {node : Members} {t : Option String} {d : Document} {u : Bool}
    (h : shapeOfType node t = .ok (.array (some d) u)) : node.lookup "items" = some d := by
  unfold shapeOfType at h
  split at h <;> (try split at h) <;> (try split at h) <;> simp_all

theorem shapeOfType_map {node : Members} {t : Option String} {p : String × Document}
    (h : shapeOfType node t = .ok (.map (some p))) : firstPattern? node = some p := by
  unfold shapeOfType at h
  split at h <;> (try split at h) <;> (try split at h) <;> simp_all

theorem shape_eq_shapeOfType {node : Members} {s : Shape} (h : shape node = .ok s)
    (hs : ∀ n, s ≠ .reference n) : shapeOfType node (declaredType? node) = .ok s := by
  unfold shape at h
  split at h
  · rename_i r _
    cases hr : referenceName r with
    | error e => simp [hr, Except.map] at h
    | ok n =>
      simp only [hr, Except.map, Except.ok.injEq] at h
      exact absurd h.symm (hs n)
  · simp at h
  · exact h

/-- The items of an array are a part of its node. -/
theorem sizeOf_items {node : Members} {d : Document} {u : Bool}
    (h : shape node = .ok (.array (some d) u)) : sizeOf d < sizeOf node :=
  Members.sizeOf_lt_of_lookup (shapeOfType_items (shape_eq_shapeOfType h (by simp)))

/-- The schema of a pattern is a part of its node. -/
theorem sizeOf_pattern {node : Members} {p : String} {d : Document}
    (h : shape node = .ok (.map (some (p, d)))) : sizeOf d < sizeOf node := by
  have hp := shapeOfType_map (shape_eq_shapeOfType h (by simp))
  unfold firstPattern? at hp
  split at hp
  · rename_i ps hps
    have a := Members.sizeOf_lt_of_lookup hps
    have b := Members.sizeOf_lt_of_mem (List.mem_of_head? hp)
    simp only [Document.record.sizeOf_spec] at a
    omega
  · simp at hp

end ProviderGen.Schema
