import ProviderGen.Java.Identifier
import ProviderGen.Proofs.Schema.Visit

/-!
What an object is named after. The way to an object begins at a property of the root or at a
definition and goes on through properties, items and patterns. Its key writes the way down as
plain segments, which can be read back from the left in one way only, whatever the names and the
patterns are. The base name of a key is looked for from the right, by the segment in front of it,
and there a name or a pattern that is spelled like a word that introduces names can pass for it.
-/

namespace ProviderGen.Schema

open Document (Members)

inductive Turn where
  | property (name : String)
  | items
  | pattern (p : String)
  deriving DecidableEq

/-- The way to an object other than the root. -/
inductive Trail where
  | property (name : String)
  | definition (name : String)
  | onward (t : Trail) (turn : Turn)
  deriving DecidableEq

namespace Turn

def segments : Turn → List String
  | property n => ["properties", n]
  | items => ["items"]
  | pattern p => ["patternProperties", p]

/-- The word of a turn that names nothing. -/
def word? : Turn → Option String
  | property _ => none
  | items => some "items"
  | pattern _ => some "patternProperties"

/-- The segment of a turn that the schema chooses. -/
def spelling? : Turn → Option String
  | property n => some n
  | items => none
  | pattern p => some p

end Turn

namespace Trail

def segments : Trail → List String
  | property n => ["properties", n]
  | definition n => ["definitions", n]
  | onward t u => t.segments ++ u.segments

def key (t : Trail) : Key := ⟨t.segments⟩

/-- The last property or definition on the way. -/
def name : Trail → String
  | property n | definition n | onward _ (.property n) => n
  | onward t .items | onward t (.pattern _) => t.name

def lastSegment : Trail → String
  | property n | definition n | onward _ (.property n) => n
  | onward _ .items => "items"
  | onward _ (.pattern p) => p

/-- The names and patterns on the way. -/
def spellings : Trail → List String
  | property n | definition n => [n]
  | onward t u => t.spellings ++ u.spelling?.toList

/-- The word that is taken for a name: that of the last turn, behind the last property or
definition, that comes right after a segment spelled like a word that introduces names. -/
def misread? : Trail → Option String
  | property _ | definition _ => none
  | onward t u =>
    match u.word? with
    | none => none
    | some w => if Key.introducesName t.lastSegment then some w else t.misread?

lemma key_onward_items (t : Trail) : (t.onward .items).key = t.key.child "items" := rfl

lemma key_onward_property (t : Trail) (n : String) :
    (t.onward (.property n)).key = (t.key.child "properties").child n := by
  simp [key, segments, Turn.segments, Key.child]

lemma key_onward_pattern (t : Trail) (p : String) :
    (t.onward (.pattern p)).key = (t.key.child "patternProperties").child p := by
  simp [key, segments, Turn.segments, Key.child]

/-! ### A key leads along one way -/

/-- The way on along some segments. -/
def follow : Trail → List String → Option Trail
  | t, [] => some t
  | t, "items" :: r => follow (t.onward .items) r
  | t, "properties" :: n :: r => follow (t.onward (.property n)) r
  | t, "patternProperties" :: p :: r => follow (t.onward (.pattern p)) r
  | _, _ => none

def read? : List String → Option Trail
  | "properties" :: n :: r => follow (property n) r
  | "definitions" :: n :: r => follow (definition n) r
  | _ => none

lemma follow_append (t : Trail) (u : Turn) (r : List String) :
    follow t (u.segments ++ r) = follow (t.onward u) r := by
  cases u <;> simp [Turn.segments, follow]

lemma read?_append (t : Trail) (r : List String) : read? (t.segments ++ r) = follow t r := by
  induction t generalizing r with
  | property n => simp [segments, read?]
  | definition n => simp [segments, read?]
  | onward t u ih => rw [segments, List.append_assoc, ih, follow_append]

lemma read?_segments (t : Trail) : read? t.segments = some t := by
  simpa [follow] using read?_append t []

lemma key_injective {t t' : Trail} (h : t.key = t'.key) : t = t' := by
  have hs : t.segments = t'.segments := congrArg Key.segments h
  have hr := read?_segments t
  rw [hs, read?_segments, Option.some.injEq] at hr
  exact hr.symm

end Trail

/-! ### The keys of a graph -/

/-- The key of an object: the root's or the end of some way. -/
def Key.Led (k : Key) : Prop := k = .root ∨ ∃ t : Trail, t.key = k

lemma Key.Led.property {k : Key} (h : k.Led) (name : String) :
    ∃ t : Trail, t.key = (k.child "properties").child name := by
  rcases h with rfl | ⟨t, rfl⟩
  · exact ⟨.property name, rfl⟩
  · exact ⟨_, t.key_onward_property name⟩

/-- Where a part of the walk stands. -/
def Task.Led : Task → Prop
  | .node s _ => ∃ t : Trail, t.key = s.key
  | .members path _ _ _ => ∀ name, ∃ t : Trail, t.key = path.child name

variable {definitions : Members} {opening : List String} {g g' : Graph}

lemma led_keys_insert {o : Object} (h : ∀ k ∈ g.keys, k.Led) (ho : o.key.Led) :
    ∀ k ∈ (g.insert o).keys, k.Led := by
  intro k hk
  rcases Graph.mem_keys_insert.1 hk with rfl | hk
  · exact ho
  · exact h k hk

/-- A part of the walk that stands at the end of some way adds only ends of ways. -/
lemma Walks.led {task : Task} (hw : Walks definitions opening g task g') (ht : task.Led)
    (hg : ∀ k ∈ g.keys, k.Led) : ∀ k ∈ g'.keys, k.Led := by
  induction hw with
  | leaf | absent | known | «open» | arrayOfAny | mapOfAny | again | nil => exact hg
  | @enter _ _ _ _ _ name _ _ _ _ _ _ _ ih => exact ih ⟨.definition name, rfl⟩ hg
  | array _ _ ih =>
    obtain ⟨t, ht⟩ := ht
    exact ih ⟨t.onward .items, by rw [t.key_onward_items, ht]⟩ hg
  | @map _ _ _ _ _ pattern _ _ _ _ ih =>
    obtain ⟨t, ht⟩ := ht
    exact ih ⟨t.onward (.pattern pattern), by rw [t.key_onward_pattern, ht]⟩ hg
  | hoist _ _ _ _ ih =>
    have hk : Key.Led _ := .inr ht
    exact led_keys_insert (ih hk.property (led_keys_insert hg hk)) hk
  | cons _ _ ihn ihr => exact ihr ht (ihn (ht _) hg)

lemma led_of_mem_keys {document : Document} (h : Graph.ofDocument document = .ok g) :
    ∀ k ∈ g.keys, k.Led := by
  have hroot : ∀ k ∈ Graph.reserved.keys, k.Led := by
    intro k hk
    rw [Graph.keys_reserved, List.mem_singleton] at hk
    exact .inl hk
  cases document with
  | record schema =>
    rcases ofDocument_record.1 h with ⟨-, rfl⟩ | ⟨ps, properties, g₁, -, hw, rfl⟩
    · exact hroot
    · exact led_keys_insert (hw.led (Key.Led.property (.inl rfl)) hroot) (.inl rfl)
  | _ => cases h

/-! ### What the search from the right finds -/

lemma lastName?_cons (a : String) (r : List String) :
    Key.lastName? (a :: r) =
      (Key.lastName? r).or (if Key.introducesName a then r.head? else none) := by
  cases r <;> simp [Key.lastName?]

lemma lastName?_concat (l : List String) (a b : String) :
    Key.lastName? (l ++ [a, b]) =
      if Key.introducesName a then some b else Key.lastName? (l ++ [a]) := by
  induction l with
  | nil => simp [Key.lastName?]
  | cons x l ih =>
    have hh : (l ++ [a, b]).head? = (l ++ [a]).head? := by cases l <;> rfl
    rw [List.cons_append, lastName?_cons, ih, hh, List.cons_append, lastName?_cons]
    split <;> simp

namespace Trail

lemma segments_eq_concat (t : Trail) : ∃ front, t.segments = front ++ [t.lastSegment] := by
  cases t with
  | property n => exact ⟨["properties"], rfl⟩
  | definition n => exact ⟨["definitions"], rfl⟩
  | onward t u =>
    cases u with
    | property n =>
      exact ⟨t.segments ++ ["properties"], by simp [segments, Turn.segments, lastSegment]⟩
    | items => exact ⟨t.segments, rfl⟩
    | pattern p =>
      exact ⟨t.segments ++ ["patternProperties"], by simp [segments, Turn.segments, lastSegment]⟩

lemma baseName?_onward_property (t : Trail) (n : String) :
    (t.onward (.property n)).key.baseName? = some n :=
  lastName?_concat t.segments "properties" n

lemma baseName?_onward_word (t : Trail) {u : Turn} {w : String} (hu : u.word? = some w) :
    (t.onward u).key.baseName? =
      if Key.introducesName t.lastSegment then some w else t.key.baseName? := by
  obtain ⟨front, hf⟩ := t.segments_eq_concat
  have hword : Key.lastName? (t.segments ++ [w]) =
      if Key.introducesName t.lastSegment then some w else t.key.baseName? := by
    have h := lastName?_concat front t.lastSegment w
    rw [← hf] at h
    rw [hf, List.append_assoc]
    exact h
  cases u with
  | property n => cases hu
  | items =>
    cases hu
    exact hword
  | pattern p =>
    cases hu
    exact (lastName?_concat t.segments "patternProperties" p).trans hword

lemma baseName?_key (t : Trail) : t.key.baseName? = some (t.misread?.getD t.name) := by
  induction t with
  | property n => rfl
  | definition n => rfl
  | onward t u ih =>
    cases hu : u.word? with
    | none =>
      cases u with
      | property n => exact t.baseName?_onward_property n
      | items | pattern p => cases hu
    | some w =>
      have hn : (t.onward u).name = t.name := by
        cases u with
        | property n => cases hu
        | items | pattern p => rfl
      rw [t.baseName?_onward_word hu, ih, hn, misread?, hu]
      dsimp only
      split <;> rfl

lemma lastSegment_mem (t : Trail) : t.lastSegment ∈ t.spellings ∨ t.lastSegment = "items" := by
  cases t with
  | property n | definition n => simp [lastSegment, spellings]
  | onward t u => cases u <;> simp [lastSegment, spellings, Turn.spelling?]

/-- Only a name or a pattern that is spelled like a word that introduces names misleads. -/
lemma misread?_eq_none {t : Trail} (h : ∀ s ∈ t.spellings, Key.introducesName s = false) :
    t.misread? = none := by
  induction t with
  | property | definition => rfl
  | onward t u ih =>
    rw [spellings, List.forall_mem_append] at h
    have hl : Key.introducesName t.lastSegment = false := by
      rcases t.lastSegment_mem with hm | hm
      · exact h.1 _ hm
      · rw [hm]
        rfl
    cases hu : u.word? <;> simp [misread?, hu, hl, ih h.1]

end Trail

lemma className_of_baseName {k : Key} {n : String} (h : k.baseName? = some n) :
    Java.className k = Java.className (.definition n) := by
  have hd : (Key.definition n).baseName? = some n := rfl
  simp only [Java.className, h, hd]

/-- **What an object is named after.** The root has no base name. Every other object of a graph
lies at the end of a single way, and both its base name and its class are those of the last
property or definition on that way, unless a word is misread for it, which takes a name or a
pattern that is spelled like a word that introduces names. -/
theorem baseName_of_trail (t : Trail) :
    Key.root.baseName? = none ∧
      (∀ document g, Graph.ofDocument document = .ok g →
        ∀ k ∈ g.keys, k = .root ∨ ∃! t' : Trail, t'.key = k) ∧
      t.key.baseName? = some (t.misread?.getD t.name) ∧
      (t.key.baseName? = some t.name ↔ ∀ word ∈ t.misread?, word = t.name) ∧
      Java.className t.key = Java.className (.definition (t.misread?.getD t.name)) ∧
      ((∀ s ∈ t.spellings, s ≠ "properties" ∧ s ≠ "definitions") → t.misread? = none) := by
  refine ⟨rfl, fun document g hg k hk => ?_, t.baseName?_key, ?_,
    className_of_baseName t.baseName?_key, fun hs => Trail.misread?_eq_none fun s hm => ?_⟩
  · rcases led_of_mem_keys hg k hk with rfl | ⟨t, rfl⟩
    · exact .inl rfl
    · exact .inr ⟨t, rfl, fun t' ht => Trail.key_injective ht⟩
  · rw [t.baseName?_key]
    cases t.misread? <;> simp
  · simpa [Key.introducesName] using hs s hm

/-- A property `items` that is a list of objects, one `patternProperties` that maps what is called
`definitions` to objects, and a definition `properties`. -/
def maze : Members :=
  [("properties", .record
      [("items", .record [("type", .text "array"),
        ("items", .record [("properties", .record
          [("properties", .record [("properties", .record [])])])])]),
       ("patternProperties", .record [("type", .text "object"),
        ("patternProperties", .record [("definitions", .record [("properties", .record [])])])]),
       ("next", .record [("$ref", .text "#/definitions/properties")])]),
   ("definitions", .record [("properties", .record [("properties", .record [])])])]

def mazeTrails : List Trail :=
  [.onward (.property "items") .items,
   .onward (.onward (.property "items") .items) (.property "properties"),
   .onward (.property "patternProperties") (.pattern "definitions"),
   .definition "properties"]

theorem baseName_of_maze :
    ∃ g, Graph.ofDocument (.record maze) = .ok g ∧ g.keys = .root :: mazeTrails.map Trail.key ∧
      (∀ k ∈ g.keys, k = .root ∨ ∃! t : Trail, t.key = k) ∧
      ∀ t ∈ mazeTrails, t.key.baseName? = some t.name := by
  have hg : Graph.ofDocument (.record maze) = .ok _ :=
    ofDocument_record.2 (Or.inr ⟨_, _, _, rfl,
      .cons (.array rfl (.hoist rfl (by decide) rfl
        (.cons (.hoist rfl (by decide) rfl .nil) .nil)))
      (.cons (.map rfl (.hoist rfl (by decide) rfl .nil))
      (.cons (.enter rfl rfl (by decide) (by decide) (.hoist rfl (by decide) rfl .nil)) .nil)),
      rfl⟩)
  obtain ⟨-, hkeys, -⟩ := baseName_of_trail (.property "items")
  refine ⟨_, hg, rfl, hkeys _ _ hg, fun t ht => ?_⟩
  have hm : t.misread? = none := by
    revert t
    decide
  obtain ⟨-, -, -, hmeets, -⟩ := baseName_of_trail t
  exact hmeets.2 (by simp [hm])

/-- A property `properties` that is a list of objects. -/
def roll : Members :=
  [("properties", .record [("properties", .record [("type", .text "array"),
    ("items", .record [("type", .text "object"),
      ("properties", .record [("a", .record [("type", .text "string")])])])])])]

/-- The objects of a list are named after the word for its items, although the list has a name. -/
theorem list_of_properties_misnamed :
    let t := Trail.onward (.property "properties") .items
    (∃ g, Graph.ofDocument (.record roll) = .ok g ∧ t.key ∈ g.keys) ∧ t.name = "properties" ∧
      t.key.baseName? = some "items" ∧ Java.className t.key = "Items" := by
  have hg : Graph.ofDocument (.record roll) = .ok _ :=
    ofDocument_record.2 (Or.inr ⟨_, _, _, rfl,
      .cons (.array rfl (.hoist rfl (by decide) rfl (.cons (.leaf rfl) .nil))) .nil, rfl⟩)
  exact ⟨⟨_, hg, by decide⟩, rfl, rfl, by decide⟩

end ProviderGen.Schema
