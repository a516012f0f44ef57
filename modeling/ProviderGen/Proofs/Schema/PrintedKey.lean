import ProviderGen.Project.Generate
import ProviderGen.Proofs.Schema.Escape
import ProviderGen.Proofs.Schema.WellFormed
import ProviderGen.Proofs.Text.Replace

/-!
Printed keys are read back. A slash stands in front of every segment and nowhere else, so cutting
at the slashes gives the segments as they are written, also where they are empty or where there
are none. Writing a segment replaces the tildes first and then the slashes; undoing it takes the
two steps back in the opposite order. So an error that shows a pointer tells the place.
-/

namespace ProviderGen

/-- The pointer that an error shows. -/
def Error.pointer? : Error → Option String
  | badSchema pointer _ => some pointer
  | objectUndefined _ missing => some missing
  | _ => none

namespace Schema

open Document (Members)
open Project (modelOf)
open Text (replace replacePair replace_replace replacePair_replace replacePair_replace_self
  not_infix_replace)

/-- A segment as it was before it was written. -/
def unescape (cs : List Char) : List Char :=
  replacePair '~' '0' '~' (replacePair '~' '1' '/' cs)

/-- The key with this printed form: behind the number sign the text is cut at its slashes, with
nothing in front of the first one, and the pieces are the segments once their escapes are undone. -/
def Key.ofText? (text : String) : Option Key :=
  match text.toList with
  | [] => none
  | sign :: behind =>
    match behind.splitOn '/' with
    | [] => none
    | front :: pieces =>
      if sign = '#' ∧ front = [] then
        some ⟨pieces.map fun piece => String.ofList (unescape piece)⟩
      else none

lemma escape_eq_replace (segment : String) :
    Key.escape segment = replace '/' ['~', '1'] (replace '~' ['~', '0'] segment.toList) :=
  (replace_replace (by decide) _).symm

lemma unescape_escape (segment : String) : unescape (Key.escape segment) = segment.toList := by
  rw [escape_eq_replace, unescape,
    replacePair_replace (by decide) (not_infix_replace (by decide) (by decide) _),
    replacePair_replace_self]

/-- Replaced in the other order, a slash and a tilde with a one behind it come out alike. -/
example : replace '~' ['~', '0'] (replace '/' ['~', '1'] ['/']) =
    replace '~' ['~', '0'] (replace '/' ['~', '1'] ['~', '1']) := by decide

lemma splitOn_segments (segments : List String) :
    (segments.flatMap fun s => '/' :: Key.escape s).splitOn '/' =
      [] :: segments.map Key.escape := by
  have hjoin : (segments.flatMap fun s => '/' :: Key.escape s) =
      ['/'].intercalate ([] :: segments.map Key.escape) := by
    induction segments with
    | nil => rfl
    | cons s r ih =>
      rw [List.flatMap_cons, ih, List.map_cons]
      cases r with
      | nil => simp
      | cons t r => simp
  rw [hjoin]
  refine List.splitOn_intercalate '/' ?_ (List.cons_ne_nil _ _)
  rw [List.forall_mem_cons, List.forall_mem_map]
  refine ⟨List.not_mem_nil, fun s _ => ?_⟩
  have := noSlash_written s
  rwa [written, String.toList_ofList] at this

theorem ofText?_text (k : Key) : Key.ofText? k.text = some k := by
  have hsegments : k.segments.map ((fun piece => String.ofList (unescape piece)) ∘ Key.escape) =
      k.segments := by
    refine (List.map_congr_left fun s _ => ?_).trans (List.map_id _)
    rw [Function.comp_apply, unescape_escape, String.ofList_toList]
    rfl
  rw [Key.ofText?, Key.toList_text, Key.chars]
  dsimp only
  rw [splitOn_segments]
  dsimp only
  rw [if_pos ⟨rfl, rfl⟩, List.map_map, hsegments]

lemma text_inj {k k' : Key} : k.text = k'.text ↔ k = k' := by
  refine ⟨fun h => ?_, fun h => h ▸ rfl⟩
  have hread := ofText?_text k
  rw [h, ofText?_text] at hread
  exact (Option.some.inj hread).symm

/-! ### Errors -/

lemma pointer_iff {error : Error} {place : Key} (h : error.pointer? = some place.text) (k : Key) :
    error.pointer? = some k.text ↔ k = place := by
  rw [h, Option.some_inj, text_inj, eq_comm]

lemma error_of_model {package : Java.Package} {schema : Document} {error : Error}
    (h : modelOf package schema = .error error) :
    (∃ defect, error = .ofDefect defect) ∨ ∃ dangling, error = .ofDangling dangling := by
  have hmap : ∀ {ε α : Type} {x : Except ε α} {f : ε → Error},
      x.mapError f = .error error → ∃ e, error = f e := by
    intro ε α x f hx
    cases x with
    | ok a => cases hx
    | error e => exact ⟨e, (Except.error.inj hx).symm⟩
  rcases error_of_bind h with h | ⟨graph, -, h⟩
  · exact Or.inl (hmap h)
  · rcases error_of_bind h with h | ⟨classes, -, h⟩
    · exact Or.inr (hmap h)
    · rcases error_of_bind h with h | ⟨keys, -, h⟩
      · exact Or.inl (hmap h)
      · cases h

/-- **A printed key tells the key**: cut at its slashes and with its escapes undone it gives the
segments back, so different keys have different printed forms. The pointer that is shown with a
defect is the printed form of the defect's place and of no other key, and the one shown with a
reference that leads nowhere is that of the object which is missing; so every error for which a
schema has no classes shows the pointer of a single place, and from the pointer that is shown with
a node one comes back to the node. -/
theorem key_of_pointer :
    (∀ k : Key, Key.ofText? k.text = some k) ∧ (∀ k k' : Key, k.text = k'.text ↔ k = k') ∧
    (∀ (defect : Defect) (k : Key),
      (Error.ofDefect defect).pointer? = some k.text ↔ k = defect.place) ∧
    (∀ (dangling : Java.Dangling) (k : Key),
      (Error.ofDangling dangling).pointer? = some k.text ↔ k = dangling.missing) ∧
    (∀ package schema error, modelOf package schema = .error error →
      ∃! k : Key, error.pointer? = some k.text) ∧
    ∀ (schema : Document) (defect : Defect), schema.Distinct →
      Graph.ofDocument schema = .error defect →
      ∃ node, (Key.ofText? defect.place.text).bind (fun k => schema.follow? k.segments) =
        some node ∧ ¬ Site.WellFormed ⟨defect.place, node⟩ := by
  refine ⟨ofText?_text, fun k k' => text_inj, fun defect => pointer_iff rfl,
    fun dangling => pointer_iff rfl, fun package schema error h => ?_,
    fun schema defect hd h => ?_⟩
  · rcases error_of_model h with ⟨defect, rfl⟩ | ⟨dangling, rfl⟩
    · exact ⟨defect.place, rfl, fun k => (pointer_iff rfl k).1⟩
    · exact ⟨dangling.missing, rfl, fun k => (pointer_iff rfl k).1⟩
  · obtain ⟨-, ⟨k, node⟩, -, -, -, hill, rfl, hfollow⟩ := ill_formed_of_document hd h
    exact ⟨node, by rw [ofText?_text, Option.bind_some, hfollow], hill⟩

/-- A property with a slash, a tilde and something like an escape in its name, and without a node. -/
def notch : Members := [("properties", .record [("a/b~1", .bool true)])]

theorem key_of_pointer_notch : (Document.record notch).Distinct ∧
    ∃ defect, Graph.ofDocument (.record notch) = .error defect ∧
      defect.place.text = "#/properties/a~1b~01" ∧
      ∃ node, (Key.ofText? "#/properties/a~1b~01").bind
        (fun k => (Document.record notch).follow? k.segments) = some node ∧
        ¬ Site.WellFormed ⟨defect.place, node⟩ := by
  have hd : (Document.record notch).Distinct := by simp [notch]
  have hdefect : Graph.ofDocument (.record notch) =
      .error ⟨⟨["properties", "a/b~1"]⟩, .nodeNotRecord⟩ := by
    simp [Graph.ofDocument, hoist_eq, propertiesAt, typeAt, notch, definitionsOf, List.lookup_cons,
      bind, Except.bind, Key.root, Key.child]
  have htext : (Key.mk ["properties", "a/b~1"]).text = "#/properties/a~1b~01" := by decide
  obtain ⟨-, -, -, -, -, hback⟩ := key_of_pointer
  exact ⟨hd, _, hdefect, htext, htext ▸ hback _ _ hd hdefect⟩

end Schema

end ProviderGen
