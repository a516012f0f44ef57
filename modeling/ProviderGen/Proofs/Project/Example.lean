import ProviderGen.Project.Scaffold
import ProviderGen.Proofs.Document.Plain
import ProviderGen.Proofs.Java.PlainText
import ProviderGen.Proofs.Project.Layout
import ProviderGen.Proofs.Schema.Visit

/-!
The schema that a project starts with. Its text is read as a document, whatever the type is
called, and the document gives two classes: one for the resource and one for its tags.
-/

namespace ProviderGen

open Document (Members)

namespace Schema

/-! ### The document -/

/-- A tag's key, and its value: two texts. -/
def keyMembers : Members :=
  [("type", .text "string"), ("description", .text "The key name of the tag.")]

def valueMembers : Members :=
  [("type", .text "string"), ("description", .text "The value for the tag.")]

def tagMembers : Members := [
  ("type", .text "object"),
  ("properties", .record [("Key", .record keyMembers), ("Value", .record valueMembers)]),
  ("required", .list [.text "Key", .text "Value"]),
  ("additionalProperties", .bool false)]

def titleMembers : Members :=
  [("description", .text "The title of the resource."), ("type", .text "string")]

def codeMembers : Members := [
  ("description", .text "A code for this resource."),
  ("type", .text "string"),
  ("enum", .list [.text "NOT_STARTED", .text "CANCELLED"])]

/-- The tags of a resource, each of which is as defined. -/
def tagsMembers : Members := [
  ("description", .text "An array of key-value pairs to apply to this resource."),
  ("type", .text "array"),
  ("uniqueItems", .bool true),
  ("items", .record [("$ref", .text "#/definitions/Tag")])]

def idMembers : Members :=
  [("description", .text "Identifier assigned when the resource is created."),
    ("type", .text "string")]

def exampleProperties : Members := [
  ("Title", .record titleMembers), ("TestCode", .record codeMembers),
  ("Tags", .record tagsMembers), ("Id", .record idMembers)]

def exampleDocument (typeName : String) : Document := .record [
  ("typeName", .text typeName),
  ("description", .text "An example resource schema demonstrating some basic constructs."),
  ("definitions", .record [("Tag", .record tagMembers)]),
  ("properties", .record exampleProperties),
  ("additionalProperties", .bool false),
  ("required", .list [.text "Title"]),
  ("readOnlyProperties", .list [.text "/properties/Id"]),
  ("primaryIdentifier", .list [.text "/properties/Id"])]

open Document (IsPlain Scans ofTokens? scan)

lemma scan_typeName {typeName : String} (h : ∀ c ∈ typeName.toList, IsPlain c) :
    scan none ("    \"typeName\": \"" ++ typeName ++ "\",").toList =
      some [.text "typeName", .colon, .text typeName, .comma] := by
  have hline : ("    \"typeName\": \"" ++ typeName ++ "\",").toList =
      "    \"typeName\": \"".toList ++ (typeName.toList ++ '"' :: [',']) := by
    simp
  have hfront (cs : List Char) : scan none ("    \"typeName\": \"".toList ++ cs) =
      (scan (some []) cs).map ([.text "typeName", .colon] ++ ·) := by
    show (((scan (some []) cs).map (Document.Token.colon :: ·)).map
      (Document.Token.text "typeName" :: ·)) = _
    rw [Option.map_map]
    rfl
  rw [hline, hfront, Document.scan_quoted h]
  simp [scan, Document.symbol?, Document.isSpace]

set_option maxRecDepth 8000 in
/-- The lines behind the type name complete the document. -/
lemma exists_behind_typeName (typeName : String) : ∃ tss,
    Scans ((Template.exampleSchema typeName).drop 2) tss ∧
      ofTokens? ([.openRecord, .text "typeName", .colon, .text typeName, .comma] ++
        tss.flatten) = some (exampleDocument typeName) := by
  apply Exists.intro
  apply And.intro
  · -- line by line: each is a text of characters that are known
    repeat
      apply Document.scans_ofList
      · rfl
    exact Document.scans_nil
  · rfl

/-- **The schema to start with is read as this document**, if the type has a plain name. -/
theorem parse?_exampleSchema {typeName : String} (h : ∀ c ∈ typeName.toList, IsPlain c) :
    Document.parse? (Template.render (Template.exampleSchema typeName)) =
      some (exampleDocument typeName) := by
  obtain ⟨tss, htss, hread⟩ := exists_behind_typeName typeName
  have hlines : Scans (Template.exampleSchema typeName)
      ([.openRecord] :: [.text "typeName", .colon, .text typeName, .comma] :: tss) :=
    Document.scans_cons rfl (Document.scans_cons (scan_typeName h) htss)
  rw [Document.parse?_scans hlines]
  exact hread

/-! ### Its objects -/

def tagObject : Object := ⟨.definition "Tag", [⟨"Key", .string, true⟩, ⟨"Value", .string, true⟩]⟩

def resourceObject : Object := ⟨.root, [⟨"Title", .string, true⟩, ⟨"TestCode", .string, false⟩,
  ⟨"Tags", .set (.object (.definition "Tag")), false⟩, ⟨"Id", .string, false⟩]⟩

/-- The resource keeps its place while the tag is visited, and both are completed then. -/
def exampleGraph : Graph :=
  ((Graph.reserved.insert ⟨.definition "Tag", []⟩).insert tagObject).insert resourceObject

lemma ofDocument_example (typeName : String) :
    Graph.ofDocument (exampleDocument typeName) = .ok exampleGraph := by
  have hstring : ∀ m ∈ [titleMembers, codeMembers, idMembers, keyMembers, valueMembers],
      shape m = .ok (.leaf .string) := by
    simp only [List.forall_mem_cons]
    exact ⟨rfl, rfl, rfl, rfl, rfl, by simp⟩
  simp only [List.forall_mem_cons] at hstring
  have htags : shape tagsMembers =
      .ok (.array (some (.record [("$ref", .text "#/definitions/Tag")])) true) := rfl
  have hreference : shape [("$ref", .text "#/definitions/Tag")] = .ok (.reference "Tag") := rfl
  have htag : shape tagMembers = .ok .object := rfl
  have hproperties : tagMembers.lookup "properties" =
      some (.record [("Key", .record keyMembers), ("Value", .record valueMembers)]) := rfl
  have hrequired : tagMembers.lookup "required" = some (.list [.text "Key", .text "Value"]) := rfl
  simp [Graph.ofDocument, hoist_eq, typeAt_record, propertiesAt, exampleDocument,
    exampleProperties, hstring, htags, hreference, htag, hproperties, hrequired, definitionsOf,
    Graph.keys_insert, List.lookup_cons, bind, Except.bind, Key.root, Key.definition, Key.child,
    requiredNames, collection, Document.text?, exampleGraph, Graph.reserved, tagObject,
    resourceObject]

end Schema

namespace Project

open Schema (exampleDocument exampleGraph)

lemma plain_typeName {typeName : String} {segments : List String}
    (h : TypeName.segments typeName = .ok segments) :
    ∀ c ∈ typeName.toList, Document.IsPlain c := by
  intro c hc
  rcases Java.chars_typeName h c hc with h | h
  · simp only [TypeName.isSeparator, Bool.or_eq_true, beq_iff_eq] at h
    rcases h with rfl | rfl
    · decide
    · decide
  · refine ⟨?_, ?_, ?_⟩
    · rintro rfl
      exact absurd h (by decide)
    · rintro rfl
      exact absurd h (by decide)
    · by_contra hcontrol
      have hall : ∀ n < 32, (Char.ofNat n).isAlphanum = false := by decide
      have hchar := hall c.toNat (Nat.not_le.1 hcontrol)
      rw [Char.ofNat_toNat, h] at hchar
      cases hchar

/-- **The schema to start with has two classes**, whatever the package and the type are called. -/
theorem modelOf_example (k : Java.Package) (typeName : String) : ∃ classes keys,
    modelOf k (exampleDocument typeName) = .ok (classes, keys) ∧
      classes.map (·.name) = ["ResourceModel", "Tag"] := by
  have hclasses : (Java.classesOf Java.rootClassName k exampleGraph).map
      (fun cs => cs.map (·.name)) = .ok ["ResourceModel", "Tag"] := rfl
  have hkeys : ∃ keys, Java.ResourceKeys.ofDocument (exampleDocument typeName) = .ok keys :=
    ⟨_, rfl⟩
  obtain ⟨keys, hkeys⟩ := hkeys
  cases hc : Java.classesOf Java.rootClassName k exampleGraph with
  | error e =>
    rw [hc] at hclasses
    cases hclasses
  | ok classes =>
    rw [hc] at hclasses
    exact ⟨classes, _, modelOf_ok.2 ⟨exampleGraph, keys, Schema.ofDocument_example typeName, hc,
      hkeys, rfl⟩, Except.ok.inj hclasses⟩

end Project

end ProviderGen
