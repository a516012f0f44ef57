import ProviderGen.Error
import ProviderGen.Proofs.Java.Copy
import ProviderGen.Proofs.Schema.References

/-!
The classes of a schema. A schema whose graph exists has classes unless the walk through it
comes to a reference to a definition that the schema does not have; then such a definition is
reported. The root class comes first and keeps the name that it is given, whatever else is named
in the schema, for its name is handed out before all others and is never one of the taken ones.
-/

namespace ProviderGen.Java

open ProviderGen.Schema (Key Graph Missing reference_leads keys_of_document definitionsOf rootPath
  passes_reference passes_items leads leads_object Site)

variable {rootName : String} {g : Graph} {package : Package}

lemma rootName_not_taken (rootName : String) : rootName ∉ takenNames rootName := by
  simp [takenNames]

/-- The class of the root is the first one, and has the name it is given. -/
lemma head_of_classes {classes : List JavaClass} {keys : List Key}
    (hk : g.keys = .root :: keys)
    (hn : classes.map (fun c => (c.key, c.name)) = classNames rootName g) :
    ∃ c rest, classes = c :: rest ∧ c.key = .root ∧ c.name = rootName := by
  have hw : wantedName rootName .root = rootName := rfl
  have hfirst : freeName (takenNames rootName) rootName = rootName :=
    freeName_of_free (rootName_not_taken rootName)
  unfold classNames at hn
  rw [hk, List.map_cons, freeNames, hw, hfirst, List.zip_cons_cons] at hn
  cases classes with
  | nil => cases hn
  | cons c rest =>
    rw [List.map_cons, List.cons.injEq, Prod.mk.injEq] at hn
    exact ⟨c, rest, rfl, hn.1.1, hn.1.2⟩

/-- So the classes of a schema start with that of the root. -/
lemma root_first {d : Document} {classes : List JavaClass} (hd : d.Distinct)
    (hg : Graph.ofDocument d = .ok g) (hc : classesOf rootName package g = .ok classes) :
    ∃ c rest, classes = c :: rest ∧ c.key = .root ∧ c.name = rootName := by
  cases d with
  | record schema =>
    have hr := classesOf_result rootName package g
    rw [hc] at hr
    obtain ⟨order, -, hk⟩ := keys_of_document hd hg
    exact head_of_classes hk hr.2.1
  | _ => cases hg

/-- **The classes of a schema.** The references of its graph lead to objects of the graph or to
definitions that are not there. So there are classes, the root class first and under the given
name, unless the walk comes to a reference to such a definition, and then one of these is
reported. -/
theorem classes_of_schema {d : Document} (hd : d.Distinct) (hg : Graph.ofDocument d = .ok g)
    (rootName : String) (package : Package) :
    ∃ schema, d = .record schema ∧
      (∀ o ∈ g.objects, ∀ p ∈ o.properties, ∀ k, p.type.reference? = some k →
        k ∈ g.keys ∨ ∃ n, (definitionsOf schema).lookup n = none ∧ k = .definition n) ∧
      ((∃ classes, classesOf rootName package g = .ok classes) ↔ ¬ ∃ n, Missing schema n) ∧
      (∀ e, classesOf rootName package g = .error e →
        ∃ n, Missing schema n ∧
          Error.ofDangling e = .objectUndefined e.owner (Key.definition n).text) ∧
      ∀ classes, classesOf rootName package g = .ok classes →
        ∃ c rest, classes = c :: rest ∧ c.key = .root ∧ c.name = rootName := by
  cases d with
  | record schema =>
    have hr := classesOf_result rootName package g
    have herror : ∀ e, classesOf rootName package g = .error e →
        ∃ n, Missing schema n ∧ e.missing = .definition n := by
      intro e he
      rw [he] at hr
      obtain ⟨before, o, after, ho, -, -, before', p, after', hp, -, href, hn⟩ := hr
      have ho' : o ∈ g.objects := by simp [ho]
      have hp' : p ∈ o.properties := by simp [hp]
      rcases reference_leads hd hg ho' hp' href with hk | hmissing
      · exact absurd hk hn
      · exact hmissing
    refine ⟨schema, rfl, fun o ho p hp k hk => ?_, ⟨?_, fun hnone => ?_⟩, fun e he => ?_,
      fun classes hc => ?_⟩
    · rcases reference_leads hd hg ho hp hk with hk | ⟨n, ⟨_, _, _, _, _, hn⟩, rfl⟩
      · exact Or.inl hk
      · exact Or.inr ⟨n, hn, rfl⟩
    · rintro ⟨classes, hc⟩ ⟨n, hmissing⟩
      rw [hc] at hr
      obtain ⟨o, ho, p, hp, href⟩ := hmissing.told hd hg
      exact hmissing.not_mem_keys hd hg (hr.1 o ho p hp _ href)
    · cases hc : classesOf rootName package g with
      | ok classes => exact ⟨classes, rfl⟩
      | error e =>
        obtain ⟨n, hmissing, -⟩ := herror e hc
        exact absurd ⟨n, hmissing⟩ hnone
    · obtain ⟨n, hmissing, hn⟩ := herror e he
      exact ⟨n, hmissing, by rw [Error.ofDangling, hn]⟩
    · exact root_first hd hg hc
  | _ => cases hg

def basketRow : Document.Members :=
  [("type", .text "object"), ("properties", .record [
    ("item", .record [("$ref", .text "#/definitions/Item")]),
    ("more", .record [("$ref", .text "#/definitions/Rows")])])]

/-- A basket: it has rows, and a row has an item and a list of further rows; but nothing says
what an item is. -/
def basket : Document.Members :=
  [("properties", .record [("rows", .record [("$ref", .text "#/definitions/Rows")])]),
   ("definitions", .record [
     ("Rows", .record [("type", .text "array"),
       ("items", .record [("$ref", .text "#/definitions/Row")])]),
     ("Row", .record basketRow)])]

/-- The site at which a row asks for its item. -/
def basketItem : Site :=
  ⟨((Key.definition "Row").child "properties").child "item",
    .record [("$ref", .text "#/definitions/Item")]⟩

theorem classes_of_basket :
    (Document.record basket).Distinct ∧ ∃ g, Graph.ofDocument (.record basket) = .ok g ∧
      ∀ rootName package, ∃ e, classesOf rootName package g = .error e ∧
        ∃ n, Missing basket n ∧
          Error.ofDangling e = .objectUndefined e.owner (Key.definition n).text := by
  have hd : (Document.record basket).Distinct := by simp [basket, basketRow]
  have hg : Graph.ofDocument (.record basket) = .ok _ :=
    Schema.ofDocument_record.2 (Or.inr ⟨_, _, _, rfl, .cons (.enter rfl rfl (by decide) (by decide)
      (.array rfl (.enter rfl rfl (by decide) (by decide) (.hoist rfl (by decide) rfl
        (.cons (.absent rfl rfl) (.cons (.open rfl rfl (by decide) (by decide)) .nil)))))) .nil,
      rfl⟩)
  refine ⟨hd, _, hg, fun rootName package => ?_⟩
  obtain ⟨schema, e, -, hiff, herror, -⟩ := classes_of_schema hd hg rootName package
  obtain rfl := Document.record.inj e
  have hmissing : Missing basket "Item" := by
    refine ⟨basketItem, ⟨⟨rootPath.child "rows", _⟩, List.mem_cons_self, ?_⟩, _, rfl, rfl, rfl⟩
    have hitem : basketItem ∈ leads (definitionsOf basket)
        ⟨.definition "Row", .record basketRow⟩ := by
      rw [leads_object _ _ rfl rfl]
      exact List.mem_cons_self
    exact .head (passes_reference _ rfl rfl).2 (.head (passes_items _ _ rfl).2
      (.head (passes_reference _ rfl rfl).2 (.single hitem)))
  cases hc : classesOf rootName package _ with
  | ok classes => exact absurd ⟨"Item", hmissing⟩ (hiff.1 ⟨classes, hc⟩)
  | error e => exact ⟨e, rfl, herror e hc⟩

end ProviderGen.Java
