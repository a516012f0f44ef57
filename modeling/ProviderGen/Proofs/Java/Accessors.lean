import ProviderGen.Proofs.Java.Spelling
import ProviderGen.Proofs.Text.Join

/-!
Two ways to the getters of an identifier. One takes the names in its pointer and makes identifiers
of them, the other takes the identifiers of the fields that the names lead along. They give the
same unless a field on the way has been numbered, and then the chains differ as texts: a chain
can be taken apart into its getters, and a getter tells the field that it reads.
-/

namespace ProviderGen.Java

open ResourceKey (follow? path?)
open Schema (Graph)

variable {classes : List JavaClass} {root c : JavaClass} {names getters getters' : List String}
  {fields : List JavaField} {k : ResourceKey} {word word' : String}

/-! ### What a chain tells -/

lemma getter_inj (h : StartsLow word) (h' : StartsLow word') :
    getter word = getter word' ↔ word = word' := by
  rw [getter, getter, String.append_left_inj, String.append_right_inj, h.accessor_inj h']

lemma noDot_getter (h : IsWord word.toList) : '.' ∉ (getter word).toList := by
  have haccessor : (accessor word).toList = upperFirst word.toList := String.toList_ofList
  rw [getter, String.toList_append, String.toList_append, haccessor, List.mem_append,
    List.mem_append, not_or, not_or]
  exact ⟨⟨by decide, fun hdot => absurd (h.upperFirst '.' hdot) (by decide)⟩, by decide⟩

/-- The getters are what stands between the dots. -/
lemma chain_inj (hne : getters ≠ []) (hne' : getters' ≠ [])
    (h : ∀ call ∈ getters, '.' ∉ call.toList) (h' : ∀ call ∈ getters', '.' ∉ call.toList) :
    chain getters = chain getters' ↔ getters = getters' := by
  rw [chain, chain, String.append_right_inj]
  exact Text.joined_inj rfl hne hne' h h'

/-! ### Names that can be followed -/

lemma Along.ne_nil (h : Along classes c names fields) : fields ≠ [] := by
  cases h with
  | last => exact List.cons_ne_nil _ _
  | step => exact List.cons_ne_nil _ _

/-- The way leads along fields of the classes. -/
lemma Along.mem (h : Along classes c names fields) (hc : c ∈ classes) :
    ∀ f ∈ fields, ∃ c ∈ classes, f ∈ c.fields := by
  induction h with
  | @last c f hf => exact List.forall_mem_singleton.2 ⟨c, hc, hf⟩
  | @step c _ f _ _ hf _ hc' _ ih => exact List.forall_mem_cons.2 ⟨⟨c, hc, hf⟩, ih hc'⟩

/-- What a key has before it is bound: the getters that its pointer alone gives. -/
def Derived (k : ResourceKey) (names : List String) : Prop :=
  path? k.pointer = some names ∧ k.getters = names.map fun name => getter (fieldName name)

lemma derived_of_ofPointer? {pointer : String} (h : ResourceKey.ofPointer? pointer = some k) :
    ∃ names, Derived k names := by
  obtain ⟨names, hnames, rfl⟩ := Option.map_eq_some_iff.1 h
  exact ⟨names, hnames, rfl⟩

/-- Whether the fields have the identifiers that their names ask for shows in their chain. -/
lemma chain_fields_eq_iff
    (hlow : ∀ f ∈ fields, StartsLow f.identifier ∧ IsWord f.identifier.toList) (hne : fields ≠ []) :
    chain (fields.map fun f => getter f.identifier) =
        chain ((fields.map JavaField.name).map fun name => getter (fieldName name)) ↔
      ∀ f ∈ fields, f.identifier = fieldName f.name := by
  rw [chain_inj (by simpa using hne) (by simpa using hne), List.map_map, List.map_inj_left]
  · exact forall₂_congr fun f hf => getter_inj (hlow f hf).1 (startsLow_fieldName f.name)
  · exact List.forall_mem_map.2 fun f hf => noDot_getter (hlow f hf).2
  · exact List.forall_mem_map.2 fun name _ => noDot_getter (isWord_fieldName name)

/-- A key before and after it is bound, with the names in its pointer. -/
structure Compared (classes : List JavaClass) (root : JavaClass) (k k' : ResourceKey)
    (names : List String) : Prop where
  path : NamesIn k.pointer names ∧ names ≠ []
  derived : k.getterChain =
    "this." ++ ".".intercalate (names.map fun name => "get" ++ accessor (fieldName name) ++ "()")
  kept : ∀ fields, Along classes root names fields →
    (∀ f ∈ fields, f.identifier = fieldName f.name) → k' = k
  changed : ∀ fields, Along classes root names fields →
    (∃ f ∈ fields, f.identifier ≠ fieldName f.name) → k'.getterChain ≠ k.getterChain

lemma compared_bindTo (hn : (classes.map JavaClass.name).Nodup)
    (hf : ∀ c ∈ classes, (c.fields.map JavaField.name).Nodup)
    (hlow : ∀ c ∈ classes, ∀ f ∈ c.fields, StartsLow f.identifier ∧ IsWord f.identifier.toList)
    (hroot : root ∈ classes) (hk : Derived k names) :
    Compared classes root k (k.bindTo classes root) names := by
  obtain ⟨hpath, hgetters⟩ := hk
  have hbound : ∀ fields, Along classes root names fields → k.bindTo classes root =
      { k with getters := fields.map fun f => getter f.identifier } :=
    fun fields h => ResourceKey.bindTo_along hn hf hroot hpath h
  have hiff : ∀ fields, Along classes root names fields →
      ((k.bindTo classes root).getterChain = k.getterChain ↔
        ∀ f ∈ fields, f.identifier = fieldName f.name) := by
    intro fields h
    have hfields : ∀ f ∈ fields, StartsLow f.identifier ∧ IsWord f.identifier.toList := by
      intro f hin
      obtain ⟨c, hc, hin'⟩ := h.mem hroot f hin
      exact hlow c hc f hin'
    rw [hbound fields h, ResourceKey.getterChain, ResourceKey.getterChain, hgetters, ← h.map_name]
    exact chain_fields_eq_iff hfields h.ne_nil
  refine ⟨namesIn_of_path? hpath, ?_, fun fields h hall => ?_, fun fields h hnot heq => ?_⟩
  · rw [ResourceKey.getterChain, hgetters]
    rfl
  · have hsame : (fields.map fun f => getter f.identifier) = k.getters := by
      rw [hgetters, ← h.map_name, List.map_map]
      exact List.map_congr_left fun f hin => congrArg getter (hall f hin)
    rw [hbound fields h, hsame]
  · obtain ⟨f, hin, hne⟩ := hnot
    exact hne ((hiff fields h).1 heq f hin)

/-! ### Binding again -/

lemma ResourceKey.bindTo_bindTo (k : ResourceKey) :
    (k.bindTo classes root).bindTo classes root = k.bindTo classes root := by
  cases hk : (path? k.pointer).bind (follow? classes root) with
  | none => simp only [bindTo, hk]
  | some getters => simp only [bindTo, hk]

lemma ResourceKeys.bindTo_bindTo (ks : ResourceKeys) :
    (ks.bindTo classes).bindTo classes = ks.bindTo classes := by
  cases hroot : classes.find? JavaClass.isRoot with
  | none => simp only [bindTo, hroot]
  | some root =>
    simp [bindTo_of_root hroot, Function.comp_def, ResourceKey.bindTo_bindTo]

/-- **Pointers and fields give the same getters, but for numbers.** Binding leaves a key that can
be followed as it is if every field on its way has the identifier that its property's name asks
for, and gives it another chain if one of them has not. Keys that are bound stay so. -/
theorem bound_compared {d : Document} {g : Graph} {package : Package} {ks : ResourceKeys}
    (hd : d.Distinct) (hg : Graph.ofDocument d = .ok g)
    (hc : classesOf rootClassName package g = .ok classes)
    (hk : ResourceKeys.ofDocument d = .ok ks) :
    (ks.bindTo classes).bindTo classes = ks.bindTo classes ∧
      ∃ root ∈ classes, root.key = .root ∧ root.name = rootClassName ∧
        List.Forall₂ (fun k k' => ∃ names, Compared classes root k k' names)
          ks.primary (ks.bindTo classes).primary ∧
        List.Forall₂ (fun group group' => group'.method = group.method ∧
            List.Forall₂ (fun k k' => ∃ names, Compared classes root k k' names)
              group.keys group'.keys)
          ks.additional (ks.bindTo classes).additional := by
  obtain ⟨root, hin, hkey, hname, hroot⟩ := root_found hd hg hc
  have hcompared : ∀ k, (∃ names, Derived k names) →
      ∃ names, Compared classes root k (k.bindTo classes root) names := by
    rintro k ⟨names, hk⟩
    refine ⟨names, compared_bindTo (classNames_ok hc).1 (fun c hin => nodup_fields hd hg hc hin)
      (fun c hin f hf => ⟨(identifiers_ok hc hin).2 f hf, isWord_identifier hc hin hf⟩) hin hk⟩
  obtain ⟨hprimary, hadditional⟩ := forall_ofDocument derived_of_ofPointer? hk
  refine ⟨ks.bindTo_bindTo, root, hin, hkey, hname, ?_⟩
  rw [ResourceKeys.bindTo_of_root hroot]
  simp only [List.forall₂_map_right_iff, List.forall₂_same]
  exact ⟨fun k hin => hcompared k (hprimary k hin),
    fun group hin => ⟨trivial, fun k hin' => hcompared k ((hadditional group hin).2 k hin')⟩⟩

/-- A key to a property of an object, one to a property that differs from another in case only,
and one that leads nowhere. -/
def harbour : Document.Members :=
  let text := Document.record [("type", .text "string")]
  let dock := Document.record [("type", .text "object"), ("properties", .record [("2nd id", text)])]
  [("properties", .record [("Name", text), ("name", text), ("dock", dock)]),
   ("primaryIdentifier", .list [.text "/properties/dock/2nd id"]),
   ("additionalIdentifiers", .list [.list [.text "/properties/name"],
     .list [.text "/properties/pier"]])]

theorem bound_compared_harbour :
    (Document.record harbour).Distinct ∧ ∃ g classes ks,
      Graph.ofDocument (.record harbour) = .ok g ∧
      classesOf rootClassName ⟨[]⟩ g = .ok classes ∧
      ResourceKeys.ofDocument (.record harbour) = .ok ks ∧
      (ks.bindTo classes).bindTo classes = ks.bindTo classes ∧
      ks.primary.map ResourceKey.getterChain = ["this.getDock().get_2nd_id()"] ∧
      (ks.bindTo classes).primary = ks.primary ∧
      (ks.additional.flatMap KeyGroup.keys).map ResourceKey.getterChain =
        ["this.getName()", "this.getPier()"] ∧
      ((ks.bindTo classes).additional.flatMap KeyGroup.keys).map ResourceKey.getterChain =
        ["this.getName1()", "this.getPier()"] ∧
      ∃ root ∈ classes, List.Forall₂ (fun k k' => ∃ names, Compared classes root k k' names)
        ks.primary (ks.bindTo classes).primary := by
  have hd : (Document.record harbour).Distinct := by simp [harbour]
  have hg : Graph.ofDocument (.record harbour) = .ok _ :=
    Schema.ofDocument_record.2 (Or.inr ⟨_, _, _, rfl, .cons (.leaf rfl) (.cons (.leaf rfl)
      (.cons (.hoist rfl (by decide) rfl (.cons (.leaf rfl) .nil)) .nil)), rfl⟩)
  obtain ⟨hagain, root, hroot, -, -, hprimary, -⟩ := @bound_compared _ _ _ ⟨[]⟩ _ hd hg rfl rfl
  exact ⟨hd, _, _, _, hg, rfl, rfl, hagain, rfl, rfl, rfl, rfl, root, hroot, hprimary⟩

end ProviderGen.Java
