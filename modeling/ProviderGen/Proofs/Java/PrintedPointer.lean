import ProviderGen.Proofs.Java.Accessors
import ProviderGen.Proofs.Schema.Escape

/-!
Identifiers that point to properties by the names that lead there, written with escapes as keys
are. The names are read as they are written. So a pointer is bound to the property that it is for
if no name on its way needs an escape; otherwise it leads along what is written there, to another
property or to none.
-/

namespace ProviderGen.Java

open ResourceKey (follow? path?)
open Schema (Graph Defect IsPlainName written written_eq_iff noSlash_written written_ne_empty)

variable {classes : List JavaClass} {root c : JavaClass} {names names' getters : List String}
  {fields fields' : List JavaField} {k : ResourceKey} {d : Document} {e : Defect}
  {pointers : List Document} {pointer : String}

/-- The pointer to the property that the names lead to. -/
def pointerTo (names : List String) : String :=
  "/properties/" ++ "/".intercalate (names.map written)

/-- The key calls the getters one after the other, and tests each of them. -/
structure Calls (k : ResourceKey) (getters : List String) : Prop where
  chain : k.getterChain = "this." ++ ".".intercalate getters
  tests : k.nullChecks = conjunction getters.inits.tail

lemma calls_getters (k : ResourceKey) : Calls k k.getters := ⟨rfl, k.nullChecks_eq⟩

/-! ### Reading the names -/

/-- The names are read as they are written. -/
lemma path?_pointerTo (hne : names ≠ []) (h : ∀ n ∈ names, n ≠ "") :
    path? (pointerTo names) = some (names.map written) := by
  have hsplit : ("/".intercalate (names.map written)).toList.splitOn '/' =
      (names.map written).map String.toList :=
    Text.splitOn_joined rfl (by simpa using hne)
      (List.forall_mem_map.2 fun n _ => noSlash_written n)
  have hfilter : ((names.map written).map String.toList).filter (!·.isEmpty) =
      (names.map written).map String.toList := by
    refine List.filter_eq_self.2 (List.forall_mem_map.2 (List.forall_mem_map.2 fun n hn => ?_))
    simpa using written_ne_empty (h n hn)
  have hprefix : ResourceKey.pointerStart.toList.isPrefixOf (pointerTo names).toList = true :=
    Text.isPrefixOf_append _ _
  have hdrop : (pointerTo names).toList.drop ResourceKey.pointerStart.length =
      ("/".intercalate (names.map written)).toList := Text.drop_append _ _
  rw [path?, if_pos hprefix, hdrop, hsplit, hfilter]
  dsimp only
  rw [if_neg (by simpa using hne), List.map_map]
  exact congrArg some (List.map_id'' (fun _ => String.ofList_toList) _)

lemma map_written_eq_iff : names.map written = names ↔ ∀ n ∈ names, IsPlainName n := by
  conv_lhs => rw [← List.map_id names, List.map_map]
  rw [List.map_inj_left]
  exact forall₂_congr fun n _ => written_eq_iff

/-! ### Different names -/

/-- The getters along a way tell the names that it leads along. -/
lemma Along.names_inj (hn : (classes.map JavaClass.name).Nodup)
    (hid : ∀ c ∈ classes, (c.fields.map JavaField.identifier).Nodup ∧
      ∀ f ∈ c.fields, StartsLow f.identifier)
    (hc : c ∈ classes) (h : Along classes c names fields) (h' : Along classes c names' fields')
    (e : (fields.map fun f => getter f.identifier) = fields'.map fun f => getter f.identifier) :
    names = names' := by
  have hfield : ∀ c ∈ classes, ∀ f ∈ c.fields, ∀ f' ∈ c.fields,
      getter f.identifier = getter f'.identifier → f = f' := by
    intro c hc f hf f' hf' e
    obtain ⟨hnodup, hlow⟩ := hid c hc
    exact List.inj_on_of_nodup_map hnodup hf hf' ((getter_inj (hlow f hf) (hlow f' hf')).1 e)
  induction h generalizing names' fields' with
  | last hf =>
    cases h' with
    | last hf' =>
      obtain rfl := hfield _ hc _ hf _ hf' (List.cons.inj e).1
      rfl
    | step _ _ _ hr =>
      exact absurd (List.map_eq_nil_iff.1 (List.cons.inj e).2.symm) hr.ne_nil
  | step hf ht hc' hr ih =>
    cases h' with
    | last => exact absurd (List.map_eq_nil_iff.1 (List.cons.inj e).2) hr.ne_nil
    | step hf' ht' hc'' hr' =>
      obtain ⟨hfirst, hrest⟩ := List.cons.inj e
      obtain rfl := hfield _ hc _ hf _ hf' hfirst
      obtain rfl := List.inj_on_of_nodup_map hn hc' hc'' (JavaType.named.inj (ht.symm.trans ht'))
      rw [ih hc' hr' hrest]

/-- What can be followed are the getters of fields along the names. -/
lemma exists_along (hn : (classes.map JavaClass.name).Nodup)
    (hf : ∀ c ∈ classes, (c.fields.map JavaField.name).Nodup) (hc : c ∈ classes)
    (h : follow? classes c names = some getters) (hne : names ≠ []) :
    ∃ fields, Along classes c names fields ∧ gettersOf fields = getters := by
  obtain ⟨fields, halong⟩ := along_of_follow? h hne
  exact ⟨fields, halong, Option.some.inj ((halong.follow? hn hf hc).symm.trans h)⟩

/-! ### The keys of a schema -/

/-- A complaint about a pointer is true. -/
def Justified (e : Defect) : Prop :=
  ∀ pointer, e.fault = .pointerElsewhere pointer → path? pointer = none

lemma justified_of_keysAt {place : Schema.Key} (h : ResourceKeys.keysAt place d = .error e) :
    Justified e := by
  unfold ResourceKeys.keysAt at h
  split at h
  · obtain ⟨p, -, hp⟩ := exists_of_mapM_error h
    split at hp
    · split at hp
      · cases hp
      · rename_i hnone
        cases hp
        rintro pointer ⟨⟩
        exact Option.map_eq_none_iff.1 hnone
    · cases hp
      rintro pointer ⟨⟩
  · cases h
    rintro pointer ⟨⟩

lemma justified_of_groupsFrom {i : Nat} {ds : List Document}
    (h : ResourceKeys.groupsFrom i ds = .error e) : Justified e := by
  rw [groupsFrom_eq_mapM] at h
  obtain ⟨a, -, ha⟩ := exists_of_mapM_error h
  exact justified_of_keysAt (groupAt_error ha)

lemma justified_of_ofDocument (h : ResourceKeys.ofDocument d = .error e) : Justified e := by
  unfold ResourceKeys.ofDocument at h
  cases hp : ResourceKeys.primaryOf (d.member? "primaryIdentifier") with
  | error e' =>
    rw [hp] at h
    cases h
    unfold ResourceKeys.primaryOf at hp
    split at hp
    · cases hp
    · exact justified_of_keysAt hp
  | ok primary =>
    cases ha : ResourceKeys.additionalOf (d.member? "additionalIdentifiers") with
    | error e' =>
      rw [hp, ha] at h
      cases h
      unfold ResourceKeys.additionalOf at ha
      split at ha
      · cases ha
      · exact justified_of_groupsFrom ha
      · cases ha
        rintro pointer ⟨⟩
    | ok additional =>
      rw [hp, ha] at h
      cases h

/-- Every pointer in the list gives a key. -/
lemma exists_primary {ks : ResourceKeys}
    (hp : d.member? "primaryIdentifier" = some (.list pointers)) (h : .text pointer ∈ pointers)
    (hk : ResourceKeys.ofDocument d = .ok ks) : ∃ k ∈ ks.primary, k.pointer = pointer := by
  unfold ResourceKeys.ofDocument at hk
  rw [hp] at hk
  obtain ⟨primary, hprimary, hk⟩ := bind_eq_ok.1 hk
  obtain ⟨additional, -, hk⟩ := bind_eq_ok.1 hk
  cases hk
  obtain ⟨k, hin, hmade⟩ := Schema.exists_of_forall₂ (forall₂_of_mapM hprimary).flip h
  refine ⟨k, hin, ?_⟩
  dsimp only at hmade
  split at hmade
  · rename_i k' hk'
    cases hmade
    obtain ⟨-, -, rfl⟩ := Option.map_eq_some_iff.1 hk'
    rfl
  · cases hmade

/-- A bound key whose pointer is for the property that the names lead to along the fields: it has
the getters of these fields if no name needs an escape, and otherwise those of other fields or, if
there are none, the getters that the written names ask for. -/
structure PointedAt (classes : List JavaClass) (root : JavaClass) (names : List String)
    (fields : List JavaField) (k : ResourceKey) : Prop where
  plain : (∀ n ∈ names, IsPlainName n) → Calls k (gettersOf fields)
  others : (∃ n ∈ names, ¬ IsPlainName n) →
    ∀ fields', Along classes root (names.map written) fields' →
      Calls k (gettersOf fields') ∧ ¬ Calls k (gettersOf fields)
  none : (∃ n ∈ names, ¬ IsPlainName n) →
    (¬ ∃ fields', Along classes root (names.map written) fields') →
      Calls k (names.map fun n => "get" ++ accessor (fieldName (written n)) ++ "()")

lemma pointedAt_bindTo (hn : (classes.map JavaClass.name).Nodup)
    (hf : ∀ c ∈ classes, (c.fields.map JavaField.name).Nodup)
    (hid : ∀ c ∈ classes, (c.fields.map JavaField.identifier).Nodup ∧
      ∀ f ∈ c.fields, StartsLow f.identifier)
    (hword : ∀ c ∈ classes, ∀ f ∈ c.fields, IsWord f.identifier.toList)
    (hroot : root ∈ classes) (hk : Derived k (names.map written))
    (h : Along classes root names fields) :
    PointedAt classes root names fields (k.bindTo classes root) := by
  obtain ⟨hpath, hgetters⟩ := hk
  have hbound : ∀ fields', Along classes root (names.map written) fields' →
      Calls (k.bindTo classes root) (gettersOf fields') := by
    intro fields' h'
    rw [ResourceKey.bindTo_along hn hf hroot hpath h']
    exact calls_getters _
  have hnoDot : ∀ {names fields}, Along classes root names fields →
      ∀ call ∈ gettersOf fields, '.' ∉ call.toList := by
    intro names fields h
    refine List.forall_mem_map.2 fun f hin => ?_
    obtain ⟨c, hc, hin'⟩ := h.mem hroot f hin
    exact noDot_getter (hword c hc f hin')
  refine ⟨fun hplain => ?_, fun hother fields' h' => ⟨hbound fields' h', fun hcalls => ?_⟩,
    fun hother hnone => ?_⟩
  · rw [← map_written_eq_iff] at hplain
    exact hbound fields (hplain.symm ▸ h)
  · -- the chains are equal as texts, so the names are
    have hchain : chain (gettersOf fields') = chain (gettersOf fields) :=
      (hbound fields' h').chain.symm.trans hcalls.chain
    rw [chain_inj (by simpa [gettersOf] using h'.ne_nil) (by simpa [gettersOf] using h.ne_nil)
      (hnoDot h') (hnoDot h)] at hchain
    have hsame := Along.names_inj hn hid hroot h' h hchain
    obtain ⟨n, hin, hescaped⟩ := hother
    exact hescaped (map_written_eq_iff.1 hsame n hin)
  · have hcalls := calls_getters k
    rw [hgetters, List.map_map] at hcalls
    rw [ResourceKey.bindTo_astray hpath hnone]
    exact hcalls

/-- **A pointer to a property is bound to it if no name on the way needs an escape.** The pointer
is never complained of. But the names are taken as they are written, so that with an escape in one
of them the key goes along other fields or along none. -/
theorem pointer_bound {g : Graph} {package : Package} (hd : d.Distinct)
    (hg : Graph.ofDocument d = .ok g) (hc : classesOf rootClassName package g = .ok classes)
    (hp : d.member? "primaryIdentifier" = some (.list pointers)) :
    ∃ root ∈ classes, root.key = .root ∧ root.name = rootClassName ∧
      ∀ names fields, Along classes root names fields → (∀ n ∈ names, n ≠ "") →
        .text (pointerTo names) ∈ pointers →
        (∀ e, ResourceKeys.ofDocument d = .error e →
          e.fault ≠ .pointerElsewhere (pointerTo names)) ∧
        ∀ ks, ResourceKeys.ofDocument d = .ok ks →
          (∃ k ∈ (ks.bindTo classes).primary, k.pointer = pointerTo names) ∧
          ∀ k ∈ (ks.bindTo classes).primary, k.pointer = pointerTo names →
            PointedAt classes root names fields k := by
  obtain ⟨root, hin, hkey, hname, hroot⟩ := root_found hd hg hc
  refine ⟨root, hin, hkey, hname, fun names fields h hne hmem => ?_⟩
  have hnames : names ≠ [] := by
    rw [← h.map_name]
    simpa using h.ne_nil
  have hpath := path?_pointerTo hnames hne
  refine ⟨fun e he hfault => ?_, fun ks hk => ?_⟩
  · rw [justified_of_ofDocument he _ hfault] at hpath
    cases hpath
  · have hderived := (forall_ofDocument derived_of_ofPointer? hk).1
    have hpointer : ∀ k ∈ ks.primary, (k.bindTo classes root).pointer = k.pointer := by
      intro k hink
      obtain ⟨names', hpath', -⟩ := hderived k hink
      rw [ResourceKey.bindTo_eq hpath']
      cases follow? classes root names' <;> rfl
    rw [ResourceKeys.bindTo_of_root hroot]
    dsimp only
    refine ⟨?_, List.forall_mem_map.2 fun k hink e => ?_⟩
    · obtain ⟨k, hink, e⟩ := exists_primary hp hmem hk
      exact ⟨_, List.mem_map_of_mem hink, (hpointer k hink).trans e⟩
    · obtain ⟨names', hpath', hgetters⟩ := hderived k hink
      rw [hpointer k hink] at e
      obtain rfl : names.map written = names' :=
        Option.some.inj ((e ▸ hpath).symm.trans hpath')
      exact pointedAt_bindTo (classNames_ok hc).1 (fun c => nodup_fields hd hg hc)
        (fun c => identifiers_ok hc) (fun c hinc f => isWord_identifier hc hinc) hin
        ⟨hpath', hgetters⟩ h

/-- A property with odd characters, but none to escape, within an object. -/
def quay : Document.Members :=
  let text := Document.record [("type", .text "string")]
  let crane := Document.record [("type", .text "object"),
    ("properties", .record [("no. 1", text), ("No. 1", text)])]
  [("properties", .record [("crane", crane)]),
   ("primaryIdentifier", .list [.text "/properties/crane/No. 1"])]

theorem pointer_bound_quay : (Document.record quay).Distinct ∧ ∃ g classes ks,
    Graph.ofDocument (.record quay) = .ok g ∧
    classesOf rootClassName ⟨[]⟩ g = .ok classes ∧
    ResourceKeys.ofDocument (.record quay) = .ok ks ∧
    ∃ root ∈ classes, ∃ fields, Along classes root ["crane", "No. 1"] fields ∧
      gettersOf fields = ["getCrane()", "getNo__11()"] ∧
      ∃ k ∈ (ks.bindTo classes).primary, Calls k (gettersOf fields) := by
  have hd : (Document.record quay).Distinct := by simp [quay]
  have hg : Graph.ofDocument (.record quay) = .ok _ :=
    Schema.ofDocument_record.2 (Or.inr ⟨_, _, _, rfl,
      .cons (.hoist rfl (by decide) rfl (.cons (.leaf rfl) (.cons (.leaf rfl) .nil))) .nil, rfl⟩)
  obtain ⟨root, hin, hkey, -, hall⟩ := @pointer_bound _ _ _ _ ⟨[]⟩ hd hg rfl rfl
  refine ⟨hd, _, _, _, hg, rfl, rfl, root, hin, ?_⟩
  rcases List.mem_cons.1 hin with rfl | hrest
  · obtain ⟨fields, halong, hgetters⟩ := @exists_along _ _ ["crane", "No. 1"] _ (by decide)
      (by decide) hin rfl (by decide)
    have hpointer : pointerTo ["crane", "No. 1"] = "/properties/crane/No. 1" := by decide
    obtain ⟨-, hkeys⟩ := hall _ fields halong (by decide)
      (List.mem_singleton.2 (congrArg Document.text hpointer))
    obtain ⟨⟨k, hk, e⟩, hpointed⟩ := hkeys _ rfl
    exact ⟨fields, halong, hgetters, k, hk, (hpointed k hk e).plain (by decide)⟩
  · obtain rfl := List.mem_singleton.1 hrest
    exact absurd hkey (by decide)

/-- A property with a slash in its name. -/
def towpath : Document.Members :=
  [("properties", .record [("a/b", .record [("type", .text "string")])]),
   ("primaryIdentifier", .list [.text "/properties/a~1b"])]

/-- The pointer is that of the property, but the key calls a getter that no field has. -/
theorem slash_unbound : (Document.record towpath).Distinct ∧ ∃ g root ks k fields,
    Graph.ofDocument (.record towpath) = .ok g ∧
    classesOf rootClassName ⟨[]⟩ g = .ok [root] ∧
    ResourceKeys.ofDocument (.record towpath) = .ok ks ∧
    (ks.bindTo [root]).primary = [k] ∧ k.pointer = pointerTo ["a/b"] ∧
    Along [root] root ["a/b"] fields ∧ gettersOf fields = ["getA_b()"] ∧
    k.getterChain = "this.getA_1b()" := by
  have hd : (Document.record towpath).Distinct := by simp [towpath]
  have hg : Graph.ofDocument (.record towpath) = .ok _ :=
    Schema.ofDocument_record.2 (Or.inr ⟨_, _, _, rfl, .cons (.leaf rfl) .nil, rfl⟩)
  refine ⟨hd, _, _, _, _, [⟨"a/b", "a_b", .string, false⟩], hg, rfl, rfl, rfl, by decide,
    .last (f := ⟨"a/b", "a_b", .string, false⟩) ?_, rfl, rfl⟩
  decide

end ProviderGen.Java
