import ProviderGen.Java.ResourceKey
import ProviderGen.Proofs.Java.ClassName
import ProviderGen.Proofs.Java.Resolution
import Mathlib.Data.List.Infix

/-!
Identifiers bound to the classes of their schema. Where the names of a pointer lead from the root
class through fields whose types are classes, the getters of the key become those of these fields,
and otherwise the key stays as it was. The tests of a key are for the steps of its chain, so that
none of them calls a getter on null if those before it hold.
-/

namespace ProviderGen.Java

open Schema (Key Graph Defect)

/-! ### Chains of getters -/

/-- What an expression stands for: nothing, or an object with a value behind each getter. -/
inductive Value where
  | null
  | object (get : String → Value)

namespace Value

/-- The value of a chain of getters, unless one of them is called on null. -/
def call? : Value → List String → Option Value
  | v, [] => some v
  | null, _ :: _ => none
  | object get, g :: r => (get g).call? r

/-- Tests chains for null from the left to the right, up to the first that is null; there is no
outcome if a getter is called on null. -/
def check? (v : Value) : List (List String) → Option Bool
  | [] => some true
  | getters :: r =>
    match v.call? getters with
    | none => none
    | some null => some false
    | some (object _) => v.check? r

lemma check?_map_cons (get : String → Value) (g : String) (chains : List (List String)) :
    (object get).check? (chains.map (g :: ·)) = (get g).check? chains := by
  induction chains with
  | nil => rfl
  | cons getters r ih => simp only [List.map_cons, check?, call?, ih]

/-- The beginnings of a chain can be tested one after the other, and the tests hold just if the
chain has a value that is not null. -/
lemma check?_inits (v : Value) (getters : List String) :
    ∃ b, v.check? getters.inits = some b ∧
      (b = true ↔ ∃ get, v.call? getters = some (object get)) := by
  induction getters generalizing v with
  | nil => cases v <;> simp [check?, call?]
  | cons g r ih =>
    rw [List.inits_cons]
    cases v with
    | null => exact ⟨false, rfl, by simp [call?]⟩
    | object get =>
      simp only [check?, call?, check?_map_cons]
      exact ih (get g)

/-- What a chain starts from is not null; that needs no test. -/
lemma check?_inits_tail (get : String → Value) (getters : List String) :
    (object get).check? getters.inits = (object get).check? getters.inits.tail := by
  cases getters <;> rfl

end Value

/-- The condition that none of the chains is null. -/
def conjunction (chains : List (List String)) : String :=
  " && ".intercalate (chains.map fun getters => chain getters ++ " != null")

lemma map_take_range {α : Type*} (l : List α) :
    (List.range l.length).map (fun i => l.take (i + 1)) = l.inits.tail := by
  refine List.ext_getElem (by simp) fun i h h' => ?_
  rw [List.getElem_map, List.getElem_range, List.getElem_tail, List.getElem_inits]

lemma ResourceKey.nullChecks_eq (k : ResourceKey) :
    k.nullChecks = conjunction k.getters.inits.tail := by
  rw [nullChecks, conjunction, ← map_take_range, List.map_map]
  rfl

/-! ### Names along a pointer -/

/-- The names in a pointer: of what stands behind the start, the pieces between slashes that are
not empty. -/
def NamesIn (pointer : String) (names : List String) : Prop :=
  ∃ rest, pointer = "/properties/" ++ rest ∧
    names = ((rest.toList.splitOn '/').filter (· ≠ [])).map String.ofList

lemma namesIn_of_path? {pointer : String} {names : List String}
    (h : ResourceKey.path? pointer = some names) : NamesIn pointer names ∧ names ≠ [] := by
  unfold ResourceKey.path? at h
  split at h
  · rename_i hstart
    obtain ⟨rest, hrest⟩ := List.isPrefixOf_iff_prefix.1 hstart
    have hpointer : pointer = ResourceKey.pointerStart ++ String.ofList rest := by
      rw [← String.toList_inj, String.toList_append, String.toList_ofList, hrest]
    have hdrop : pointer.toList.drop ResourceKey.pointerStart.length = rest := by
      rw [← hrest, ← String.length_toList, List.drop_left]
    simp only [hdrop, Option.ite_none_left_eq_some, Option.some.injEq] at h
    obtain ⟨hne, rfl⟩ := h
    refine ⟨⟨_, hpointer, ?_⟩, by simpa using hne⟩
    rw [String.toList_ofList]
    congr 1
    exact List.filter_congr fun l _ => by cases l <;> rfl
  · cases h

/-- The fields that the names lead through, starting in the class `c`: each is a field of the
class that was reached before it, and all but the last have the class that is reached next for a
type. -/
inductive Along (classes : List JavaClass) : JavaClass → List String → List JavaField → Prop where
  | last {c : JavaClass} {f : JavaField} (h : f ∈ c.fields) : Along classes c [f.name] [f]
  | step {c c' : JavaClass} {f : JavaField} {names : List String} {fields : List JavaField}
      (h : f ∈ c.fields) (ht : f.type = .named c'.name) (hc : c' ∈ classes)
      (hr : Along classes c' names fields) : Along classes c (f.name :: names) (f :: fields)

variable {classes : List JavaClass} {c : JavaClass} {names getters : List String}
  {fields : List JavaField}

open ResourceKey (follow?)

lemma Along.map_name (h : Along classes c names fields) :
    fields.map JavaField.name = names := by
  induction h with
  | last _ => rfl
  | step _ _ _ _ ih => rw [List.map_cons, ih]

lemma along_of_follow? (h : follow? classes c names = some getters) (hn : names ≠ []) :
    ∃ fields, Along classes c names fields := by
  induction names generalizing c getters with
  | nil => exact absurd rfl hn
  | cons name rest ih =>
    unfold follow? at h
    obtain ⟨f, hf, hnext⟩ := Option.bind_eq_some_iff.1 h
    have hmem := List.mem_of_find?_eq_some hf
    obtain rfl : f.name = name := by simpa using List.find?_some hf
    split at hnext
    · exact ⟨[f], .last hmem⟩
    · rename_i next ht
      obtain ⟨c', hc', hget⟩ := Option.bind_eq_some_iff.1 hnext
      obtain ⟨getters', hg, -⟩ := Option.bind_eq_some_iff.1 hget
      obtain ⟨fields, hr⟩ := ih hg (by simp)
      obtain rfl : c'.name = next := by simpa using List.find?_some hc'
      exact ⟨f :: fields, .step hmem ht (List.mem_of_find?_eq_some hc') hr⟩
    · cases hnext

lemma Along.follow? (h : Along classes c names fields)
    (hn : (classes.map JavaClass.name).Nodup)
    (hf : ∀ c ∈ classes, (c.fields.map JavaField.name).Nodup) (hc : c ∈ classes) :
    follow? classes c names = some (fields.map fun f => getter f.identifier) := by
  induction h with
  | @last c f h =>
    unfold ResourceKey.follow?
    rw [find?_of_nodup (hf c hc) h]
    rfl
  | @step c c' f names fields h ht hc' hr ih =>
    unfold ResourceKey.follow?
    rw [find?_of_nodup (hf c hc) h]
    cases names with
    -- a step is never the last one
    | nil => cases hr
    | cons name rest => simp [ht, find?_of_mem hn hc', ih hc']

/-! ### The keys of a schema -/

/-- No class of a schema has two fields for properties of one name. -/
lemma nodup_fields {d : Document} {g : Graph} {package : Package} (hd : d.Distinct)
    (hg : Graph.ofDocument d = .ok g) (hc : classesOf rootClassName package g = .ok classes)
    (hin : c ∈ classes) : (c.fields.map JavaField.name).Nodup := by
  have hr := classesOf_result rootClassName package g
  rw [hc] at hr
  obtain ⟨o, ho, -, -, hfields⟩ := Schema.exists_of_forall₂ hr.2.2 hin
  have hnames : c.fields.map JavaField.name = o.properties.map Schema.Property.name := by
    rw [← List.forall₂_eq_eq_eq, List.forall₂_map_left_iff, List.forall₂_map_right_iff]
    exact List.Forall₂.flip (hfields.imp fun _ _ hf => hf.1)
  obtain ⟨schema, rfl⟩ : ∃ schema, d = .record schema := by
    cases d with
    | record schema => exact ⟨schema, rfl⟩
    | _ => cases hg
  obtain ⟨m, -, hm, ⟨ps, hp, hps⟩ | ⟨-, -, hnil⟩⟩ := Schema.node_of_object hd hg ho
  · have hps' : o.properties.map Schema.Property.name = ps.map Prod.fst := by
      rw [← List.forall₂_eq_eq_eq, List.forall₂_map_left_iff, List.forall₂_map_right_iff]
      exact hps.imp fun _ _ h => h.1
    rw [hnames, hps']
    exact (Document.distinct_record.1 ((hd.of_follow? hm).of_lookup hp)).1
  · rw [hnames, hnil]
    exact List.nodup_nil

/-- The pointer of a key leads along names. -/
def Leads (k : ResourceKey) : Prop := ∃ names, ResourceKey.path? k.pointer = some names

lemma leads_of_ofPointer? {pointer : String} {k : ResourceKey}
    (h : ResourceKey.ofPointer? pointer = some k) : Leads k := by
  obtain ⟨names, hnames, rfl⟩ := Option.map_eq_some_iff.1 h
  exact ⟨names, hnames⟩

lemma forall₂_of_mapM {α β ε : Type*} {f : α → Except ε β} {l : List α} {r : List β}
    (h : l.mapM f = .ok r) : List.Forall₂ (fun a b => f a = .ok b) l r := by
  have hf : ∀ a, Outcome (fun b => True ∧ f a = .ok b) (fun _ => True) (f a) := by
    intro a
    cases f a with
    | ok b => exact ⟨trivial, rfl⟩
    | error e => trivial
  have hr := mapM_result hf l
  rw [h] at hr
  exact hr.2

lemma exists_of_mapM {α β ε : Type*} {f : α → Except ε β} {l : List α} {r : List β} {b : β}
    (h : l.mapM f = .ok r) (hb : b ∈ r) : ∃ a ∈ l, f a = .ok b :=
  Schema.exists_of_forall₂ (R := fun a b => f a = .ok b) (forall₂_of_mapM h) hb

lemma exists_of_mapM_error {α β ε : Type*} {f : α → Except ε β} {l : List α} {e : ε}
    (h : l.mapM f = .error e) : ∃ a ∈ l, f a = .error e := by
  have hf : ∀ a, Outcome (fun b => True ∧ f a = .ok b) (fun e => f a = .error e) (f a) := by
    intro a
    cases f a with
    | ok b => exact ⟨trivial, rfl⟩
    | error e => rfl
  have hr := mapM_result (E := fun e a => f a = .error e) hf l
  rw [h] at hr
  obtain ⟨before, a, after, rfl, -, ha⟩ := hr
  exact ⟨a, by simp, ha⟩

/-- The group that the list at a place is for. -/
def groupAt (place : Key) (d : Document) : Except Defect KeyGroup :=
  (ResourceKeys.keysAt place d).bind fun keys => .ok ⟨ResourceKeys.methodOf keys, keys⟩

lemma groupAt_ok {place : Key} {d : Document} {g : KeyGroup} (h : groupAt place d = .ok g) :
    ResourceKeys.keysAt place d = .ok g.keys ∧ g.method = ResourceKeys.methodOf g.keys := by
  unfold groupAt at h
  cases hk : ResourceKeys.keysAt place d with
  | error e =>
    rw [hk] at h
    cases h
  | ok keys =>
    rw [hk] at h
    cases h
    exact ⟨rfl, rfl⟩

lemma groupAt_error {place : Key} {d : Document} {e : Defect} (h : groupAt place d = .error e) :
    ResourceKeys.keysAt place d = .error e := by
  unfold groupAt at h
  cases hk : ResourceKeys.keysAt place d with
  | error e =>
    rw [hk] at h
    cases h
    rfl
  | ok keys =>
    rw [hk] at h
    cases h

/-- Each group is made of its list alone, at the place with its number. -/
lemma groupsFrom_eq_mapM (i : ℕ) (ds : List Document) :
    ResourceKeys.groupsFrom i ds = (ds.zipIdx i).mapM fun a =>
      groupAt (ResourceKeys.additionalPlace.child (toString a.2)) a.1 := by
  induction ds generalizing i with
  | nil => rfl
  | cons d ds ih =>
    rw [ResourceKeys.groupsFrom, ih, List.zipIdx_cons, List.mapM_cons, groupAt]
    cases ResourceKeys.keysAt (ResourceKeys.additionalPlace.child (toString i)) d with
    | error e => rfl
    | ok keys => rfl

section

variable {P : ResourceKey → Prop}
  (hP : ∀ {pointer k}, ResourceKey.ofPointer? pointer = some k → P k)

include hP

lemma forall_keysAt {place : Key} {d : Document} {keys : List ResourceKey}
    (h : ResourceKeys.keysAt place d = .ok keys) : ∀ k ∈ keys, P k := by
  unfold ResourceKeys.keysAt at h
  split at h
  · intro k hk
    obtain ⟨p, -, hp⟩ := exists_of_mapM h hk
    split at hp
    · split at hp
      · rename_i hk'
        cases hp
        exact hP hk'
      · cases hp
    · cases hp
  · cases h

lemma forall_groupsFrom {i : Nat} {ds : List Document} {groups : List KeyGroup}
    (h : ResourceKeys.groupsFrom i ds = .ok groups) :
    ∀ g ∈ groups, g.method = ResourceKeys.methodOf g.keys ∧ ∀ k ∈ g.keys, P k := by
  intro g hg
  rw [groupsFrom_eq_mapM] at h
  obtain ⟨a, -, ha⟩ := exists_of_mapM h hg
  obtain ⟨hkeys, hmethod⟩ := groupAt_ok ha
  exact ⟨hmethod, forall_keysAt hP hkeys⟩

/-- What holds of the keys made of pointers holds of the keys of a schema. -/
lemma forall_ofDocument {d : Document} {ks : ResourceKeys}
    (h : ResourceKeys.ofDocument d = .ok ks) :
    (∀ k ∈ ks.primary, P k) ∧ ∀ g ∈ ks.additional,
      g.method = ResourceKeys.methodOf g.keys ∧ ∀ k ∈ g.keys, P k := by
  unfold ResourceKeys.ofDocument at h
  cases hp : ResourceKeys.primaryOf (d.member? "primaryIdentifier") with
  | error e =>
    rw [hp] at h
    cases h
  | ok primary =>
    cases ha : ResourceKeys.additionalOf (d.member? "additionalIdentifiers") with
    | error e =>
      rw [hp, ha] at h
      cases h
    | ok additional =>
      rw [hp, ha] at h
      cases h
      refine ⟨?_, ?_⟩
      · unfold ResourceKeys.primaryOf at hp
        split at hp
        · cases hp
          simp
        · exact forall_keysAt hP hp
      · unfold ResourceKeys.additionalOf at ha
        split at ha
        · cases ha
          simp
        · exact forall_groupsFrom hP ha
        · cases ha

end

/-! ### What binding can change -/

/-- Getters that can be followed are those of fields. -/
lemma field_of_follow? (hc : c ∈ classes) (h : follow? classes c names = some getters) :
    ∀ call ∈ getters, ∃ c ∈ classes, ∃ f ∈ c.fields, call = getter f.identifier := by
  induction names generalizing c getters with
  | nil =>
    obtain rfl := Option.some.inj h
    simp
  | cons name rest ih =>
    unfold follow? at h
    obtain ⟨f, hfind, hnext⟩ := Option.bind_eq_some_iff.1 h
    have hfirst : ∃ c ∈ classes, ∃ f' ∈ c.fields, getter f.identifier = getter f'.identifier :=
      ⟨c, hc, f, List.mem_of_find?_eq_some hfind, rfl⟩
    split at hnext
    · obtain rfl := Option.some.inj hnext
      exact List.forall_mem_singleton.2 hfirst
    · obtain ⟨c', hc', hget⟩ := Option.bind_eq_some_iff.1 hnext
      obtain ⟨getters', hg, hmade⟩ := Option.bind_eq_some_iff.1 hget
      obtain rfl := Option.some.inj hmade
      exact List.forall_mem_cons.2 ⟨hfirst, ih (List.mem_of_find?_eq_some hc') hg⟩
    · cases hnext

/-- A key keeps its getters, or has those of fields instead. -/
lemma ResourceKey.bindTo_cases {root : JavaClass} (hroot : root ∈ classes) (k : ResourceKey) :
    k.bindTo classes root = k ∨ ∃ getters, k.bindTo classes root = { k with getters } ∧
      ∀ call ∈ getters, ∃ c ∈ classes, ∃ f ∈ c.fields, call = getter f.identifier := by
  unfold bindTo
  split
  · rename_i getters hget
    obtain ⟨names, -, hfollow⟩ := Option.bind_eq_some_iff.1 hget
    exact Or.inr ⟨getters, rfl, field_of_follow? hroot hfollow⟩
  · exact Or.inl rfl

/-- What binding a key keeps, binding all keys keeps. -/
lemma ResourceKeys.forall_bindTo {P : ResourceKey → Prop} {M : String → Prop}
    (hP : ∀ root ∈ classes, ∀ k, P k → P (k.bindTo classes root)) {ks : ResourceKeys}
    (hprimary : ∀ k ∈ ks.primary, P k)
    (hadditional : ∀ group ∈ ks.additional, M group.method ∧ ∀ k ∈ group.keys, P k) :
    (∀ k ∈ (ks.bindTo classes).primary, P k) ∧
      ∀ group ∈ (ks.bindTo classes).additional, M group.method ∧ ∀ k ∈ group.keys, P k := by
  unfold bindTo
  split
  · exact ⟨hprimary, hadditional⟩
  · rename_i root hfind
    have hroot := List.mem_of_find?_eq_some hfind
    refine ⟨List.forall_mem_map.2 fun k hk => hP root hroot k (hprimary k hk),
      List.forall_mem_map.2 fun group hgroup => ?_⟩
    obtain ⟨hmethod, hkeys⟩ := hadditional group hgroup
    exact ⟨hmethod, List.forall_mem_map.2 fun k hk => hP root hroot k (hkeys k hk)⟩

/-- Binding looks at the pointer of a key, and leaves it as it is. -/
lemma ResourceKey.bindTo_eq {root : JavaClass} {k : ResourceKey}
    (hk : path? k.pointer = some names) : k.bindTo classes root =
      ((follow? classes root names).map fun getters => { k with getters }).getD k := by
  unfold bindTo
  rw [hk, Option.bind_some]
  cases follow? classes root names <;> rfl

lemma root_found {d : Document} {g : Graph} {package : Package} (hd : d.Distinct)
    (hg : Graph.ofDocument d = .ok g) (hc : classesOf rootClassName package g = .ok classes) :
    ∃ root ∈ classes, root.key = .root ∧ root.name = rootClassName ∧
      classes.find? JavaClass.isRoot = some root := by
  obtain ⟨root, rest, rfl, hkey, hname⟩ := root_first hd hg hc
  refine ⟨root, List.mem_cons_self, hkey, hname, ?_⟩
  rw [List.find?_cons_of_pos]
  rw [JavaClass.isRoot, hkey]
  rfl

/-- Every key is bound by itself. -/
lemma ResourceKeys.bindTo_of_root {root : JavaClass}
    (hroot : classes.find? JavaClass.isRoot = some root) (ks : ResourceKeys) :
    ks.bindTo classes = ⟨ks.primary.map (·.bindTo classes root),
      ks.additional.map fun group => ⟨group.method, group.keys.map (·.bindTo classes root)⟩⟩ := by
  unfold bindTo
  rw [hroot]

/-- The getters of the fields, as they are called. -/
def gettersOf (fields : List JavaField) : List String :=
  fields.map fun f => "get" ++ f.accessor ++ "()"

/-- A key whose names can be followed has the getters of the fields that they lead along. -/
lemma ResourceKey.bindTo_along {root : JavaClass} {k : ResourceKey}
    (hn : (classes.map JavaClass.name).Nodup)
    (hf : ∀ c ∈ classes, (c.fields.map JavaField.name).Nodup) (hroot : root ∈ classes)
    (hk : path? k.pointer = some names) (h : Along classes root names fields) :
    k.bindTo classes root = { k with getters := gettersOf fields } := by
  rw [bindTo_eq hk, h.follow? hn hf hroot]
  rfl

/-- Any other key stays as it is. -/
lemma ResourceKey.bindTo_astray {root : JavaClass} {k : ResourceKey}
    (hk : path? k.pointer = some names) (h : ¬ ∃ fields, Along classes root names fields) :
    k.bindTo classes root = k := by
  rw [bindTo_eq hk]
  cases hfollow : follow? classes root names with
  | some getters => exact absurd (along_of_follow? hfollow (namesIn_of_path? hk).2) h
  | none => rfl

/-- A key whose pointer has the given names, before and after it is bound. -/
structure Bound (classes : List JavaClass) (root : JavaClass) (k k' : ResourceKey)
    (names : List String) : Prop where
  path : NamesIn k.pointer names ∧ names ≠ []
  pointer : k'.pointer = k.pointer
  constant : k'.constant = k.constant
  bound : ∀ fields, Along classes root names fields → fields.map JavaField.name = names ∧
    k'.getterChain = "this." ++ ".".intercalate (gettersOf fields) ∧
    k'.nullChecks = conjunction (gettersOf fields).inits.tail ∧
    ∀ get, ∃ b, (Value.object get).check? (gettersOf fields).inits.tail = some b ∧
      (b = true ↔ ∃ get', (Value.object get).call? (gettersOf fields) = some (.object get'))
  other : (¬ ∃ fields, Along classes root names fields) → k' = k

lemma bound_bindTo {root : JavaClass} {k : ResourceKey}
    (hn : (classes.map JavaClass.name).Nodup)
    (hf : ∀ c ∈ classes, (c.fields.map JavaField.name).Nodup) (hroot : root ∈ classes)
    (hk : Leads k) : ∃ names, Bound classes root k (k.bindTo classes root) names := by
  obtain ⟨names, hnames⟩ := hk
  refine ⟨names, namesIn_of_path? hnames, ?_, ?_, fun fields h => ?_, fun hnone => ?_⟩
  · rw [ResourceKey.bindTo_eq hnames]
    cases follow? classes root names <;> rfl
  · rw [ResourceKey.bindTo_eq hnames]
    cases follow? classes root names <;> rfl
  · rw [ResourceKey.bindTo_along hn hf hroot hnames h]
    refine ⟨h.map_name, rfl, ResourceKey.nullChecks_eq _, fun get => ?_⟩
    rw [← Value.check?_inits_tail]
    exact Value.check?_inits _ _
  · exact ResourceKey.bindTo_astray hnames hnone

/-- **The keys of a schema, bound to its classes.** Where the names in a pointer lead from the
root class through fields, and through all but the last to further classes, the key has the
accessors of these fields for a chain, and tests that can be made from the left to the right
without calling a getter on null; any other key stays as it was. Nothing else changes. -/
theorem keys_bound {d : Document} {g : Graph} {package : Package} {ks : ResourceKeys}
    (hd : d.Distinct) (hg : Graph.ofDocument d = .ok g)
    (hc : classesOf rootClassName package g = .ok classes)
    (hk : ResourceKeys.ofDocument d = .ok ks) :
    ∃ root ∈ classes, root.key = .root ∧ root.name = rootClassName ∧
      List.Forall₂ (fun k k' => ∃ names, Bound classes root k k' names)
        ks.primary (ks.bindTo classes).primary ∧
      List.Forall₂ (fun group group' => group'.method = group.method ∧
          List.Forall₂ (fun k k' => ∃ names, Bound classes root k k' names)
            group.keys group'.keys)
        ks.additional (ks.bindTo classes).additional := by
  obtain ⟨root, rest, rfl, hkey, hname⟩ := root_first hd hg hc
  have hn := (classNames_ok hc).1
  have hf := fun c hin => nodup_fields (c := c) hd hg hc hin
  obtain ⟨hprimary, hadditional⟩ := forall_ofDocument leads_of_ofPointer? hk
  have hfind : (root :: rest).find? JavaClass.isRoot = some root := by
    rw [List.find?_cons_of_pos]
    rw [JavaClass.isRoot, hkey]
    rfl
  have hbound : ∀ k, Leads k → ∃ names, Bound (root :: rest) root k
      (k.bindTo (root :: rest) root) names :=
    fun k => bound_bindTo hn hf List.mem_cons_self
  refine ⟨root, List.mem_cons_self, hkey, hname, ?_⟩
  unfold ResourceKeys.bindTo
  rw [hfind]
  simp only [List.forall₂_map_right_iff, List.forall₂_same]
  exact ⟨fun k hin => hbound k (hprimary k hin),
    fun group hin => ⟨trivial, fun k hin' => hbound k ((hadditional group hin).2 k hin')⟩⟩

/-- A property of its own beside one that differs from it in case only, twice; one key leads to
such a property within an object, and one leads through a text. -/
def station : Document.Members :=
  let text := Document.record [("type", .text "string")]
  let config := Document.record [("type", .text "object"),
    ("properties", .record [("arn", text), ("Arn", text)])]
  [("properties", .record [("Name", text), ("name", text), ("config", config)]),
   ("primaryIdentifier", .list [.text "/properties/config//Arn"]),
   ("additionalIdentifiers", .list [.list [.text "/properties/name/Arn"]])]

theorem keys_bound_station :
    (Document.record station).Distinct ∧ ∃ g classes ks,
      Graph.ofDocument (.record station) = .ok g ∧
      classesOf rootClassName ⟨[]⟩ g = .ok classes ∧
      ResourceKeys.ofDocument (.record station) = .ok ks ∧
      ((ks.bindTo classes).primary.map fun k => (k.getterChain, k.nullChecks)) =
        [("this.getConfig().getArn1()",
          "this.getConfig() != null && this.getConfig().getArn1() != null")] ∧
      ∃ root ∈ classes, List.Forall₂ (fun k k' => ∃ names, Bound classes root k k' names)
        ks.primary (ks.bindTo classes).primary := by
  have hd : (Document.record station).Distinct := by simp [station]
  have hg : Graph.ofDocument (.record station) = .ok _ :=
    Schema.ofDocument_record.2 (Or.inr ⟨_, _, _, rfl, .cons (.leaf rfl) (.cons (.leaf rfl)
      (.cons (.hoist rfl (by decide) rfl (.cons (.leaf rfl) (.cons (.leaf rfl) .nil))) .nil)),
      rfl⟩)
  obtain ⟨root, hroot, -, -, hprimary, -⟩ := @keys_bound _ _ _ ⟨[]⟩ _ hd hg rfl rfl
  exact ⟨hd, _, _, _, hg, rfl, rfl, rfl, root, hroot, hprimary⟩

end ProviderGen.Java
