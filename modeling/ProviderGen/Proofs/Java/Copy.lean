import ProviderGen.Java.Class
import ProviderGen.Proofs.Java.FreeName
import Mathlib.Data.List.Forall2

/-!
The classes of a graph are a copy of it. Every object has one class, under a name that no other
class has and that generated sources do not use otherwise, and a reference is rewritten to the
name under which the class of its object is found. There are no classes just if some reference
leads nowhere, and then the first such reference is reported.
-/

namespace ProviderGen.Java

open ProviderGen.Schema (Key FlatType Property Object Graph)

/-! ### The first failure -/

/-- The value has `P`, or the fault has `Q`. -/
def Outcome {β ε : Type*} (P : β → Prop) (Q : ε → Prop) : Except ε β → Prop
  | .ok b => P b
  | .error e => Q e

namespace Outcome

variable {β γ ε : Type*} {P P' : β → Prop} {Q Q' : ε → Prop} {R : γ → Prop} {x : Except ε β}

lemma imp (h : Outcome P Q x) (hP : ∀ b, P b → P' b) (hQ : ∀ e, Q e → Q' e) :
    Outcome P' Q' x := by
  cases x with
  | ok b => exact hP b h
  | error e => exact hQ e h

lemma bind {f : β → Except ε γ} (h : Outcome P Q x) (hf : ∀ b, P b → Outcome R Q (f b)) :
    Outcome R Q (x.bind f) := by
  cases x with
  | ok b => exact hf b h
  | error e => exact h

/-- If no fault goes with `A`, there is a value just if `A` holds. -/
lemma ok_iff {A : Prop} (h : Outcome P Q x) (hP : ∀ b, P b → A) (hQ : ∀ e, Q e → ¬ A) :
    (∃ b, x = .ok b) ↔ A := by
  cases x with
  | ok b => exact iff_of_true ⟨b, rfl⟩ (hP b h)
  | error e => exact iff_of_false (by simp) (hQ e h)

/-- If only one fault can be told, and none beside a value, then it is the one. -/
lemma error_iff {e : ε} (h : Outcome P Q x) (hP : ∀ b, P b → ¬ Q e)
    (hQ : ∀ e', Q e' → Q e → e' = e) : x = .error e ↔ Q e := by
  cases x with
  | ok b => exact iff_of_false (by simp) (hP b h)
  | error e' =>
    rw [Except.error.injEq]
    exact ⟨fun he => he ▸ h, hQ e' h⟩

end Outcome

/-- An entry with `Q`, behind entries that all have `P`. -/
def First {α : Type*} (P Q : α → Prop) (l : List α) : Prop :=
  ∃ before a after, l = before ++ a :: after ∧ (∀ b ∈ before, P b) ∧ Q a

lemma First.map {α β : Type*} {P Q : α → Prop} {P' Q' : β → Prop} {l : List α} (f : α → β)
    (h : First P Q l) (hP : ∀ a, P a → P' (f a)) (hQ : ∀ a ∈ l, Q a → Q' (f a)) :
    First P' Q' (l.map f) := by
  obtain ⟨before, a, after, rfl, hb, ha⟩ := h
  refine ⟨before.map f, f a, after.map f, by simp, fun b hin => ?_, hQ a (by simp) ha⟩
  obtain ⟨c, hc, rfl⟩ := List.mem_map.1 hin
  exact hP c (hb c hc)

lemma first_cons {α : Type*} {P Q : α → Prop} {a : α} {l : List α} :
    First P Q (a :: l) ↔ Q a ∨ P a ∧ First P Q l := by
  constructor
  · rintro ⟨_ | ⟨b, before⟩, c, after, e, hb, hc⟩
    · obtain ⟨rfl, rfl⟩ := List.cons.inj e
      exact Or.inl hc
    · obtain ⟨rfl, rfl⟩ := List.cons.inj e
      obtain ⟨ha, hbefore⟩ := List.forall_mem_cons.1 hb
      exact Or.inr ⟨ha, before, c, after, rfl, hbefore, hc⟩
  · rintro (ha | ⟨ha, before, c, after, rfl, hb, hc⟩)
    · exact ⟨[], a, l, rfl, by simp, ha⟩
    · exact ⟨a :: before, c, after, rfl, List.forall_mem_cons.2 ⟨ha, hb⟩, hc⟩

/-- A list is split in one way only at its first entry without `P`. -/
lemma split_unique {α : Type*} {P : α → Prop} {before before' after after' : List α} {a a' : α}
    (h : before ++ a :: after = before' ++ a' :: after') (hb : ∀ b ∈ before, P b)
    (hb' : ∀ b ∈ before', P b) (ha : ¬ P a) (ha' : ¬ P a') : before = before' ∧ a = a' := by
  induction before generalizing before' with
  | nil =>
    cases before' with
    | nil => exact ⟨rfl, (List.cons.inj h).1⟩
    | cons b' before' =>
      obtain ⟨rfl, -⟩ := List.cons.inj h
      exact absurd (hb' _ List.mem_cons_self) ha
  | cons b before ih =>
    cases before' with
    | nil =>
      obtain ⟨rfl, -⟩ := List.cons.inj h
      exact absurd (hb _ List.mem_cons_self) ha'
    | cons b' before' =>
      obtain ⟨rfl, htail⟩ := List.cons.inj h
      obtain ⟨rfl, rfl⟩ := ih htail (List.forall_mem_cons.1 hb).2 (List.forall_mem_cons.1 hb').2
      exact ⟨rfl, rfl⟩

lemma First.exists_both {α : Type*} {P Q Q' : α → Prop} {l : List α} (h : First P Q l)
    (h' : First P Q' l) (hQ : ∀ a, Q a → ¬ P a) (hQ' : ∀ a, Q' a → ¬ P a) : ∃ a, Q a ∧ Q' a := by
  obtain ⟨before, a, after, rfl, hb, ha⟩ := h
  obtain ⟨before', a', after', he, hb', ha'⟩ := h'
  obtain ⟨-, rfl⟩ := split_unique he hb hb' (hQ a ha) (hQ' a' ha')
  exact ⟨a, ha, ha'⟩

/-- Run through a list, a function that may fail gives the values of all entries, or fails as it
does on the first entry that it fails on. -/
lemma mapM_result {α β ε : Type*} {f : α → Except ε β} {A : α → Prop} {R : α → β → Prop}
    {E : ε → α → Prop}
    (hf : ∀ a, Outcome (fun b => A a ∧ R a b) (fun e => E e a) (f a)) (l : List α) :
    Outcome (fun r => (∀ a ∈ l, A a) ∧ List.Forall₂ R l r) (fun e => First A (E e) l)
      (l.mapM f) := by
  induction l with
  | nil => exact ⟨by simp, .nil⟩
  | cons a l ih =>
    have ha := hf a
    rw [List.mapM_cons]
    cases hr : f a with
    | error e =>
      rw [hr] at ha
      exact ⟨[], a, l, rfl, by simp, ha⟩
    | ok b =>
      rw [hr] at ha
      cases hl : l.mapM f with
      | error e =>
        rw [hl] at ih
        obtain ⟨before, c, after, rfl, hb, hc⟩ := ih
        exact ⟨a :: before, c, after, rfl, List.forall_mem_cons.2 ⟨ha.1, hb⟩, hc⟩
      | ok r =>
        rw [hl] at ih
        exact ⟨List.forall_mem_cons.2 ⟨ha.1, ih.1⟩, .cons ha.2 ih.2⟩

/-! ### Types -/

/-- A type with every key in it replaced by a name. -/
inductive Renamed (R : Key → String → Prop) : FlatType → JavaType → Prop where
  | string : Renamed R .string .string
  | integer : Renamed R .integer .integer
  | number : Renamed R .number .double
  | boolean : Renamed R .boolean .boolean
  | any : Renamed R .any .object
  | object {key : Key} {name : String} (h : R key name) : Renamed R (.object key) (.named name)
  | list {t : FlatType} {u : JavaType} (h : Renamed R t u) : Renamed R (.list t) (.list u)
  | set {t : FlatType} {u : JavaType} (h : Renamed R t u) : Renamed R (.set t) (.set u)
  | map {t : FlatType} {u : JavaType} (h : Renamed R t u) : Renamed R (.map t) (.map u)

lemma Renamed.mono {R R' : Key → String → Prop} {t : FlatType} {u : JavaType}
    (h : Renamed R t u) (hR : ∀ k n, R k n → R' k n) : Renamed R' t u := by
  induction h with
  | string => exact .string
  | integer => exact .integer
  | number => exact .number
  | boolean => exact .boolean
  | any => exact .any
  | object h => exact .object (hR _ _ h)
  | list _ ih => exact .list ih
  | set _ ih => exact .set ih
  | map _ ih => exact .map ih

/-- What a type refers to is in the graph. -/
def Resolved (g : Graph) (t : FlatType) : Prop := ∀ k, t.reference? = some k → k ∈ g.keys

variable {rootName : String} {g : Graph} {package : Package}

lemma map_fst_classNames (rootName : String) (g : Graph) :
    (classNames rootName g).map Prod.fst = g.keys := by
  unfold classNames
  exact List.map_fst_zip (by simp)

lemma lookup_classNames_eq_none {k : Key} :
    (classNames rootName g).lookup k = none ↔ k ∉ g.keys := by
  rw [List.lookup_eq_none_iff, ← map_fst_classNames rootName g, List.mem_map]
  refine ⟨?_, ?_⟩
  · rintro h ⟨m, hm, rfl⟩
    simpa using h m hm
  · intro h m hm
    rw [bne_iff_ne]
    rintro rfl
    exact h ⟨m, hm, rfl⟩

/-- The name that the graph's classes give to a key. -/
def Names (rootName : String) (g : Graph) (k : Key) (n : String) : Prop :=
  (k, n) ∈ classNames rootName g

lemma names_of_lookup {k : Key} {n : String}
    (h : (classNames rootName g).lookup k = some n) : Names rootName g k n := by
  obtain ⟨before, after, e, -⟩ := List.lookup_eq_some_iff.1 h
  unfold Names
  rw [e]
  exact List.mem_append_right _ List.mem_cons_self

/-- A type becomes itself with names for its keys, or it refers to a key that has none. -/
def TypeResult (rootName : String) (g : Graph) (owner : String) (t : FlatType) :
    Except Dangling JavaType → Prop :=
  Outcome (fun u => Resolved g t ∧ Renamed (Names rootName g) t u)
    fun e => e.owner = owner ∧ t.reference? = some e.missing ∧ e.missing ∉ g.keys

/-- A collection refers to what its items refer to. -/
lemma TypeResult.map {owner : String} {t t' : FlatType} {r : Except Dangling JavaType}
    (f : JavaType → JavaType) (h : TypeResult rootName g owner t r)
    (ht : t'.reference? = t.reference?)
    (hf : ∀ u, Renamed (Names rootName g) t u → Renamed (Names rootName g) t' (f u)) :
    TypeResult rootName g owner t' (r.map f) := by
  cases r with
  | ok u =>
    refine ⟨fun k hk => h.1 k ?_, hf u h.2⟩
    rw [← ht, hk]
  | error e =>
    refine ⟨h.1, ?_, h.2.2⟩
    rw [ht]
    exact h.2.1

lemma typeOf_result (rootName : String) (g : Graph) (owner : String) (t : FlatType) :
    TypeResult rootName g owner t (typeOf (classNames rootName g) owner t) := by
  induction t with
  | string => exact ⟨by simp [Resolved, FlatType.reference?], .string⟩
  | integer => exact ⟨by simp [Resolved, FlatType.reference?], .integer⟩
  | number => exact ⟨by simp [Resolved, FlatType.reference?], .number⟩
  | boolean => exact ⟨by simp [Resolved, FlatType.reference?], .boolean⟩
  | any => exact ⟨by simp [Resolved, FlatType.reference?], .any⟩
  | object k =>
    unfold typeOf
    cases hk : (classNames rootName g).lookup k with
    | none => exact ⟨rfl, rfl, lookup_classNames_eq_none.1 hk⟩
    | some n =>
      refine ⟨?_, .object (names_of_lookup hk)⟩
      intro k' e
      obtain rfl : k = k' := by simpa [FlatType.reference?] using e
      by_contra hn
      rw [lookup_classNames_eq_none.2 hn] at hk
      cases hk
  | list t ih => exact ih.map .list rfl fun _ => .list
  | set t ih => exact ih.map .set rfl fun _ => .set
  | map t ih => exact ih.map .map rfl fun _ => .map

/-! ### Fields -/

/-- A field is its property, with the type that the property's type is renamed to. -/
def FieldOf (R : Key → String → Prop) (p : Property) (f : JavaField) : Prop :=
  f.name = p.name ∧ f.required = p.required ∧ Renamed R p.type f.type

/-- The first reference that leads nowhere, among the properties of the class `e.owner`. -/
def FirstDangling (g : Graph) (e : Dangling) : List Property → Prop :=
  First (fun p => Resolved g p.type)
    (fun p => p.type.reference? = some e.missing ∧ e.missing ∉ g.keys)

lemma fieldOf_result (rootName : String) (g : Graph) (owner : String) (p : Property)
    (identifier : String) :
    Outcome (fun f => Resolved g p.type ∧ FieldOf (Names rootName g) p f)
      (fun e => e.owner = owner ∧ p.type.reference? = some e.missing ∧ e.missing ∉ g.keys)
      (fieldOf (classNames rootName g) owner p identifier) := by
  refine (typeOf_result rootName g owner p.type).bind ?_
  rintro u ⟨hresolved, hrenamed⟩
  exact ⟨hresolved, rfl, rfl, hrenamed⟩

lemma fieldsOf_result (rootName : String) (g : Graph) (owner : String) (ps : List Property) :
    Outcome (fun fields => (∀ p ∈ ps, Resolved g p.type) ∧
        List.Forall₂ (FieldOf (Names rootName g)) ps fields)
      (fun e => e.owner = owner ∧ FirstDangling g e ps)
      (fieldsOf (classNames rootName g) owner ps) := by
  have hfst : (ps.zip (identifiersOf ps)).map Prod.fst = ps :=
    List.map_fst_zip (by simp [identifiersOf])
  have hr : Outcome
      (fun fields => (∀ a ∈ ps.zip (identifiersOf ps), Resolved g a.1.type) ∧
        List.Forall₂ (fun a => FieldOf (Names rootName g) a.1) (ps.zip (identifiersOf ps)) fields)
      (fun e => First (fun a => Resolved g a.1.type)
        (fun a => e.owner = owner ∧ a.1.type.reference? = some e.missing ∧ e.missing ∉ g.keys)
        (ps.zip (identifiersOf ps)))
      (fieldsOf (classNames rootName g) owner ps) :=
    mapM_result (fun a : Property × String => fieldOf_result rootName g owner a.1 a.2) _
  refine hr.imp ?_ ?_
  · rintro fields ⟨hall, hfields⟩
    refine ⟨?_, ?_⟩
    · rw [← hfst]
      exact List.forall_mem_map.2 hall
    · rw [← hfst, List.forall₂_map_left_iff]
      exact hfields
  · intro e hfirst
    refine ⟨?_, ?_⟩
    · obtain ⟨_, a, _, _, _, howner, -⟩ := hfirst
      exact howner
    · rw [← hfst]
      exact hfirst.map Prod.fst (fun a ha => ha) fun a _ ha => ha.2

/-! ### Classes -/

/-- A class is its object, under the given name. -/
def ClassOf (R : Key → String → Prop) (package : Package) (o : Object) (c : JavaClass) : Prop :=
  c.key = o.key ∧ c.package = package ∧ List.Forall₂ (FieldOf R) o.properties c.fields

lemma ClassOf.mono {R R' : Key → String → Prop} {o : Object} {c : JavaClass}
    (h : ClassOf R package o c) (hR : ∀ k n, R k n → R' k n) : ClassOf R' package o c := by
  obtain ⟨hkey, hpackage, hfields⟩ := h
  refine ⟨hkey, hpackage, hfields.imp ?_⟩
  rintro p f ⟨hname, hrequired, htype⟩
  exact ⟨hname, hrequired, htype.mono hR⟩

lemma classOf_result (rootName : String) (g : Graph) (package : Package) (o : Object)
    (name : String) :
    Outcome (fun c => (∀ p ∈ o.properties, Resolved g p.type) ∧ c.name = name ∧
        ClassOf (Names rootName g) package o c)
      (fun e => e.owner = name ∧ FirstDangling g e o.properties)
      (classOf (classNames rootName g) package o name) := by
  refine (fieldsOf_result rootName g name o.properties).bind ?_
  rintro fields ⟨hresolved, hfields⟩
  exact ⟨hresolved, rfl, rfl, rfl, hfields⟩

lemma map_snd_classNames (rootName : String) (g : Graph) :
    (classNames rootName g).map Prod.snd =
    freeNames (takenNames rootName) (g.keys.map (wantedName rootName)) := by
  unfold classNames
  exact List.map_snd_zip (by simp)

lemma zip_classNames (rootName : String) (g : Graph) :
    (g.objects.zip ((classNames rootName g).map Prod.snd)).map (fun a => (a.1.key, a.2)) =
      classNames rootName g := by
  rw [map_snd_classNames]
  unfold classNames Graph.keys
  rw [List.zip_map_left]
  rfl

/-- The classes have the names that were handed out, or a reference leads nowhere. -/
lemma classesOf_result (rootName : String) (package : Package) (g : Graph) :
    Outcome (fun classes => (∀ o ∈ g.objects, ∀ p ∈ o.properties, Resolved g p.type) ∧
        classes.map (fun c => (c.key, c.name)) = classNames rootName g ∧
        List.Forall₂ (ClassOf (Names rootName g) package) g.objects classes)
      (fun e => First (fun o => ∀ p ∈ o.properties, Resolved g p.type)
        (fun o => Names rootName g o.key e.owner ∧ FirstDangling g e o.properties)
        g.objects)
      (classesOf rootName package g) := by
  have hfst : (g.objects.zip ((classNames rootName g).map Prod.snd)).map Prod.fst = g.objects :=
    List.map_fst_zip (by simp [map_snd_classNames, Graph.keys])
  have hr : Outcome
      (fun classes => (∀ a ∈ g.objects.zip ((classNames rootName g).map Prod.snd),
          ∀ p ∈ a.1.properties, Resolved g p.type) ∧
        List.Forall₂ (fun a c => c.name = a.2 ∧ ClassOf (Names rootName g) package a.1 c)
          (g.objects.zip ((classNames rootName g).map Prod.snd)) classes)
      (fun e => First (fun a => ∀ p ∈ a.1.properties, Resolved g p.type)
        (fun a => e.owner = a.2 ∧ FirstDangling g e a.1.properties)
        (g.objects.zip ((classNames rootName g).map Prod.snd)))
      (classesOf rootName package g) :=
    mapM_result (fun a : Object × String => classOf_result rootName g package a.1 a.2) _
  refine hr.imp ?_ ?_
  · rintro classes ⟨hall, hclasses⟩
    refine ⟨?_, ?_, ?_⟩
    · rw [← hfst]
      exact List.forall_mem_map.2 hall
    · rw [← zip_classNames rootName g, ← List.forall₂_eq_eq_eq,
        List.forall₂_map_left_iff, List.forall₂_map_right_iff]
      refine List.Forall₂.flip (hclasses.imp ?_)
      rintro ⟨o, name⟩ c ⟨hname, hkey, -⟩
      exact Prod.ext hkey hname
    · rw [← hfst, List.forall₂_map_left_iff]
      exact hclasses.imp fun _ _ h => h.2
  · intro e hfirst
    rw [← hfst]
    refine hfirst.map Prod.fst (fun a ha => ha) fun a hin ha => ⟨?_, ha.2⟩
    unfold Names
    rw [ha.1, ← zip_classNames]
    exact List.mem_map.2 ⟨a, hin, rfl⟩

/-- The object that is said to be missing is missing. -/
lemma missing_not_mem {e : Dangling} (h : classesOf rootName package g = .error e) :
    e.missing ∉ g.keys := by
  have hr := classesOf_result rootName package g
  rw [h] at hr
  obtain ⟨_, _, _, -, -, -, _, _, _, -, -, -, hnot⟩ := hr
  exact hnot

/-! ### The copy -/

/-- The names by which generated sources know other classes. -/
def Occupied (name : String) : Prop :=
  name ∈ occupiedNames ∨ ∃ op : Operation, name = op.handlerClass ∨ name = op.testClass

lemma mem_takenNames {name : String} :
    name ∈ takenNames rootName ↔ Occupied name ∧ name ≠ rootName := by
  unfold takenNames Occupied
  rw [List.mem_filter, List.mem_append, List.mem_flatMap, bne_iff_ne]
  refine and_congr_left fun _ => or_congr_right ⟨?_, ?_⟩
  · rintro ⟨op, -, h⟩
    exact ⟨op, by simpa using h⟩
  · rintro ⟨op, h⟩
    exact ⟨op, op.mem_all, by simpa using h⟩

/-- Where no name occurs twice, everything is found under its name. -/
lemma find?_of_nodup {α : Type*} {name : α → String} {l : List α} (hn : (l.map name).Nodup)
    {a : α} (ha : a ∈ l) : l.find? (name · == name a) = some a := by
  induction l with
  | nil => simp at ha
  | cons b r ih =>
    rw [List.map_cons, List.nodup_cons] at hn
    rcases List.mem_cons.1 ha with rfl | ha
    · rw [List.find?_cons_of_pos (by simp)]
    · have hne : name b ≠ name a := by
        intro e
        exact hn.1 (List.mem_map.2 ⟨a, ha, e.symm⟩)
      rw [List.find?_cons_of_neg (by simpa using hne)]
      exact ih hn.2 ha

lemma find?_of_mem {classes : List JavaClass} (hn : (classes.map JavaClass.name).Nodup)
    {c : JavaClass} (hc : c ∈ classes) : find? classes c.name = some c :=
  find?_of_nodup hn hc

/-- The classes are the objects in their order, under different names that are free, and a key
is renamed to the name under which the class with that key is found. -/
structure Copy (rootName : String) (package : Package) (g : Graph) (classes : List JavaClass) :
    Prop where
  objects : List.Forall₂ (ClassOf (fun k n => ∃ c, find? classes n = some c ∧ c.key = k) package)
    g.objects classes
  distinct : (classes.map JavaClass.name).Nodup
  free : ∀ c ∈ classes, Occupied c.name → c.name = rootName

/-- **The classes of a graph are a copy of it, and there are none just if some reference leads
nowhere.** Then the first such reference is reported, with the name of the class that it is in. -/
theorem classes_copy (rootName : String) (package : Package) (g : Graph) :
    ((∃ classes, classesOf rootName package g = .ok classes) ↔
      ∀ o ∈ g.objects, ∀ p ∈ o.properties, ∀ k, p.type.reference? = some k → k ∈ g.keys) ∧
    (∀ classes, classesOf rootName package g = .ok classes →
      Copy rootName package g classes ∧
        classes.map (fun c => (c.key, c.name)) = classNames rootName g) ∧
    ∀ e, classesOf rootName package g = .error e →
      First (fun o => ∀ p ∈ o.properties, Resolved g p.type)
        (fun o => (o.key, e.owner) ∈ classNames rootName g ∧
          First (fun p => Resolved g p.type)
            (fun p => p.type.reference? = some e.missing ∧ e.missing ∉ g.keys) o.properties)
        g.objects := by
  have hr := classesOf_result rootName package g
  refine ⟨⟨?_, fun hall => ?_⟩, fun classes h => ?_, fun e h => ?_⟩
  · rintro ⟨classes, h⟩
    rw [h] at hr
    exact hr.1
  · cases h : classesOf rootName package g with
    | ok classes => exact ⟨classes, rfl⟩
    | error e =>
      rw [h] at hr
      obtain ⟨before, o, after, ho, -, -, hd⟩ := hr
      obtain ⟨before', p, after', hp, -, hk, hn⟩ := hd
      refine absurd (hall o ?_ p ?_ e.missing hk) hn
      · simp [ho]
      · simp [hp]
  · rw [h] at hr
    obtain ⟨-, hnames, hclasses⟩ := hr
    have hfree : classes.map JavaClass.name =
        freeNames (takenNames rootName) (g.keys.map (wantedName rootName)) := by
      rw [← map_snd_classNames, ← hnames, List.map_map]
      rfl
    have hnodup : (classes.map JavaClass.name).Nodup := by
      rw [hfree]
      exact (freeNames_nodup _ _).1
    refine ⟨⟨?_, hnodup, fun c hc ho => ?_⟩, hnames⟩
    · refine hclasses.imp fun o c h => h.mono fun k n hkn => ?_
      unfold Names at hkn
      rw [← hnames] at hkn
      obtain ⟨c, hc, e⟩ := List.mem_map.1 hkn
      obtain ⟨rfl, rfl⟩ := Prod.mk.inj e
      exact ⟨c, find?_of_mem hnodup hc, rfl⟩
    · by_contra hne
      have hin : c.name ∈ freeNames (takenNames rootName) (g.keys.map (wantedName rootName)) := by
        rw [← hfree]
        exact List.mem_map.2 ⟨c, hc, rfl⟩
      exact (freeNames_nodup _ _).2 _ hin (mem_takenNames.2 ⟨ho, hne⟩)
  · rw [h] at hr
    exact hr

end ProviderGen.Java
