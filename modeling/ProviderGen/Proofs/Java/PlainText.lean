import ProviderGen.Proofs.Java.Binding
import ProviderGen.Proofs.Java.ImportedTypes
import ProviderGen.Proofs.Java.Scanner

/-!
Plain text: what a source says outside of its literals and comments. The names that are made for a
schema are plain, whatever it calls its properties, objects and definitions, for only legal
characters are left in them.
-/

namespace ProviderGen.Java

open Project (modelOf)
open Scanner (IsPlain IsBare)
open Schema (Key Graph FlatType Property Object)

/-- No character of the text begins a comment, a literal or an escape. -/
def Plain (text : String) : Prop := ∀ c ∈ text.toList, IsPlain c

variable {s t : String} {cs : List Char} {c : Char}

lemma plain_ofList (h : cs.all (fun c => decide (IsPlain c)) = true) :
    Plain (String.ofList cs) := by
  rw [Plain, String.toList_ofList]
  exact Scanner.forall_of_all h

lemma Plain.append (hs : Plain s) (ht : Plain t) : Plain (s ++ t) := by
  rw [Plain, String.toList_append, List.forall_mem_append]
  exact ⟨hs, ht⟩

lemma Plain.intercalate {ts : List String} (hs : Plain s) (h : ∀ t ∈ ts, Plain t) :
    Plain (s.intercalate ts) := by
  intro c hc
  rw [String.toList_intercalate] at hc
  rcases Project.mem_intercalate hc with hc | ⟨l, hl, hc⟩
  · exact hs c hc
  · obtain ⟨t, ht, rfl⟩ := List.mem_map.1 hl
    exact h t ht c hc

/-! ### Words -/

lemma isPlain_of_isWordChar (h : isWordChar c = true) : IsPlain c := by
  refine ⟨?_, ?_, ?_, ?_⟩
  all_goals rintro rfl; exact absurd h (by decide)

def IsWord (cs : List Char) : Prop := ∀ c ∈ cs, isWordChar c = true

instance (cs : List Char) : Decidable (IsWord cs) :=
  decidable_of_iff (cs.all isWordChar = true) List.all_eq_true

lemma IsWord.plain (h : IsWord cs) : Plain (String.ofList cs) := by
  rw [Plain, String.toList_ofList]
  exact fun c hc => isPlain_of_isWordChar (h c hc)

lemma isWordChar_of_isClassChar (h : IsClassChar c) : isWordChar c = true := by
  rcases h with h | rfl
  · simp [isWordChar, h]
  · decide

lemma isWordChar_of_isDigit (h : c.isDigit = true) : isWordChar c = true := by
  simp [isWordChar, Char.isAlphanum, h]

lemma isWordChar_toUpper (h : isWordChar c = true) : isWordChar c.toUpper = true := by
  simp only [isWordChar, Bool.or_eq_true, beq_iff_eq] at h
  rcases h with (h | rfl) | rfl
  · simp [isWordChar, isAlphanum_toUpper h]
  · decide
  · decide

lemma isAlphanum_toLower (h : c.isAlphanum = true) : c.toLower.isAlphanum = true := by
  unfold Char.toLower
  split
  · unfold Char.isAlphanum Char.isAlpha Char.isUpper Char.isLower Char.isDigit at h ⊢
    simp only [Bool.or_eq_true, Bool.and_eq_true, decide_eq_true_eq] at h ⊢
    grind
  · exact h

lemma isWordChar_toLower (h : isWordChar c = true) : isWordChar c.toLower = true := by
  simp only [isWordChar, Bool.or_eq_true, beq_iff_eq] at h
  rcases h with (h | rfl) | rfl
  · simp [isWordChar, isAlphanum_toLower h]
  · decide
  · decide

lemma isWord_legalChars (cs : List Char) : IsWord (legalChars cs) := by
  intro c hc
  obtain ⟨a, -, rfl⟩ := List.mem_map.1 hc
  split
  · assumption
  · decide

lemma IsWord.upperFirst (h : IsWord cs) : IsWord (upperFirst cs) := by
  cases cs with
  | nil => exact h
  | cons c r =>
    obtain ⟨hc, hr⟩ := List.forall_mem_cons.1 h
    exact List.forall_mem_cons.2 ⟨isWordChar_toUpper hc, hr⟩

lemma IsWord.lowerFirst (h : IsWord cs) : IsWord (lowerFirst cs) := by
  cases cs with
  | nil => exact h
  | cons c r =>
    obtain ⟨hc, hr⟩ := List.forall_mem_cons.1 h
    exact List.forall_mem_cons.2 ⟨isWordChar_toLower hc, hr⟩

lemma IsWord.withStart (h : IsWord cs) : IsWord (withStart cs) := by
  unfold Java.withStart
  split
  · exact List.forall_mem_singleton.2 (by decide)
  · split
    · exact List.forall_mem_cons.2 ⟨by decide, h⟩
    · exact h

lemma isWord_fieldName (name : String) : IsWord (fieldName name).toList := by
  have h := (isWord_legalChars name.toList).withStart.lowerFirst
  unfold fieldName guard
  split
  · rw [String.toList_append, String.toList_ofList]
    exact List.forall_mem_append.2 ⟨h, List.forall_mem_singleton.2 (by decide)⟩
  · rwa [String.toList_ofList]

lemma plain_identifier (h : IsWord s.toList) : Plain s := fun c hc => isPlain_of_isWordChar (h c hc)

lemma plain_getter (h : IsWord s.toList) : Plain (getter s) :=
  ((plain_ofList (by decide)).append h.upperFirst.plain).append (plain_ofList (by decide))

/-! ### Classes -/

variable {k : Package} {g : Graph} {classes : List JavaClass}

/-- The fields of classes have words for identifiers. -/
lemma isWord_identifier (hc : classesOf rootClassName k g = .ok classes) {c : JavaClass}
    (hin : c ∈ classes) {f : JavaField} (hf : f ∈ c.fields) : IsWord f.identifier.toList := by
  obtain ⟨⟨o, name⟩, -, hclass⟩ := exists_of_mapM hc hin
  obtain ⟨fields, hfields, hmade⟩ := bind_eq_ok.1 hclass
  obtain rfl := Except.ok.inj hmade
  obtain ⟨⟨p, i⟩, hmem, hfield⟩ := exists_of_mapM hfields hf
  obtain ⟨type, -, hmade⟩ := bind_eq_ok.1 hfield
  obtain rfl := Except.ok.inj hmade
  refine forall_freeNames (fun c => isWordChar_of_isDigit) ?_ i (List.of_mem_zip hmem).2
  rw [List.forall_mem_map]
  exact fun p _ => isWord_fieldName p.name

/-- The characters that types are written with. -/
def isTypeChar (c : Char) : Bool := isWordChar c || c == '<' || c == '>' || c == ',' || c == ' '

lemma chars_of_renamed {R : Key → String → Prop} (hR : ∀ key n, R key n → IsWord n.toList)
    {t : FlatType} {u : JavaType} (h : Renamed R t u) : ∀ c ∈ u.text.toList, isTypeChar c = true := by
  induction h with
  | string => exact List.all_eq_true.1 (by decide)
  | integer => exact List.all_eq_true.1 (by decide)
  | number => exact List.all_eq_true.1 (by decide)
  | boolean => exact List.all_eq_true.1 (by decide)
  | any => exact List.all_eq_true.1 (by decide)
  | object h => exact fun c hc => by simp [isTypeChar, hR _ _ h c hc]
  | list _ ih =>
    simp only [JavaType.text, String.toList_append, List.forall_mem_append]
    exact ⟨⟨List.all_eq_true.1 (by decide), ih⟩, List.all_eq_true.1 (by decide)⟩
  | set _ ih =>
    simp only [JavaType.text, String.toList_append, List.forall_mem_append]
    exact ⟨⟨List.all_eq_true.1 (by decide), ih⟩, List.all_eq_true.1 (by decide)⟩
  | map _ ih =>
    simp only [JavaType.text, String.toList_append, List.forall_mem_append]
    exact ⟨⟨List.all_eq_true.1 (by decide), ih⟩, List.all_eq_true.1 (by decide)⟩

lemma chars_type (hc : classesOf rootClassName k g = .ok classes) {c : JavaClass}
    (hin : c ∈ classes) {f : JavaField} (hf : f ∈ c.fields) :
    ∀ x ∈ f.type.text.toList, isTypeChar x = true := by
  have hr := classesOf_result rootClassName k g
  rw [hc] at hr
  obtain ⟨o, -, -, -, hfields⟩ := Schema.exists_of_forall₂ hr.2.2 hin
  obtain ⟨p, -, -, -, htype⟩ := Schema.exists_of_forall₂ hfields hf
  exact chars_of_renamed
    (fun key n hn x hx => isWordChar_of_isClassChar ((names_ok hn).2 x hx)) htype

lemma isPlain_of_isTypeChar (h : isTypeChar c = true) : IsPlain c := by
  refine ⟨?_, ?_, ?_, ?_⟩
  all_goals rintro rfl; exact absurd h (by decide)

lemma plain_type (hc : classesOf rootClassName k g = .ok classes) {c : JavaClass}
    (hin : c ∈ classes) {f : JavaField} (hf : f ∈ c.fields) : Plain f.type.text :=
  fun x hx => isPlain_of_isTypeChar (chars_type hc hin hf x hx)

lemma plain_className (hc : classesOf rootClassName k g = .ok classes) {c : JavaClass}
    (hin : c ∈ classes) : Plain c.name := fun x hx =>
  isPlain_of_isWordChar (isWordChar_of_isClassChar (((classNames_ok hc).2 c hin).2 x hx))

/-! ### Keys -/

/-- What a key adds to a source is plain, apart from its pointer. -/
structure PlainKey (k : ResourceKey) : Prop where
  constant : Plain k.constant
  getters : ∀ g ∈ k.getters, Plain g

lemma chars_chain {getters : List String} (h : c ∈ (chain getters).toList) :
    c ∈ "this.".toList ∨ ∃ g ∈ getters, c ∈ g.toList := by
  rw [chain, String.toList_append, List.mem_append, String.toList_intercalate] at h
  rcases h with h | h
  · exact Or.inl h
  · rcases Project.mem_intercalate h with h | ⟨l, hl, h⟩
    · exact Or.inl (by rw [List.mem_singleton.1 h]; decide)
    · obtain ⟨g, hg, rfl⟩ := List.mem_map.1 hl
      exact Or.inr ⟨g, hg, h⟩

/-- The tests of a key are made of its getters. -/
lemma chars_nullChecks {k : ResourceKey} (h : c ∈ k.nullChecks.toList) :
    c ∈ "this.".toList ++ " && ".toList ++ " != null".toList ∨ ∃ g ∈ k.getters, c ∈ g.toList := by
  rw [ResourceKey.nullChecks, String.toList_intercalate] at h
  rcases Project.mem_intercalate h with h | ⟨l, hl, h⟩
  · exact Or.inl (List.mem_append_left _ (List.mem_append_right _ h))
  · obtain ⟨t, ht, rfl⟩ := List.mem_map.1 hl
    obtain ⟨i, -, rfl⟩ := List.mem_map.1 ht
    rw [String.toList_append, List.mem_append] at h
    rcases h with h | h
    · rcases chars_chain h with h | ⟨g, hg, h⟩
      · exact Or.inl (List.mem_append_left _ (List.mem_append_left _ h))
      · exact Or.inr ⟨g, List.mem_of_mem_take hg, h⟩
    · exact Or.inl (List.mem_append_right _ h)

lemma PlainKey.getterChain {k : ResourceKey} (h : PlainKey k) : Plain k.getterChain := by
  intro c hc
  rcases chars_chain hc with hc | ⟨g, hg, hc⟩
  · exact Scanner.forall_of_all (by decide) c hc
  · exact h.getters g hg c hc

lemma PlainKey.nullChecks {k : ResourceKey} (h : PlainKey k) : Plain k.nullChecks := by
  intro c hc
  rcases chars_nullChecks hc with hc | ⟨g, hg, hc⟩
  · exact Scanner.forall_of_all (by decide) c hc
  · exact h.getters g hg c hc

lemma plain_of_ofPointer? {pointer : String} {k : ResourceKey}
    (h : ResourceKey.ofPointer? pointer = some k) : PlainKey k := by
  obtain ⟨path, -, rfl⟩ := Option.map_eq_some_iff.1 h
  refine ⟨(plain_ofList (by decide)).append (.intercalate (plain_ofList (by decide)) ?_), ?_⟩
  · rw [List.forall_mem_map]
    refine fun name _ => IsWord.plain ?_
    rw [IsWord, List.forall_mem_map]
    exact fun c hc => isWordChar_toUpper (isWord_legalChars _ c hc)
  · rw [List.forall_mem_map]
    exact fun name _ => plain_getter (isWord_fieldName name)

lemma PlainKey.bindTo (hf : ∀ c ∈ classes, ∀ f ∈ c.fields, IsWord f.identifier.toList)
    {root : JavaClass} (hroot : root ∈ classes) {k : ResourceKey} (h : PlainKey k) :
    PlainKey (k.bindTo classes root) := by
  rcases ResourceKey.bindTo_cases hroot k with e | ⟨getters, e, hgetters⟩
  · rwa [e]
  · rw [e]
    refine ⟨h.constant, fun call hcall => ?_⟩
    obtain ⟨c, hc, f, hin, rfl⟩ := hgetters call hcall
    exact plain_getter (hf c hc f hin)

lemma plain_methodOf (keys : List ResourceKey) : Plain (ResourceKeys.methodOf keys) := by
  have hall : ∀ start, Plain start → Plain (keys.foldl (fun name k => name ++ "_" ++
      String.ofList (upperFirst (legalChars (ResourceKey.lastPiece k.pointer)))) start) := by
    induction keys with
    | nil => exact fun start h => h
    | cons k r ih =>
      exact fun start h => ih _ ((h.append (plain_ofList (by decide))).append
        (isWord_legalChars _).upperFirst.plain)
  exact hall _ (plain_ofList (by decide))

structure PlainKeys (ks : ResourceKeys) : Prop where
  primary : ∀ k ∈ ks.primary, PlainKey k
  additional : ∀ g ∈ ks.additional, Plain g.method ∧ ∀ k ∈ g.keys, PlainKey k

/-- The keys of a schema, bound to its classes, are plain. -/
lemma plain_keys {schema : Document} {keys : ResourceKeys}
    (hm : modelOf k schema = .ok (classes, keys)) : PlainKeys keys := by
  obtain ⟨g, found, -, hc, hk, rfl⟩ := Project.modelOf_ok.1 hm
  have hf := fun c hin f hf => isWord_identifier (c := c) (f := f) hc hin hf
  obtain ⟨hprimary, hadditional⟩ := forall_ofDocument plain_of_ofPointer? hk
  have hmethods : ∀ group ∈ found.additional, Plain group.method ∧ ∀ k ∈ group.keys, PlainKey k :=
    fun group hgroup => ⟨(hadditional group hgroup).1 ▸ plain_methodOf _,
      (hadditional group hgroup).2⟩
  obtain ⟨hprimary, hadditional⟩ := ResourceKeys.forall_bindTo
    (fun root hroot k h => h.bindTo hf hroot) hprimary hmethods
  exact ⟨hprimary, hadditional⟩

/-! ### Projects -/

variable {p : Project}

lemma plain_dotted (hk : p.package = .ok k) : Plain k.dotted := by
  intro c hc
  rcases Project.chars_dotted (Project.isSegmentText_of_package hk).2 hc with rfl | h
  · decide
  · refine ⟨?_, ?_, ?_, ?_⟩
    all_goals rintro rfl; exact absurd h (by decide)

/-- What a list is not cut at is in one of its pieces. -/
lemma mem_splitOnP {α : Type} {cut : α → Bool} {l : List α} {a : α} (h : a ∈ l)
    (ha : cut a = false) : ∃ piece ∈ l.splitOnP cut, a ∈ piece := by
  induction l with
  | nil => simp at h
  | cons b r ih =>
    rw [List.splitOnP_cons_eq_if_modifyHead]
    split
    · rename_i hb
      rcases List.mem_cons.1 h with rfl | h
      · rw [ha] at hb
        cases hb
      · obtain ⟨piece, hpiece, hin⟩ := ih h
        exact ⟨piece, List.mem_cons_of_mem _ hpiece, hin⟩
    · obtain ⟨first, rest, hr⟩ := List.exists_cons_of_ne_nil (List.splitOnP_ne_nil cut r)
      rw [hr, List.modifyHead_cons]
      rcases List.mem_cons.1 h with rfl | h
      · exact ⟨a :: first, List.mem_cons_self, List.mem_cons_self⟩
      · obtain ⟨piece, hpiece, hin⟩ := ih h
        rw [hr] at hpiece
        rcases List.mem_cons.1 hpiece with rfl | hpiece
        · exact ⟨b :: piece, List.mem_cons_self, List.mem_cons_of_mem _ hin⟩
        · exact ⟨piece, List.mem_cons_of_mem _ hpiece, hin⟩

lemma chars_typeName {name : String} {segments : List String}
    (h : TypeName.segments name = .ok segments) :
    ∀ c ∈ name.toList, TypeName.isSeparator c = true ∨ c.isAlphanum = true := by
  intro c hc
  by_cases hcut : TypeName.isSeparator c = true
  · exact Or.inl hcut
  · right
    rw [Bool.not_eq_true] at hcut
    obtain ⟨piece, hpiece, hin⟩ := mem_splitOnP hc hcut
    unfold TypeName.segments at h
    split at h
    · cases h
    · split at h
      · cases h
      · rename_i hnone
        rw [List.find?_eq_none] at hnone
        have hmem : String.ofList piece ∈ TypeName.pieces name :=
          List.mem_map_of_mem (List.mem_filter.2 ⟨hpiece, by cases piece <;> simp_all⟩)
        have hsegment := hnone _ hmem
        simp only [TypeName.isSegment, Bool.not_eq_true, Bool.not_eq_false', Bool.and_eq_true,
          List.all_eq_true, String.toList_ofList] at hsegment
        exact hsegment.1.1 c hin

/-- The name of a resource type stands for itself in a literal. -/
lemma bare_typeName (p : Project) : ∀ c ∈ p.typeName.toList, IsBare c := by
  intro c hc
  rcases chars_typeName p.segments_eq c hc with h | h
  · simp only [TypeName.isSeparator, Bool.or_eq_true, beq_iff_eq] at h
    rcases h with rfl | rfl
    · decide
    · decide
  · refine ⟨?_, ?_, ?_, ?_⟩
    all_goals rintro rfl; exact absurd h (by decide)

end ProviderGen.Java
