import ProviderGen.Proofs.Java.Identifier

/-!
The spelling of names. Classes, fields, constants, methods and the segments of derived packages
each have a shape of their own: which characters may stand in front, and which behind. A schema
cannot lead to a name of another shape, whatever text stands in it, and the shapes hold for the
identifiers of a resource before they are bound to classes and after.
-/

namespace ProviderGen.Java

open Package (derive isSegmentStart isSegmentChar)
open Schema (Graph Key)

/-- A character of the first kind, and any number of the second kind behind it. -/
def Spelled (start rest : Char → Bool) (word : String) : Prop :=
  ∃ c r, word.toList = c :: r ∧ start c = true ∧ ∀ x ∈ r, rest x = true

/-- The shape `[A-Za-z_][A-Za-z0-9_]*`. -/
def IsClassName : String → Prop :=
  Spelled (fun c => c.isAlpha || c == '_') (fun c => c.isAlphanum || c == '_')

/-- The shape `[a-z_$][A-Za-z0-9_$]*`. -/
def IsFieldName : String → Prop := Spelled (fun c => c.isLower || c == '_' || c == '$') isWordChar

/-- The shape `[A-Za-z_$][A-Za-z0-9_$]*`. -/
def IsMemberName : String → Prop := Spelled (fun c => c.isAlpha || c == '_' || c == '$') isWordChar

/-- The shape `[a-z_][a-z0-9_]*`. -/
def IsSegmentName : String → Prop := Spelled isSegmentStart isSegmentChar

variable {start rest : Char → Bool} {word behind name : String} {names taken : List String}
  {c : Char}

lemma Spelled.append (h : Spelled start rest word) (hb : ∀ x ∈ behind.toList, rest x = true) :
    Spelled start rest (word ++ behind) := by
  obtain ⟨c, r, hword, hc, hr⟩ := h
  refine ⟨c, r ++ behind.toList, ?_, hc, List.forall_mem_append.2 ⟨hr, hb⟩⟩
  rw [String.toList_append, hword, List.cons_append]

/-- A word that has the shape keeps it when it gets a number. -/
lemma Spelled.freeNames (hdigit : ∀ c : Char, c.isDigit = true → rest c = true)
    (h : ∀ n ∈ names, Spelled start rest n) :
    ∀ n ∈ freeNames taken names, Spelled start rest n := by
  intro n hn
  rcases mem_of_mem_freeNames hn with hn | ⟨m, hm, k, rfl⟩
  · exact h n hn
  · refine (h m hm).append ?_
    have hempty : ∀ c ∈ "".toList, rest c = true := by simp
    have hnumber := forall_numbered (P := fun c => rest c = true) hdigit hempty k
    rwa [numbered, String.empty_append] at hnumber

/-! ### Classes -/

lemma isAlpha_of_isAlphanum (h : c.isAlphanum = true) (hdigit : c.isDigit = false) :
    c.isAlpha = true := by
  simpa [Char.isAlphanum, hdigit] using h

lemma isClassName_className (key : Key) : IsClassName (className key) := by
  have hchars := isClassChar_withStart fun c hc =>
    Or.inl (isAlphanum_capitalised (key.baseName?.getD anonymousClass) c hc)
  obtain ⟨c, r, hcs, hdigit⟩ := exists_withStart (capitalised (key.baseName?.getD anonymousClass))
  rw [hcs, List.forall_mem_cons] at hchars
  unfold className
  split
  · exact ⟨'O', _, rfl, by decide, List.all_eq_true.1 (by decide)⟩
  · refine ⟨c, r, by rw [String.toList_ofList, hcs], ?_, fun x hx => ?_⟩
    · rcases hchars.1 with h | rfl
      · simp [isAlpha_of_isAlphanum h hdigit]
      · decide
    · simpa [IsClassChar] using hchars.2 x hx

variable {package : Package} {g : Graph} {classes : List JavaClass} {k : JavaClass}

lemma isClassName_of_classes (h : classesOf rootClassName package g = .ok classes)
    (hk : k ∈ classes) : IsClassName k.name := by
  have hmem : k.name ∈ freeNames (takenNames rootClassName)
      (g.keys.map (wantedName rootClassName)) := by
    rw [← names_of_classes h]
    exact List.mem_map_of_mem hk
  refine Spelled.freeNames (fun c hc => by simp [Char.isAlphanum, hc]) ?_ _ hmem
  rw [List.forall_mem_map]
  intro key _
  unfold wantedName
  split
  · exact ⟨'R', _, rfl, by decide, List.all_eq_true.1 (by decide)⟩
  · exact isClassName_className key

/-! ### Fields and their getters -/

lemma isLower_toLower (h : c.isAlpha = true) : c.toLower.isLower = true := by
  unfold Char.isAlpha Char.isUpper Char.isLower at *
  simp only [Bool.or_eq_true, Bool.and_eq_true, decide_eq_true_eq] at h ⊢
  unfold Char.toLower
  split
  · grind
  · grind

lemma isFieldName_fieldName (name : String) : IsFieldName (fieldName name) := by
  have hword := (isWord_legalChars name.toList).withStart
  obtain ⟨c, r, hcs, hdigit⟩ := exists_withStart (legalChars name.toList)
  rw [hcs, IsWord, List.forall_mem_cons] at hword
  have hbase : IsFieldName (String.ofList (lowerFirst (c :: r))) := by
    refine ⟨c.toLower, r, by rw [String.toList_ofList, lowerFirst], ?_, hword.2⟩
    have hc := hword.1
    simp only [isWordChar, Bool.or_eq_true, beq_iff_eq] at hc
    rcases hc with (h | rfl) | rfl
    · simp [isLower_toLower (isAlpha_of_isAlphanum h hdigit)]
    · decide
    · decide
  unfold fieldName guard
  rw [hcs]
  split
  · exact hbase.append (List.forall_mem_singleton.2 (by decide))
  · exact hbase

lemma isFieldName_identifier (h : classesOf rootClassName package g = .ok classes)
    (hk : k ∈ classes) {f : JavaField} (hf : f ∈ k.fields) : IsFieldName f.identifier := by
  have hmem : f.identifier ∈ freeNames [] (k.fields.map fun f => fieldName f.name) := by
    rw [← identifiers_of_classes h k hk]
    exact List.mem_map_of_mem hf
  refine Spelled.freeNames (fun c => isWordChar_of_isDigit) ?_ _ hmem
  exact List.forall_mem_map.2 fun f _ => isFieldName_fieldName f.name

/-- With word characters in front and behind, a name is a word. -/
lemma Spelled.isWord (hstart : ∀ c, start c = true → isWordChar c = true)
    (hrest : ∀ c, rest c = true → isWordChar c = true) (h : Spelled start rest word) :
    IsWord word.toList := by
  obtain ⟨c, r, hword, hc, hr⟩ := h
  rw [IsWord, hword, List.forall_mem_cons]
  exact ⟨hstart c hc, fun x hx => hrest x (hr x hx)⟩

lemma IsFieldName.isWord (h : IsFieldName word) : IsWord word.toList := by
  refine Spelled.isWord (fun c hc => ?_) (fun _ => id) h
  simp only [Bool.or_eq_true, beq_iff_eq] at hc
  rcases hc with (h | rfl) | rfl
  · unfold isWordChar Char.isAlphanum Char.isAlpha
    simp [h]
  · decide
  · decide

lemma IsMemberName.isWord (h : IsMemberName word) : IsWord word.toList := by
  refine Spelled.isWord (fun c hc => ?_) (fun _ => id) h
  simp only [Bool.or_eq_true, beq_iff_eq] at hc
  rcases hc with (h | rfl) | rfl
  · simp [isWordChar, Char.isAlphanum, h]
  · decide
  · decide

/-- Field names stay legal behind the prefix of a getter, where they get a capital. -/
lemma IsFieldName.getter (h : IsFieldName word) : IsMemberName ("get" ++ accessor word) := by
  have hget : IsMemberName "get" := ⟨'g', _, rfl, by decide, List.all_eq_true.1 (by decide)⟩
  refine hget.append ?_
  rw [accessor, String.toList_ofList]
  exact h.isWord.upperFirst

/-! ### The identifiers of a resource -/

/-- The constant of a key, and the names of the getters that it calls. -/
structure SpelledKey (k : ResourceKey) : Prop where
  constant : IsMemberName k.constant
  getters : ∀ call ∈ k.getters, ∃ getter, IsMemberName getter ∧ call = getter ++ "()"

structure SpelledKeys (ks : ResourceKeys) : Prop where
  primary : ∀ k ∈ ks.primary, SpelledKey k
  additional : ∀ group ∈ ks.additional,
    IsMemberName group.method ∧ ∀ k ∈ group.keys, SpelledKey k

lemma isWord_constantWord (name : String) : IsWord (ResourceKey.constantWord name).toList := by
  rw [ResourceKey.constantWord, String.toList_ofList, IsWord, List.forall_mem_map]
  exact fun c hc => isWordChar_toUpper (isWord_legalChars _ c hc)

lemma isMemberName_constantOf (path : List String) :
    IsMemberName (ResourceKey.constantOf path) := by
  have hfront : IsMemberName "IDENTIFIER_KEY_" :=
    ⟨'I', _, rfl, by decide, List.all_eq_true.1 (by decide)⟩
  refine hfront.append fun c hc => ?_
  rw [String.toList_intercalate] at hc
  rcases Project.mem_intercalate hc with hc | ⟨l, hl, hc⟩
  · obtain rfl := List.mem_singleton.1 hc
    decide
  · rw [List.map_map] at hl
    obtain ⟨name, -, rfl⟩ := List.mem_map.1 hl
    exact isWord_constantWord name c hc

lemma isMemberName_methodOf (keys : List ResourceKey) :
    IsMemberName (ResourceKeys.methodOf keys) := by
  have hfront : IsMemberName "getIdentifier" :=
    ⟨'g', _, rfl, by decide, List.all_eq_true.1 (by decide)⟩
  rw [methodOf_eq]
  refine hfront.append ?_
  rw [lastWords, String.toList_ofList, List.forall_mem_flatMap]
  intro pointer _
  exact List.forall_mem_cons.2 ⟨by decide, (isWord_legalChars _).upperFirst⟩

lemma spelled_of_ofPointer? {pointer : String} {k : ResourceKey}
    (h : ResourceKey.ofPointer? pointer = some k) : SpelledKey k := by
  obtain ⟨path, -, rfl⟩ := Option.map_eq_some_iff.1 h
  refine ⟨isMemberName_constantOf path, List.forall_mem_map.2 fun name _ => ?_⟩
  exact ⟨_, (isFieldName_fieldName name).getter, rfl⟩

lemma SpelledKey.bindTo (h : classesOf rootClassName package g = .ok classes)
    {root : JavaClass} (hroot : root ∈ classes) {key : ResourceKey} (hkey : SpelledKey key) :
    SpelledKey (key.bindTo classes root) := by
  rcases ResourceKey.bindTo_cases hroot key with e | ⟨getters, e, hgetters⟩
  · rwa [e]
  · rw [e]
    refine ⟨hkey.constant, fun call hcall => ?_⟩
    obtain ⟨c, hc, f, hf, rfl⟩ := hgetters call hcall
    exact ⟨_, (isFieldName_identifier h hc hf).getter, rfl⟩

lemma spelled_ofDocument {schema : Document} {ks : ResourceKeys}
    (h : ResourceKeys.ofDocument schema = .ok ks) : SpelledKeys ks := by
  obtain ⟨hprimary, hadditional⟩ := forall_ofDocument spelled_of_ofPointer? h
  refine ⟨hprimary, fun group hgroup => ?_⟩
  obtain ⟨hmethod, hkeys⟩ := hadditional group hgroup
  exact ⟨hmethod ▸ isMemberName_methodOf group.keys, hkeys⟩

lemma SpelledKeys.bindTo (h : classesOf rootClassName package g = .ok classes)
    {ks : ResourceKeys} (hks : SpelledKeys ks) : SpelledKeys (ks.bindTo classes) := by
  obtain ⟨hprimary, hadditional⟩ := ResourceKeys.forall_bindTo
    (fun root hroot key hkey => hkey.bindTo h hroot) hks.primary hks.additional
  exact ⟨hprimary, hadditional⟩

/-! ### All names -/

lemma isSegmentName_derive (xs : List String) : ∀ s ∈ (derive xs).segments, IsSegmentName s :=
  fun s hs => (Package.isDerived_derive xs s hs).legal

/-- **No schema leads to a name of another shape.** The classes for any graph, their fields and
the getters of these, the names of fields that are made from a pointer, and the constants, methods
and getters for the identifiers of any schema, bound to classes or not, are all spelled in ASCII
and as the language wants it. So is each segment of a derived package, and there is one more of
them than there are segments to derive it from. -/
theorem names_spelled (schema : Document) (package : Package) (segments : List String) :
    (∀ g classes, classesOf rootClassName package g = .ok classes → ∀ k ∈ classes,
      IsClassName k.name ∧
        ∀ f ∈ k.fields, IsFieldName f.identifier ∧ IsMemberName ("get" ++ f.accessor)) ∧
    (∀ name, IsFieldName (fieldName name)) ∧
    (∀ ks, ResourceKeys.ofDocument schema = .ok ks → SpelledKeys ks ∧
      ∀ g classes, classesOf rootClassName package g = .ok classes →
        SpelledKeys (ks.bindTo classes)) ∧
    (derive segments).segments.length = segments.length + 1 ∧
    ∀ s ∈ (derive segments).segments, IsSegmentName s := by
  refine ⟨fun g classes h k hk => ⟨isClassName_of_classes h hk, fun f hf => ?_⟩,
    isFieldName_fieldName, fun ks hks => ?_, by simp [derive], isSegmentName_derive segments⟩
  · have hfield := isFieldName_identifier h hk hf
    exact ⟨hfield, hfield.getter⟩
  · have hspelled := spelled_ofDocument hks
    exact ⟨hspelled, fun g classes h => hspelled.bindTo h⟩

/-- Names that start with a digit, are empty, reserved or not of ASCII. -/
def oddNames : Document.Members :=
  let text := Document.record [("type", .text "string")]
  [("properties", .record [("", text), ("enum", text), ("Größe", text),
     ("2é", .record [("type", .text "object"), ("properties", .record [("ſ", text)])])]),
   ("primaryIdentifier", .list [.text "/properties/2é/ſ"]),
   ("additionalIdentifiers", .list [.list [.text "/properties/Größe"]])]

lemma odd_model : ∃ g classes ks, Graph.ofDocument (.record oddNames) = .ok g ∧
    classesOf rootClassName ⟨[]⟩ g = .ok classes ∧
    ResourceKeys.ofDocument (.record oddNames) = .ok ks ∧
    classes.map (fun k => (k.name, k.fields.map JavaField.identifier)) =
      [("ResourceModel", ["_", "enum_", "gr__e", "_2_"]), ("_2", ["_"])] ∧
    (ks.bindTo classes).primary.map (fun k => (k.constant, k.getters)) =
      [("IDENTIFIER_KEY_2___", ["get_2_()", "get_()"])] := by
  have hg : Graph.ofDocument (.record oddNames) = .ok _ :=
    Schema.ofDocument_record.2 (Or.inr ⟨_, _, _, rfl, .cons (.leaf rfl) (.cons (.leaf rfl)
      (.cons (.leaf rfl) (.cons (.hoist rfl (by decide) rfl (.cons (.leaf rfl) .nil)) .nil))),
      rfl⟩)
  exact ⟨_, _, _, hg, rfl, rfl, by decide +kernel, by decide +kernel⟩

theorem names_spelled_odd : ∃ g classes ks, Graph.ofDocument (.record oddNames) = .ok g ∧
    classesOf rootClassName ⟨[]⟩ g = .ok classes ∧
    ResourceKeys.ofDocument (.record oddNames) = .ok ks ∧
    (∀ k ∈ classes, IsClassName k.name ∧ ∀ f ∈ k.fields, IsFieldName f.identifier) ∧
    SpelledKeys (ks.bindTo classes) := by
  obtain ⟨g, classes, ks, hg, hc, hks, -, -⟩ := odd_model
  obtain ⟨hclasses, -, hspelled, -⟩ := names_spelled (.record oddNames) ⟨[]⟩ []
  refine ⟨g, classes, ks, hg, hc, hks, fun k hk => ?_, (hspelled ks hks).2 g classes hc⟩
  obtain ⟨hname, hfields⟩ := hclasses g classes hc k hk
  exact ⟨hname, fun f hf => (hfields f hf).1⟩

end ProviderGen.Java
