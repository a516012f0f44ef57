import ProviderGen.Proofs.Java.ImportedTypes
import ProviderGen.Proofs.Java.Binding

/-!
The methods of the root class. It has a getter for each field, two methods that every root class
has, and one for each group of identifiers. The getters never clash with each other, for no
identifier starts with a capital and no two are the same; and no group's method is one of the two.
All other clashes happen, each from names that can be read off the schema.
-/

namespace ProviderGen.Java

open Schema (Key Graph)
open ResourceKeys (methodOf)
open ResourceKey (lastPiece)

/-! ### Identifiers and their accessors -/

lemma toLower_toUpper (c : Char) : c.toUpper.toLower = c.toLower := by
  by_cases hc : c.toNat < 128
  · have hall : ∀ n : Fin 128, (Char.ofNat n).toUpper.toLower = (Char.ofNat n).toLower := by decide
    simpa using hall ⟨c.toNat, hc⟩
  · have h : c.toUpper = c := by
      unfold Char.toUpper
      rw [dif_neg]
      rintro ⟨-, hle⟩
      have : c.toNat ≤ 122 := hle
      omega
    rw [h]

lemma toLower_toLower (c : Char) : c.toLower.toLower = c.toLower := by
  unfold Char.toLower
  split
  · grind
  · rfl

lemma isDigit_toLower (c : Char) : c.toLower.isDigit = c.isDigit := by
  unfold Char.toLower
  split
  · unfold Char.isDigit
    grind
  · rfl

lemma exists_withStart (cs : List Char) : ∃ c r, withStart cs = c :: r ∧ c.isDigit = false := by
  unfold withStart
  split
  · exact ⟨'_', [], rfl, by decide⟩
  · rename_i c r
    split
    · exact ⟨'_', c :: r, rfl, by decide⟩
    · rename_i h
      exact ⟨c, r, rfl, by simpa using h⟩

/-- The word has a first character, and it is not a capital. -/
def StartsLow (word : String) : Prop := ∃ c r, word.toList = c :: r ∧ c.toLower = c

variable {word word' name : String}

lemma StartsLow.append (h : StartsLow word) (behind : String) : StartsLow (word ++ behind) := by
  obtain ⟨c, r, hword, hc⟩ := h
  exact ⟨c, r ++ behind.toList, by rw [String.toList_append, hword, List.cons_append], hc⟩

/-- The first letter of such a word can be read off its accessor. -/
lemma StartsLow.lower_accessor (h : StartsLow word) :
    lowerFirst (accessor word).toList = word.toList := by
  obtain ⟨c, r, hword, hc⟩ := h
  rw [accessor, String.toList_ofList, hword, upperFirst, lowerFirst, toLower_toUpper, hc]

lemma StartsLow.accessor_inj (h : StartsLow word) (h' : StartsLow word') :
    accessor word = accessor word' ↔ word = word' := by
  refine ⟨fun e => ?_, fun e => e ▸ rfl⟩
  rw [← String.toList_inj, ← h.lower_accessor, ← h'.lower_accessor, e]

lemma startsLow_fieldName (name : String) : StartsLow (fieldName name) := by
  have hstart : ∀ cs, StartsLow (String.ofList (lowerFirst (withStart cs))) := by
    intro cs
    obtain ⟨c, r, hcs, -⟩ := exists_withStart cs
    exact ⟨c.toLower, r, by rw [String.toList_ofList, hcs, lowerFirst], toLower_toLower c⟩
  unfold fieldName guard
  split
  · exact (hstart _).append "_"
  · exact hstart _

variable {names : List (Key × String)} {owner rootName : String} {package : Package} {g : Graph}
  {classes : List JavaClass}

lemma fieldOf_ok {p : Schema.Property} {identifier : String} {f : JavaField}
    (h : fieldOf names owner p identifier = .ok f) :
    f.name = p.name ∧ f.identifier = identifier := by
  unfold fieldOf at h
  cases ht : typeOf names owner p.type with
  | error e =>
    rw [ht] at h
    cases h
  | ok t =>
    rw [ht] at h
    cases h
    exact ⟨rfl, rfl⟩

lemma identifiers_of_fieldsOf {ps : List Schema.Property} {fields : List JavaField}
    (h : fieldsOf names owner ps = .ok fields) :
    fields.map JavaField.identifier = freeNames [] (fields.map fun f => fieldName f.name) := by
  have hr : List.Forall₂ (fun a f => f.name = a.1.name ∧ f.identifier = a.2)
      (ps.zip (identifiersOf ps)) fields := (forall₂_of_mapM h).imp fun _ _ hf => fieldOf_ok hf
  have hname : (ps.zip (identifiersOf ps)).map (fun a => fieldName a.1.name) =
      fields.map fun f => fieldName f.name := by
    rw [← List.forall₂_eq_eq_eq, List.forall₂_map_left_iff, List.forall₂_map_right_iff]
    exact hr.imp fun _ _ hf => congrArg fieldName hf.1.symm
  have hidentifier : (ps.zip (identifiersOf ps)).map Prod.snd =
      fields.map JavaField.identifier := by
    rw [← List.forall₂_eq_eq_eq, List.forall₂_map_left_iff, List.forall₂_map_right_iff]
    exact hr.imp fun _ _ hf => hf.2.symm
  have hfst : (ps.zip (identifiersOf ps)).map (fun a => fieldName a.1.name) =
      ps.map fun p => fieldName p.name := by
    have hzip : (ps.zip (identifiersOf ps)).map Prod.fst = ps :=
      List.map_fst_zip (by simp [identifiersOf])
    conv_rhs => rw [← hzip, List.map_map]
    rfl
  rw [← hidentifier, ← hname, hfst, List.map_snd_zip (by simp [identifiersOf])]
  rfl

/-- The identifiers of a class are free names for its properties. -/
lemma identifiers_of_classes (h : classesOf rootName package g = .ok classes) :
    ∀ c ∈ classes, c.fields.map JavaField.identifier =
      freeNames [] (c.fields.map fun f => fieldName f.name) := by
  intro c hc
  obtain ⟨⟨o, name⟩, -, hclass⟩ := exists_of_mapM h hc
  replace hclass : classOf (classNames rootName g) package o name = .ok c := hclass
  unfold classOf at hclass
  cases hfields : fieldsOf (classNames rootName g) name o.properties with
  | error e =>
    rw [hfields] at hclass
    cases hclass
  | ok fields =>
    rw [hfields] at hclass
    cases hclass
    exact identifiers_of_fieldsOf hfields

lemma startsLow_identifier {names : List String} {taken : List String}
    (h : ∀ n ∈ names, StartsLow n) : ∀ n ∈ freeNames taken names, StartsLow n := by
  intro n hn
  rcases mem_of_mem_freeNames hn with hn | ⟨m, hm, i, rfl⟩
  · exact h n hn
  · exact (h m hm).append (toString i)

/-- The identifiers of a class are different, and start low. -/
lemma identifiers_ok (h : classesOf rootName package g = .ok classes) {c : JavaClass}
    (hc : c ∈ classes) : (c.fields.map JavaField.identifier).Nodup ∧
      ∀ f ∈ c.fields, StartsLow f.identifier := by
  have hfree := identifiers_of_classes h c hc
  refine ⟨hfree ▸ (freeNames_nodup _ _).1, fun f hf => ?_⟩
  have hmem : f.identifier ∈ freeNames [] (c.fields.map fun f => fieldName f.name) := by
    rw [← hfree]
    exact List.mem_map_of_mem hf
  refine startsLow_identifier (fun n hn => ?_) _ hmem
  obtain ⟨f, -, rfl⟩ := List.mem_map.1 hn
  exact startsLow_fieldName f.name

/-! ### Words that are asked for by name -/

/-- A word that stays as it is when an identifier is made of it. -/
structure Unchanged (word : String) : Prop where
  letters : ∀ c ∈ word.toList, c.isAlphanum = true
  start : ∃ c r, word.toList = c :: r ∧ c.isDigit = false
  free : isReserved word = false

lemma isAlphanum_of_toLower {c : Char} (h : c.toLower.isAlphanum = true) :
    c.isAlphanum = true := by
  unfold Char.toLower at h
  split at h
  · rename_i hupper
    have hisUpper : c.isUpper = true := by
      unfold Char.isUpper
      simpa using hupper
    unfold Char.isAlphanum Char.isAlpha
    rw [hisUpper]
    rfl
  · exact h

lemma eq_of_guard (h : ∀ c ∈ word.toList, c.isAlphanum = true) (hg : guard name = word) :
    name = word := by
  unfold guard at hg
  split at hg
  · rw [← hg, String.toList_append] at h
    exact absurd (h '_' (by simp)) (by decide)
  · exact hg

lemma legalChars_of_isWordChar {cs : List Char} (h : ∀ c ∈ cs, isWordChar c = true) :
    legalChars cs = cs := by
  unfold legalChars
  rw [List.map_congr_left fun c hc => if_pos (h c hc), List.map_id']

variable {cs : List Char}

lemma isWordChar_of_legalChars (h : ∀ c ∈ legalChars cs, c.isAlphanum = true) :
    ∀ c ∈ cs, isWordChar c = true := by
  intro c hc
  by_contra hword
  have hmem : (if isWordChar c then c else '_') ∈ legalChars cs := List.mem_map_of_mem hc
  rw [if_neg hword] at hmem
  exact absurd (h '_' hmem) (by decide)

lemma isAlphanum_of_lowerFirst (h : ∀ c ∈ lowerFirst cs, c.isAlphanum = true) :
    ∀ c ∈ cs, c.isAlphanum = true := by
  cases cs with
  | nil => exact h
  | cons c r =>
    rw [lowerFirst, List.forall_mem_cons] at h
    exact List.forall_mem_cons.2 ⟨isAlphanum_of_toLower h.1, h.2⟩

lemma withStart_of_letters (h : ∀ c ∈ lowerFirst (withStart cs), c.isAlphanum = true) :
    withStart cs = cs := by
  have hunderscore : ∀ r, withStart cs ≠ '_' :: r := by
    intro r e
    rw [e, lowerFirst, List.forall_mem_cons] at h
    exact absurd h.1 (by decide)
  revert hunderscore
  unfold withStart
  split
  · exact fun hne => absurd rfl (hne [])
  · split
    · exact fun hne => absurd rfl (hne _)
    · exact fun _ => rfl

/-- A property asks for such a word just if the property is called so, up to its first letter. -/
lemma fieldName_eq_iff (h : Unchanged word) :
    fieldName name = word ↔ lowerFirst name.toList = word.toList := by
  constructor
  · intro hname
    have hlow : lowerFirst (withStart (legalChars name.toList)) = word.toList := by
      rw [← eq_of_guard h.letters hname, String.toList_ofList]
    have hstart := withStart_of_letters (hlow ▸ h.letters)
    rw [hstart] at hlow
    have hletters := isAlphanum_of_lowerFirst (hlow ▸ h.letters)
    rwa [legalChars_of_isWordChar (isWordChar_of_legalChars hletters)] at hlow
  · intro hlow
    have hletters := isAlphanum_of_lowerFirst (hlow ▸ h.letters)
    have hlegal : legalChars name.toList = name.toList :=
      legalChars_of_isWordChar fun c hc => by simp [isWordChar, hletters c hc]
    obtain ⟨d, l, hword, hdigit⟩ := h.start
    have hstart : withStart name.toList = name.toList := by
      cases hcs : name.toList with
      | nil =>
        rw [hcs, hword] at hlow
        cases hlow
      | cons c r =>
        rw [hcs, hword, lowerFirst, List.cons.injEq] at hlow
        rw [withStart, ← isDigit_toLower, hlow.1, hdigit]
        rfl
    rw [fieldName, hlegal, hstart, hlow, String.ofList_toList, guard_of_not_reserved h.free]

/-- A field has a word without a digit at its end for its identifier just if a property asks for
it. -/
lemma exists_identifier_iff (h : classesOf rootName package g = .ok classes) {c : JavaClass}
    (hc : c ∈ classes) (hword : Unchanged word)
    (hlast : ∃ x ∈ word.toList.getLast?, x.isDigit = false) :
    (∃ f ∈ c.fields, f.identifier = word) ↔
      ∃ f ∈ c.fields, lowerFirst f.name.toList = word.toList := by
  have hasked : (∃ f ∈ c.fields, lowerFirst f.name.toList = word.toList) ↔
      word ∈ c.fields.map fun f => fieldName f.name := by
    simp only [List.mem_map, fieldName_eq_iff hword]
  have hgiven : (∃ f ∈ c.fields, f.identifier = word) ↔
      word ∈ freeNames [] (c.fields.map fun f => fieldName f.name) := by
    rw [← identifiers_of_classes h c hc, List.mem_map]
  rw [hasked, hgiven]
  exact mem_freeNames_iff List.not_mem_nil hlast

/-! ### The methods of the root class -/

/-- The words of a group's method: what stands behind the last slash of each of its pointers. -/
def lastWords (pointers : List String) : String :=
  String.ofList (pointers.flatMap fun p => '_' :: upperFirst (legalChars (lastPiece p)))

lemma methodOf_eq (keys : List ResourceKey) :
    methodOf keys = "getIdentifier" ++ lastWords (keys.map ResourceKey.pointer) := by
  have hfold : ∀ init : String, keys.foldl (fun name k => name ++ "_" ++ String.ofList (upperFirst
      (legalChars (lastPiece k.pointer)))) init =
      init ++ lastWords (keys.map ResourceKey.pointer) := by
    induction keys with
    | nil => simp [lastWords]
    | cons k r ih =>
      intro init
      rw [List.foldl_cons, ih, ← String.toList_inj]
      simp [lastWords]
  exact hfold _

/-- The methods in the source of the root class, with what they give. -/
def sourceMethods (ks : ResourceKeys) : List (String × String) :=
  ("JSONObject", "getPrimaryIdentifier") :: ("List<JSONObject>", "getAdditionalIdentifiers") ::
    ks.additional.map fun group => ("JSONObject", group.method)

/-- The names of all methods of the root class: those of the getters of its fields, which are not
in the source, and those of the others. -/
def methodNames (root : JavaClass) (ks : ResourceKeys) : List String :=
  root.fields.map (fun f => "get" ++ f.accessor) ++ (sourceMethods ks).map Prod.snd

/-- The first line of a method. -/
def signature (method : String × String) : String :=
  "    public " ++ method.1 ++ " " ++ method.2 ++ "() \x7b"

def isPublic (line : String) : Bool := "    public ".toList.isPrefixOf line.toList

open Template (keyStatement groupStatement identifierMethod additionalMethod rootMethods)

lemma filter_keyStatements (keys : List ResourceKey) :
    (keys.flatMap keyStatement).filter isPublic = [] := by
  rw [List.filter_eq_nil_iff]
  intro line hline
  obtain ⟨k, -, hline⟩ := List.mem_flatMap.1 hline
  simp only [keyStatement, List.mem_cons, List.not_mem_nil, or_false] at hline
  rcases hline with rfl | rfl | rfl <;> simp [isPublic]

lemma filter_groupStatements (groups : List KeyGroup) :
    (groups.flatMap groupStatement).filter isPublic = [] := by
  rw [List.filter_eq_nil_iff]
  intro line hline
  obtain ⟨group, -, hline⟩ := List.mem_flatMap.1 hline
  simp only [groupStatement, List.mem_cons, List.not_mem_nil, or_false] at hline
  rcases hline with rfl | rfl | rfl <;> simp [isPublic]

lemma filter_identifierMethod (name : String) (keys : List ResourceKey) :
    (identifierMethod name keys).filter isPublic = [signature ("JSONObject", name)] := by
  rw [identifierMethod, List.filter_append, List.filter_append, filter_keyStatements]
  simp [isPublic, signature]

lemma filter_additionalMethod (groups : List KeyGroup) :
    (additionalMethod groups).filter isPublic =
      [signature ("List<JSONObject>", "getAdditionalIdentifiers")] := by
  rw [additionalMethod, List.filter_append, List.filter_append, filter_groupStatements]
  simp [isPublic, signature]

lemma filter_rootMethods (ks : ResourceKeys) :
    (rootMethods ks).filter isPublic = (sourceMethods ks).map signature := by
  rw [rootMethods, List.filter_append, List.filter_append, filter_identifierMethod,
    filter_additionalMethod, List.filter_flatMap]
  simp only [filter_identifierMethod]
  rw [← List.map_eq_flatMap, sourceMethods, List.map_cons, List.map_cons, List.map_map]
  rfl

lemma sourceMethods_bindTo (classes : List JavaClass) (ks : ResourceKeys) :
    sourceMethods (ks.bindTo classes) = sourceMethods ks := by
  unfold ResourceKeys.bindTo
  split
  · rfl
  · rw [sourceMethods, sourceMethods, List.map_map]
    rfl

/-! ### Where two methods meet -/

lemma getter_eq_iff (h : StartsLow word) (h' : StartsLow word') :
    "get" ++ accessor word = "get" ++ accessor word' ↔ word = word' := by
  rw [String.append_right_inj, h.accessor_inj h']

lemma accessor_identifier (behind : String) :
    "getIdentifier" ++ behind = "get" ++ accessor ("identifier" ++ behind) := by
  rw [← String.toList_inj]
  simp [accessor, upperFirst]

lemma startsLow_identifierWord (behind : String) : StartsLow ("identifier" ++ behind) :=
  StartsLow.append ⟨'i', _, rfl, rfl⟩ behind

/-- The methods that are in the source differ just if those of the groups do. -/
lemma nodup_sourceMethods {ks : ResourceKeys} {words : KeyGroup → String}
    (h : ∀ group ∈ ks.additional, group.method = "getIdentifier" ++ words group) :
    ((sourceMethods ks).map Prod.snd).Nodup ↔ (ks.additional.map words).Nodup := by
  have hmethods : ks.additional.map KeyGroup.method =
      (ks.additional.map words).map ("getIdentifier" ++ ·) := by
    rw [List.map_map]
    exact List.map_congr_left h
  have hinjective : Function.Injective ("getIdentifier" ++ · : String → String) :=
    fun a b e => (String.append_right_inj _).1 e
  have hfixed : ∀ w, "getIdentifier" ++ w ≠ "getPrimaryIdentifier" ∧
      "getIdentifier" ++ w ≠ "getAdditionalIdentifiers" := by
    intro w
    constructor <;> intro e <;> simp [← String.toList_inj] at e
  have hnames : (sourceMethods ks).map Prod.snd = "getPrimaryIdentifier" ::
      "getAdditionalIdentifiers" :: ks.additional.map KeyGroup.method := by
    rw [sourceMethods, List.map_cons, List.map_cons, List.map_map]
    rfl
  rw [hnames, hmethods, List.nodup_cons, List.nodup_cons,
    List.nodup_map_iff hinjective]
  refine ⟨fun hn => hn.2.2, fun hn => ⟨fun hmem => ?_, fun hmem => ?_, hn⟩⟩
  · rcases List.mem_cons.1 hmem with e | hmem
    · exact absurd e (by decide)
    · obtain ⟨w, -, e⟩ := List.mem_map.1 hmem
      exact (hfixed w).1 e
  · obtain ⟨w, -, e⟩ := List.mem_map.1 hmem
    exact (hfixed w).2 e

/-- What keeps the methods of the root class apart: no property is called like one of the two
methods that every root class has, up to its first letter; no field is called like the method of
a group; and no two groups have the same words. -/
structure Apart (root : JavaClass) (ks : ResourceKeys) : Prop where
  fixed : ∀ f ∈ root.fields, String.ofList (lowerFirst f.name.toList) ∉
    ["primaryIdentifier", "additionalIdentifiers"]
  fields : ∀ f ∈ root.fields, ∀ group ∈ ks.additional,
    f.identifier ≠ "identifier" ++ lastWords (group.keys.map ResourceKey.pointer)
  groups : (ks.additional.map fun group => lastWords (group.keys.map ResourceKey.pointer)).Nodup

lemma fixed_iff (h : classesOf rootName package g = .ok classes) {root : JavaClass}
    (hroot : root ∈ classes) :
    (∀ f ∈ root.fields, String.ofList (lowerFirst f.name.toList) ∉
        ["primaryIdentifier", "additionalIdentifiers"]) ↔
      ∀ f ∈ root.fields, f.identifier ∉ ["primaryIdentifier", "additionalIdentifiers"] := by
  have hword : ∀ w ∈ ["primaryIdentifier", "additionalIdentifiers"],
      (∃ f ∈ root.fields, f.identifier = w) ↔
        ∃ f ∈ root.fields, String.ofList (lowerFirst f.name.toList) = w := by
    intro w hw
    have hunchanged : Unchanged w ∧ ∃ x ∈ w.toList.getLast?, x.isDigit = false := by
      rcases List.mem_pair.1 hw with rfl | rfl
      · exact ⟨⟨List.all_eq_true.1 (by decide), ⟨_, _, rfl, rfl⟩, by decide⟩, _, rfl, rfl⟩
      · exact ⟨⟨List.all_eq_true.1 (by decide), ⟨_, _, rfl, rfl⟩, by decide⟩, _, rfl, rfl⟩
    rw [exists_identifier_iff h hroot hunchanged.1 hunchanged.2]
    simp only [← String.toList_inj, String.toList_ofList]
  constructor
  · intro hnone f hf hw
    obtain ⟨f', hf', e⟩ := (hword _ hw).1 ⟨f, hf, rfl⟩
    exact hnone f' hf' (e ▸ hw)
  · intro hnone f hf hw
    obtain ⟨f', hf', e⟩ := (hword _ hw).2 ⟨f, hf, rfl⟩
    exact hnone f' hf' (e ▸ hw)

/-- A getter meets one of the other methods just if its field is called like that method. -/
lemma getters_apart_iff (h : classesOf rootName package g = .ok classes) {root : JavaClass}
    (hroot : root ∈ classes) {ks : ResourceKeys} {words : KeyGroup → String}
    (hmethod : ∀ group ∈ ks.additional, group.method = "getIdentifier" ++ words group) :
    (∀ a ∈ root.fields.map fun f => "get" ++ f.accessor,
        ∀ b ∈ (sourceMethods ks).map Prod.snd, a ≠ b) ↔
      (∀ f ∈ root.fields, String.ofList (lowerFirst f.name.toList) ∉
        ["primaryIdentifier", "additionalIdentifiers"]) ∧
      ∀ f ∈ root.fields, ∀ group ∈ ks.additional, f.identifier ≠ "identifier" ++ words group := by
  have hlow := (identifiers_ok h hroot).2
  have hlowPrimary : StartsLow "primaryIdentifier" := ⟨_, _, rfl, rfl⟩
  have hlowAdditional : StartsLow "additionalIdentifiers" := ⟨_, _, rfl, rfl⟩
  have hprimary : ∀ f ∈ root.fields,
      "get" ++ f.accessor = "getPrimaryIdentifier" ↔ f.identifier = "primaryIdentifier" :=
    fun f hf => getter_eq_iff (hlow f hf) hlowPrimary
  have hadditional : ∀ f ∈ root.fields,
      "get" ++ f.accessor = "getAdditionalIdentifiers" ↔ f.identifier = "additionalIdentifiers" :=
    fun f hf => getter_eq_iff (hlow f hf) hlowAdditional
  have hgroup : ∀ f ∈ root.fields, ∀ group ∈ ks.additional,
      "get" ++ f.accessor = group.method ↔ f.identifier = "identifier" ++ words group := by
    intro f hf group hin
    rw [hmethod group hin, accessor_identifier]
    exact getter_eq_iff (hlow f hf) (startsLow_identifierWord _)
  rw [fixed_iff h hroot, List.forall_mem_map, ← forall₂_and]
  refine forall₂_congr fun f hf => ?_
  rw [List.forall_mem_map, sourceMethods, List.forall_mem_cons, List.forall_mem_cons,
    List.forall_mem_map, List.mem_pair, not_or, and_assoc]
  exact and_congr (not_congr (hprimary f hf)) (and_congr (not_congr (hadditional f hf))
    (forall₂_congr fun group hin => not_congr (hgroup f hf group hin)))

/-- **The methods of the root class.** Its getters are always different. All methods are
different if and only if no property is called like one of the two fixed methods, no field like
the method of a group, and no two groups end in the same words; that the groups have different
pointers is not enough. -/
theorem methods_distinct_iff {d : Document} {ks : ResourceKeys} (hd : d.Distinct)
    (hg : Graph.ofDocument d = .ok g) (hc : classesOf rootClassName package g = .ok classes)
    (hk : ResourceKeys.ofDocument d = .ok ks) :
    ∃ root rest, classes = root :: rest ∧ root.key = .root ∧
      (rootMethods (ks.bindTo classes)).filter isPublic = (sourceMethods ks).map signature ∧
      (root.fields.map fun f => "get" ++ f.accessor).Nodup ∧
      ((methodNames root ks).Nodup ↔ Apart root ks) := by
  obtain ⟨root, rest, rfl, hkey, -⟩ := root_first hd hg hc
  obtain ⟨hnodup, hlow⟩ := identifiers_ok hc List.mem_cons_self
  have hgetters : (root.fields.map fun f => "get" ++ f.accessor).Nodup := by
    refine List.pairwise_map.2 ?_
    refine (List.pairwise_map.1 hnodup).imp_of_mem fun {a b} ha hb hne e => hne ?_
    exact (getter_eq_iff (hlow a ha) (hlow b hb)).1 e
  have hmethod : ∀ group ∈ ks.additional, group.method =
      "getIdentifier" ++ lastWords (group.keys.map ResourceKey.pointer) := by
    intro group hgroup
    rw [((forall_ofDocument (P := fun _ => True) (fun _ => trivial) hk).2 group hgroup).1,
      methodOf_eq]
  refine ⟨root, rest, rfl, hkey, ?_, hgetters, ?_⟩
  · rw [filter_rootMethods, sourceMethods_bindTo]
  · rw [methodNames, List.nodup_append, nodup_sourceMethods hmethod,
      getters_apart_iff hc List.mem_cons_self hmethod]
    exact ⟨fun ⟨_, hgroups, hfixed, hfields⟩ => ⟨hfixed, hfields, hgroups⟩,
      fun ⟨hfixed, hfields, hgroups⟩ => ⟨hgetters, hgroups, hfixed, hfields⟩⟩

/-- Two ends with the same two properties, and two groups of one pointer each. -/
def relay (pointer pointer' : String) : Document.Members :=
  let text := Document.record [("type", .text "string")]
  let port := Document.record [("type", .text "object"),
    ("properties", .record [("Arn", text), ("Name", text)])]
  [("properties", .record [("source", port), ("target", port)]),
   ("additionalIdentifiers", .list [.list [.text pointer], .list [.text pointer']])]

lemma relay_graph (pointer pointer' : String) : ∃ g root rest,
    Graph.ofDocument (.record (relay pointer pointer')) = .ok g ∧
      classesOf rootClassName ⟨[]⟩ g = .ok (root :: rest) ∧
      root.fields.map JavaField.name = ["source", "target"] := by
  have hg : Graph.ofDocument (.record (relay pointer pointer')) = .ok _ :=
    Schema.ofDocument_record.2 (Or.inr ⟨_, _, _, rfl, .cons (.hoist rfl (by decide) rfl
      (.cons (.leaf rfl) (.cons (.leaf rfl) .nil))) (.cons (.hoist rfl (by decide) rfl
      (.cons (.leaf rfl) (.cons (.leaf rfl) .nil))) .nil), rfl⟩)
  exact ⟨_, _, _, hg, rfl, rfl⟩

lemma relay_classes (pointer pointer' : String) : ∃ g root rest,
    Graph.ofDocument (.record (relay pointer pointer')) = .ok g ∧
      classesOf rootClassName ⟨[]⟩ g = .ok (root :: rest) ∧
      root.fields.map JavaField.name = ["source", "target"] ∧
      root.fields.map JavaField.identifier = ["source", "target"] := by
  obtain ⟨g, root, rest, hg, hc, hnames⟩ := relay_graph pointer pointer'
  refine ⟨g, root, rest, hg, hc, hnames, ?_⟩
  have hasked : root.fields.map (fun f => fieldName f.name) =
      ["source", "target"].map fieldName := by
    rw [← hnames, List.map_map]
    rfl
  rw [identifiers_of_classes hc root List.mem_cons_self, hasked]
  decide

lemma methodNames_eq (root : JavaClass) (ks : ResourceKeys) : methodNames root ks =
    (root.fields.map JavaField.identifier).map (fun i => "get" ++ accessor i) ++
      (sourceMethods ks).map Prod.snd := by
  rw [methodNames, List.map_map]
  rfl

theorem relay_methods_distinct : ∃ d g root rest ks, d.Distinct ∧ Graph.ofDocument d = .ok g ∧
    classesOf rootClassName ⟨[]⟩ g = .ok (root :: rest) ∧ ResourceKeys.ofDocument d = .ok ks ∧
    methodNames root ks = ["getSource", "getTarget", "getPrimaryIdentifier",
      "getAdditionalIdentifiers", "getIdentifier_Arn", "getIdentifier_Name"] ∧
    (methodNames root ks).Nodup := by
  have hd : (Document.record (relay "/properties/source/Arn" "/properties/target/Name")).Distinct :=
    by simp [relay]
  obtain ⟨g, root, rest, hg, hc, hnames, hidentifiers⟩ :=
    relay_classes "/properties/source/Arn" "/properties/target/Name"
  obtain ⟨ks, hk, hmethods, hwords⟩ : ∃ ks, ResourceKeys.ofDocument (.record
      (relay "/properties/source/Arn" "/properties/target/Name")) = .ok ks ∧
      (sourceMethods ks).map Prod.snd = ["getPrimaryIdentifier", "getAdditionalIdentifiers",
        "getIdentifier_Arn", "getIdentifier_Name"] ∧
      ks.additional.map (fun group => lastWords (group.keys.map ResourceKey.pointer)) =
        ["_Arn", "_Name"] := ⟨_, rfl, rfl, rfl⟩
  obtain ⟨root', rest', hclasses, -, -, -, hiff⟩ := methods_distinct_iff hd hg hc hk
  obtain ⟨rfl, -⟩ := List.cons.inj hclasses
  have hfixed : ∀ n ∈ ["source", "target"], String.ofList (lowerFirst n.toList) ∉
      ["primaryIdentifier", "additionalIdentifiers"] := by decide
  have hfields : ∀ i ∈ ["source", "target"], ∀ w ∈ ["_Arn", "_Name"], i ≠ "identifier" ++ w := by
    decide
  refine ⟨_, g, root, rest, ks, hd, hg, hc, hk, ?_, hiff.2 ⟨fun f hf => ?_,
    fun f hf group hgroup => ?_, ?_⟩⟩
  · rw [methodNames_eq, hidentifiers, hmethods]
    rfl
  · exact hfixed _ (hnames ▸ List.mem_map_of_mem hf)
  · exact hfields _ (hidentifiers ▸ List.mem_map_of_mem hf) _
      (hwords ▸ List.mem_map_of_mem hgroup)
  · rw [hwords]
    decide

/-- Two groups with different pointers, but with the same word behind the last slash, have methods
of one name. -/
theorem same_words_same_method : ∃ d g root rest ks, d.Distinct ∧ Graph.ofDocument d = .ok g ∧
    classesOf rootClassName ⟨[]⟩ g = .ok (root :: rest) ∧ ResourceKeys.ofDocument d = .ok ks ∧
    (ks.additional.map fun group => group.keys.map ResourceKey.pointer) =
      [["/properties/source/Arn"], ["/properties/target/Arn"]] ∧
    ks.additional.map KeyGroup.method = ["getIdentifier_Arn", "getIdentifier_Arn"] ∧
    ¬ (methodNames root ks).Nodup := by
  have hd : (Document.record (relay "/properties/source/Arn" "/properties/target/Arn")).Distinct :=
    by simp [relay]
  obtain ⟨g, root, rest, hg, hc, -, hidentifiers⟩ :=
    relay_classes "/properties/source/Arn" "/properties/target/Arn"
  refine ⟨_, g, root, rest, _, hd, hg, hc, rfl, rfl, rfl, ?_⟩
  rw [methodNames_eq, hidentifiers]
  decide

end ProviderGen.Java
