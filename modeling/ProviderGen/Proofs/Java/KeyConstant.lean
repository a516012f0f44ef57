import ProviderGen.Proofs.Java.Binding

/-!
The constants of keys. A constant shows its pointer up to case and up to the characters that a
name must not have: the names along the pointer are joined by slashes, and then every letter
becomes a capital and every other character that is not a digit, a dollar sign or an underscore
becomes an underscore, the slashes too. Keys with one constant have one declaration between them,
with the pointer of the key that comes first.
-/

namespace ProviderGen.Java

/-- The keys of the primary identifier and of all additional groups, in their order. -/
def ResourceKeys.declared (ks : ResourceKeys) : List ResourceKey :=
  ks.primary ++ ks.additional.flatMap KeyGroup.keys

/-! ### One declaration for each constant -/

open ResourceKeys (distinctBy)

variable {seen : List String} {keys : List ResourceKey} {constant : String}

/-- A constant that was not seen before is declared by the first key that has it. -/
lemma find?_distinctBy (h : constant ∉ seen) :
    (distinctBy seen keys).find? (·.constant == constant) =
      keys.find? (·.constant == constant) := by
  induction keys generalizing seen with
  | nil => rfl
  | cons k r ih =>
    unfold distinctBy
    split
    · rename_i hseen
      have hne : k.constant ≠ constant := fun e => h (e ▸ hseen)
      rw [List.find?_cons_of_neg (by simpa using hne)]
      exact ih h
    · by_cases hk : k.constant = constant
      · rw [List.find?_cons_of_pos (by simpa using hk), List.find?_cons_of_pos (by simpa using hk)]
      · rw [List.find?_cons_of_neg (by simpa using hk), List.find?_cons_of_neg (by simpa using hk)]
        refine ih fun hmem => ?_
        rcases List.mem_cons.1 hmem with rfl | hmem
        · exact hk rfl
        · exact h hmem

/-- The declared constants are different, and none of them was seen before. -/
lemma nodup_distinctBy (seen : List String) (keys : List ResourceKey) :
    ((distinctBy seen keys).map ResourceKey.constant).Nodup ∧
      ∀ k ∈ distinctBy seen keys, k.constant ∉ seen := by
  induction keys generalizing seen with
  | nil => simp [distinctBy]
  | cons k r ih =>
    unfold distinctBy
    split
    · exact ih seen
    · rename_i hseen
      obtain ⟨hnodup, hfree⟩ := ih (k.constant :: seen)
      have hnew : k.constant ∉ (distinctBy (k.constant :: seen) r).map ResourceKey.constant := by
        intro hmem
        obtain ⟨k', hk', e⟩ := List.mem_map.1 hmem
        exact hfree k' hk' (by simp [e])
      have hrest : ∀ k' ∈ distinctBy (k.constant :: seen) r, k'.constant ∉ seen :=
        fun k' hk' hmem => hfree k' hk' (List.mem_cons_of_mem _ hmem)
      rw [List.map_cons, List.nodup_cons, List.forall_mem_cons]
      exact ⟨⟨hnew, hnodup⟩, hseen, hrest⟩

/-- Under a name that occurs once there is nothing but what is found under it. -/
lemma filter_of_nodup {α : Type*} {name : α → String} {l : List α} (hn : (l.map name).Nodup)
    {n : String} {a : α} (h : l.find? (name · == n) = some a) :
    l.filter (name · == n) = [a] := by
  obtain ⟨ha, before, behind, rfl, hbefore⟩ := List.find?_eq_some_iff_append.1 h
  have hname : name a = n := by simpa using ha
  rw [List.map_append, List.map_cons, List.nodup_append] at hn
  have hbehind : ∀ b ∈ behind, ¬ (name b == n) = true := by
    intro b hb e
    have hab : name b = name a := by simpa [hname] using e
    exact (List.nodup_cons.1 hn.2.1).1 (hab ▸ List.mem_map_of_mem hb)
  have hfront : ∀ b ∈ before, ¬ (name b == n) = true := fun b hb => by simpa using hbefore b hb
  rw [List.filter_append, List.filter_eq_nil_iff.2 hfront, List.nil_append,
    List.filter_cons_of_pos (by simpa using hname), List.filter_eq_nil_iff.2 hbehind]

variable {ks : ResourceKeys} {k : ResourceKey}

/-- The declaration of a key's constant is that of the first key with this constant. -/
lemma exists_declaration (hk : k ∈ ks.declared) :
    ∃ first, ks.all.filter (·.constant == k.constant) = [first] ∧
      ks.declared.find? (·.constant == k.constant) = some first := by
  cases hfind : ks.declared.find? (·.constant == k.constant) with
  | none => exact absurd (List.find?_eq_none.1 hfind k hk) (by simp)
  | some first =>
    have hall : ks.all.find? (·.constant == k.constant) = some first := by
      rw [← hfind]
      exact find?_distinctBy List.not_mem_nil
    exact ⟨first, filter_of_nodup (nodup_distinctBy [] ks.declared).1 hall, rfl⟩

/-- So every key finds its own pointer just if keys with one constant have one pointer. -/
lemma pointers_kept_iff :
    (∀ k ∈ ks.declared, ∃ k', ks.all.filter (·.constant == k.constant) = [k'] ∧
        k'.pointer = k.pointer) ↔
      ∀ k ∈ ks.declared, ∀ k' ∈ ks.declared, k.constant = k'.constant →
        k.pointer = k'.pointer := by
  constructor
  · intro h k hk k' hk' hconstant
    obtain ⟨first, hfirst, hpointer⟩ := h k hk
    obtain ⟨first', hfirst', hpointer'⟩ := h k' hk'
    rw [hconstant, hfirst', List.singleton_inj] at hfirst
    rw [← hpointer, ← hpointer', hfirst]
  · intro h k hk
    obtain ⟨first, hfirst, hfind⟩ := exists_declaration hk
    have hconstant : first.constant = k.constant := by simpa using List.find?_some hfind
    exact ⟨first, hfirst, h first (List.mem_of_find?_eq_some hfind) k hk hconstant⟩

/-! ### What a constant shows of its pointer -/

/-- How a character of a name shows in a constant. -/
def constantChar (c : Char) : Char := if isWordChar c then c.toUpper else '_'

lemma toList_constantWord (name : String) :
    (ResourceKey.constantWord name).toList = name.toList.map constantChar := by
  rw [ResourceKey.constantWord, String.toList_ofList, legalChars, List.map_map]
  refine List.map_congr_left fun c _ => ?_
  rw [Function.comp_apply, constantChar]
  split <;> rfl

/-- The names along a pointer as its constant shows them. -/
def shown (names : List String) : List Char := ("/".intercalate names).toList.map constantChar

lemma map_intercalate {α β : Type*} (f : α → β) (sep : List α) (ls : List (List α)) :
    (sep.intercalate ls).map f = (sep.map f).intercalate (ls.map (List.map f)) := by
  induction ls with
  | nil => rfl
  | cons l r ih =>
    cases r with
    | nil => simp
    | cons m r =>
      rw [List.intercalate_cons_cons, List.map_append, List.map_append, ih, List.map_cons,
        List.map_cons, List.map_cons, List.intercalate_cons_cons]

lemma toList_constantOf (names : List String) :
    (ResourceKey.constantOf names).toList = "IDENTIFIER_KEY_".toList ++ shown names := by
  have hwords : names.map (String.toList ∘ ResourceKey.constantWord) =
      names.map (List.map constantChar ∘ String.toList) :=
    List.map_congr_left fun name _ => toList_constantWord name
  rw [ResourceKey.constantOf, String.toList_append, String.toList_intercalate, List.map_map,
    shown, String.toList_intercalate, map_intercalate, List.map_map, hwords]
  rfl

/-- The constants of two pointers do not tell them apart. -/
def ShownAlike (pointer pointer' : String) : Prop :=
  ∃ names names', NamesIn pointer names ∧ NamesIn pointer' names' ∧ shown names = shown names'

lemma NamesIn.unique {pointer : String} {names names' : List String} (h : NamesIn pointer names)
    (h' : NamesIn pointer names') : names = names' := by
  obtain ⟨rest, rfl, rfl⟩ := h
  obtain ⟨rest', hrest, rfl⟩ := h'
  rw [String.append_right_inj] at hrest
  rw [hrest]

/-- A key is the one that its pointer gives. -/
def FromPointer (k : ResourceKey) : Prop := ResourceKey.ofPointer? k.pointer = some k

lemma fromPointer_of_ofPointer? {pointer : String} (h : ResourceKey.ofPointer? pointer = some k) :
    FromPointer k := by
  have hpointer : k.pointer = pointer := by
    obtain ⟨path, -, rfl⟩ := Option.map_eq_some_iff.1 h
    rfl
  rwa [FromPointer, hpointer]

lemma FromPointer.constant_eq_iff {k' : ResourceKey} (h : FromPointer k) (h' : FromPointer k') :
    k.constant = k'.constant ↔ ShownAlike k.pointer k'.pointer := by
  obtain ⟨names, hnames, hk⟩ := Option.map_eq_some_iff.1 h
  obtain ⟨names', hnames', hk'⟩ := Option.map_eq_some_iff.1 h'
  have hin := (namesIn_of_path? hnames).1
  have hin' := (namesIn_of_path? hnames').1
  have hconstant : k.constant = k'.constant ↔ shown names = shown names' := by
    rw [← hk, ← hk', ← String.toList_inj, toList_constantOf, toList_constantOf,
      List.append_cancel_left_eq]
  rw [hconstant]
  refine ⟨fun e => ⟨names, names', hin, hin', e⟩, ?_⟩
  rintro ⟨m, m', hm, hm', e⟩
  rwa [hm.unique hin, hm'.unique hin'] at e

lemma fromPointer_of_document {d : Document} (h : ResourceKeys.ofDocument d = .ok ks) :
    ∀ k ∈ ks.declared, FromPointer k := by
  obtain ⟨hprimary, hadditional⟩ := forall_ofDocument fromPointer_of_ofPointer? h
  intro k hk
  rcases List.mem_append.1 hk with hk | hk
  · exact hprimary k hk
  · obtain ⟨group, hgroup, hk⟩ := List.mem_flatMap.1 hk
    exact (hadditional group hgroup).2 k hk

/-! ### Binding -/

/-- What a declaration says. -/
def ResourceKey.declaration (k : ResourceKey) : String × String := (k.constant, k.pointer)

lemma declaration_bindTo (classes : List JavaClass) (root : JavaClass) (k : ResourceKey) :
    (k.bindTo classes root).declaration = k.declaration := by
  unfold ResourceKey.bindTo
  split <;> rfl

lemma declared_bindTo (classes : List JavaClass) (ks : ResourceKeys) :
    (ks.bindTo classes).declared = ks.declared ∨
      ∃ root, (ks.bindTo classes).declared = ks.declared.map (·.bindTo classes root) := by
  unfold ResourceKeys.bindTo
  split
  · exact Or.inl rfl
  · rename_i root hroot
    refine Or.inr ⟨root, ?_⟩
    rw [ResourceKeys.declared, ResourceKeys.declared, List.map_append, List.flatMap_map,
      List.map_flatMap]

/-- Keys that are the same but for their getters have the same declarations. -/
lemma map_declaration_distinctBy {f : ResourceKey → ResourceKey}
    (hf : ∀ k, (f k).declaration = k.declaration) (seen : List String) (keys : List ResourceKey) :
    (distinctBy seen (keys.map f)).map ResourceKey.declaration =
      (distinctBy seen keys).map ResourceKey.declaration := by
  induction keys generalizing seen with
  | nil => rfl
  | cons k r ih =>
    have hconstant : (f k).constant = k.constant := congrArg Prod.fst (hf k)
    rw [List.map_cons]
    unfold distinctBy
    rw [hconstant]
    split
    · exact ih seen
    · rw [List.map_cons, List.map_cons, hf, ih]

/-- **The constants of a schema's keys.** Whatever the schema is, the constant of each key has
exactly one declaration, with the pointer of the first key that has this constant. The
declaration has the key's own pointer, for every key, if and only if no two different pointers of
the schema are alike. Binding the keys to classes changes none of the declarations. -/
theorem declarations_right_iff {d : Document} (h : ResourceKeys.ofDocument d = .ok ks) :
    (∀ k ∈ ks.declared, ∃ first, ks.all.filter (·.constant == k.constant) = [first] ∧
        ks.declared.find? (·.constant == k.constant) = some first) ∧
      ((∀ k ∈ ks.declared, ∃ k', ks.all.filter (·.constant == k.constant) = [k'] ∧
          k'.pointer = k.pointer) ↔
        ∀ k ∈ ks.declared, ∀ k' ∈ ks.declared, ShownAlike k.pointer k'.pointer →
          k.pointer = k'.pointer) ∧
      ∀ classes,
        (ks.bindTo classes).declared.map ResourceKey.declaration =
            ks.declared.map ResourceKey.declaration ∧
          (ks.bindTo classes).all.map ResourceKey.declaration =
            ks.all.map ResourceKey.declaration := by
  refine ⟨fun k hk => exists_declaration hk, ?_, fun classes => ?_⟩
  · rw [pointers_kept_iff]
    refine forall₂_congr fun k hk => forall₂_congr fun k' hk' => ?_
    rw [(fromPointer_of_document h k hk).constant_eq_iff (fromPointer_of_document h k' hk')]
  · have hall : (ks.bindTo classes).all = distinctBy [] (ks.bindTo classes).declared := rfl
    have hall' : ks.all = distinctBy [] ks.declared := rfl
    rcases declared_bindTo classes ks with hd | ⟨root, hd⟩
    · rw [hall, hd, hall']
      exact ⟨rfl, rfl⟩
    · have hf := declaration_bindTo classes root
      rw [hall, hd, hall', map_declaration_distinctBy hf, List.map_map]
      exact ⟨List.map_congr_left fun k _ => hf k, rfl⟩

/-- Two properties, one in the primary identifier and one in a group. -/
def beacon (name name' : String) : Document.Members :=
  let text := Document.record [("type", .text "string")]
  [("properties", .record [(name, text), (name', text)]),
   ("primaryIdentifier", .list [.text ("/properties/" ++ name)]),
   ("additionalIdentifiers", .list [.list [.text ("/properties/" ++ name')]])]

theorem beacon_declared : ∃ ks, ResourceKeys.ofDocument (.record (beacon "host" "port")) = .ok ks ∧
    ks.all.map ResourceKey.declaration = [("IDENTIFIER_KEY_HOST", "/properties/host"),
      ("IDENTIFIER_KEY_PORT", "/properties/port")] ∧
    ∀ k ∈ ks.declared, ∀ k' ∈ ks.declared, ShownAlike k.pointer k'.pointer →
      k.pointer = k'.pointer := by
  refine ⟨_, rfl, rfl, (declarations_right_iff (d := .record (beacon "host" "port")) rfl).2.1.1 ?_⟩
  rw [pointers_kept_iff]
  decide

/-- Names that differ in the character between two letters have one constant, and it is declared
with the first pointer only. -/
theorem hyphen_shown_as_underscore :
    ∃ ks, ResourceKeys.ofDocument (.record (beacon "a-b" "a_b")) = .ok ks ∧
      ks.all.map ResourceKey.declaration = [("IDENTIFIER_KEY_A_B", "/properties/a-b")] ∧
      ∃ k ∈ ks.declared, k.constant = "IDENTIFIER_KEY_A_B" ∧ k.pointer = "/properties/a_b" ∧
        ¬ ∃ k', ks.all.filter (·.constant == k.constant) = [k'] ∧ k'.pointer = k.pointer := by
  refine ⟨_, rfl, rfl, ⟨"/properties/a_b", "IDENTIFIER_KEY_A_B", ["getA_b()"]⟩, by decide, rfl, rfl,
    ?_⟩
  rintro ⟨k', hk', hpointer⟩
  have hfirst : k' = ⟨"/properties/a-b", "IDENTIFIER_KEY_A_B", ["getA_b()"]⟩ :=
    (List.singleton_inj.1 hk').symm
  rw [hfirst] at hpointer
  exact absurd hpointer (by decide)

end ProviderGen.Java
