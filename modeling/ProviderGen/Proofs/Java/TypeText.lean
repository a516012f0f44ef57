import ProviderGen.Proofs.Java.ClassName

/-!
The texts of types. A type starts with a word, and what stands behind the word starts with an
angle bracket, which no word holds. So the text of a type tells the type, if the classes in it are
called otherwise than the types of the language; and in the classes of a graph a text is used for
one type only.
-/

namespace ProviderGen.Java

open Schema (Key FlatType Property Object Graph)

/-! ### Reading a text -/

namespace JavaType

/-- The words that types of the language start with. -/
def words : List String :=
  ["String", "Integer", "Double", "Boolean", "Object", "List", "Set", "Map"]

/-- The word that a type starts with. -/
def word : JavaType → String
  | string => "String"
  | integer => "Integer"
  | double => "Double"
  | boolean => "Boolean"
  | object => "Object"
  | named name => name
  | list _ => "List"
  | set _ => "Set"
  | map _ => "Map"

/-- What stands between the word of a map and the type of its values. -/
def mapOpening : List Char := ['<', 'S', 't', 'r', 'i', 'n', 'g', ',', ' ']

/-- What stands behind the word. -/
def rest : JavaType → List Char
  | list item => ['<'] ++ item.text.toList ++ ['>']
  | set item => ['<'] ++ item.text.toList ++ ['>']
  | map value => mapOpening ++ value.text.toList ++ ['>']
  | _ => []

/-- The class in the type, if any, is called like no type of the language, without a bracket. -/
def Plain : JavaType → Prop
  | named name => name ∉ words ∧ '<' ∉ name.toList
  | list item => item.Plain
  | set item => item.Plain
  | map value => value.Plain
  | _ => True

variable {t u : JavaType}

lemma toList_text (t : JavaType) : t.text.toList = t.word.toList ++ t.rest := by
  cases t <;> simp [text, word, rest, mapOpening]

lemma Plain.noBracket (h : t.Plain) : '<' ∉ t.word.toList := by
  cases t with
  | named name => exact h.2
  | _ => simp [word]

lemma rest_head (t : JavaType) : ∀ c ∈ t.rest.head?, c = '<' := by
  cases t <;> simp [rest, mapOpening]

/-- The word reaches to the first bracket. -/
lemma Plain.cut_text (h : t.Plain) :
    t.text.toList.takeWhile (· != '<') = t.word.toList ∧
      t.text.toList.dropWhile (· != '<') = t.rest := by
  have hword : ∀ c ∈ t.word.toList, (c != '<') = true := fun c hc => by
    rw [bne_iff_ne]
    rintro rfl
    exact h.noBracket hc
  have hrest := t.rest_head
  rw [toList_text, List.takeWhile_append_of_pos hword, List.dropWhile_append_of_pos hword]
  cases hr : t.rest with
  | nil => simp
  | cons c r =>
    obtain rfl : c = '<' := hrest c (by simp [hr])
    simp

/-- Types with the same text have the same word, and the same behind it. -/
lemma Plain.parts_eq (ht : t.Plain) (hu : u.Plain) (h : t.text = u.text) :
    t.word = u.word ∧ t.rest = u.rest := by
  obtain ⟨htword, htrest⟩ := ht.cut_text
  obtain ⟨huword, hurest⟩ := hu.cut_text
  refine ⟨?_, ?_⟩
  · rw [← String.toList_inj, ← htword, h, huword]
  · rw [← htrest, h, hurest]

/-- What stands in brackets tells what is in them. -/
lemma text_eq_of_bracketed (cs : List Char)
    (h : cs ++ t.text.toList ++ ['>'] = cs ++ u.text.toList ++ ['>']) : t.text = u.text :=
  String.toList_inj.1 (List.append_cancel_left (List.append_cancel_right h))

/-- **The text of a type tells the type.** -/
theorem eq_of_text_eq (ht : t.Plain) (hu : u.Plain) (h : t.text = u.text) : t = u := by
  -- the word tells the constructor, for no class is called like one of the words
  induction t generalizing u with
  | named name =>
    obtain ⟨hword, -⟩ := ht.parts_eq hu h
    cases u with
    | named name' => exact congrArg named hword
    | _ => simp_all [Plain, word, words]
  | list t ih =>
    obtain ⟨hword, hrest⟩ := Plain.parts_eq ht hu h
    cases u with
    | list u => exact congrArg list (ih ht hu (text_eq_of_bracketed ['<'] hrest))
    | _ => simp_all [Plain, word, words]
  | set t ih =>
    obtain ⟨hword, hrest⟩ := Plain.parts_eq ht hu h
    cases u with
    | set u => exact congrArg set (ih ht hu (text_eq_of_bracketed ['<'] hrest))
    | _ => simp_all [Plain, word, words]
  | map t ih =>
    obtain ⟨hword, hrest⟩ := Plain.parts_eq ht hu h
    cases u with
    | map u =>
      exact congrArg map (ih ht hu (text_eq_of_bracketed mapOpening hrest))
    | _ => simp_all [Plain, word, words]
  | _ =>
    obtain ⟨hword, -⟩ := Plain.parts_eq ht hu h
    cases u with
    | named name => simp_all [Plain, word, words]
    | _ => simp_all [word]

end JavaType

/-! ### The types of a graph -/

/-- A type, or a type within it. -/
inductive PartOf (t : FlatType) : FlatType → Prop where
  | self : PartOf t t
  | list {u} (h : PartOf t u) : PartOf t (.list u)
  | set {u} (h : PartOf t u) : PartOf t (.set u)
  | map {u} (h : PartOf t u) : PartOf t (.map u)

/-- The type of a property, or a type within that. -/
def Occurs (g : Graph) (t : FlatType) : Prop :=
  ∃ o ∈ g.objects, ∃ p ∈ o.properties, PartOf t p.type

variable {g : Graph} {package : Package} {classes : List JavaClass} {t t' : FlatType}
  {u u' : JavaType} {rootName owner : String}

lemma PartOf.reference? (h : PartOf t t') : t.reference? = t'.reference? := by
  induction h with
  | self => rfl
  | list _ ih => exact ih
  | set _ ih => exact ih
  | map _ ih => exact ih

lemma Renamed.plain {R : Key → String → Prop} (h : Renamed R t u)
    (hR : ∀ k n, R k n → n ∉ JavaType.words ∧ '<' ∉ n.toList) : u.Plain := by
  induction h with
  | object h => exact hR _ _ h
  | list _ ih => exact ih
  | set _ ih => exact ih
  | map _ ih => exact ih
  | _ => trivial

/-- Different names make different types of different types. -/
lemma Renamed.unique {R : Key → String → Prop} (hR : ∀ k k' n, R k n → R k' n → k = k')
    (h : Renamed R t u) (h' : Renamed R t' u) : t = t' := by
  induction h generalizing t' with
  | object h =>
    cases h' with
    | object h' => rw [hR _ _ _ h h']
  | list _ ih =>
    cases h' with
    | list h' => rw [ih h']
  | set _ ih =>
    cases h' with
    | set h' => rw [ih h']
  | map _ ih =>
    cases h' with
    | map h' => rw [ih h']
  | _ =>
    cases h'
    rfl

lemma names_plain {k : Key} {n : String} (h : Names rootClassName g k n) :
    n ∉ JavaType.words ∧ '<' ∉ n.toList := by
  obtain ⟨hfree, hchars⟩ := names_ok h
  have htaken : ∀ w ∈ JavaType.words, w ∈ takenNames rootClassName := by decide
  exact ⟨fun hn => hfree (htaken n hn), fun hm => absurd (hchars _ hm) (by decide)⟩

/-- No name is given to two keys. -/
lemma names_unique {k k' : Key} {n : String} (h : Names rootName g k n)
    (h' : Names rootName g k' n) : k = k' := by
  have hnodup : ((classNames rootName g).map Prod.snd).Nodup := by
    rw [map_snd_classNames]
    exact (freeNames_nodup _ _).1
  exact congrArg Prod.fst (List.inj_on_of_nodup_map hnodup h h' rfl)

/-- And no key has two names. -/
lemma names_functional {k : Key} {n n' : String} (h : Names rootName g k n)
    (h' : Names rootName g k n') : n = n' := by
  have hnodup : ((classNames rootName g).map Prod.fst).Nodup := by
    rw [map_fst_classNames]
    exact g.distinct
  exact congrArg Prod.snd (List.inj_on_of_nodup_map hnodup h h' rfl)

/-- The type that the classes of a graph have for a type, whichever of them declares it. -/
def DeclaredAs (g : Graph) (t : FlatType) (u : JavaType) : Prop :=
  ∀ owner, typeOf (classNames rootClassName g) owner t = .ok u

lemma Renamed.declared (h : Renamed (Names rootClassName g) t u) : DeclaredAs g t u := by
  intro owner
  induction h with
  | @object k n h =>
    unfold typeOf
    cases hk : (classNames rootClassName g).lookup k with
    | none =>
      refine absurd ?_ (lookup_classNames_eq_none.1 hk)
      rw [← map_fst_classNames rootClassName g]
      exact List.mem_map_of_mem h
    | some n' => rw [names_functional h (names_of_lookup hk)]
  | list _ ih => rw [typeOf, ih]; rfl
  | set _ ih => rw [typeOf, ih]; rfl
  | map _ ih => rw [typeOf, ih]; rfl
  | _ => rfl

lemma Resolved.renamed (h : Resolved g t) : ∃ u, Renamed (Names rootClassName g) t u := by
  have hr := typeOf_result rootClassName g "" t
  cases hu : typeOf (classNames rootClassName g) "" t with
  | ok u =>
    rw [hu] at hr
    exact ⟨u, hr.2⟩
  | error e =>
    rw [hu] at hr
    obtain ⟨-, hk, hnot⟩ := hr
    exact absurd (h _ hk) hnot

/-- What occurs in a graph that has classes refers to objects of the graph only. -/
lemma Occurs.resolved (h : classesOf rootName package g = .ok classes) (ht : Occurs g t) :
    Resolved g t := by
  obtain ⟨o, ho, p, hp, hpart⟩ := ht
  have hr := classesOf_result rootName package g
  rw [h] at hr
  intro k hk
  rw [hpart.reference?] at hk
  exact hr.1 o ho p hp k hk

/-- Renamed types have the same text just if they were the same. -/
lemma Renamed.text_eq_iff (h : Renamed (Names rootClassName g) t u)
    (h' : Renamed (Names rootClassName g) t' u') : u.text = u'.text ↔ t = t' := by
  refine ⟨fun e => ?_, ?_⟩
  · have hplain : u.Plain := h.plain fun _ _ => names_plain
    have hplain' : u'.Plain := h'.plain fun _ _ => names_plain
    obtain rfl := JavaType.eq_of_text_eq hplain hplain' e
    exact h.unique (R := Names rootClassName g) (fun _ _ _ => names_unique) h'
  · rintro rfl
    have hu : Except.ok u = Except.ok u' := (h.declared "").symm.trans (h'.declared "")
    rw [Except.ok.inj hu]

/-- **In the classes of a graph a text stands for one type only.** The fields are declared with
the texts of the properties' types; a type that occurs, or any other type over the objects of the
graph, has one text, and two of them have the same text just if they are the same. -/
theorem text_of_one_type (h : classesOf rootClassName package g = .ok classes) :
    List.Forall₂ (fun o c =>
        List.Forall₂ (fun p f => DeclaredAs g p.type f.type) o.properties c.fields)
      g.objects classes ∧
    (∀ t, Occurs g t → Resolved g t) ∧
    ∀ t t', Resolved g t → Resolved g t' → ∃ u u', DeclaredAs g t u ∧ DeclaredAs g t' u' ∧
      (u.text = u'.text ↔ t = t') := by
  refine ⟨?_, fun t => Occurs.resolved h, fun t t' ht ht' => ?_⟩
  · have hr := classesOf_result rootClassName package g
    rw [h] at hr
    exact hr.2.2.imp fun _ _ hc => hc.2.2.imp fun _ _ hf => hf.2.2.declared
  · obtain ⟨u, hu⟩ := ht.renamed
    obtain ⟨u', hu'⟩ := ht'.renamed
    exact ⟨u, u', hu.declared, hu'.declared, hu.text_eq_iff hu'⟩

/-- Two objects that would be called alike, and one that would be called like a type of the
language. -/
def labels : Graph where
  objects := [
    ⟨.root, [⟨"a", .map (.object (.definition "tag")), true⟩,
      ⟨"b", .map (.object (.definition "Tag")), false⟩,
      ⟨"c", .list (.list (.object (.definition "string"))), false⟩,
      ⟨"d", .list (.list .string), false⟩]⟩,
    ⟨.definition "tag", []⟩, ⟨.definition "Tag", []⟩, ⟨.definition "string", []⟩]
  distinct := by decide

theorem text_of_labels : ∃ classes, classesOf rootClassName ⟨[]⟩ labels = .ok classes ∧
    (classes.flatMap fun c => c.fields.map fun f => f.type.text) =
      ["Map<String, Tag>", "Map<String, Tag1>", "List<List<String1>>", "List<List<String>>"] ∧
    ∀ t t', Resolved labels t → Resolved labels t' → ∃ u u', DeclaredAs labels t u ∧
      DeclaredAs labels t' u' ∧ (u.text = u'.text ↔ t = t') := by
  have h : classesOf rootClassName ⟨[]⟩ labels = .ok _ := rfl
  exact ⟨_, h, by decide, (text_of_one_type h).2.2⟩

end ProviderGen.Java
