import ProviderGen.Proofs.Java.PlainText
import ProviderGen.Proofs.Java.Straying

/-!
The string literals in the source of a class: the name of the resource type and the pointers of the
keys in that of the root class, and the names of the properties in each. The names of properties
are escaped, all but their line breaks; the pointers stand as they are, so that only those without
quotes, backslashes and line breaks come out.
-/

namespace ProviderGen.Java

open Project (modelOf)
open Scanner (Reads Carries IsPlain IsBare IsInline forall_of_all units)
open Template (Lines render model)

variable {ls : Lines} {cs : List Char}

/-! ### Lines -/

/-- The characters of lines, each with its end. -/
def lineChars (ls : Lines) : List Char := ls.flatMap fun l => l.toList ++ ['\n']

lemma lineChars_append (ls ls' : Lines) : lineChars (ls ++ ls') = lineChars ls ++ lineChars ls' :=
  List.flatMap_append

lemma lineChars_flatMap {α : Type} (l : List α) (lines : α → Lines) :
    lineChars (l.flatMap lines) = l.flatMap fun a => lineChars (lines a) := List.flatMap_assoc

lemma toList_render_concat (ls : Lines) (l : String) :
    (render (ls ++ [l])).toList = lineChars ls ++ l.toList := by
  induction ls with
  | nil => simp [lineChars]
  | cons m r ih =>
    obtain ⟨n, r', hr⟩ := List.exists_cons_of_ne_nil (List.append_ne_nil_of_right_ne_nil r
      (List.cons_ne_nil l []))
    rw [List.cons_append, hr, Template.render_cons_cons, ← hr, String.toList_append,
      String.toList_append, ih]
    simp [lineChars]

lemma reads_lines (h : ∀ l ∈ ls, Plain l) : Reads (lineChars ls) [] := by
  refine .plain ?_
  rw [lineChars, List.forall_mem_flatMap]
  intro l hl
  rw [List.forall_mem_append, List.forall_mem_singleton]
  exact ⟨h l hl, by decide⟩

lemma Reads.lines_append {ls' : Lines} (h : Reads (lineChars ls) [])
    (h' : Reads (lineChars ls') []) : Reads (lineChars (ls ++ ls')) [] := by
  rw [lineChars_append]
  exact h.append h'

lemma reads_comment (blanks : List Char)
    (hblanks : blanks.all (fun c => decide (IsPlain c)) = true)
    (h : cs.all (fun c => decide (IsInline c)) = true) :
    Reads (lineChars [String.ofList (blanks ++ '/' :: '/' :: cs)]) [] := by
  have hline : lineChars [String.ofList (blanks ++ '/' :: '/' :: cs)] =
      blanks ++ ('/' :: '/' :: cs ++ ['\n']) := by
    simp [lineChars]
  rw [hline]
  exact (Reads.plain (forall_of_all hblanks)).append (.comment (forall_of_all h))

/-- An empty line, a comment and plain lines. -/
lemma reads_closing (blanks : List Char)
    (hblanks : blanks.all (fun c => decide (IsPlain c)) = true)
    (h : cs.all (fun c => decide (IsInline c)) = true) (hls : ∀ l ∈ ls, Plain l) :
    Reads (lineChars ("" :: String.ofList (blanks ++ '/' :: '/' :: cs) :: ls)) [] := by
  have hempty : Reads (lineChars [""]) [] :=
    reads_lines (List.forall_mem_singleton.2 (plain_ofList (by decide)))
  exact Reads.lines_append hempty
    (Reads.lines_append (reads_comment blanks hblanks h) (reads_lines hls))

lemma reads_flatMap {α : Type} {l : List α} {lines : α → Lines}
    (h : ∀ a ∈ l, Reads (lineChars (lines a)) []) : Reads (lineChars (l.flatMap lines)) [] := by
  induction l with
  | nil => exact .nil
  | cons a l ih =>
    rw [List.forall_mem_cons] at h
    exact Reads.lines_append h.1 (ih h.2)

/-! ### Declarations -/

/-- The declaration of a constant, with a text that stands as it is. -/
lemma carries_constant {head text : String} (front : List Char)
    (hhead : head.toList = front ++ ['"']) (hfront : ∀ c ∈ front, IsPlain c) :
    Carries (∀ c ∈ text.toList, IsBare c) (lineChars ["", head ++ text ++ "\";"]) [units text] := by
  have hline : lineChars ["", head ++ text ++ "\";"] =
      ('\n' :: front) ++ ('"' :: text.toList ++ ['"', ';', '\n']) := by
    simp [lineChars, hhead]
  have hbefore : Reads ('\n' :: front) [] :=
    .plain (List.forall_mem_cons.2 ⟨by decide, hfront⟩)
  have hliteral : Carries (∀ c ∈ text.toList, IsBare c)
      ('"' :: text.toList ++ ['"', ';', '\n']) [units text] := by
    refine ⟨fun h => ?_, fun h => .unescaped (by simpa using h)⟩
    have hspells : Scanner.Spells text.toList (units text) := by
      have := Scanner.Spells.flatMap fun c hc => Scanner.Spells.bare (h c hc)
      rwa [List.flatMap_singleton'] at this
    have := (Reads.literal hspells).append
      (.plain (forall_of_all (by decide)) : Reads [';', '\n'] [])
    simpa using this
  rw [hline]
  exact hliteral.behind hbefore

/-- The declaration of a field, with the name of its property in an annotation. -/
lemma carries_field {f : JavaField} (htype : Plain f.type.text)
    (hidentifier : Plain f.identifier) :
    Carries (∀ c ∈ f.name.toList, c ≠ '\n' ∧ c ≠ '\r')
      (lineChars (Template.fieldDeclaration f)) [units f.name] := by
  have hline : lineChars (Template.fieldDeclaration f) =
      ('\n' :: "    @JsonProperty(".toList) ++
        ('"' :: f.name.toList.flatMap JavaField.literalChar ++ ['"'] ++ (')' :: '\n' ::
          lineChars ["    private " ++ f.type.text ++ " " ++ f.identifier ++ ";"])) := by
    simp [lineChars, Template.fieldDeclaration, JavaField.literal]
  have hbefore : Reads ('\n' :: "    @JsonProperty(".toList) [] :=
    .plain (forall_of_all (by decide))
  have hprivate : Plain ("    private " ++ f.type.text ++ " " ++ f.identifier ++ ";") :=
    ((((plain_ofList (by decide)).append htype).append (plain_ofList (by decide))).append
      hidentifier).append (plain_ofList (by decide))
  have hbehind : Reads (')' :: '\n' ::
      lineChars ["    private " ++ f.type.text ++ " " ++ f.identifier ++ ";"]) [] :=
    (.plain (forall_of_all (by decide)) : Reads [')', '\n'] []).append
      (reads_lines (List.forall_mem_singleton.2 hprivate))
  have hliteral : Carries (∀ c ∈ f.name.toList, c ≠ '\n' ∧ c ≠ '\r')
      ('"' :: f.name.toList.flatMap JavaField.literalChar ++ ['"'] ++ (')' :: '\n' ::
          lineChars ["    private " ++ f.type.text ++ " " ++ f.identifier ++ ";"]))
      [units f.name] := by
    refine ⟨fun h => ?_, fun h => ?_⟩
    · have hspells := Scanner.Spells.flatMap fun c hc =>
        Scanner.Spells.escaped (h c hc).1 (h c hc).2
      exact (Reads.literal hspells).append hbehind
    · rw [List.append_assoc]
      refine .escaped ?_
      by_contra hnone
      exact h fun c hc => ⟨fun e => hnone ⟨c, hc, Or.inl e⟩, fun e => hnone ⟨c, hc, Or.inr e⟩⟩
  rw [hline]
  exact hliteral.behind hbefore

/-! ### Methods -/

lemma reads_keyStatement {k : ResourceKey} (h : PlainKey k) :
    Reads (lineChars (Template.keyStatement k)) [] := by
  refine reads_lines ?_
  rw [Template.keyStatement, List.forall_mem_cons, List.forall_mem_cons,
    List.forall_mem_singleton]
  refine ⟨?_, ?_, plain_ofList (by decide)⟩
  · exact ((plain_ofList (by decide)).append h.nullChecks).append (plain_ofList (by decide))
  · exact ((((plain_ofList (by decide)).append h.constant).append (plain_ofList (by decide))).append
      h.getterChain).append (plain_ofList (by decide))

lemma isWord_toString (n : ℕ) : IsWord (toString n).toList := by
  rw [Nat.toString_eq_ofList_toDigits, String.toList_ofList]
  exact fun c hc =>
    isWordChar_of_isDigit (Nat.isDigit_of_mem_toDigits (by decide) (by decide) hc)

lemma reads_identifierMethod {name : String} {keys : List ResourceKey} (hname : Plain name)
    (hkeys : ∀ k ∈ keys, PlainKey k) :
    Reads (lineChars (Template.identifierMethod name keys)) [] := by
  have hopen : Reads (lineChars ["", "    public JSONObject " ++ name ++ "() \x7b",
      "        final JSONObject identifier = new JSONObject();"]) [] := by
    refine reads_lines ?_
    rw [List.forall_mem_cons, List.forall_mem_cons, List.forall_mem_singleton]
    exact ⟨plain_ofList (by decide), ((plain_ofList (by decide)).append hname).append
      (plain_ofList (by decide)), plain_ofList (by decide)⟩
  refine Reads.lines_append (Reads.lines_append hopen
    (reads_flatMap fun k hk => reads_keyStatement (hkeys k hk)))
    (reads_closing (List.replicate 8 ' ') (by decide) (by decide +kernel) ?_)
  rw [List.forall_mem_cons, List.forall_mem_singleton]
  exact ⟨((plain_ofList (by decide)).append (plain_identifier (isWord_toString _))).append (plain_ofList (by decide)),
    plain_ofList (by decide)⟩

lemma reads_groupStatement {g : KeyGroup} (h : Plain g.method) :
    Reads (lineChars (Template.groupStatement g)) [] := by
  refine reads_lines ?_
  rw [Template.groupStatement, List.forall_mem_cons, List.forall_mem_cons,
    List.forall_mem_singleton]
  exact ⟨((plain_ofList (by decide)).append h).append (plain_ofList (by decide)),
    ((plain_ofList (by decide)).append h).append (plain_ofList (by decide)),
    plain_ofList (by decide)⟩

lemma reads_additionalMethod {groups : List KeyGroup} (h : ∀ g ∈ groups, Plain g.method) :
    Reads (lineChars (Template.additionalMethod groups)) [] := by
  have hopen : Reads (lineChars ["", "    public List<JSONObject> getAdditionalIdentifiers() \x7b",
      "        final List<JSONObject> identifiers = new ArrayList<JSONObject>();"]) [] := by
    refine reads_lines ?_
    rw [List.forall_mem_cons, List.forall_mem_cons, List.forall_mem_singleton]
    exact ⟨plain_ofList (by decide), plain_ofList (by decide), plain_ofList (by decide)⟩
  refine Reads.lines_append (Reads.lines_append hopen
    (reads_flatMap fun g hg => reads_groupStatement (h g hg)))
    (reads_closing (List.replicate 8 ' ') (by decide) (by decide +kernel) ?_)
  rw [List.forall_mem_cons, List.forall_mem_singleton]
  exact ⟨plain_ofList (by decide), plain_ofList (by decide)⟩

lemma reads_rootMethods {ks : ResourceKeys} (h : PlainKeys ks) :
    Reads (lineChars (Template.rootMethods ks)) [] := by
  refine Reads.lines_append (Reads.lines_append ?_ ?_) (reads_flatMap fun g hg => ?_)
  · exact reads_identifierMethod (plain_ofList (by decide)) h.primary
  · exact reads_additionalMethod fun g hg => (h.additional g hg).1
  · exact reads_identifierMethod (h.additional g hg).1 (h.additional g hg).2

lemma plain_importLines : ∀ l ∈ importLines, Plain l := by
  repeat refine List.forall_mem_cons.2 ⟨plain_ofList (by decide), ?_⟩
  exact List.forall_mem_nil _

lemma reads_modelHead {package name : String} (hpackage : Plain package) (hname : Plain name) :
    Reads (lineChars (Template.modelHead package name)) [] := by
  have hhead : Template.modelHead package name =
      [Template.marker] ++
        (("package " ++ package ++ ";") :: importLines ++ [classLine name]) := rfl
  rw [hhead]
  refine Reads.lines_append (reads_comment [] rfl (by decide)) (reads_lines ?_)
  rw [List.forall_mem_append, List.forall_mem_cons, List.forall_mem_singleton]
  exact ⟨⟨((plain_ofList (by decide)).append hpackage).append (plain_ofList (by decide)),
    plain_importLines⟩, ((plain_ofList (by decide)).append hname).append (plain_ofList (by decide))⟩

/-! ### Classes -/

/-- The texts that the literals of a class are for, in their order. -/
def literalTexts (typeName : String) (c : JavaClass) (ks : ResourceKeys) : List String :=
  (if c.isRoot then typeName :: ks.all.map ResourceKey.pointer else []) ++
    c.fields.map JavaField.name

/-- All texts of a class stand in its source such that they can be read back: no name has a line
break and no pointer has a quote, a backslash or a line break. -/
def ComesOut (c : JavaClass) (ks : ResourceKeys) : Prop :=
  (c.isRoot = true → ∀ k ∈ ks.all, ∀ x ∈ k.pointer.toList, IsBare x) ∧
    ∀ f ∈ c.fields, ∀ x ∈ f.name.toList, x ≠ '\n' ∧ x ≠ '\r'

lemma mem_of_mem_distinctBy {seen : List String} {keys : List ResourceKey} {k : ResourceKey}
    (h : k ∈ ResourceKeys.distinctBy seen keys) : k ∈ keys := by
  induction keys generalizing seen with
  | nil => exact h
  | cons k' r ih =>
    unfold ResourceKeys.distinctBy at h
    split at h
    · exact List.mem_cons_of_mem _ (ih h)
    · rcases List.mem_cons.1 h with rfl | h
      · exact List.mem_cons_self
      · exact List.mem_cons_of_mem _ (ih h)

lemma ResourceKeys.forall_all {P : ResourceKey → Prop} {ks : ResourceKeys}
    (hprimary : ∀ k ∈ ks.primary, P k) (hadditional : ∀ g ∈ ks.additional, ∀ k ∈ g.keys, P k) :
    ∀ k ∈ ks.all, P k := by
  intro k hk
  rcases List.mem_append.1 (mem_of_mem_distinctBy hk) with hk | hk
  · exact hprimary k hk
  · obtain ⟨g, hg, hk⟩ := List.mem_flatMap.1 hk
    exact hadditional g hg k hk

lemma PlainKeys.all {ks : ResourceKeys} (h : PlainKeys ks) : ∀ k ∈ ks.all, PlainKey k :=
  ResourceKeys.forall_all h.primary fun g hg => (h.additional g hg).2

lemma carries_key {k : ResourceKey} (h : PlainKey k) :
    Carries (∀ x ∈ k.pointer.toList, IsBare x) (lineChars (Template.constantDeclaration k))
      [units k.pointer] := by
  refine carries_constant ("    public static final String " ++ k.constant ++ " = ").toList
    (by simp) ?_
  exact ((plain_ofList (by decide)).append h.constant).append (plain_ofList (by decide))

lemma carries_rootConstants {typeName : String} {ks : ResourceKeys} (h : PlainKeys ks)
    (htype : ∀ x ∈ typeName.toList, IsBare x) :
    Carries (∀ k ∈ ks.all, ∀ x ∈ k.pointer.toList, IsBare x)
      (lineChars (Template.rootConstants typeName ks))
      ((typeName :: ks.all.map ResourceKey.pointer).map units) := by
  have htypeName : Carries (∀ x ∈ typeName.toList, IsBare x)
      (lineChars ["", "    public static final String TYPE_NAME = \"" ++ typeName ++ "\";"])
      [units typeName] :=
    carries_constant "    public static final String TYPE_NAME = ".toList (by decide)
      (plain_ofList (by decide))
  have hkeys := Carries.flatMap fun k hk => carries_key (h.all k hk)
  rw [← lineChars_flatMap] at hkeys
  rw [Template.rootConstants, lineChars_append, List.map_cons, List.map_map]
  exact (htypeName.append hkeys).congr (and_iff_right htype)

variable {p : Project} {k : Package} {schema : Document} {classes : List JavaClass}
  {keys : ResourceKeys} {c : JavaClass}

lemma carries_model (hk : p.package = .ok k) (hm : modelOf k schema = .ok (classes, keys))
    (hin : c ∈ classes) :
    Carries (ComesOut c keys) (render (model p.typeName c keys)).toList
      ((literalTexts p.typeName c keys).map units) := by
  obtain ⟨g, -, -, hc, -, -⟩ := Project.modelOf_ok.1 hm
  have hkeys := plain_keys hm
  have hhead : Reads (lineChars (Template.modelHead c.package.dotted c.name)) [] := by
    rw [package_of_classes hc c hin]
    exact reads_modelHead (plain_dotted hk) (plain_className hc hin)
  have hconstants : Carries (c.isRoot = true → ∀ k ∈ keys.all, ∀ x ∈ k.pointer.toList, IsBare x)
      (lineChars (if c.isRoot then Template.rootConstants p.typeName keys else []))
      ((if c.isRoot then p.typeName :: keys.all.map ResourceKey.pointer else []).map units) := by
    split
    · rename_i hroot
      exact (carries_rootConstants hkeys (bare_typeName p)).congr (by simp [hroot])
    · rename_i hroot
      exact Reads.nil.carries.congr (by simp [hroot])
  have hfields := Carries.flatMap fun f hf => carries_field (plain_type hc hin hf)
    (plain_identifier (isWord_identifier hc hin hf))
  rw [← lineChars_flatMap] at hfields
  have hmethods : Reads (lineChars (if c.isRoot then Template.rootMethods keys else [])) [] := by
    split
    · exact reads_rootMethods hkeys
    · exact .nil
  have hend : Reads "\x7d".toList [] := .plain (forall_of_all (by decide))
  have hall := (((hconstants.behind hhead).append hfields).before hmethods).before hend
  have hvalues : (literalTexts p.typeName c keys).map units =
      (if c.isRoot then p.typeName :: keys.all.map ResourceKey.pointer else []).map units ++
        c.fields.map (fun f => units f.name) := by
    rw [literalTexts, List.map_append, List.map_map]
    rfl
  rw [model, toList_render_concat, lineChars_append, lineChars_append, lineChars_append, hvalues]
  exact hall

/-- **The string literals in the source of a class** are the texts that they are made for, each as
it is in the schema, exactly if no property of the class has a line break in its name and, where
the class is the root, no pointer has a quote, a backslash or a line break. -/
theorem literals_of_model_iff (hk : p.package = .ok k)
    (hm : modelOf k schema = .ok (classes, keys)) (hin : c ∈ classes) :
    Scanner.literals? (render (model p.typeName c keys)) =
        some ((literalTexts p.typeName c keys).map units) ↔ ComesOut c keys :=
  (carries_model hk hm hin).literals?_iff

def latchProject : Project := ⟨⟨"p"⟩, .ofTypeName "Aa::Latch", ["Aa", "Latch"], by decide⟩

/-- A property whose name has to be escaped, and one identifier. -/
def latch (pointer : String) : Document.Members :=
  [("properties", .record [("a\"b\\", .record [("type", .text "string")])]),
    ("primaryIdentifier", .list [.text pointer])]

lemma pointer_bindTo (classes : List JavaClass) (root : JavaClass) (k : ResourceKey) :
    (k.bindTo classes root).pointer = k.pointer := by
  unfold ResourceKey.bindTo
  split
  · rfl
  · rfl

lemma latch_model {pointer : String} {key : ResourceKey}
    (h : ResourceKey.ofPointer? pointer = some key) : ∃ c keys,
    modelOf (.derive ["Aa", "Latch"]) (.record (latch pointer)) = .ok ([c], keys) ∧
      c.isRoot = true ∧ c.fields.map JavaField.name = ["a\"b\\"] ∧
      keys.all.map ResourceKey.pointer = [pointer] := by
  have hat : ResourceKeys.keysAt ResourceKeys.primaryPlace (.list [.text pointer]) = .ok [key] := by
    simp [ResourceKeys.keysAt, h, pure, Except.pure, bind, Except.bind]
  have hkeys : ResourceKeys.ofDocument (.record (latch pointer)) = .ok ⟨[key], []⟩ := by
    have hprimary : (Document.record (latch pointer)).member? "primaryIdentifier" =
        some (.list [.text pointer]) := rfl
    rw [ResourceKeys.ofDocument, hprimary, ResourceKeys.primaryOf, hat]
    rfl
  have hpointer : key.pointer = pointer := by
    obtain ⟨path, -, rfl⟩ := Option.map_eq_some_iff.1 h
    rfl
  obtain ⟨c, hclasses, hroot, hname⟩ : ∃ c, classesOf rootClassName (.derive ["Aa", "Latch"])
      (Schema.Graph.reserved.insert ⟨.root, [⟨"a\"b\\", .string, false⟩]⟩) = .ok [c] ∧
      c.isRoot = true ∧ c.fields.map JavaField.name = ["a\"b\\"] := ⟨_, rfl, rfl, rfl⟩
  refine ⟨c, _, Project.modelOf_ok.2 ⟨_, _, Schema.ofDocument_record.2 (Or.inr ⟨_, _, _, rfl,
    .cons (.leaf rfl) .nil, rfl⟩), hclasses, hkeys, rfl⟩, hroot, hname, ?_⟩
  have hbound : (ResourceKeys.mk [key] []).bindTo [c] = ⟨[key.bindTo [c] c], []⟩ := by
    simp [ResourceKeys.bindTo, hroot]
  rw [hbound]
  show [(key.bindTo [c] c).pointer] = [pointer]
  rw [pointer_bindTo, hpointer]

lemma latch_texts {c : JavaClass} {keys : ResourceKeys} {pointer : String} (hroot : c.isRoot = true)
    (hnames : c.fields.map JavaField.name = ["a\"b\\"])
    (hpointers : keys.all.map ResourceKey.pointer = [pointer]) :
    literalTexts "Aa::Latch" c keys = ["Aa::Latch", pointer, "a\"b\\"] := by
  rw [literalTexts, if_pos hroot, hnames, hpointers]
  rfl

theorem latch_read_back : latchProject.package = .ok (.derive ["Aa", "Latch"]) ∧ ∃ c keys,
    modelOf (.derive ["Aa", "Latch"]) (.record (latch "/properties/Id")) = .ok ([c], keys) ∧
      Scanner.literals? (render (model "Aa::Latch" c keys)) =
        some (["Aa::Latch", "/properties/Id", "a\"b\\"].map units) := by
  obtain ⟨c, keys, hm, hroot, hnames, hpointers⟩ :=
    latch_model (by rfl : ResourceKey.ofPointer? "/properties/Id" = _)
  refine ⟨rfl, c, keys, hm, ?_⟩
  rw [← latch_texts hroot hnames hpointers]
  refine (literals_of_model_iff (p := latchProject) rfl hm List.mem_cons_self).2 ⟨?_, ?_⟩
  · intro _ k hk
    have hmem := List.mem_map_of_mem (f := ResourceKey.pointer) hk
    rw [hpointers, List.mem_singleton] at hmem
    rw [hmem]
    exact forall_of_all (by decide)
  · intro f hf
    have hmem := List.mem_map_of_mem (f := JavaField.name) hf
    rw [hnames, List.mem_singleton] at hmem
    rw [hmem]
    exact forall_of_all (by decide)

/-- A pointer with a quote and a backslash is not read back. -/
theorem quoted_pointer_astray : ∃ c keys,
    modelOf (.derive ["Aa", "Latch"]) (.record (latch "/properties/a\"b\\")) = .ok ([c], keys) ∧
      literalTexts "Aa::Latch" c keys = ["Aa::Latch", "/properties/a\"b\\", "a\"b\\"] ∧
      Scanner.literals? (render (model "Aa::Latch" c keys)) ≠
        some ((literalTexts "Aa::Latch" c keys).map units) := by
  obtain ⟨c, keys, hm, hroot, hnames, hpointers⟩ :=
    latch_model (by rfl : ResourceKey.ofPointer? "/properties/a\"b\\" = _)
  refine ⟨c, keys, hm, latch_texts hroot hnames hpointers, fun h => ?_⟩
  have hcarries := carries_model (p := latchProject) rfl hm List.mem_cons_self
  obtain ⟨k, hk, hpointer⟩ : ∃ k ∈ keys.all, k.pointer = "/properties/a\"b\\" := by
    rw [← List.mem_map, hpointers]
    exact List.mem_singleton.2 rfl
  have hbare := (hcarries.literals?_iff.1 h).1 hroot k hk
  rw [hpointer] at hbare
  exact absurd (hbare '"' (by decide)) (by decide)

end ProviderGen.Java
