import ProviderGen.Proofs.Java.Spelling
import ProviderGen.Proofs.Java.StringLiterals
import Mathlib.Data.List.DropRight

/-!
The source of a class, read line by line. A line declares a field, annotates one, declares a
constant or opens a method, and its first words tell which; all other lines start otherwise. No
name that a schema leads to can make a line into another, so that the declarations in the text are
those that were meant, in their order, and two texts are different whenever their fields are.
-/

namespace ProviderGen.Java

open Template (Lines render model)
open Schema (Key Graph)

namespace Source

/-! ### Lines that declare -/

/-- What a line declares. A note is the annotation of a field, with the literal in it. -/
inductive Declaration where
  | note (literal : String)
  | field (type name : String)
  | constant (name value : String)
  | method (type name : String)
  deriving DecidableEq

/-- What stands between the one text, at the start of the line, and the other, at its end. -/
def between? (front back : String) (line : List Char) : Option (List Char) :=
  (line.dropPrefix? front.toList).bind fun r => r.dropSuffix? back.toList

/-- The last word, and what stands before the blank in front of it. -/
def lastWord? (cs : List Char) : Option (String × String) :=
  let word := cs.rtakeWhile (· ≠ ' ')
  (cs.dropSuffix? (' ' :: word)).map fun r => (String.ofList r, String.ofList word)

/-- The first word, and what stands behind it and the given text. -/
def firstWord? (behind : String) (cs : List Char) : Option (String × String) :=
  ((cs.dropWhile (· ≠ ' ')).dropPrefix? behind.toList).map fun r =>
    (String.ofList (cs.takeWhile (· ≠ ' ')), String.ofList r)

def noteOf? (line : List Char) : Option Declaration :=
  (between? "    @JsonProperty(\"" "\")" line).map fun cs => .note (String.ofList cs)

def fieldOf? (line : List Char) : Option Declaration :=
  ((between? "    private " ";" line).bind lastWord?).map fun (type, name) => .field type name

def constantOf? (line : List Char) : Option Declaration :=
  ((between? "    public static final String " "\";" line).bind (firstWord? " = \"")).map
    fun (name, value) => .constant name value

def methodOf? (line : List Char) : Option Declaration :=
  ((between? "    public " "() \x7b" line).bind lastWord?).map fun (type, name) => .method type name

def declarationOf? (line : List Char) : Option Declaration :=
  noteOf? line <|> fieldOf? line <|> constantOf? line <|> methodOf? line

variable {l cs r : List Char} {front back word : String}

lemma between?_eq_some_iff : between? front back l = some cs ↔
    l = front.toList ++ (cs ++ back.toList) := by
  simp [between?, Option.bind_eq_some_iff, List.dropPrefix?_eq_some_iff,
    List.dropSuffix?_eq_some_iff]

lemma between?_append (front text back : String) :
    between? front back (front ++ text ++ back).toList = some text.toList :=
  between?_eq_some_iff.2 (by rw [String.toList_append, String.toList_append, List.append_assoc])

/-- What does not start with the words has nothing behind them. -/
lemma between?_eq_none {n : ℕ} {c : Char} (hc : front.toList[n]? = some c)
    (h : l[n]? ≠ some c) : between? front back l = none := by
  rw [Option.eq_none_iff_forall_ne_some]
  intro cs hcs
  refine h ?_
  rw [between?_eq_some_iff.1 hcs,
    List.getElem?_append_left (List.getElem?_eq_some_iff.1 hc).1, hc]

lemma between?_eq_none_of_last {c : Char} (hc : back.toList.getLast? = some c)
    (h : l.getLast? ≠ some c) : between? front back l = none := by
  rw [Option.eq_none_iff_forall_ne_some]
  intro cs hcs
  refine h ?_
  have hback : back.toList ≠ [] := List.ne_nil_of_mem (List.mem_of_getLast? hc)
  rw [between?_eq_some_iff.1 hcs, ← List.append_assoc, List.getLast?_append_of_ne_nil _ hback, hc]

/-- The start of a text is that of its first part. -/
lemma getElem?_append {start rest : String} {n : ℕ} {c : Char} (h : start.toList[n]? = some c) :
    (start ++ rest).toList[n]? = some c := by
  rw [String.toList_append, List.getElem?_append_left (List.getElem?_eq_some_iff.1 h).1, h]

lemma lastWord?_append (h : ' ' ∉ word.toList) :
    lastWord? (r ++ ' ' :: word.toList) = some (String.ofList r, word) := by
  have hword : (r ++ ' ' :: word.toList).rtakeWhile (· ≠ ' ') = word.toList := by
    rw [List.rtakeWhile, List.reverse_append, List.reverse_cons, List.append_assoc,
      List.takeWhile_append_of_pos]
    · simp
    · intro c hc
      simpa using fun e : c = ' ' => h (e ▸ List.mem_reverse.1 hc)
  have hdrop : (r ++ ' ' :: word.toList).dropSuffix? (' ' :: word.toList) = some r := by
    simp [List.dropSuffix?_eq_some_iff]
  rw [lastWord?, hword]
  simp [hdrop]

lemma firstWord?_append (h : ' ' ∉ word.toList) {behind : String}
    (hbehind : behind.toList.head? = some ' ') :
    firstWord? behind (word.toList ++ (behind.toList ++ r)) = some (word, String.ofList r) := by
  have hword : ∀ c ∈ word.toList, (decide (c ≠ ' ')) = true := by
    intro c hc
    simpa using fun e : c = ' ' => h (e ▸ hc)
  obtain ⟨s, hs⟩ : ∃ s, behind.toList = ' ' :: s := by
    cases hl : behind.toList with
    | nil =>
      rw [hl] at hbehind
      cases hbehind
    | cons c s =>
      rw [hl] at hbehind
      exact ⟨s, by rw [Option.some.inj hbehind]⟩
  have hdrop : (' ' :: s ++ r).dropPrefix? (' ' :: s) = some r :=
    List.dropPrefix?_append_of_beq r (by simp)
  rw [firstWord?, List.dropWhile_append_of_pos hword, List.takeWhile_append_of_pos hword, hs]
  simpa using ⟨r, hdrop, rfl⟩

lemma lastWord?_spaced (type : String) (h : ' ' ∉ word.toList) :
    lastWord? (type ++ " " ++ word).toList = some (type, word) := by
  have hparts : (type ++ " " ++ word).toList = type.toList ++ ' ' :: word.toList := by simp
  rw [hparts, lastWord?_append h, String.ofList_toList]

lemma declarationOf?_note (literal : String) :
    declarationOf? ("    @JsonProperty(\"" ++ literal ++ "\")").toList =
      some (.note literal) := by
  rw [declarationOf?, noteOf?, between?_append, Option.map_some, String.ofList_toList]
  rfl

lemma declarationOf?_field (type : String) (h : ' ' ∉ word.toList) :
    declarationOf? ("    private " ++ type ++ " " ++ word ++ ";").toList =
      some (.field type word) := by
  have hline : "    private " ++ type ++ " " ++ word ++ ";" =
      "    private " ++ (type ++ " " ++ word) ++ ";" := by
    simp only [String.append_assoc]
  have hstart : ("    private " ++ (type ++ " " ++ word) ++ ";").toList[4]? = some 'p' :=
    getElem?_append (getElem?_append rfl)
  rw [declarationOf?, hline, noteOf?, between?_eq_none (n := 4) rfl (by rw [hstart]; decide),
    fieldOf?, between?_append, Option.bind_some, lastWord?_spaced type h]
  rfl

/-- A line that starts as public is a constant or a method, or nothing. -/
lemma declarationOf?_public (text : String) :
    declarationOf? ("    public " ++ text).toList =
      (constantOf? ("    public " ++ text).toList <|>
        methodOf? ("    public " ++ text).toList) := by
  have hstart : ("    public " ++ text).toList[4]? = some 'p' := getElem?_append rfl
  have hword : ("    public " ++ text).toList[5]? = some 'u' := getElem?_append rfl
  rw [declarationOf?, noteOf?, between?_eq_none (n := 4) rfl (by rw [hstart]; decide),
    fieldOf?, between?_eq_none (n := 5) rfl (by rw [hword]; decide)]
  rfl

lemma declarationOf?_constant (value : String) (h : ' ' ∉ word.toList) :
    declarationOf? ("    public static final String " ++ word ++ " = \"" ++ value ++ "\";").toList =
      some (.constant word value) := by
  have hpublic : "    public static final String " ++ word ++ " = \"" ++ value ++ "\";" =
      "    public " ++ ("static final String " ++ word ++ " = \"" ++ value ++ "\";") := by
    rw [← String.toList_inj]
    simp
  have hline : "    public static final String " ++ word ++ " = \"" ++ value ++ "\";" =
      "    public static final String " ++ (word ++ " = \"" ++ value) ++ "\";" := by
    simp only [String.append_assoc]
  have hparts : (word ++ " = \"" ++ value).toList =
      word.toList ++ (" = \"".toList ++ value.toList) := by
    simp only [String.toList_append, List.append_assoc]
  rw [hpublic, declarationOf?_public, ← hpublic, hline, constantOf?, between?_append,
    Option.bind_some, hparts, firstWord?_append h rfl, Option.map_some, String.ofList_toList]
  rfl

/-- A method ends otherwise than a constant. -/
lemma declarationOf?_method (type : String) (h : ' ' ∉ word.toList) :
    declarationOf? ("    public " ++ type ++ " " ++ word ++ "() \x7b").toList =
      some (.method type word) := by
  have hline : "    public " ++ type ++ " " ++ word ++ "() \x7b" =
      "    public " ++ (type ++ " " ++ word) ++ "() \x7b" := by
    simp only [String.append_assoc]
  have hlast : ("    public " ++ (type ++ " " ++ word) ++ "() \x7b").toList.getLast? =
      some '\x7b' := by
    rw [String.toList_append, List.getLast?_append_of_ne_nil _ (by decide)]
    rfl
  rw [hline, String.append_assoc, declarationOf?_public, ← String.append_assoc, constantOf?,
    between?_eq_none_of_last rfl (by rw [hlast]; decide), methodOf?, between?_append,
    Option.bind_some, lastWord?_spaced type h]
  rfl

/-- A line that starts like none of the forms declares nothing. -/
lemma declarationOf?_of_start (hnote : l[4]? ≠ some '@') (hword : l[4]? ≠ some 'p') :
    declarationOf? l = none := by
  rw [declarationOf?, noteOf?, fieldOf?, constantOf?, methodOf?, between?_eq_none rfl hnote,
    between?_eq_none rfl hword, between?_eq_none rfl hword, between?_eq_none rfl hword]
  rfl

/-! ### Fields and their annotations -/

/-- The fields that stand right behind an annotation, each with what the annotation says. -/
def annotatedFields : List (List Char) → List (String × String × String)
  | l :: m :: r =>
    match declarationOf? l, declarationOf? m with
    | some (.note literal), some (.field type name) =>
      (literal, type, name) :: annotatedFields r
    | _, _ => annotatedFields (m :: r)
  | _ => []

/-- The lines have no annotation. -/
def Unannotated (ls : List (List Char)) : Prop :=
  ∀ l ∈ ls, ∀ literal, declarationOf? l ≠ some (.note literal)

lemma unannotated_of_filterMap {ls : List (List Char)} {ds : List Declaration}
    (h : ls.filterMap declarationOf? = ds) (hds : ∀ literal, .note literal ∉ ds) :
    Unannotated ls := fun l hl literal hline =>
  hds literal (h ▸ List.mem_filterMap.2 ⟨l, hl, hline⟩)

lemma annotatedFields_append {ls : List (List Char)} (h : Unannotated ls)
    (r : List (List Char)) : annotatedFields (ls ++ r) = annotatedFields r := by
  induction ls with
  | nil => rfl
  | cons l ls ih =>
    obtain ⟨hl, hls⟩ := List.forall_mem_cons.1 h
    rw [← ih hls, List.cons_append]
    cases hr : ls ++ r with
    | nil => rfl
    | cons m r =>
      rw [annotatedFields]
      split
      · rename_i literal _ _ hline _
        exact absurd hline (hl literal)
      · rfl

lemma annotatedFields_cons {l m : List Char} {literal type name : String}
    (hl : declarationOf? l = some (.note literal))
    (hm : declarationOf? m = some (.field type name)) (r : List (List Char)) :
    annotatedFields (l :: m :: r) = (literal, type, name) :: annotatedFields r := by
  rw [annotatedFields, hl, hm]

end Source

/-! ### Texts in one line -/

def OneLine (text : String) : Prop := ∀ c ∈ text.toList, c ≠ '\n' ∧ c ≠ '\r'

instance (text : String) : Decidable (OneLine text) :=
  decidable_of_iff (text.toList.all (fun c => c != '\n' && c != '\r') = true) (by simp [OneLine])

variable {s t text : String} {ls : Lines}

lemma OneLine.append (hs : OneLine s) (ht : OneLine t) : OneLine (s ++ t) := by
  rw [OneLine, String.toList_append, List.forall_mem_append]
  exact ⟨hs, ht⟩

lemma oneLine_of_isWord (h : IsWord text.toList) : OneLine text := by
  refine fun c hc => ⟨?_, ?_⟩
  all_goals rintro rfl; exact absurd (h _ hc) (by decide)

lemma noBlank_of_isWord (h : IsWord text.toList) : ' ' ∉ text.toList :=
  fun hc => absurd (h _ hc) (by decide)

/-- Where no line has a break, the lines of the text are the lines. -/
lemma textLines_of_oneLine (h : ∀ l ∈ ls, OneLine l) (hne : ls ≠ []) :
    Source.textLines (render ls) = ls.map String.toList := by
  rw [Source.textLines_render hne,
    Source.flatMap_textLines fun l hl hbreak => (h l hl _ hbreak).1 rfl]

lemma noReturn_of_oneLine (h : ∀ l ∈ ls, OneLine l) : '\r' ∉ (render ls).toList := by
  intro hc
  rw [render, String.toList_intercalate] at hc
  rcases Project.mem_intercalate hc with hc | ⟨l, hl, hc⟩
  · exact absurd hc (by decide)
  · obtain ⟨line, hline, rfl⟩ := List.mem_map.1 hl
    exact (h line hline _ hc).2 rfl

/-! ### Lines and what they declare -/

open Source (Declaration declarationOf?)

/-- Lines without breaks, with all that they declare. -/
structure Declares (ls : Lines) (ds : List Declaration) : Prop where
  oneLine : ∀ l ∈ ls, OneLine l
  declared : (ls.map String.toList).filterMap declarationOf? = ds

lemma Declares.nil : Declares [] [] := ⟨by simp, rfl⟩

lemma Declares.append {ls' : Lines} {ds ds' : List Declaration} (h : Declares ls ds)
    (h' : Declares ls' ds') : Declares (ls ++ ls') (ds ++ ds') := by
  refine ⟨List.forall_mem_append.2 ⟨h.oneLine, h'.oneLine⟩, ?_⟩
  rw [List.map_append, List.filterMap_append, h.declared, h'.declared]

lemma Declares.flatMap {α : Type} {l : List α} {lines : α → Lines} {ds : α → List Declaration}
    (h : ∀ a ∈ l, Declares (lines a) (ds a)) : Declares (l.flatMap lines) (l.flatMap ds) := by
  induction l with
  | nil => exact .nil
  | cons a l ih =>
    rw [List.forall_mem_cons] at h
    exact h.1.append (ih h.2)

lemma Declares.of_line {d : Declaration} (h : OneLine s) (hd : declarationOf? s.toList = some d) :
    Declares [s] [d] := ⟨List.forall_mem_singleton.2 h, by simp [hd]⟩

/-- A text in one line that starts like no declaration. -/
def Silent (text : String) : Prop :=
  OneLine text ∧ text.toList[4]? ≠ some '@' ∧ text.toList[4]? ≠ some 'p'

instance (text : String) : Decidable (Silent text) :=
  inferInstanceAs (Decidable (_ ∧ _ ∧ _))

lemma Declares.of_silent (h : ∀ l ∈ ls, Silent l) : Declares ls [] := by
  refine ⟨fun l hl => (h l hl).1, ?_⟩
  rw [List.filterMap_eq_nil_iff, List.forall_mem_map]
  exact fun l hl => Source.declarationOf?_of_start (h l hl).2.1 (h l hl).2.2

lemma Declares.of_flatMap_silent {α : Type} {l : List α} {lines : α → Lines}
    (h : ∀ a ∈ l, ∀ line ∈ lines a, Silent line) : Declares (l.flatMap lines) [] :=
  .of_silent (List.forall_mem_flatMap.2 h)

lemma Declares.spaced {d : Declaration} (h : OneLine s) (hd : declarationOf? s.toList = some d) :
    Declares ["", s] [d] :=
  Declares.append (.of_silent (List.forall_mem_singleton.2 (by decide))) (.of_line h hd)

/-- A silent text that is long enough to keep every line silent that starts with it. -/
def Opens (text : String) : Prop := Silent text ∧ 4 < text.length

instance (text : String) : Decidable (Opens text) :=
  inferInstanceAs (Decidable (_ ∧ _))

lemma Opens.append (hs : Opens s) (ht : OneLine t) : Opens (s ++ t) := by
  obtain ⟨⟨hline, hstart⟩, hlong⟩ := hs
  refine ⟨⟨hline.append ht, ?_⟩, ?_⟩
  · rwa [String.toList_append, List.getElem?_append_left (by rwa [String.length_toList])]
  · rw [String.length_append]
    exact Nat.lt_add_right _ hlong

/-! ### The parts of a source -/

section

open Template (modelHead constantDeclaration rootConstants fieldDeclaration keyStatement
  identifierMethod groupStatement additionalMethod rootMethods)

lemma declares_modelHead {package name : String} (hpackage : OneLine package)
    (hname : OneLine name) : Declares (modelHead package name) [] := by
  have hhead : modelHead package name = [Template.marker] ++
      (("package " ++ package ++ ";") :: importLines ++ [classLine name]) := rfl
  rw [hhead]
  refine .of_silent (List.forall_mem_append.2 ⟨by decide, ?_⟩)
  rw [List.forall_mem_append, List.forall_mem_cons, List.forall_mem_singleton]
  have hopens : Opens "package " := by decide
  have hopens' : Opens "public class " := by decide
  exact ⟨⟨((hopens.append hpackage).append (by decide)).1, by decide⟩,
    ((hopens'.append hname).append (by decide)).1⟩

lemma declares_constant {k : ResourceKey} (hconstant : IsWord k.constant.toList)
    (hpointer : OneLine k.pointer) :
    Declares (constantDeclaration k) [.constant k.constant k.pointer] := by
  have hline : OneLine
      ("    public static final String " ++ k.constant ++ " = \"" ++ k.pointer ++ "\";") :=
    .append (.append (.append (.append (by decide) (oneLine_of_isWord hconstant)) (by decide))
      hpointer) (by decide)
  exact .spaced hline (Source.declarationOf?_constant _ (noBlank_of_isWord hconstant))

lemma oneLine_literal {f : JavaField} (h : OneLine f.name) : OneLine f.literal := by
  rw [OneLine, JavaField.literal, String.toList_ofList, List.forall_mem_flatMap]
  intro c hc
  have hslash : ('\\' : Char) ≠ '\n' ∧ ('\\' : Char) ≠ '\r' := by decide
  unfold JavaField.literalChar
  split
  · simp
  · split
    · simp
    · simpa using h c hc

lemma declares_field {f : JavaField} (hname : OneLine f.name) (htype : OneLine f.type.text)
    (hidentifier : IsWord f.identifier.toList) :
    Declares (fieldDeclaration f)
      [.note f.literal, .field f.type.text f.identifier] := by
  have hnote : OneLine ("    @JsonProperty(\"" ++ f.literal ++ "\")") :=
    OneLine.append (OneLine.append (by decide) (oneLine_literal hname)) (by decide)
  have hfield : OneLine ("    private " ++ f.type.text ++ " " ++ f.identifier ++ ";") :=
    .append (.append (.append (.append (by decide) htype) (by decide))
      (oneLine_of_isWord hidentifier)) (by decide)
  exact (Declares.spaced hnote (Source.declarationOf?_note _)).append
    (.of_line hfield (Source.declarationOf?_field _ (noBlank_of_isWord hidentifier)))

lemma SpelledKey.oneLine_getters {k : ResourceKey} (h : SpelledKey k) :
    ∀ call ∈ k.getters, OneLine call := by
  intro call hcall
  obtain ⟨getter, hgetter, rfl⟩ := h.getters call hcall
  exact (oneLine_of_isWord hgetter.isWord).append (by decide)

lemma SpelledKey.oneLine_getterChain {k : ResourceKey} (h : SpelledKey k) :
    OneLine k.getterChain := by
  have hwords : OneLine "this." := by decide
  intro c hc
  rcases chars_chain hc with hc | ⟨call, hcall, hc⟩
  · exact hwords c hc
  · exact h.oneLine_getters call hcall c hc

lemma SpelledKey.oneLine_nullChecks {k : ResourceKey} (h : SpelledKey k) :
    OneLine k.nullChecks := by
  have hwords : ∀ c ∈ "this.".toList ++ " && ".toList ++ " != null".toList, c ≠ '\n' ∧ c ≠ '\r' :=
    Scanner.forall_of_all (by decide)
  intro c hc
  rcases chars_nullChecks hc with hc | ⟨call, hcall, hc⟩
  · exact hwords c hc
  · exact h.oneLine_getters call hcall c hc

lemma silent_keyStatement {k : ResourceKey} (h : SpelledKey k) :
    ∀ line ∈ keyStatement k, Silent line := by
  have htest : Opens "        if (" := by decide
  have hput : Opens "            identifier.put(" := by decide
  rw [keyStatement, List.forall_mem_cons, List.forall_mem_cons, List.forall_mem_singleton]
  refine ⟨?_, ?_, by decide⟩
  · exact ((htest.append h.oneLine_nullChecks).append (by decide)).1
  · exact ((((hput.append (oneLine_of_isWord h.constant.isWord)).append (by decide)).append
      h.oneLine_getterChain).append (by decide)).1

lemma declares_method {line type name : String}
    (h : line = "    public " ++ type ++ " " ++ name ++ "() \x7b") (htype : OneLine type)
    (hname : IsWord name.toList) : Declares ["", line] [.method type name] := by
  subst h
  have hline : OneLine ("    public " ++ type ++ " " ++ name ++ "() \x7b") :=
    .append (.append (.append (.append (by decide) htype) (by decide))
      (oneLine_of_isWord hname)) (by decide)
  exact .spaced hline (Source.declarationOf?_method _ (noBlank_of_isWord hname))

lemma declares_identifierMethod {name : String} {keys : List ResourceKey}
    (hname : IsWord name.toList) (hkeys : ∀ k ∈ keys, SpelledKey k) :
    Declares (identifierMethod name keys) [.method "JSONObject" name] := by
  have hfront : "    public JSONObject " = "    public " ++ "JSONObject" ++ " " := by decide
  have hopen : Declares ["", "    public JSONObject " ++ name ++ "() \x7b"]
      [.method "JSONObject" name] := declares_method (by rw [hfront]) (by decide) hname
  have hobject : Declares ["        final JSONObject identifier = new JSONObject();"] [] :=
    .of_silent (by decide)
  have hputs : Declares (keys.flatMap keyStatement) [] :=
    .of_flatMap_silent fun k hk => silent_keyStatement (hkeys k hk)
  have hreturn : Opens "        return identifier.length() == " := by decide
  refine ((hopen.append hobject).append hputs).append (.of_silent ?_)
  rw [List.forall_mem_cons, List.forall_mem_cons, List.forall_mem_cons, List.forall_mem_singleton]
  exact ⟨by decide, by decide +kernel,
    ((hreturn.append (oneLine_of_isWord (isWord_toString _))).append (by decide)).1, by decide⟩

lemma declares_additionalMethod {groups : List KeyGroup}
    (h : ∀ g ∈ groups, IsWord g.method.toList) : Declares (additionalMethod groups)
      [.method "List<JSONObject>" "getAdditionalIdentifiers"] := by
  have hopen : Declares ["", "    public List<JSONObject> getAdditionalIdentifiers() \x7b"]
      [.method "List<JSONObject>" "getAdditionalIdentifiers"] :=
    declares_method (by decide) (by decide) (by decide)
  have hlist : Declares
      ["        final List<JSONObject> identifiers = new ArrayList<JSONObject>();"] [] :=
    .of_silent (by decide)
  have hadds : Declares (groups.flatMap groupStatement) [] := by
    refine .of_flatMap_silent fun g hg => ?_
    have htest : Opens "        if (" := by decide
    have hadd : Opens "            identifiers.add(" := by decide
    have hmethod := oneLine_of_isWord (h g hg)
    rw [groupStatement, List.forall_mem_cons, List.forall_mem_cons, List.forall_mem_singleton]
    exact ⟨((htest.append hmethod).append (by decide)).1,
      ((hadd.append hmethod).append (by decide)).1, by decide⟩
  exact ((hopen.append hlist).append hadds).append (.of_silent (by decide +kernel))

lemma declares_rootMethods {ks : ResourceKeys} (h : SpelledKeys ks) :
    Declares (rootMethods ks) ((sourceMethods ks).map fun m => .method m.1 m.2) := by
  have hgroups : Declares (ks.additional.flatMap fun g => identifierMethod g.method g.keys)
      (ks.additional.flatMap fun g => [.method "JSONObject" g.method]) :=
    .flatMap fun g hg =>
      declares_identifierMethod (h.additional g hg).1.isWord (h.additional g hg).2
  have hmethods : (sourceMethods ks).map (fun m => Declaration.method m.1 m.2) =
      [.method "JSONObject" "getPrimaryIdentifier"] ++
        [.method "List<JSONObject>" "getAdditionalIdentifiers"] ++
        ks.additional.flatMap fun g => [.method "JSONObject" g.method] := by
    rw [← List.map_eq_flatMap, sourceMethods, List.map_cons, List.map_cons, List.map_map]
    rfl
  rw [hmethods]
  exact ((declares_identifierMethod (by decide) h.primary).append
    (declares_additionalMethod fun g hg => (h.additional g hg).1.isWord)).append hgroups

lemma declares_rootConstants {typeName : String} {ks : ResourceKeys} (htype : OneLine typeName)
    (hkeys : ∀ k ∈ ks.all, IsWord k.constant.toList ∧ OneLine k.pointer) :
    Declares (rootConstants typeName ks) (.constant "TYPE_NAME" typeName ::
      ks.all.map fun k => .constant k.constant k.pointer) := by
  have hfront : "    public static final String TYPE_NAME = \"" =
      "    public static final String " ++ "TYPE_NAME" ++ " = \"" := by decide
  have hline : OneLine ("    public static final String TYPE_NAME = \"" ++ typeName ++ "\";") :=
    .append (.append (by decide) htype) (by decide)
  have htypeName : Declares
      ["", "    public static final String TYPE_NAME = \"" ++ typeName ++ "\";"]
      [.constant "TYPE_NAME" typeName] := by
    refine .spaced hline ?_
    rw [hfront, Source.declarationOf?_constant _ (by decide)]
  have hconstants : Declares (ks.all.flatMap constantDeclaration)
      (ks.all.map fun k => .constant k.constant k.pointer) := by
    rw [List.map_eq_flatMap]
    exact .flatMap fun k hk => declares_constant (hkeys k hk).1 (hkeys k hk).2
  exact htypeName.append hconstants

end

/-! ### The source of a class -/

/-- What the source of a class declares: the root's constants, the fields, the root's methods. -/
def declarations (typeName : String) (c : JavaClass) (ks : ResourceKeys) : List Declaration :=
  (if c.isRoot then
    .constant "TYPE_NAME" typeName :: ks.all.map fun k => .constant k.constant k.pointer
  else []) ++
  c.fields.flatMap (fun f => [.note f.literal, .field f.type.text f.identifier]) ++
  if c.isRoot then (sourceMethods ks).map fun m => .method m.1 m.2 else []

/-- What a source may be made of: an accepted name of a resource type, a package that is derived
or chosen, a class of any graph, and the keys of any schema, bound to classes or not. The names of
the properties and, in the root class, the pointers have no line breaks. -/
structure Sourced (typeName : String) (c : JavaClass) (ks : ResourceKeys) : Prop where
  accepted : ∃ segments, TypeName.segments typeName = .ok segments
  package : (∃ segments, c.package = .derive segments) ∨
    ∃ chosen, Package.read chosen = .ok c.package
  resolved : ∃ g classes, classesOf rootClassName c.package g = .ok classes ∧ c ∈ classes
  keys : ∃ schema found, ResourceKeys.ofDocument schema = .ok found ∧ (ks = found ∨
    ∃ k g classes, classesOf rootClassName k g = .ok classes ∧ ks = found.bindTo classes)
  names : ∀ f ∈ c.fields, OneLine f.name
  pointers : c.isRoot = true → ∀ k ∈ ks.all, OneLine k.pointer

variable {typeName : String} {c : JavaClass} {ks : ResourceKeys}

lemma oneLine_typeName {segments : List String} (h : TypeName.segments typeName = .ok segments) :
    OneLine typeName := by
  intro x hx
  refine ⟨?_, ?_⟩
  all_goals rintro rfl; exact absurd (chars_typeName h _ hx) (by decide)

lemma oneLine_className {k : Package} {g : Graph} {classes : List JavaClass}
    (hc : classesOf rootClassName k g = .ok classes) (hin : c ∈ classes) : OneLine c.name :=
  oneLine_of_isWord fun x hx => isWordChar_of_isClassChar (((classNames_ok hc).2 c hin).2 x hx)

lemma oneLine_type {k : Package} {g : Graph} {classes : List JavaClass}
    (hc : classesOf rootClassName k g = .ok classes) (hin : c ∈ classes) {f : JavaField}
    (hf : f ∈ c.fields) : OneLine f.type.text := by
  intro x hx
  refine ⟨?_, ?_⟩
  all_goals rintro rfl; exact absurd (chars_type hc hin hf _ hx) (by decide)

namespace Sourced

variable (h : Sourced typeName c ks)
include h

lemma oneLine_package : OneLine c.package.dotted := by
  have hsegments : ∀ s ∈ c.package.segments, Project.IsSegmentText s := by
    rcases h.package with ⟨segments, hk⟩ | ⟨chosen, hk⟩
    · rw [hk]
      exact fun s hs => (Package.isDerived_derive segments s hs).legal.isSegmentText
    · obtain ⟨-, hpieces, hk⟩ := Package.read_iff.1 hk
      rw [hk]
      exact fun s hs => (Package.isSegment_iff.1
        (Package.checkSegment_iff.1 (hpieces s hs)).1).1.isSegmentText
  intro x hx
  refine ⟨?_, ?_⟩
  all_goals rintro rfl; exact absurd (Project.chars_dotted hsegments hx) (by decide)

lemma spelled : SpelledKeys ks := by
  obtain ⟨schema, found, hfound, rfl | ⟨k, g, classes, hc, rfl⟩⟩ := h.keys
  · exact spelled_ofDocument hfound
  · exact (spelled_ofDocument hfound).bindTo hc

lemma spelled_all : ∀ k ∈ ks.all, SpelledKey k :=
  ResourceKeys.forall_all h.spelled.primary fun g hg => (h.spelled.additional g hg).2

lemma declares_fields {f : JavaField} (hf : f ∈ c.fields) :
    Declares (Template.fieldDeclaration f)
      [.note f.literal, .field f.type.text f.identifier] := by
  obtain ⟨g, classes, hc, hin⟩ := h.resolved
  exact declares_field (h.names f hf) (oneLine_type hc hin hf) (isWord_identifier hc hin hf)

lemma declares_head : Declares (Template.modelHead c.package.dotted c.name) [] := by
  obtain ⟨g, classes, hc, hin⟩ := h.resolved
  exact declares_modelHead h.oneLine_package (oneLine_className hc hin)

lemma declares_constants :
    Declares (if c.isRoot then Template.rootConstants typeName ks else [])
      (if c.isRoot then
        .constant "TYPE_NAME" typeName :: ks.all.map fun k => .constant k.constant k.pointer
      else []) := by
  split
  · rename_i hroot
    obtain ⟨segments, hsegments⟩ := h.accepted
    exact declares_rootConstants (oneLine_typeName hsegments)
      fun k hk => ⟨(h.spelled_all k hk).constant.isWord, h.pointers hroot k hk⟩
  · exact .nil

lemma declares_methods :
    Declares (if c.isRoot then Template.rootMethods ks else [])
      (if c.isRoot then (sourceMethods ks).map fun m => .method m.1 m.2 else []) := by
  split
  · exact declares_rootMethods h.spelled
  · exact .nil

/-- The lines of the source, in their parts. -/
lemma declares_model : Declares (model typeName c ks) (declarations typeName c ks) := by
  have hfields := Declares.flatMap fun f hf => h.declares_fields (f := f) hf
  have hend : Declares ["\x7d"] [] := .of_silent (by decide)
  have hall := (((h.declares_head.append h.declares_constants).append hfields).append
    h.declares_methods).append hend
  rwa [List.nil_append, List.append_nil] at hall

lemma textLines_model : Source.textLines (render (model typeName c ks)) =
    (model typeName c ks).map String.toList :=
  textLines_of_oneLine h.declares_model.oneLine (List.append_ne_nil_of_right_ne_nil _ (by simp))

end Sourced

/-! ### Fields -/

open Source (annotatedFields)

/-- A field as its declaration shows it, with the name that is annotated. -/
def JavaField.shown (f : JavaField) : String × String × String :=
  (f.name, f.type.text, f.identifier)

lemma annotatedFields_fields {fs : List JavaField} (h : ∀ f ∈ fs, IsWord f.identifier.toList)
    (r : List (List Char)) :
    annotatedFields ((fs.flatMap Template.fieldDeclaration).map String.toList ++ r) =
      fs.map (fun f => (f.literal, f.type.text, f.identifier)) ++ annotatedFields r := by
  induction fs with
  | nil => rfl
  | cons f fs ih =>
    obtain ⟨hf, hfs⟩ := List.forall_mem_cons.1 h
    have hempty : Source.Unannotated ["".toList] := by
      rw [Source.Unannotated, List.forall_mem_singleton]
      rintro literal ⟨⟩
    rw [List.flatMap_cons, List.map_append, List.append_assoc, List.map_cons, List.cons_append,
      ← ih hfs]
    refine (Source.annotatedFields_append hempty _).trans (Source.annotatedFields_cons ?_ ?_ _)
    · exact Source.declarationOf?_note f.literal
    · exact Source.declarationOf?_field f.type.text (noBlank_of_isWord hf)

/-- Where no line is an annotation, no field has one. -/
lemma Declares.annotatedFields_append {ds : List Declaration} (h : Declares ls ds)
    (hds : ∀ literal, .note literal ∉ ds) (r : List (List Char)) :
    annotatedFields (ls.map String.toList ++ r) = annotatedFields r :=
  Source.annotatedFields_append (Source.unannotated_of_filterMap h.declared hds) r

lemma Sourced.annotatedFields (h : Sourced typeName c ks) :
    Source.annotatedFields ((model typeName c ks).map String.toList) =
      c.fields.map fun f => (f.literal, f.type.text, f.identifier) := by
  obtain ⟨g, classes, hc, hin⟩ := h.resolved
  have hend : Declares ["\x7d"] [] := .of_silent (by decide)
  have hclosing := h.declares_methods.append hend
  rw [model, List.map_append, List.map_append, List.map_append, List.map_append, List.append_assoc,
    List.append_assoc, List.append_assoc, h.declares_head.annotatedFields_append (by simp),
    h.declares_constants.annotatedFields_append (by split <;> simp),
    annotatedFields_fields fun f hf => isWord_identifier hc hin hf, ← List.map_append,
    ← List.append_nil (List.map String.toList (_ ++ _)),
    hclosing.annotatedFields_append (by split <;> simp)]
  exact List.append_nil _

/-- The text that an escaped one stands for. -/
def unescaped : List Char → List Char
  | c :: d :: r => if c = '\\' then d :: unescaped r else c :: unescaped (d :: r)
  | cs => cs

lemma unescaped_cons {c : Char} (hc : c ≠ '\\') (r : List Char) :
    unescaped (c :: r) = c :: unescaped r := by
  cases r with
  | nil => rfl
  | cons d r => rw [unescaped, if_neg hc]

lemma unescaped_literal (cs : List Char) : unescaped (cs.flatMap JavaField.literalChar) = cs := by
  induction cs with
  | nil => rfl
  | cons c cs ih =>
    rw [List.flatMap_cons, JavaField.literalChar]
    split
    · rename_i hslash
      rw [hslash, List.cons_append, List.cons_append, unescaped, if_pos rfl, List.nil_append, ih]
    · rename_i hslash
      split
      · rename_i hquote
        rw [hquote, List.cons_append, List.cons_append, unescaped, if_pos rfl, List.nil_append, ih]
      · rw [List.cons_append, unescaped_cons hslash, List.nil_append, ih]

/-- Fields whose declarations are the same are shown the same. -/
lemma shown_of_declared {fs fs' : List JavaField}
    (h : fs.map (fun f => (f.literal, f.type.text, f.identifier)) =
      fs'.map fun f => (f.literal, f.type.text, f.identifier)) :
    fs.map JavaField.shown = fs'.map JavaField.shown := by
  have hshown : ∀ f : JavaField, f.shown =
      (String.ofList (unescaped f.literal.toList), f.type.text, f.identifier) := by
    intro f
    rw [JavaField.literal, String.toList_ofList, unescaped_literal, String.ofList_toList]
    rfl
  have hmap := congrArg (List.map fun (x : String × String × String) =>
    (String.ofList (unescaped x.1.toList), x.2)) h
  rw [List.map_map, List.map_map] at hmap
  rw [List.map_congr_left fun f _ => hshown f, List.map_congr_left fun f _ => hshown f]
  exact hmap

/-- **A source reads back as what it was made of.** No line break is in it but those between its
lines. Its annotations stand right before the fields, one for each property of the class, in their
order and with the literal, the type and the identifier of the property. All that the lines declare
is the constants of the root's keys, these fields and the root's methods; a class that is not the
root has its fields only. So two classes with different fields never have the same text, whatever
their names and keys are. -/
theorem source_read_back (h : Sourced typeName c ks) :
    '\r' ∉ (render (model typeName c ks)).toList ∧
    Source.annotatedFields (Source.textLines (render (model typeName c ks))) =
      c.fields.map (fun f => (f.literal, f.type.text, f.identifier)) ∧
    (Source.textLines (render (model typeName c ks))).filterMap declarationOf? =
      declarations typeName c ks ∧
    ∀ typeName' c' ks', Sourced typeName' c' ks' →
      c.fields.map JavaField.shown ≠ c'.fields.map JavaField.shown →
      render (model typeName c ks) ≠ render (model typeName' c' ks') := by
  refine ⟨noReturn_of_oneLine h.declares_model.oneLine, ?_, ?_, fun typeName' c' ks' h' hne e => ?_⟩
  · rw [h.textLines_model, h.annotatedFields]
  · rw [h.textLines_model, h.declares_model.declared]
  · refine hne (shown_of_declared ?_)
    rw [← h.annotatedFields, ← h.textLines_model, e, h'.textLines_model, h'.annotatedFields]

/-- A property with a quote and a backslash in its name, and one with objects. -/
def ledger : Graph where
  objects := [
    ⟨.root, [⟨"a\"b\\", .string, true⟩,
      ⟨"Entries", .map (.object (.definition "Entry")), false⟩]⟩,
    ⟨.definition "Entry", [⟨"class", .integer, true⟩]⟩]
  distinct := by decide

def ledgerKeys : Document.Members :=
  [("primaryIdentifier", .list [.text "/properties/a\"b\\"]),
    ("additionalIdentifiers", .list [.list [.text "/properties/Entries"]])]

def ledgerDeclarations : List Declaration := [
  .constant "TYPE_NAME" "Aa::Ledger",
  .constant "IDENTIFIER_KEY_A_B_" "/properties/a\"b\\",
  .constant "IDENTIFIER_KEY_ENTRIES" "/properties/Entries",
  .note "a\\\"b\\\\", .field "String" "a_b_",
  .note "Entries", .field "Map<String, Entry>" "entries",
  .method "JSONObject" "getPrimaryIdentifier",
  .method "List<JSONObject>" "getAdditionalIdentifiers",
  .method "JSONObject" "getIdentifier_Entries"]

lemma ledger_made : ∃ root entry ks,
    classesOf rootClassName (.derive ["Aa", "Ledger"]) ledger = .ok [root, entry] ∧
      ResourceKeys.ofDocument (.record ledgerKeys) = .ok ks ∧
      (∀ k ∈ ks.all, OneLine k.pointer) ∧ (∀ f ∈ root.fields ++ entry.fields, OneLine f.name) ∧
      root.fields.map (fun f => (f.literal, f.type.text, f.identifier)) =
        [("a\\\"b\\\\", "String", "a_b_"), ("Entries", "Map<String, Entry>", "entries")] ∧
      declarations "Aa::Ledger" entry ks = [.note "class", .field "Integer" "class_"] ∧
      declarations "Aa::Ledger" root ks = ledgerDeclarations :=
  ⟨_, _, _, rfl, rfl, by decide +kernel, by decide +kernel, by decide +kernel, by decide +kernel,
    by decide +kernel⟩

theorem ledger_read_back : ∃ root entry ks,
    classesOf rootClassName (.derive ["Aa", "Ledger"]) ledger = .ok [root, entry] ∧
      ResourceKeys.ofDocument (.record ledgerKeys) = .ok ks ∧
      Source.annotatedFields (Source.textLines (render (model "Aa::Ledger" root ks))) =
        [("a\\\"b\\\\", "String", "a_b_"), ("Entries", "Map<String, Entry>", "entries")] ∧
      (Source.textLines (render (model "Aa::Ledger" root ks))).filterMap declarationOf? =
        ledgerDeclarations ∧
      (Source.textLines (render (model "Aa::Ledger" entry ks))).filterMap declarationOf? =
        [.note "class", .field "Integer" "class_"] := by
  obtain ⟨root, entry, ks, hc, hk, hpointers, hnames, hfields, hentry, hroot⟩ := ledger_made
  obtain ⟨hrootNames, hentryNames⟩ := List.forall_mem_append.1 hnames
  have hsourced : ∀ c ∈ [root, entry], (∀ f ∈ c.fields, OneLine f.name) →
      Sourced "Aa::Ledger" c ks := fun c hin hf => {
    accepted := ⟨["Aa", "Ledger"], by decide⟩
    package := Or.inl ⟨["Aa", "Ledger"], package_of_classes hc c hin⟩
    resolved := ⟨ledger, [root, entry], package_of_classes hc c hin ▸ hc, hin⟩
    keys := ⟨.record ledgerKeys, ks, hk, Or.inl rfl⟩
    names := hf
    pointers := fun _ => hpointers }
  obtain ⟨-, hannotated, hdeclared, -⟩ := source_read_back (hsourced root (by simp) hrootNames)
  obtain ⟨-, -, hdeclared', -⟩ := source_read_back (hsourced entry (by simp) hentryNames)
  exact ⟨root, entry, ks, hc, hk, hannotated.trans hfields, hdeclared.trans hroot,
    hdeclared'.trans hentry⟩

end ProviderGen.Java
