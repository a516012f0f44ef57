import ProviderGen.Template.Lines
import Mathlib.Data.List.Basic
import Mathlib.Tactic.Common

/-!
What a source says of itself, read off the lines of its text: the package it is in, the types it
imports, and the class that it declares, which is named on the first line that starts with the
words for one.
-/

namespace ProviderGen.Java.Source

open Template (Lines render)

def textLines (text : String) : List (List Char) := text.toList.splitOn '\n'

/-- What stands behind the given words at the start of a line. -/
def behind? (words : String) (line : List Char) : Option (List Char) :=
  line.dropPrefix? words.toList

def packageOf? (line : List Char) : Option String :=
  (behind? "package " line).map fun r => String.ofList (r.takeWhile (· ≠ ';'))

/-- The last segment of what the line imports. -/
def importOf? (line : List Char) : Option String :=
  (behind? "import " line).map fun r =>
    String.ofList (((r.takeWhile (· ≠ ';')).splitOn '.').getLast?.getD [])

def classWords : List String :=
  ["public class ", "public final class ", "public abstract class ", "class "]

def endsName (c : Char) : Bool := c == ' ' || c == '<' || c == '\x7b'

def classOf? (line : List Char) : Option String :=
  classWords.findSome? fun words =>
    (behind? words line).map fun r => String.ofList (r.takeWhile (!endsName ·))

def packageName? (text : String) : Option String := (textLines text).findSome? packageOf?

def className? (text : String) : Option String := (textLines text).findSome? classOf?

/-- The simple names of the imported types; imports stand before the class. -/
def importedNames (text : String) : List String :=
  ((textLines text).takeWhile fun line => (classOf? line).isNone).filterMap importOf?

/-! ### Lines of a rendered text -/

lemma textLines_of_no_break {line : String} (h : '\n' ∉ line.toList) :
    textLines line = [line.toList] := List.splitOn_eq_singleton h

lemma textLines_render {ls : Lines} (h : ls ≠ []) :
    textLines (render ls) = ls.flatMap textLines := by
  induction ls with
  | nil => exact absurd rfl h
  | cons l r ih =>
    cases r with
    | nil => simp
    | cons m r =>
      have hjoin : (render (l :: m :: r)).toList =
          l.toList ++ '\n' :: (render (m :: r)).toList := by
        rw [Template.render_cons_cons]
        simp
      have hr := ih (List.cons_ne_nil m r)
      rw [textLines] at hr
      rw [textLines, hjoin, List.splitOn_append_cons_self, hr]
      rfl

lemma flatMap_textLines {ls : Lines} (h : ∀ l ∈ ls, '\n' ∉ l.toList) :
    ls.flatMap textLines = ls.map String.toList := by
  induction ls with
  | nil => rfl
  | cons l r ih =>
    rw [List.forall_mem_cons] at h
    rw [List.flatMap_cons, textLines_of_no_break h.1, ih h.2]
    rfl

/-- Lines without breaks stay what they are, whatever follows them. -/
lemma textLines_front {front : Lines} (h : ∀ l ∈ front, '\n' ∉ l.toList) (hne : front ≠ [])
    (post : Lines) :
    textLines (render (front ++ post)) = front.map String.toList ++ post.flatMap textLines := by
  rw [textLines_render (by simp [hne]), List.flatMap_append, flatMap_textLines h]

/-! ### The lines with names -/

lemma packageOf?_line {name : String} (h : ';' ∉ name.toList) :
    packageOf? ("package " ++ name ++ ";").toList = some name := by
  have hbehind : behind? "package " ("package " ++ name ++ ";").toList =
      some (name.toList ++ [';']) := by
    simp [behind?, List.dropPrefix?]
  have htake : (name.toList ++ [';']).takeWhile (· ≠ ';') = name.toList := by
    rw [List.takeWhile_append_of_pos]
    · simp
    · rintro c hc
      have hne : c ≠ ';' := fun e => h (e ▸ hc)
      simpa using hne
  rw [packageOf?, hbehind, Option.map_some, htake, String.ofList_toList]

lemma classOf?_package (name : String) :
    classOf? ("package " ++ name ++ ";").toList = none := by
  simp [classOf?, classWords, behind?, List.dropPrefix?]

lemma importOf?_package (name : String) :
    importOf? ("package " ++ name ++ ";").toList = none := by
  simp [importOf?, behind?, List.dropPrefix?]

/-- The name on the line of a class, with anything that ends a name behind it. -/
lemma classOf?_line {words name tail : String} {c : Char} {r : List Char}
    (hwords : words ∈ classWords) (h : ∀ c ∈ name.toList, endsName c = false)
    (htail : tail.toList = c :: r) (hc : endsName c = true) :
    classOf? (words ++ name ++ tail).toList = some name := by
  have htake : (name.toList ++ c :: r).takeWhile (!endsName ·) = name.toList := by
    rw [List.takeWhile_append_of_pos]
    · simp [hc]
    · intro d hd
      simp [h d hd]
  simp only [classWords, List.mem_cons, List.not_mem_nil, or_false] at hwords
  rcases hwords with rfl | rfl | rfl | rfl <;>
    simp [classOf?, classWords, behind?, List.dropPrefix?, htail, htake]

/-! ### The head of a source -/

/-- Lines between the package and the class: no break is in them, and none starts like a class. -/
inductive Between : Lines → Prop where
  | nil : Between []
  | cons {cs : List Char} {r : Lines} (hbreak : '\n' ∉ cs)
      (hfirst : cs.head? ≠ some 'p' ∧ cs.head? ≠ some 'c') (h : Between r) :
      Between (String.ofList cs :: r)

lemma classOf?_of_head? {cs : List Char} (h : cs.head? ≠ some 'p' ∧ cs.head? ≠ some 'c') :
    classOf? cs = none := by
  cases cs with
  | nil => simp [classOf?, classWords, behind?, List.dropPrefix?]
  | cons c r =>
    have hp : c ≠ 'p' := fun e => h.1 (congrArg some e)
    have hc : c ≠ 'c' := fun e => h.2 (congrArg some e)
    simp [classOf?, classWords, behind?, List.dropPrefix?, hp, hc]

lemma Between.forall {mid : Lines} (h : Between mid) :
    ∀ l ∈ mid, '\n' ∉ l.toList ∧ classOf? l.toList = none := by
  induction h with
  | nil => simp
  | cons hbreak hfirst _ ih =>
    rw [List.forall_mem_cons, String.toList_ofList]
    exact ⟨⟨hbreak, classOf?_of_head? hfirst⟩, ih⟩

section Head

variable {pre mid : Lines} {package name line : String}

lemma no_break_package (h : '\n' ∉ package.toList) :
    '\n' ∉ ("package " ++ package ++ ";").toList := by
  simp only [String.toList_append, List.mem_append, not_or]
  exact ⟨⟨by decide, h⟩, by decide⟩

/-- The head of a source: comments, the line with the package, and the first that declares a
class. -/
structure Head (package name : String) (pre mid : Lines) (line : String) : Prop where
  comments : ∀ l ∈ pre, ∃ cs, l = String.ofList ('/' :: cs) ∧ '\n' ∉ cs
  no_break : '\n' ∉ package.toList
  no_end : ';' ∉ package.toList
  between : Between mid
  line_no_break : '\n' ∉ line.toList
  names : classOf? line.toList = some name

/-- The lines up to the one that declares the class. -/
def headLines (package : String) (pre mid : Lines) (line : String) : Lines :=
  pre ++ ("package " ++ package ++ ";") :: mid ++ [line]

/-- A comment says nothing. -/
lemma Head.silent (h : Head package name pre mid line) : ∀ l ∈ pre, '\n' ∉ l.toList ∧
    packageOf? l.toList = none ∧ classOf? l.toList = none ∧ importOf? l.toList = none := by
  intro l hl
  obtain ⟨cs, rfl, hbreak⟩ := h.comments l hl
  rw [String.toList_ofList]
  refine ⟨by simp [hbreak], ?_, classOf?_of_head? (by simp), ?_⟩
  · simp [packageOf?, behind?, List.dropPrefix?]
  · simp [importOf?, behind?, List.dropPrefix?]

lemma Head.textLines (h : Head package name pre mid line) (post : Lines) :
    Source.textLines (render (headLines package pre mid line ++ post)) =
      pre.map String.toList ++ ("package " ++ package ++ ";").toList ::
        mid.map String.toList ++ line.toList :: post.flatMap Source.textLines := by
  rw [headLines, textLines_front ?_ (by simp)]
  · simp
  · simp only [List.forall_mem_append, List.forall_mem_cons]
    exact ⟨⟨fun l hl => (h.silent l hl).1, no_break_package h.no_break,
      fun l hl => (h.between.forall l hl).1⟩, h.line_no_break, by simp⟩

/-- A source says where it belongs and what it declares, whatever its later lines are. -/
theorem Head.reads (h : Head package name pre mid line) (post : Lines) :
    packageName? (render (headLines package pre mid line ++ post)) = some package ∧
      className? (render (headLines package pre mid line ++ post)) = some name ∧
      importedNames (render (headLines package pre mid line ++ post)) =
        mid.filterMap fun l => importOf? l.toList := by
  have hpackage : (pre.map String.toList).findSome? packageOf? = none := by
    simpa [List.findSome?_eq_none_iff] using fun l hl => (h.silent l hl).2.1
  have hclass : ∀ l ∈ pre.map String.toList ++ ("package " ++ package ++ ";").toList ::
      mid.map String.toList, classOf? l = none := by
    simp only [List.forall_mem_append, List.forall_mem_cons, List.forall_mem_map]
    exact ⟨fun l hl => (h.silent l hl).2.2.1, classOf?_package package,
      fun l hl => (h.between.forall l hl).2⟩
  have hfirst : (pre.map String.toList ++ ("package " ++ package ++ ";").toList ::
      mid.map String.toList).findSome? classOf? = none :=
    List.findSome?_eq_none_iff.2 hclass
  refine ⟨?_, ?_, ?_⟩
  · rw [packageName?, h.textLines, List.append_assoc, List.findSome?_append, hpackage,
      List.cons_append, List.findSome?_cons, packageOf?_line h.no_end]
    rfl
  · rw [className?, h.textLines, List.findSome?_append, hfirst, List.findSome?_cons, h.names]
    rfl
  · have hsilent : (pre.map String.toList).filterMap importOf? = [] := by
      simpa [List.filterMap_eq_nil_iff] using fun l hl => (h.silent l hl).2.2.2
    rw [importedNames, h.textLines,
      List.takeWhile_append_of_pos fun l hl => by simp [hclass l hl],
      List.takeWhile_cons_of_neg (by simp [h.names]), List.append_nil, List.filterMap_append,
      hsilent, List.filterMap_cons_none (importOf?_package package), List.filterMap_map]
    rfl

end Head

end ProviderGen.Java.Source
