import ProviderGen.Proofs.Files.Write
import ProviderGen.Proofs.Text.Order
import Mathlib.Tactic.SplitIfs

/-!
First lines, as texts. The bytes in front of the first line feed are a text or they are not, and
what follows them is not looked at; of a file that holds a text, they are the text in front of its
first line feed. A file was generated if that line is the marker, blanks behind it left away, and
is the user's if it is any other text.
-/

namespace ProviderGen.Files

open Text (bytes bytes_eq trimEnd)
open Template (marker)

/-- What stands in front of the first line feed is this text. -/
structure FirstLine (file : ByteArray) (line : String) : Prop where
  unbroken : '\n' ∉ line.toList
  behind : ∃ rest : ByteArray, (rest.data[0]? = none ∨ rest.data[0]? = some 10) ∧
    file = line.toUTF8 ++ rest

def Generated (file : ByteArray) : Prop :=
  ∃ line, FirstLine file line ∧ trimEnd line.toList = marker.toList

def Owned (file : ByteArray) : Prop :=
  ∃ line, FirstLine file line ∧ trimEnd line.toList ≠ marker.toList

variable {file : ByteArray} {line text : String} {c : Char}

/-- No byte of another character's encoding is a line feed. -/
lemma mem_utf8EncodeChar : 10 ∈ String.utf8EncodeChar c ↔ c = '\n' := by
  have hmax : c.val.toNat < 0x110000 := by
    rcases c.valid with h | h
    · omega
    · omega
  have hbyte {n : ℕ} (hn : n < 256) : (UInt8.ofNat n).toNat = n := UInt8.toNat_ofNat_of_lt' hn
  have hfeed : c = '\n' ↔ c.val.toNat = 10 := by
    rw [Char.ext_iff, ← UInt32.toNat_inj]
    rfl
  rw [hfeed]
  unfold String.utf8EncodeChar
  dsimp only
  split_ifs <;>
    simp (disch := omega) only [List.mem_cons, List.not_mem_nil, or_false, ← UInt8.toNat_inj,
      hbyte, UInt8.toNat_ofNat] <;>
    omega

lemma mem_bytes : 10 ∈ bytes text ↔ '\n' ∈ text.toList := by
  rw [bytes_eq, List.mem_flatMap]
  simp only [mem_utf8EncodeChar, exists_eq_right]

/-- Up to a line feed and no further, the bytes of a line without one are taken. -/
lemma FirstLine.firstLine_eq (h : FirstLine file line) : firstLine file = line.toUTF8 := by
  obtain ⟨rest, hrest, hfile⟩ := h.behind
  have hline : ∀ b ∈ line.toUTF8.data.toList, (b != 10) = true := by
    intro b hb
    rw [bne_iff_ne]
    rintro rfl
    exact h.unbroken (mem_bytes.1 hb)
  have hstop : rest.data.toList.takeWhile (· != 10) = [] := by
    cases hl : rest.data.toList with
    | nil => rfl
    | cons b r =>
      rw [← Array.getElem?_toList, hl] at hrest
      obtain rfl : b = 10 := by simpa using hrest
      rfl
  rw [hfile, firstLine]
  apply ByteArray.ext
  rw [ByteArray.data_append, Array.toList_append, List.takeWhile_append_of_pos hline, hstop,
    List.append_nil]

/-- The first line is read as this text just if it is this text. -/
lemma textOf_firstLine_iff : textOf (firstLine file) = .ok line ↔ FirstLine file line := by
  constructor
  · intro h
    have hline := toUTF8_of_textOf h
    refine ⟨fun hfeed => ?_, ?_⟩
    · have hmem : (10 : UInt8) ∈ (firstLine file).data.toList := by
        rw [hline]
        exact mem_bytes.2 hfeed
      simpa using List.mem_takeWhile_imp hmem
    · rw [← hline]
      exact firstLine_append file
  · intro h
    rw [h.firstLine_eq, textOf_toUTF8]

lemma FirstLine.unique {line' : String} (h : FirstLine file line) (h' : FirstLine file line') :
    line = line' :=
  Except.ok.inj ((textOf_firstLine_iff.2 h).symm.trans (textOf_firstLine_iff.2 h'))

lemma isGenerated_of_generated (h : Generated file) : isGenerated file = .ok true := by
  obtain ⟨line, hline, htrim⟩ := h
  rw [isGenerated, textOf_firstLine_iff.2 hline]
  simp [bind, Except.bind, htrim]

lemma isGenerated_of_owned (h : Owned file) : isGenerated file = .ok false := by
  obtain ⟨line, hline, htrim⟩ := h
  rw [isGenerated, textOf_firstLine_iff.2 hline]
  simp [bind, Except.bind, htrim]

/-- Where the question has an answer, the first line is a text. -/
lemma exists_firstLine {b : Bool} (h : isGenerated file = .ok b) : ∃ line, FirstLine file line := by
  obtain ⟨line, hline, -⟩ := bind_eq_ok.1 h
  exact ⟨line, textOf_firstLine_iff.1 hline⟩

/-- The first line of a text is the text in front of its first line feed. -/
lemma firstLine_text (text : String) :
    FirstLine text.toUTF8 (String.ofList (text.toList.takeWhile (· != '\n'))) := by
  refine ⟨fun h => ?_, (String.ofList (text.toList.dropWhile (· != '\n'))).toUTF8, ?_, ?_⟩
  · rw [String.toList_ofList] at h
    simpa using List.mem_takeWhile_imp h
  · have hhead := List.head?_dropWhile_not (· != '\n') text.toList
    rw [← Array.getElem?_toList, show Array.toList _ = bytes _ from rfl, bytes_eq,
      String.toList_ofList, ← List.head?_eq_getElem?]
    cases hd : text.toList.dropWhile (· != '\n') with
    | nil => exact Or.inl rfl
    | cons c r =>
      rw [hd] at hhead
      obtain rfl : c = '\n' := by simpa using hhead
      exact Or.inr rfl
  · simp only [String.toUTF8_eq_toByteArray]
    rw [← String.toByteArray_append, ← String.ofList_append, List.takeWhile_append_dropWhile,
      String.ofList_toList]

/-- A text bears the marker just if that is its first line, blanks behind it left away. -/
lemma generated_text_iff : Generated text.toUTF8 ↔
    trimEnd (text.toList.takeWhile (· != '\n')) = marker.toList := by
  have hline := firstLine_text text
  constructor
  · rintro ⟨line, h, htrim⟩
    rwa [h.unique hline, String.toList_ofList] at htrim
  · intro htrim
    exact ⟨_, hline, by rwa [String.toList_ofList]⟩

lemma owned_text_iff : Owned text.toUTF8 ↔ ¬ Generated text.toUTF8 := by
  have hline := firstLine_text text
  constructor
  · rintro ⟨line, h, htrim⟩ ⟨line', h', htrim'⟩
    rw [h.unique h'] at htrim
    exact htrim htrim'
  · intro hnot
    exact ⟨_, hline, fun htrim => hnot ⟨_, hline, htrim⟩⟩

/-! ### The marker -/

lemma trimEnd_append_blanks {cs bs : List Char} (h : ∀ b ∈ bs, Text.isBlank b = true) :
    trimEnd (cs ++ bs) = trimEnd cs := by
  induction bs using List.reverseRecOn with
  | nil => rw [List.append_nil]
  | append_singleton bs b ih =>
    rw [List.forall_mem_append, List.forall_mem_singleton] at h
    rw [← List.append_assoc, Text.trimEnd_concat_blank h.2, ih h.1]

/-- What follows behind a line feed, or at once, does not change the first line. -/
lemma FirstLine.append {rest : ByteArray} (h : FirstLine file line)
    (hrest : rest.data[0]? = none ∨ rest.data[0]? = some 10) : FirstLine (file ++ rest) line := by
  obtain ⟨behind, hbehind, rfl⟩ := h.behind
  refine ⟨h.unbroken, behind ++ rest, ?_, ByteArray.append_assoc⟩
  rw [ByteArray.data_append, Array.getElem?_append]
  by_cases hsize : 0 < behind.data.size
  · rw [if_pos hsize]
    exact hbehind
  · rw [if_neg hsize, Nat.zero_sub]
    exact hrest

/-- The two ways to say that a file was generated. -/
lemma marked_iff_generated : Marked file ↔ Generated file := by
  refine ⟨?_, fun h => marked_of_isGenerated (isGenerated_of_generated h)⟩
  rintro ⟨blanks, rest, hblanks, hrest, rfl⟩
  have hmarker : ∀ c ∈ marker.toList, (c != '\n') = true := List.all_eq_true.1 (by decide)
  refine ⟨_, (firstLine_text (marker ++ blanks)).append hrest, ?_⟩
  rw [String.toList_ofList, String.toList_append, List.takeWhile_append_of_pos hmarker,
    trimEnd_append_blanks fun b hb => hblanks b ((List.takeWhile_prefix _).subset hb)]
  decide

/-- A text that bears the marker starts like it. -/
lemma head_of_generated (h : Generated text.toUTF8) :
    text.toList.head? = marker.toList.head? := by
  rw [generated_text_iff] at h
  obtain ⟨blanks, -, hline⟩ := trimEnd_append (text.toList.takeWhile (· != '\n'))
  rw [h] at hline
  rw [← List.takeWhile_append_dropWhile (p := (· != '\n')) (l := text.toList), hline,
    List.append_assoc]
  rfl

end ProviderGen.Files
