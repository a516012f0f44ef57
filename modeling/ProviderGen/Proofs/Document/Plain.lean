import ProviderGen.Document.Reader
import ProviderGen.Template.Lines
import Mathlib.Tactic.Common

/-!
Documents whose text has neither escapes nor numerals. Such a text is read one character after
the other, and read like that it has the tokens that it has; so the tokens of a text in lines are
those of its lines.
-/

namespace ProviderGen.Document

open Template (Lines render)

variable {cs s w : List Char} {c : Char} {ts : List Token}

/-- A character that stands for itself in a quoted text. -/
def IsPlain (c : Char) : Prop := c ≠ '"' ∧ c ≠ '\\' ∧ 32 ≤ c.toNat

instance (c : Char) : Decidable (IsPlain c) :=
  inferInstanceAs (Decidable (c ≠ '"' ∧ c ≠ '\\' ∧ 32 ≤ c.toNat))

/-- The tokens that are one character. -/
def symbol? : Char → Option Token
  | '{' => some .openRecord
  | '}' => some .closeRecord
  | '[' => some .openList
  | ']' => some .closeList
  | ':' => some .colon
  | ',' => some .comma
  | _ => none

/-- The tokens of a plain text. Within a quoted text its characters so far are kept, last
first. -/
def scan : Option (List Char) → List Char → Option (List Token)
  | none, [] => some []
  | none, 't' :: 'r' :: 'u' :: 'e' :: r => (scan none r).map (.plain (.bool true) :: ·)
  | none, 'f' :: 'a' :: 'l' :: 's' :: 'e' :: r => (scan none r).map (.plain (.bool false) :: ·)
  | none, '"' :: r => scan (some []) r
  | none, c :: r =>
    if isSpace c then scan none r
    else match symbol? c with
      | some t => (scan none r).map (t :: ·)
      | none => none
  | some _, [] => none
  | some w, c :: r =>
    if c = '"' then (scan none r).map (.text (String.ofList w.reverse) :: ·)
    else if IsPlain c then scan (some (c :: w)) r
    else none

/-! ### Quoted texts -/

lemma quoted?_plain (h : ∀ c ∈ s, IsPlain c) (r : List Char) :
    quoted? (s ++ '"' :: r) = some (s, r) := by
  induction s with
  | nil => rw [List.nil_append, quoted?]
  | cons c s ih =>
    rw [List.forall_mem_cons] at h
    obtain ⟨hquote, hescape, hcontrol⟩ := h.1
    rw [List.cons_append, quoted?, if_neg (Nat.not_lt.2 hcontrol), ih h.2]
    · rfl
    · exact hquote
    · exact hescape

lemma tokens?_quoted (h : ∀ c ∈ s, IsPlain c) (r : List Char) :
    tokens? ('"' :: (s ++ '"' :: r)) = (tokens? r).map (.text (String.ofList s) :: ·) := by
  rw [tokens?]
  split
  · rename_i s' r' h'
    rw [quoted?_plain h] at h'
    obtain ⟨rfl, rfl⟩ := Prod.mk.inj (Option.some.inj h')
    rfl
  · rename_i h'
    rw [quoted?_plain h] at h'
    cases h'

/-- A quoted text is scanned up to its end. -/
lemma scan_quoted (h : ∀ c ∈ s, IsPlain c) (w r : List Char) :
    scan (some w) (s ++ '"' :: r) =
      (scan none r).map (.text (String.ofList (w.reverse ++ s)) :: ·) := by
  induction s generalizing w with
  | nil => simp [scan]
  | cons c s ih =>
    rw [List.forall_mem_cons] at h
    rw [List.cons_append, scan, if_neg h.1.1, if_pos h.1, ih h.2]
    simp

/-- What is scanned from within a quoted text goes on to its end. -/
lemma exists_of_scan (h : scan (some w) cs = some ts) : ∃ s r us, cs = s ++ '"' :: r ∧
    (∀ c ∈ s, IsPlain c) ∧ scan none r = some us ∧
      ts = .text (String.ofList (w.reverse ++ s)) :: us := by
  induction cs generalizing w with
  | nil => cases h
  | cons c cs ih =>
    rw [scan] at h
    split at h
    · rename_i hquote
      obtain ⟨us, hus, rfl⟩ := Option.map_eq_some_iff.1 h
      exact ⟨[], cs, us, by rw [hquote, List.nil_append], by simp, hus, by simp⟩
    · split at h
      · rename_i hplain
        obtain ⟨s, r, us, rfl, hs, hus, rfl⟩ := ih h
        exact ⟨c :: s, r, us, rfl, List.forall_mem_cons.2 ⟨hplain, hs⟩, hus, by simp⟩
      · cases h

/-! ### Plain texts -/

lemma tokens?_space (h : isSpace c = true) (r : List Char) : tokens? (c :: r) = tokens? r := by
  simp only [isSpace, Bool.or_eq_true, beq_iff_eq] at h
  rcases h with ((rfl | rfl) | rfl) | rfl
  all_goals simp [tokens?, isSpace]

lemma tokens?_symbol {t : Token} (h : symbol? c = some t) (r : List Char) :
    tokens? (c :: r) = (tokens? r).map (t :: ·) := by
  unfold symbol? at h
  split at h
  all_goals cases h
  all_goals rw [tokens?]

/-- **A text that can be scanned has the tokens that are found, with anything behind it.** -/
lemma tokens?_scan (h : scan none cs = some ts) (r : List Char) :
    tokens? (cs ++ r) = (tokens? r).map (ts ++ ·) := by
  generalize hn : cs.length = n
  induction n using Nat.strongRecOn generalizing cs ts with
  | _ n ih =>
    have hnext {cs' : List Char} {us : List Token} (hus : scan none cs' = some us)
        (hlt : cs'.length < cs.length) : tokens? (cs' ++ r) = (tokens? r).map (us ++ ·) :=
      ih _ (hn ▸ hlt) hus rfl
    unfold scan at h
    split at h
    · obtain rfl := Option.some.inj h
      simp
    · obtain ⟨us, hus, rfl⟩ := Option.map_eq_some_iff.1 h
      simp only [List.cons_append, tokens?, hnext hus (by simp +arith), Option.map_map]
      rfl
    · obtain ⟨us, hus, rfl⟩ := Option.map_eq_some_iff.1 h
      simp only [List.cons_append, tokens?, hnext hus (by simp +arith), Option.map_map]
      rfl
    · obtain ⟨s, rest, us, rfl, hs, hus, rfl⟩ := exists_of_scan h
      have hsplit : '"' :: (s ++ '"' :: rest) ++ r = '"' :: (s ++ '"' :: (rest ++ r)) := by simp
      rw [hsplit, tokens?_quoted hs, hnext hus (by simp +arith), Option.map_map]
      rfl
    · rename_i c rest _ _ _
      rw [List.cons_append]
      split at h
      · rename_i hspace
        rw [tokens?_space hspace, hnext h (by simp)]
      · split at h
        · rename_i t hsymbol
          obtain ⟨us, hus, rfl⟩ := Option.map_eq_some_iff.1 h
          rw [tokens?_symbol hsymbol, hnext hus (by simp), Option.map_map]
          rfl
        · cases h
    · rename_i heq
      cases heq
    · rename_i heq
      cases heq

/-- The tokens that each of the lines is scanned to. -/
def Scans (ls : Lines) (tss : List (List Token)) : Prop :=
  List.Forall₂ (fun l ts => scan none l.toList = some ts) ls tss

variable {ls : Lines} {l : String} {tss : List (List Token)}

lemma scans_nil : Scans [] [] := .nil

lemma scans_cons (h : scan none l.toList = some ts) (hs : Scans ls tss) :
    Scans (l :: ls) (ts :: tss) := .cons h hs

/-- The same for a line of these characters. -/
lemma scans_ofList (h : scan none cs = some ts) (hs : Scans ls tss) :
    Scans (String.ofList cs :: ls) (ts :: tss) :=
  scans_cons (by rw [String.toList_ofList, h]) hs

lemma tokens?_lines (h : Scans ls tss) : tokens? (render ls).toList = some tss.flatten := by
  induction h with
  | nil => simp [render, tokens?]
  | @cons l ts ls tss hline hrest ih =>
    cases ls with
    | nil =>
      cases hrest
      have hall := tokens?_scan hline []
      rw [List.append_nil] at hall
      rw [Template.render_singleton, hall]
      simp [tokens?]
    | cons m r =>
      have hnewline : (render (l :: m :: r)).toList =
          l.toList ++ '\n' :: (render (m :: r)).toList := by
        rw [Template.render_cons_cons]
        simp
      rw [hnewline, tokens?_scan hline, tokens?_space (by decide), ih]
      rfl

/-- **A plain text in lines is read by the tokens of its lines.** -/
theorem parse?_scans (h : Scans ls tss) : parse? (render ls) = ofTokens? tss.flatten := by
  rw [parse?, tokens?_lines h]
  rfl

end ProviderGen.Document
