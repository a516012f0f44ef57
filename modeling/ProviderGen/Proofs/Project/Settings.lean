import Mathlib.Data.List.Basic
import ProviderGen.Project.Settings
import ProviderGen.Proofs.Toml.Spelling

/-!
Settings are read back as they were written. A line gives the tokens of its key and of its value,
and is a statement of its own; a statement with a new key puts the key behind those before it.
So a text of such lines is the list of its keys and values, and the settings are found in it
again, those that are absent because their keys are.
-/

namespace ProviderGen

open Toml (Token Reading isBare isWordChar doubleQuote singleQuote)

namespace Settings

variable {key value : String} {cs r rest : List Char} {c : Char} {ts : List Token}

/-! ### Tokens of a line -/

/-- A key that needs no quotes and has no dots. -/
def IsKey (key : String) : Prop := key.toList ≠ [] ∧ ∀ c ∈ key.toList, isBare c = true

instance (key : String) : Decidable (IsKey key) :=
  decidable_of_iff (key.toList ≠ [] ∧ key.toList.all isBare = true)
    (and_congr_right fun _ => List.all_eq_true)

lemma isWordChar_of_isBare (h : isBare c = true) : isWordChar c = true := by
  by_contra hword
  have hmem : c ∈ [' ', '\t', '\r', '\n', '=', ',', '[', ']', '{', '}', '#', doubleQuote,
      singleQuote] := by
    rw [isWordChar, Bool.not_eq_true', Bool.not_eq_false] at hword
    exact List.contains_iff_mem.1 hword
  have hall : ∀ c ∈ [' ', '\t', '\r', '\n', '=', ',', '[', ']', '{', '}', '#', doubleQuote,
      singleQuote], isBare c = false := List.forall_iff_forall_mem.1 (by decide)
  rw [hall c hmem] at h
  cases h

lemma tokens?_cons {r' : List Char} (h : Toml.tokensAt? c r = some (ts, r')) :
    Toml.tokens? (c :: r) = (Toml.tokens? r').map (ts ++ ·) := by
  rw [Toml.tokens?]
  split
  · rename_i h'
    rw [h] at h'
    obtain ⟨rfl, rfl⟩ := Prod.mk.inj (Option.some.inj h')
    rfl
  · rename_i h'
    rw [h] at h'
    cases h'

lemma tokens?_symbol {t : Token} (h : Toml.symbol? c = some t) :
    Toml.tokens? (c :: r) = (Toml.tokens? r).map ([t] ++ ·) := by
  refine tokens?_cons ?_
  rw [Toml.tokensAt?, h]

lemma tokens?_key (h : IsKey key) (r : List Char) :
    Toml.tokens? (key.toList ++ ' ' :: '=' :: r) =
      (Toml.tokens? (' ' :: '=' :: r)).map ([.word key.toList] ++ ·) := by
  obtain ⟨hne, hbare⟩ := h
  obtain ⟨c, k, hkey⟩ := List.exists_cons_of_ne_nil hne
  rw [hkey] at hbare ⊢
  have htake : (c :: k ++ ' ' :: '=' :: r).takeWhile isWordChar = c :: k := by
    rw [List.takeWhile_append_of_pos fun x hx => isWordChar_of_isBare (hbare x hx),
      List.takeWhile_cons_of_neg (by decide), List.append_nil]
  have hword : Toml.word (c :: (k ++ ' ' :: '=' :: r)) = (c :: k, ' ' :: '=' :: r) := by
    rw [Toml.word, ← List.cons_append, htake, List.drop_left]
    simp
  have hc : isBare c = true := hbare c List.mem_cons_self
  have hsymbol : Toml.symbol? c = none := by
    unfold Toml.symbol?
    split <;> first | rfl | exact absurd hc (by decide)
  rw [List.cons_append]
  refine tokens?_cons ?_
  rw [Toml.tokensAt?, hsymbol]
  have hne : ∀ x, isBare x = false → c ≠ x := by
    rintro x hx rfl
    rw [hc] at hx
    cases hx
  rw [if_neg (hne _ (by decide)), if_neg (hne _ (by decide)), if_neg, hword]
  simp [hne doubleQuote (by decide), hne singleQuote (by decide)]

lemma tokens?_text (cs r : List Char) : ∃ t,
    (t = .text (String.ofList cs) ∨ t = .block (String.ofList cs)) ∧
      Toml.tokens? (Toml.spelled cs ++ '\n' :: r) =
        (Toml.tokens? ('\n' :: r)).map ([t] ++ ·) := by
  obtain ⟨q, w, t, hw, hq, hread, ht⟩ := Toml.textAt?_spelled cs r
  refine ⟨t, ht, ?_⟩
  rw [hw, List.cons_append]
  refine tokens?_cons ?_
  have hsymbol : Toml.symbol? q = none ∧ q ≠ '\r' ∧ q ≠ '#' := by
    rcases hq with rfl | rfl <;> decide
  rw [Toml.tokensAt?, hsymbol.1, if_neg hsymbol.2.1, if_neg hsymbol.2.2, if_pos (by simpa using hq),
    hread]
  rfl

/-- The statement that a line is. -/
def statementOf (key : String) (t : Token) : List Token :=
  [.word key.toList, .space, .equals, .space, t]

lemma tokens?_line (h : IsKey key) (value : String) (r : List Char) : ∃ t,
    (t = .text value ∨ t = .block value) ∧
      Toml.tokens? ((line key value).toList ++ r) =
        (Toml.tokens? r).map (statementOf key t ++ [.newline] ++ ·) := by
  obtain ⟨t, ht, htext⟩ := tokens?_text value.toList r
  rw [String.ofList_toList] at ht
  have hline : (line key value).toList ++ r =
      key.toList ++ ' ' :: '=' :: ' ' :: (Toml.spelled value.toList ++ '\n' :: r) := by
    simp [line, Toml.spell]
  refine ⟨t, ht, ?_⟩
  rw [hline, tokens?_key h, tokens?_symbol rfl, tokens?_symbol rfl, tokens?_symbol rfl, htext,
    tokens?_symbol rfl]
  cases Toml.tokens? r with
  | none => rfl
  | some ts => rfl

/-! ### Reading a line -/

lemma statementsFrom_line {t : Token} (ht : t = .text value ∨ t = .block value)
    (key : String) (ts : List Token) :
    Toml.statementsFrom 0 [] (statementOf key t ++ [.newline] ++ ts) =
      statementOf key t :: Toml.statementsFrom 0 [] ts := by
  rcases ht with rfl | rfl <;> simp [statementOf, Toml.statementsFrom, Toml.depthAfter]

lemma key?_word (h : IsKey key) : Toml.key? [.word key.toList, .space] = some ([], key) := by
  obtain ⟨hne, hbare⟩ := h
  have hdot : key.toList.splitOn '.' = [key.toList] := by
    refine List.splitOnP_eq_singleton fun c hc => beq_false_of_ne fun e => ?_
    exact absurd (hbare c hc) (e ▸ by decide)
  have hpieces : Toml.partsOfPieces? (key.toList.splitOn '.') = some [.name key] := by
    have hall : key.toList.all isBare = true := List.all_eq_true.2 hbare
    have hempty : key.toList.isEmpty = false := by simpa using hne
    rw [hdot]
    simp [Toml.partsOfPieces?, hall, hempty]
  simp [Toml.key?, Toml.partsOf?, hpieces, Toml.names?, Toml.keyLimit]

lemma value?_text {t : Token} (ht : t = .text value ∨ t = .block value) :
    Toml.value? [.space, t] = some (.text value) := by
  rcases ht with rfl | rfl <;> rfl

lemma put_new {ms : Toml.Members} {n : Toml.Node} (h : ms.lookup key = none) :
    Toml.Members.put key n ms = ms ++ [(key, n)] := by
  induction ms with
  | nil => rfl
  | cons m r ih =>
    obtain ⟨k, v⟩ := m
    rw [List.lookup_cons] at h
    split at h
    · cases h
    · rename_i hk
      have hne : k ≠ key := fun e => by simp [e] at hk
      rw [Toml.Members.put, if_neg hne, ih h, List.cons_append]

/-- A line with a new key at the top puts the key behind those that are there. -/
lemma statement_line {ms : Toml.Members} {t : Token} (h : IsKey key)
    (ht : t = .text value ∨ t = .block value) (hnew : ms.lookup key = none) :
    Reading.statement ⟨ms, []⟩ (statementOf key t) = some ⟨ms ++ [(key, .text value)], []⟩ := by
  have hstatement : Reading.statement ⟨ms, []⟩ (statementOf key t) =
      Reading.entry ⟨ms, []⟩ [.word key.toList, .space] [.space, t] := by
    rcases ht with rfl | rfl <;> rfl
  rw [hstatement, Reading.entry, key?_word h]
  simp [value?_text ht, Reading.change, Toml.Members.within, Toml.Members.assign, hnew,
    put_new hnew]

/-! ### Reading a text of lines -/

/-- Texts by their keys, as members of a table. -/
def membersOf (pairs : List (String × String)) : Toml.Members :=
  pairs.map fun p => (p.1, .text p.2)

/-- Texts by their keys, one on each line. -/
def lines (pairs : List (String × String)) : List Char :=
  pairs.flatMap fun p => (line p.1 p.2).toList

lemma lookup_append_text {ms : Toml.Members} {k : String} {n : Toml.Node}
    (h : ms.lookup k = none) (hne : k ≠ key) : (ms ++ [(key, n)]).lookup k = none := by
  have hkey : (k == key) = false := by simpa using hne
  rw [List.lookup_append, h, Option.none_or, List.lookup_cons, hkey]
  rfl

/-- Lines with new keys put them behind those that are there, in their order. -/
lemma statements_lines {pairs : List (String × String)} {ms : Toml.Members}
    (hkeys : ∀ p ∈ pairs, IsKey p.1 ∧ ms.lookup p.1 = none) (hnodup : (pairs.map Prod.fst).Nodup) :
    ∃ ts, Toml.tokens? (lines pairs) = some ts ∧
      (Toml.statements ts).foldlM Reading.statement ⟨ms, []⟩ =
        some ⟨ms ++ membersOf pairs, []⟩ := by
  induction pairs generalizing ms with
  | nil =>
    refine ⟨[], by rw [lines, List.flatMap_nil, Toml.tokens?], ?_⟩
    simp [Toml.statements, Toml.statementsFrom, membersOf, Reading.statement, Toml.withoutSpaces]
  | cons p pairs ih =>
    obtain ⟨key, value⟩ := p
    rw [List.forall_mem_cons] at hkeys
    rw [List.map_cons, List.nodup_cons] at hnodup
    obtain ⟨t, ht, htokens⟩ := tokens?_line hkeys.1.1 value (lines pairs)
    have hkeys' : ∀ p ∈ pairs, IsKey p.1 ∧
        (ms ++ [(key, Toml.Node.text value)]).lookup p.1 = none := by
      intro p hp
      refine ⟨(hkeys.2 p hp).1, lookup_append_text (hkeys.2 p hp).2 fun e => hnodup.1 ?_⟩
      rw [← e]
      exact List.mem_map_of_mem (f := Prod.fst) (a := p) hp
    obtain ⟨ts, hts, hread⟩ := ih hkeys' hnodup.2
    refine ⟨statementOf key t ++ [.newline] ++ ts, ?_, ?_⟩
    · rw [lines, List.flatMap_cons, ← lines, htokens, hts]
      rfl
    · rw [Toml.statements, statementsFrom_line ht, List.foldlM_cons,
        statement_line hkeys.1.1 ht hkeys.1.2]
      refine hread.trans ?_
      rw [membersOf, membersOf, List.map_cons, List.append_assoc, List.singleton_append]

/-- **A text of lines is read as the table of its keys and values.** -/
theorem parse?_lines {text : String} {pairs : List (String × String)}
    (htext : text.toList = lines pairs) (hmark : text.toList.head? ≠ some '\ufeff')
    (hkeys : ∀ p ∈ pairs, IsKey p.1) (hnodup : (pairs.map Prod.fst).Nodup) :
    Toml.parse? text = some (membersOf pairs) := by
  have hfree : ∀ p ∈ pairs, IsKey p.1 ∧ ([] : Toml.Members).lookup p.1 = none :=
    fun p hp => ⟨hkeys p hp, rfl⟩
  obtain ⟨ts, hts, hread⟩ := statements_lines hfree hnodup
  have hmark : Toml.withoutMark text.toList = text.toList := by
    unfold Toml.withoutMark
    split
    · rename_i e
      exact absurd (by rw [e]; rfl) hmark
    · rfl
  rw [Toml.parse?, hmark, htext, hts]
  simp only [Option.bind_eq_bind, Option.bind_some]
  rw [Reading.start, hread]
  rfl

/-! ### Settings -/

/-- The values that are there, by their keys. -/
def present (fields : List (String × Option String)) : List (String × String) :=
  fields.filterMap fun p => p.2.map (p.1, ·)

lemma keys_present (fields : List (String × Option String)) :
    ((present fields).map Prod.fst).Sublist (fields.map Prod.fst) := by
  induction fields with
  | nil => exact .slnil
  | cons p r ih =>
    obtain ⟨key, value?⟩ := p
    cases value? with
    | none => exact ih.cons key
    | some value => exact ih.cons_cons key

lemma lookup_present {fields : List (String × Option String)}
    (hnodup : (fields.map Prod.fst).Nodup) (key : String) :
    (membersOf (present fields)).lookup key =
      ((fields.lookup key).bind id).map Toml.Node.text := by
  induction fields with
  | nil => rfl
  | cons p r ih =>
    obtain ⟨k, value?⟩ := p
    rw [List.map_cons, List.nodup_cons] at hnodup
    rw [List.lookup_cons]
    cases value? with
    | none =>
      refine (ih hnodup.2).trans ?_
      split
      · rename_i hkey
        have habsent : r.lookup key = none := by
          rw [List.lookup_eq_none_iff]
          intro p hp
          refine bne_iff_ne.2 fun e => hnodup.1 ?_
          rw [← eq_of_beq hkey, e]
          exact List.mem_map_of_mem (f := Prod.fst) (a := p) hp
        rw [habsent]
        rfl
      · rfl
    | some value =>
      have hcons : membersOf (present ((k, some value) :: r)) =
          (k, .text value) :: membersOf (present r) := rfl
      rw [hcons, List.lookup_cons]
      split
      · rfl
      · exact ih hnodup.2

lemma toList_text (s : Settings) : s.text.toList = lines (present s.fields) := by
  have hlines : s.text = String.join ((present s.fields).map fun p => line p.1 p.2) := by
    rw [present, List.map_filterMap, text]
    congr 2
    funext p
    rw [Option.map_map]
    rfl
  rw [hlines, String.toList_join, List.flatMap_map]
  rfl

lemma text?_of_lookup {ms : Toml.Members} {v : Option String}
    (h : ms.lookup key = v.map Toml.Node.text) : text? ms key = .ok v := by
  rw [text?, h]
  cases v <;> rfl

/-- **Settings are read back as they were written**, whatever texts they hold, and with the same
ones absent. -/
theorem read_text (s : Settings) : Settings.read s.text = .ok s := by
  have hnodup : (s.fields.map Prod.fst).Nodup := by
    show ["type_name", "language", "runtime", "entrypoint", "namespace", "schema_file"].Nodup
    decide
  have hkeys : ∀ key ∈ s.fields.map Prod.fst, IsKey key := by
    show ∀ key ∈ ["type_name", "language", "runtime", "entrypoint", "namespace", "schema_file"],
      IsKey key
    decide
  have hmark : s.text.toList.head? ≠ some '\ufeff' := by
    have hhead : s.text.toList.head? = some 't' := by
      rw [toList_text]
      simp [lines, present, fields, line]
    rw [hhead]
    decide
  have hparse : Toml.parse? s.text = some (membersOf (present s.fields)) := by
    refine parse?_lines (toList_text s) hmark (fun p hp => hkeys _ ?_)
      (hnodup.sublist (keys_present _))
    exact (keys_present _).subset (List.mem_map_of_mem hp)
  have hfind : ∀ key v, s.fields.lookup key = some v →
      text? (membersOf (present s.fields)) key = .ok v := by
    intro key v hv
    refine text?_of_lookup ?_
    rw [lookup_present hnodup, hv]
    rfl
  rw [Settings.read, hparse]
  simp only [ofMembers, hfind "type_name" (some s.typeName) rfl,
    hfind "language" (some s.language) rfl, hfind "runtime" s.runtime rfl,
    hfind "entrypoint" s.entrypoint rfl, hfind "namespace" s.package rfl,
    hfind "schema_file" s.schemaFile rfl]
  rfl

end Settings

end ProviderGen
