import ProviderGen.Toml.Spelling
import Mathlib.Data.List.TakeWhile
import Mathlib.Tactic.Lemma

/-!
Texts are read as they were spelled. In each of the four forms the reader meets the characters of
the text one after the other, escaped or not, and comes to the closing quotes where the text ends
and not before: between single quotes there is no quote, and between three quotes there are never
three in a row, those that end the text and those that close it apart.
-/

namespace ProviderGen.Toml

open ProviderGen.Text (hexNumber?)

variable {c q : Char} {cs w r rest : List Char} {breaks : Bool} {k run : ℕ}

/-! ### Escapes -/

lemma fourDigits_ok {n : ℕ} (h : n < 128) :
    (fourDigits n).length = 4 ∧ hexNumber? (fourDigits n) = some n := by
  have hall : ∀ n : Fin 128,
      (fourDigits n).length = 4 ∧ hexNumber? (fourDigits n) = some n.val := by
    decide
  exact hall ⟨n, h⟩

lemma numbered?_fourDigits (h : c.toNat < 128) (r : List Char) :
    numbered? 4 (fourDigits c.toNat ++ r) = some (c, r) := by
  obtain ⟨hlength, hnumber⟩ := fourDigits_ok h
  have htake : (fourDigits c.toNat ++ r).take 4 = fourDigits c.toNat := by
    rw [← hlength, List.take_left]
  have hdrop : (fourDigits c.toNat ++ r).drop 4 = r := by
    rw [← hlength, List.drop_left]
  have hchar : charOf? c.toNat = some c := by
    unfold charOf?
    rw [if_pos (by simp; omega), Char.ofNat_toNat]
  rw [numbered?, htake, hdrop, if_pos hlength, hnumber, Option.bind_some, hchar]
  rfl

lemma lt_of_isControl (h : isControl c = true) : c.toNat < 128 := by
  simp only [isControl, Bool.or_eq_true, Bool.and_eq_true, decide_eq_true_eq, beq_iff_eq] at h
  omega

lemma isPlain_of_not_isControl (h : isControl c = false) (hc : c ≠ '\n') : isPlain c = true := by
  simp only [isControl, Bool.or_eq_false_iff, Bool.and_eq_false_iff, decide_eq_false_iff_not,
    bne_eq_false_iff_eq, beq_eq_false_iff_ne] at h
  simp only [isPlain, Bool.or_eq_true, Bool.and_eq_true, decide_eq_true_eq, beq_iff_eq,
    bne_iff_ne]
  obtain ⟨(h | rfl) | rfl, hdelete⟩ := h
  · exact Or.inr ⟨by omega, hdelete⟩
  · exact Or.inl rfl
  · exact absurd rfl hc

/-- How a character is written between double quotes, a quote that counts as one apart. -/
inductive Written (breaks : Bool) (c : Char) : List Char → Prop where
  | plain (h : isPlain c = true ∨ breaks = true ∧ c = '\n') (hc : c ≠ '\\')
      (hq : c ≠ doubleQuote) : Written breaks c [c]
  | escape (x : Char) (e : List Char) (hx : x ≠ ' ' ∧ x ≠ '\t' ∧ x ≠ '\n' ∧ x ≠ '\r')
      (h : ∀ r, escape? (x :: e ++ r) = some (c, r)) : Written breaks c ('\\' :: x :: e)

lemma written_escaped (breaks : Bool) (hq : c ≠ doubleQuote) :
    Written breaks c (escaped breaks c) := by
  unfold escaped
  split
  · rename_i h
    subst h
    exact .escape 'b' [] (by decide) fun _ => rfl
  split
  · rename_i h
    subst h
    exact .escape 't' [] (by decide) fun _ => rfl
  split
  · rename_i h
    subst h
    split
    · rename_i hbreaks
      exact .plain (Or.inr ⟨hbreaks, rfl⟩) (by decide) (by decide)
    · exact .escape 'n' [] (by decide) fun _ => rfl
  split
  · rename_i h
    subst h
    exact .escape 'f' [] (by decide) fun _ => rfl
  split
  · rename_i h
    subst h
    exact .escape 'r' [] (by decide) fun _ => rfl
  split
  · rename_i h
    subst h
    exact .escape '\\' [] (by decide) fun _ => rfl
  split
  · rename_i h
    exact .escape 'u' _ (by decide) fun r => numbered?_fourDigits (lt_of_isControl h) r
  · rename_i hbreak _ _ hslash hcontrol
    exact .plain (Or.inl (isPlain_of_not_isControl (by simpa using hcontrol) hbreak)) hslash hq

lemma written_quote (breaks : Bool) : Written breaks doubleQuote ['\\', doubleQuote] :=
  .escape doubleQuote [] (by decide) fun _ => rfl

section

variable {limit : ℕ}

lemma body_quote (h : run < limit) (r : List Char) : body breaks limit run (doubleQuote :: r) =
    doubleQuote :: body breaks limit (run + 1) r := by
  rw [body, if_pos rfl, if_pos h]

lemma body_escaped (h : ¬ run < limit) (r : List Char) :
    body breaks limit run (doubleQuote :: r) =
      ['\\', doubleQuote] ++ body breaks limit 0 r := by
  rw [body, if_pos rfl, if_neg h]
  rfl

lemma body_other (h : c ≠ doubleQuote) (r : List Char) :
    body breaks limit run (c :: r) = escaped breaks c ++ body breaks limit 0 r := by
  rw [body, if_neg h]

end

/-! ### On one line -/

lemma quoted?_close (r : List Char) : quoted? (doubleQuote :: r) = some ([], r) := by
  rw [quoted?, if_pos rfl]

lemma quoted?_written (h : Written false c w) (r : List Char) :
    quoted? (w ++ r) = (quoted? r).map fun (s, t) => (c :: s, t) := by
  cases h with
  | plain hplain hslash hq =>
    have hplain : isPlain c = true := by simpa using hplain
    rw [List.singleton_append, quoted?, if_neg hq, if_neg hslash, if_pos hplain]
  | escape x e hx hescape =>
    rw [List.cons_append, quoted?, if_neg (by decide), if_pos rfl]
    split
    · rename_i c' r' he
      obtain ⟨rfl, rfl⟩ := Prod.mk.inj (Option.some.inj ((hescape r).symm.trans he))
      rfl
    · rename_i he
      rw [hescape r] at he
      cases he

lemma quoted?_body (cs rest : List Char) :
    quoted? (body false 0 0 cs ++ doubleQuote :: rest) = some (cs, rest) := by
  induction cs with
  | nil => exact quoted?_close rest
  | cons c r ih =>
    by_cases hc : c = doubleQuote
    · rw [hc, body_escaped (by omega), List.append_assoc, quoted?_written (written_quote false), ih]
      rfl
    · rw [body_other hc, List.append_assoc, quoted?_written (written_escaped false hc), ih]
      rfl

lemma literal?_plain (h : ∀ c ∈ cs, isPlain c = true ∧ c ≠ singleQuote) (rest : List Char) :
    literal? (cs ++ singleQuote :: rest) = some (cs, rest) := by
  have htake : (cs ++ singleQuote :: rest).takeWhile (· != singleQuote) = cs := by
    rw [List.takeWhile_append_of_pos fun c hc => by simpa using (h c hc).2,
      List.takeWhile_cons_of_neg (by simp), List.append_nil]
  have hdrop : (cs ++ singleQuote :: rest).drop (cs.length + 1) = rest := by
    simp
  have hall : cs.all isPlain = true := List.all_eq_true.2 fun c hc => (h c hc).1
  rw [literal?, htake]
  simp [hall]

/-! ### Over several lines -/

/-- The quotes at the front of a text are at most so many. -/
inductive StartsShort (q : Char) (limit : ℕ) : List Char → Prop where
  | quotes (k : ℕ) (hk : k ≤ limit) : StartsShort q limit (List.replicate k q)
  | other (k : ℕ) (hk : k ≤ limit) (x : Char) (hx : x ≠ q) (tail : List Char) :
      StartsShort q limit (List.replicate k q ++ x :: tail)

lemma StartsShort.cons {limit : ℕ} (h : StartsShort q limit w) :
    StartsShort q (limit + 1) (q :: w) := by
  cases h with
  | quotes k hk => exact .quotes (k + 1) (by omega)
  | other k hk x hx tail => exact .other (k + 1) (by omega) x hx tail

lemma StartsShort.mono {limit limit' : ℕ} (h : StartsShort q limit w) (hle : limit ≤ limit') :
    StartsShort q limit' w := by
  cases h with
  | quotes k hk => exact .quotes k (by omega)
  | other k hk x hx tail => exact .other k (by omega) x hx tail

lemma StartsShort.of_ne {limit : ℕ} (hc : c ≠ q) (r : List Char) : StartsShort q limit (c :: r) :=
  .other 0 (by omega) c hc r

/-- A text that starts with at most two is closed at once just if it consists of quotes. -/
lemma closing?_of_startsShort (h : StartsShort q 2 w) (hrest : rest.head? ≠ some q) :
    closing? q (w ++ List.replicate 3 q ++ rest) =
      if w.all (· == q) then some (w, rest) else none := by
  have hrun : ∀ k ≤ 5, ∀ r : List Char, r.head? ≠ some q →
      ((List.replicate k q ++ r).take 5).takeWhile (· == q) = List.replicate k q := by
    intro k hk r hr
    rw [List.take_append, List.take_replicate, Nat.min_eq_right hk, List.length_replicate,
      List.takeWhile_append_of_pos fun c hc => by simpa using List.eq_of_mem_replicate hc]
    cases r with
    | nil => simp
    | cons x r =>
      cases 5 - k with
      | zero => simp
      | succ j =>
        rw [List.take_succ_cons, List.takeWhile_cons_of_neg, List.append_nil]
        simpa using hr
  cases h with
  | quotes k hk =>
    rw [List.replicate_append_replicate, closing?, hrun (k + 3) (by omega) rest hrest,
      List.length_replicate, if_pos (by omega), if_pos (by simp)]
    simp
  | other k hk x hx tail =>
    have hhead : (x :: tail ++ List.replicate 3 q ++ rest).head? ≠ some q := by simpa using hx
    rw [List.append_assoc, List.append_assoc, ← List.append_assoc (x :: tail), closing?,
      hrun k (by omega) _ hhead, List.length_replicate, if_neg (by omega), if_neg]
    intro hall
    exact hx (by simpa using List.all_eq_true.1 hall x (by simp))

lemma afterBreak_of_head (h : ∀ x ∈ w.head?, x ≠ '\n' ∧ x ≠ '\r') : afterBreak w = w := by
  unfold afterBreak
  split
  · exact absurd rfl (h '\n' rfl).1
  · exact absurd rfl (h '\r' rfl).2
  · rfl

lemma continued?_of_mark (hc : c ≠ ' ' ∧ c ≠ '\t' ∧ c ≠ '\n' ∧ c ≠ '\r') (r : List Char) :
    continued? (c :: r) = none := by
  obtain ⟨h₁, h₂, h₃, h₄⟩ := hc
  have hdrop : (c :: r).dropWhile (fun c => c == ' ' || c == '\t') = c :: r := by
    simp [h₁, h₂]
  rw [continued?, hdrop, afterBreak_of_head (by simp [h₃, h₄]), if_neg (by omega)]

/-- A character that stands for itself, a quote not excluded. -/
lemma block?_stands (escapes : Bool) (hclosing : closing? q (c :: r) = none)
    (hc : escapes = false ∨ c ≠ '\\') (hstands : isPlain c = true ∨ c = '\n') :
    block? escapes q (c :: r) = (block? escapes q r).map fun (s, t) => (c :: s, t) := by
  have hstands : standsBefore r c = true := by
    rcases hstands with hplain | rfl
    · simp [standsBefore, hplain]
    · rfl
  have hslash : (escapes && c == '\\') = false := by
    rcases hc with rfl | hc
    · rfl
    · simp [hc]
  rw [block?.eq_def, hclosing]
  simp [hslash, hstands]

lemma block?_written (h : Written true c w) (hclosing : closing? doubleQuote (w ++ r) = none) :
    block? true doubleQuote (w ++ r) =
      (block? true doubleQuote r).map fun (s, t) => (c :: s, t) := by
  cases h with
  | plain hplain hslash hq =>
    exact block?_stands true hclosing (Or.inr hslash) (hplain.imp_right And.right)
  | escape x e hx hescape =>
    rw [List.cons_append] at hclosing ⊢
    rw [block?.eq_def, hclosing]
    simp only [beq_self_eq_true, Bool.and_self, if_true]
    split
    · rename_i r' he
      rw [List.cons_append, continued?_of_mark hx] at he
      cases he
    · split
      · rename_i c' r' he
        obtain ⟨rfl, rfl⟩ := Prod.mk.inj (Option.some.inj ((hescape r).symm.trans he))
        rfl
      · rename_i he
        rw [hescape r] at he
        cases he

lemma block?_close (escapes : Bool) {s t : List Char} (hclosing : closing? q w = some (s, t)) :
    block? escapes q w = some (s, t) := by
  rw [block?.eq_def, hclosing]

/-- What a character is written as, unless it is a quote, starts with something else. -/
lemma Written.head_ne (h : Written breaks c w) : ∃ x tail, w = x :: tail ∧ x ≠ doubleQuote := by
  cases h with
  | plain _ _ hq => exact ⟨c, [], rfl, hq⟩
  | escape x e _ _ => exact ⟨'\\', x :: e, rfl, by decide⟩

lemma startsShort_body (h : run ≤ 2) (cs : List Char) :
    StartsShort doubleQuote (2 - run) (body true 2 run cs) := by
  induction cs generalizing run with
  | nil => exact .quotes 0 (by omega)
  | cons c r ih =>
    by_cases hc : c = doubleQuote
    · subst hc
      by_cases hrun : run < 2
      · rw [body_quote hrun, show 2 - run = 2 - (run + 1) + 1 by omega]
        exact (ih (by omega)).cons
      · rw [body_escaped hrun]
        exact .of_ne (by decide) _
    · rw [body_other hc]
      obtain ⟨x, tail, hx, hne⟩ := (written_escaped true hc).head_ne
      rw [hx]
      exact .of_ne hne _

/-- What is written consists of quotes only if it is the text itself. -/
lemma body_of_quotes (h : ∀ x ∈ body true 2 run cs, x = doubleQuote) : body true 2 run cs = cs := by
  induction cs generalizing run with
  | nil => rfl
  | cons c r ih =>
    by_cases hc : c = doubleQuote
    · subst hc
      by_cases hrun : run < 2
      · rw [body_quote hrun] at h ⊢
        rw [ih fun x hx => h x (List.mem_cons_of_mem _ hx)]
      · rw [body_escaped hrun] at h
        exact absurd (h '\\' (by simp)) (by decide)
    · rw [body_other hc] at h
      obtain ⟨x, tail, hx, hne⟩ := (written_escaped true hc).head_ne
      exact absurd (h x (by simp [hx])) hne

lemma block?_body (h : run ≤ 2) (cs : List Char) (hrest : rest.head? ≠ some doubleQuote) :
    block? true doubleQuote (body true 2 run cs ++ List.replicate 3 doubleQuote ++ rest) =
      some (cs, rest) := by
  induction cs generalizing run with
  | nil => exact block?_close true (closing?_of_startsShort (.quotes 0 (by omega)) hrest)
  | cons c r ih =>
    have hclosing := closing?_of_startsShort ((startsShort_body h (c :: r)).mono (by omega)) hrest
    by_cases hall : (body true 2 run (c :: r)).all (· == doubleQuote) = true
    · rw [if_pos hall, body_of_quotes (by simpa using hall)] at hclosing
      rw [body_of_quotes (by simpa using hall)]
      exact block?_close true hclosing
    rw [if_neg hall] at hclosing
    by_cases hc : c = doubleQuote
    · subst hc
      by_cases hrun : run < 2
      · rw [body_quote hrun] at hclosing ⊢
        simp only [List.append_assoc, List.cons_append] at hclosing ih ⊢
        rw [block?_stands true hclosing (Or.inr (by decide)) (Or.inl (by decide)), ih (by omega)]
        rfl
      · rw [body_escaped hrun] at hclosing ⊢
        simp only [List.append_assoc] at hclosing ih ⊢
        rw [block?_written (written_quote true) hclosing, ih (by omega)]
        rfl
    · rw [body_other hc] at hclosing ⊢
      simp only [List.append_assoc] at hclosing ih ⊢
      rw [block?_written (written_escaped true hc) hclosing, ih (by omega)]
      rfl

/-! ### Runs of quotes -/

lemma le_longestRunFrom (q : Char) (run : ℕ) (cs : List Char) : run ≤ longestRunFrom q run cs := by
  induction cs generalizing run with
  | nil => exact le_refl run
  | cons c r ih =>
    unfold longestRunFrom
    split
    · have := ih (run + 1)
      omega
    · omega

lemma startsShort_of_longestRunFrom (h : longestRunFrom q run cs ≤ 2) :
    StartsShort q (2 - run) cs := by
  induction cs generalizing run with
  | nil => exact .quotes 0 (by omega)
  | cons c r ih =>
    unfold longestRunFrom at h
    split at h
    · rename_i hc
      have hrun := le_longestRunFrom q (run + 1) r
      rw [hc, show 2 - run = 2 - (run + 1) + 1 by omega]
      exact (ih h).cons
    · rename_i hc
      exact .of_ne hc r

/-- A text without control characters, with line breaks and with no three quotes in a row. -/
lemma block?_literal (h : longestRunFrom q run cs ≤ 2) (hplain : ∀ c ∈ cs, isControl c = false)
    (hrest : rest.head? ≠ some q) :
    block? false q (cs ++ List.replicate 3 q ++ rest) = some (cs, rest) := by
  induction cs generalizing run with
  | nil => exact block?_close false (closing?_of_startsShort (.quotes 0 (by omega)) hrest)
  | cons c r ih =>
    have hclosing :=
      closing?_of_startsShort ((startsShort_of_longestRunFrom h).mono (by omega)) hrest
    rw [List.forall_mem_cons] at hplain
    by_cases hall : (c :: r).all (· == q) = true
    · rw [if_pos hall] at hclosing
      exact block?_close false hclosing
    · have hstands : isPlain c = true ∨ c = '\n' := by
        by_cases hbreak : c = '\n'
        · exact Or.inr hbreak
        · exact Or.inl (isPlain_of_not_isControl hplain.1 hbreak)
      have hnext : ∃ run', longestRunFrom q run' r ≤ 2 := by
        unfold longestRunFrom at h
        split at h
        · exact ⟨_, h⟩
        · exact ⟨0, by omega⟩
      obtain ⟨run', hrun⟩ := hnext
      rw [if_neg hall] at hclosing
      simp only [List.append_assoc, List.cons_append] at hclosing ih ⊢
      rw [block?_stands false hclosing (Or.inl rfl) hstands, ih hrun hplain.2]
      rfl

/-! ### The four forms -/

lemma not_mem_of_longestRun (h : longestRun q cs = 0) : q ∉ cs := by
  have hzero : ∀ run, longestRunFrom q run cs = 0 → q ∉ cs := by
    induction cs with
    | nil => simp
    | cons c r ih =>
      intro run h
      unfold longestRunFrom at h
      split at h
      · have := le_longestRunFrom q (run + 1) r
        omega
      · rename_i hc
        rw [List.mem_cons, not_or]
        exact ⟨fun e => hc e.symm, ih (by rw [longestRun]; omega) 0 (by omega)⟩
  exact hzero 0 h

lemma not_isControl_of_formOf (h : formOf cs = .literal ∨ formOf cs = .literalBlock) :
    ∀ c ∈ cs, isControl c = false := by
  have hany : cs.any isControl = false := by
    unfold formOf at h
    by_contra hany
    rw [if_pos (by simpa using hany)] at h
    split at h <;> simp at h
  simpa using hany

lemma isPlain_of_literal (h : formOf cs = .literal) :
    ∀ c ∈ cs, isPlain c = true ∧ c ≠ singleQuote := by
  have hcontrol := not_isControl_of_formOf (Or.inl h)
  have hfree : '\n' ∉ cs ∧ singleQuote ∉ cs := by
    unfold formOf at h
    dsimp only at h
    split at h
    · split at h <;> cases h
    split at h
    · cases h
    split at h
    · rename_i hform
      simp only [Bool.and_eq_true, decide_eq_true_eq, Bool.not_eq_true', List.contains_eq_mem,
        decide_eq_false_iff_not] at hform
      exact ⟨hform.2, not_mem_of_longestRun hform.1⟩
    · repeat' split at h
      all_goals cases h
  exact fun c hc => ⟨isPlain_of_not_isControl (hcontrol c hc) fun e => hfree.1 (e ▸ hc),
    fun e => hfree.2 (e ▸ hc)⟩

lemma longestRun_of_literalBlock (h : formOf cs = .literalBlock) :
    longestRun singleQuote cs ≤ 2 := by
  unfold formOf at h
  dsimp only at h
  repeat' split at h
  all_goals first
    | assumption
    | cases h

/-- A text between the quotes of one line is not taken for one over several lines. -/
lemma take_ne_quotes (hw : w.head? ≠ some q) (hrest : rest.head? ≠ some q) :
    (w ++ q :: rest).take 2 ≠ [q, q] := by
  cases w with
  | nil =>
    cases rest with
    | nil => simp
    | cons x rest =>
      simpa using hrest
  | cons x w =>
    simp at hw
    simp [hw]

/-- The line break that is written for the form, and no other, is skipped. -/
lemma afterBreak_opening (h : ∀ x ∈ (w ++ rest).head?, '\n' ∉ cs → x ≠ '\n' ∧ x ≠ '\r') :
    afterBreak (opening cs ++ w ++ rest) = w ++ rest := by
  unfold opening
  split
  · rfl
  · rename_i hbreak
    exact afterBreak_of_head fun x hx => h x hx (by simpa using hbreak)

lemma head_of_quotes {x : Char} (hx : x ∈ (List.replicate 3 q ++ rest).head?) : x = q := by
  simpa using hx.symm

lemma head_body {x : Char} (h : '\n' ∉ cs)
    (hx : x ∈ (body true 2 0 cs ++ (List.replicate 3 doubleQuote ++ rest)).head?) :
    x ≠ '\n' ∧ x ≠ '\r' := by
  cases cs with
  | nil =>
    rw [head_of_quotes hx]
    decide
  | cons c r =>
    by_cases hc : c = doubleQuote
    · subst hc
      rw [body_quote (by omega)] at hx
      cases hx
      decide
    · have hw := written_escaped true hc
      rw [body_other hc] at hx
      generalize escaped true c = w at hw hx
      cases hw with
      | plain hplain _ _ =>
        cases hx
        rcases hplain with hplain | ⟨-, rfl⟩
        · refine ⟨fun e => h (by simp [e]), fun e => ?_⟩
          subst e
          exact absurd hplain (by decide)
        · exact absurd List.mem_cons_self h
      | escape x e _ _ =>
        cases hx
        decide

lemma head_literal {x : Char} (hplain : ∀ c ∈ cs, isControl c = false) (h : '\n' ∉ cs)
    (hx : x ∈ (cs ++ (List.replicate 3 singleQuote ++ rest)).head?) : x ≠ '\n' ∧ x ≠ '\r' := by
  cases cs with
  | nil =>
    rw [head_of_quotes hx]
    decide
  | cons c r =>
    cases hx
    refine ⟨fun e => h (by simp [e]), fun e => ?_⟩
    subst e
    exact absurd (hplain _ List.mem_cons_self) (by decide)

lemma head_quoted (cs : List Char) : (body false 0 0 cs).head? ≠ some doubleQuote := by
  cases cs with
  | nil => simp [body]
  | cons c r =>
    by_cases hc : c = doubleQuote
    · rw [hc, body_escaped (by omega)]
      exact fun e => absurd (Option.some.inj e) (by decide)
    · obtain ⟨x, tail, hx, hne⟩ := (written_escaped false hc).head_ne
      rw [body_other hc, hx]
      exact fun e => hne (Option.some.inj e)

lemma textAt?_quotes (cs : List Char) (hrest : rest.head? ≠ some doubleQuote) :
    textAt? doubleQuote (body false 0 0 cs ++ doubleQuote :: rest) =
      some (.text (String.ofList cs), rest) := by
  rw [textAt?, if_neg (take_ne_quotes (head_quoted cs) hrest), if_pos rfl, quoted?_body]
  rfl

lemma textAt?_literal (h : ∀ c ∈ cs, isPlain c = true ∧ c ≠ singleQuote)
    (hrest : rest.head? ≠ some singleQuote) :
    textAt? singleQuote (cs ++ singleQuote :: rest) = some (.text (String.ofList cs), rest) := by
  have hhead : cs.head? ≠ some singleQuote := fun e => (h _ (List.mem_of_head? e)).2 rfl
  rw [textAt?, if_neg (take_ne_quotes hhead hrest), if_neg (by decide), literal?_plain h]
  rfl

/-- Between three quotes, the reader comes to the text itself. -/
lemma textAt?_block (cs : List Char)
    (hhead : ∀ x ∈ (w ++ (List.replicate 3 q ++ rest)).head?, '\n' ∉ cs → x ≠ '\n' ∧ x ≠ '\r')
    (h : block? (q == doubleQuote) q (w ++ List.replicate 3 q ++ rest) = some (cs, rest)) :
    textAt? q (q :: q :: (opening cs ++ w ++ (List.replicate 3 q ++ rest))) =
      some (.block (String.ofList cs), rest) := by
  have hopen : (q :: q :: (opening cs ++ w ++ (List.replicate 3 q ++ rest))).take 2 = [q, q] := rfl
  rw [textAt?, if_pos hopen, List.drop_succ_cons, List.drop_succ_cons, List.drop_zero,
    afterBreak_opening hhead, ← List.append_assoc, h]
  rfl

/-- **A text is read as it was spelled**, whatever characters it consists of, if a line break
comes behind it. -/
theorem textAt?_spelled (cs r : List Char) : ∃ q w t, spelled cs = q :: w ∧
    (q = doubleQuote ∨ q = singleQuote) ∧ textAt? q (w ++ '\n' :: r) = some (t, '\n' :: r) ∧
      (t = .text (String.ofList cs) ∨ t = .block (String.ofList cs)) := by
  have hdouble : ('\n' :: r).head? ≠ some doubleQuote :=
    fun e => absurd (Option.some.inj e) (by decide)
  have hsingle : ('\n' :: r).head? ≠ some singleQuote :=
    fun e => absurd (Option.some.inj e) (by decide)
  unfold spelled
  cases hform : formOf cs with
  | quotes =>
    refine ⟨doubleQuote, _, _, rfl, Or.inl rfl, ?_, Or.inl rfl⟩
    rw [List.append_eq, List.append_assoc]
    exact textAt?_quotes cs hdouble
  | literal =>
    refine ⟨singleQuote, _, _, rfl, Or.inr rfl, ?_, Or.inl rfl⟩
    rw [List.append_eq, List.append_assoc]
    exact textAt?_literal (isPlain_of_literal hform) hsingle
  | block =>
    refine ⟨doubleQuote, _, _, rfl, Or.inl rfl, ?_, Or.inr rfl⟩
    have h := textAt?_block cs (fun x hx hbreak => head_body hbreak hx)
      (block?_body (by omega) cs hdouble)
    simpa using h
  | literalBlock =>
    refine ⟨singleQuote, _, _, rfl, Or.inr rfl, ?_, Or.inr rfl⟩
    have hcontrol := not_isControl_of_formOf (Or.inr hform)
    have h := textAt?_block cs (fun x hx hbreak => head_literal hcontrol hbreak hx)
      (block?_literal (longestRun_of_literalBlock hform) hcontrol hsingle)
    simpa using h

end ProviderGen.Toml
