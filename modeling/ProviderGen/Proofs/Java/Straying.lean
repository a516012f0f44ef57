import ProviderGen.Proofs.Java.Scanner

/-!
Pieces of a source that lead astray: literals that do not say what stands between their quotes,
or that end elsewhere than they should. An escape says less than what it is made of, so the first
character that needed one and has none makes the literal shorter, if it can be read at all. What
follows cannot make up for that, for literals that have been read stay.
-/

namespace ProviderGen.Java.Scanner

variable {s s' : State} {l l' : Lexer} {c : Char} {cs r : List Char} {us : List ℕ} {x n : ℕ}
  {value : List ℕ} {done : List (List ℕ)}

/-! ### Lists that differ -/

/-- At some place the lists have different elements. -/
def Differ {α : Type} (as bs : List α) : Prop :=
  ∃ (i : ℕ) (a b : α), as[i]? = some a ∧ bs[i]? = some b ∧ a ≠ b

lemma Differ.ne {α : Type} {as bs : List α} (h : Differ as bs) : as ≠ bs := by
  rintro rfl
  obtain ⟨i, a, b, ha, hb, hab⟩ := h
  exact hab (Option.some.inj (ha.symm.trans hb))

lemma Differ.mono {α : Type} {as bs as' bs' : List α} (h : Differ as bs) (ha : as <+: as')
    (hb : bs <+: bs') : Differ as' bs' := by
  obtain ⟨i, a, b, hi, hi', hab⟩ := h
  obtain ⟨r, rfl⟩ := ha
  obtain ⟨r', rfl⟩ := hb
  refine ⟨i, a, b, ?_, ?_, hab⟩
  · rw [List.getElem?_append_left (List.getElem?_eq_some_iff.1 hi).1, hi]
  · rw [List.getElem?_append_left (List.getElem?_eq_some_iff.1 hi').1, hi']

/-- A piece of text that, if it can be read at all, has other literals than these. -/
def Strays (cs : List Char) (vs : List (List ℕ)) : Prop :=
  ∀ done s, scan (inCode done) cs = some s → Differ s.lexer.done (done ++ vs)

/-- Literals that have been read stay. -/
lemma done_of_inCode (h : l.inCode x = some l') : l'.done = l.done := by
  unfold Lexer.inCode at h
  split at h
  · rw [← Option.some.inj h]
  · split at h
    · rw [← Option.some.inj h]
    · split at h
      · cases h
      · rw [← Option.some.inj h]

lemma done_of_close {quote : ℕ} (h : l.close quote = some l') : l.done <+: l'.done := by
  unfold Lexer.close at h
  split at h
  · obtain rfl := Option.some.inj h
    exact List.prefix_append _ _
  · split at h
    · obtain rfl := Option.some.inj h
      exact List.prefix_rfl
    · cases h

lemma done_of_inText {quote : ℕ} (h : l.inText quote x = some l') : l.done <+: l'.done := by
  unfold Lexer.inText at h
  split at h
  · exact done_of_close h
  · split at h
    · obtain rfl := Option.some.inj h
      exact List.prefix_rfl
    · split at h
      · cases h
      · obtain rfl := Option.some.inj h
        exact List.prefix_rfl

lemma done_of_inEscape {quote : ℕ} (h : l.inEscape quote x = some l') : l'.done = l.done := by
  unfold Lexer.inEscape at h
  split at h
  · rw [← Option.some.inj h]
  · obtain ⟨v, -, rfl⟩ := Option.map_eq_some_iff.1 h
    rfl

lemma done_of_step (h : l.step x = some l') : l.done <+: l'.done := by
  unfold Lexer.step at h
  split at h
  · exact (done_of_inCode h).symm ▸ List.prefix_rfl
  · split at h
    · exact (Option.some.inj h) ▸ List.prefix_rfl
    · split at h
      · exact (Option.some.inj h) ▸ List.prefix_rfl
      · exact (done_of_inCode h).symm ▸ List.prefix_rfl
  · split at h <;> exact (Option.some.inj h) ▸ List.prefix_rfl
  · split at h <;> exact (Option.some.inj h) ▸ List.prefix_rfl
  · split at h
    · exact (Option.some.inj h) ▸ List.prefix_rfl
    · split at h <;> exact (Option.some.inj h) ▸ List.prefix_rfl
  · exact done_of_inText h
  · exact (done_of_inEscape h).symm ▸ List.prefix_rfl
  · rename_i quote more value _
    split at h
    · exact (Option.some.inj h) ▸ List.prefix_rfl
    · exact done_of_inText (l := l.push quote value) h

lemma done_of_foldlM (h : us.foldlM Lexer.step l = some l') : l.done <+: l'.done := by
  induction us generalizing l with
  | nil =>
    obtain rfl := Option.some.inj h
    exact List.prefix_rfl
  | cons x us ih =>
    rw [List.foldlM_cons] at h
    obtain ⟨l₁, hx, hus⟩ := Option.bind_eq_some_iff.1 h
    exact (done_of_step hx).trans (ih hus)

lemma done_of_scan (h : scan s cs = some s') : s.lexer.done <+: s'.lexer.done := by
  induction cs generalizing s with
  | nil =>
    obtain rfl := Option.some.inj h
    exact List.prefix_rfl
  | cons c r ih =>
    rw [scan_cons] at h
    obtain ⟨s₁, hc, hr⟩ := Option.bind_eq_some_iff.1 h
    obtain ⟨us, -, hus⟩ := feed_eq_some.1 hc
    exact (done_of_foldlM hus).trans (ih hr)

lemma Strays.append {cs cs' : List Char} {vs vs' : List (List ℕ)} (h : Strays cs vs) :
    Strays (cs ++ cs') (vs ++ vs') := by
  intro done s hs
  rw [scan_append] at hs
  obtain ⟨s₁, hcs, hcs'⟩ := Option.bind_eq_some_iff.1 hs
  rw [← List.append_assoc]
  exact (h done s₁ hcs).mono (done_of_scan hcs') (List.prefix_append _ _)

lemma Strays.behind {cs cs' : List Char} {vs vs' : List (List ℕ)} (h : Reads cs vs)
    (h' : Strays cs' vs') : Strays (cs ++ cs') (vs ++ vs') := by
  intro done s hs
  rw [scan_append, h done, Option.bind_some] at hs
  rw [← List.append_assoc]
  exact h' _ s hs

/-- What is read stands in a string literal behind these literals, and neither what the literal
says so far nor that together with what a pending escape will add has more than `n` units. -/
inductive Inside (done : List (List ℕ)) (n : ℕ) : Lexer → Prop where
  | text {value : List ℕ} (h : value.length ≤ n) : Inside done n ⟨.text '"'.toNat, value, done⟩
  | escape {value : List ℕ} (h : value.length < n) :
      Inside done n ⟨.escape '"'.toNat, value, done⟩
  | octal {more v : ℕ} {value : List ℕ} (h : value.length < n) :
      Inside done n ⟨.octal '"'.toNat more v, value, done⟩

/-- The literal behind these ones is complete and has less than `n` units. -/
def Ended (done : List (List ℕ)) (n : ℕ) (l : Lexer) : Prop :=
  ∃ v, v.length < n ∧ done ++ [v] <+: l.done

lemma Ended.mono {m : ℕ} (h : Ended done n l) (hmn : n ≤ m) (hl : l.done <+: l'.done) :
    Ended done m l' := by
  obtain ⟨v, hv, hd⟩ := h
  exact ⟨v, Nat.lt_of_lt_of_le hv hmn, hd.trans hl⟩

lemma Inside.mono {m : ℕ} (h : Inside done n l) (hmn : n ≤ m) : Inside done m l := by
  cases h with
  | text h => exact .text (Nat.le_trans h hmn)
  | escape h => exact .escape (Nat.lt_of_lt_of_le h hmn)
  | octal h => exact .octal (Nat.lt_of_lt_of_le h hmn)

lemma inside_of_inText (hlen : value.length ≤ n)
    (h : Lexer.inText ⟨.text '"'.toNat, value, done⟩ '"'.toNat x = some l') :
    Inside done (n + 1) l' ∨ x = '"'.toNat ∧ Ended done (n + 1) l' := by
  unfold Lexer.inText at h
  split at h
  · rename_i hx
    obtain rfl := Option.some.inj h
    exact Or.inr ⟨hx, value, by omega, List.prefix_rfl⟩
  · split at h
    · obtain rfl := Option.some.inj h
      exact Or.inl (.escape (by dsimp only; omega))
    · split at h
      · cases h
      · obtain rfl := Option.some.inj h
        exact Or.inl (.text (by simpa using hlen))

/-- What an escape adds has been counted before. -/
lemma inside_of_inEscape (hlen : value.length < n)
    (h : Lexer.inEscape ⟨.escape '"'.toNat, value, done⟩ '"'.toNat x = some l') :
    Inside done n l' := by
  unfold Lexer.inEscape at h
  split at h
  · obtain rfl := Option.some.inj h
    exact .octal hlen
  · obtain ⟨v, -, rfl⟩ := Option.map_eq_some_iff.1 h
    exact .text (by rw [List.length_append]; exact hlen)

lemma Inside.of_step (h : Inside done n l) (hs : l.step x = some l') :
    Inside done (n + 1) l' ∨ x = '"'.toNat ∧ Ended done (n + 1) l' := by
  cases h with
  | text h => exact inside_of_inText h hs
  | escape h => exact Or.inl ((inside_of_inEscape h hs).mono (by omega))
  | @octal more v value h =>
    unfold Lexer.step at hs
    dsimp only at hs
    split at hs
    · obtain rfl := Option.some.inj hs
      exact Or.inl (.octal (by omega))
    · exact inside_of_inText (by rw [List.length_append]; exact h) hs

lemma Inside.of_foldlM (h : Inside done n l) (hs : us.foldlM Lexer.step l = some l') :
    Inside done (n + us.length) l' ∨ Ended done (n + us.length) l' := by
  induction us generalizing l n with
  | nil =>
    obtain rfl := Option.some.inj hs
    exact Or.inl h
  | cons x us ih =>
    rw [List.foldlM_cons] at hs
    obtain ⟨l₁, hx, hus⟩ := Option.bind_eq_some_iff.1 hs
    rw [List.length_cons, Nat.add_comm us.length, ← Nat.add_assoc]
    rcases h.of_step hx with h | ⟨-, h⟩
    · exact ih h hus
    · exact Or.inr (h.mono (by omega) (done_of_foldlM hus))

/-- Whether a unit is pending because of a Unicode escape. -/
def Raw.pending : Raw → ℕ
  | plain => 0
  | slash => 1
  | digits _ _ => 1

/-- A character gives no more units than it has, counting those that were pending. -/
lemma pending_step {raw raw' : Raw} (h : raw.step c = some (raw', us)) :
    us.length + raw'.pending ≤ (unitsOf c).length + raw.pending := by
  cases raw with
  | plain =>
    simp only [Raw.step, Option.some.injEq] at h
    split at h
    · rename_i hc
      obtain ⟨rfl, rfl⟩ := Prod.mk.inj h
      rw [hc]
      decide
    · obtain ⟨rfl, rfl⟩ := Prod.mk.inj h
      exact Nat.le_refl _
  | slash =>
    simp only [Raw.step, Option.some.injEq] at h
    split at h
    · obtain ⟨rfl, rfl⟩ := Prod.mk.inj h
      simp [Raw.pending]
    · obtain ⟨rfl, rfl⟩ := Prod.mk.inj h
      simp [Raw.pending]
  | digits count value =>
    simp only [Raw.step] at h
    split at h
    · obtain ⟨rfl, rfl⟩ := Prod.mk.inj (Option.some.inj h)
      simp [Raw.pending]
    · obtain ⟨d, -, hd⟩ := Option.map_eq_some_iff.1 h
      split at hd
      · obtain ⟨rfl, rfl⟩ := Prod.mk.inj hd
        simp [Raw.pending]
      · obtain ⟨rfl, rfl⟩ := Prod.mk.inj hd
        simp [Raw.pending]

/-- The same for a text, of which a Unicode escape may be pending. -/
def Within (done : List (List ℕ)) (n : ℕ) (s : State) : Prop :=
  ∃ m, m + s.raw.pending ≤ n ∧ Inside done m s.lexer

lemma Within.of_feed (h : Within done n s) (hs : feed s c = some s') :
    Within done (n + (unitsOf c).length) s' ∨ Ended done (n + (unitsOf c).length) s'.lexer := by
  obtain ⟨m, hm, hin⟩ := h
  obtain ⟨us, hraw, hus⟩ := feed_eq_some.1 hs
  have hcount := pending_step hraw
  rcases hin.of_foldlM hus with h | h
  · exact Or.inl ⟨_, by omega, h⟩
  · exact Or.inr (h.mono (by omega) List.prefix_rfl)

lemma Within.of_scan (h : Within done n s) (hs : scan s cs = some s') :
    Within done (n + (unitsOfList cs).length) s' ∨
      Ended done (n + (unitsOfList cs).length) s'.lexer := by
  induction cs generalizing s n with
  | nil =>
    obtain rfl := Option.some.inj hs
    exact Or.inl h
  | cons c r ih =>
    rw [scan_cons] at hs
    obtain ⟨s₁, hc, hr⟩ := Option.bind_eq_some_iff.1 hs
    rw [unitsOfList_cons, List.length_append, ← Nat.add_assoc]
    rcases h.of_feed hc with h | h
    · exact ih h hr
    · exact Or.inr (h.mono (by omega) (done_of_scan hr))

lemma Inside.semicolon (h : Inside done n l) (hs : l.step ';'.toNat = some l') :
    ∃ value, l' = ⟨.text '"'.toNat, value, done⟩ := by
  cases h with
  | text h => exact ⟨_, (Option.some.inj hs).symm⟩
  | escape h => cases hs
  | octal h =>
    unfold Lexer.step at hs
    dsimp only at hs
    rw [if_neg fun h => absurd h.2 (by decide)] at hs
    exact ⟨_, (Option.some.inj hs).symm⟩

/-- A literal that goes on behind a semicolon has no escape pending there. -/
lemma Within.semicolon (h : Within done n s) (hs : feed s ';' = some s') :
    ∃ value, s' = inString value done := by
  obtain ⟨m, -, hin⟩ := h
  obtain ⟨raw, l⟩ := s
  obtain ⟨raw', l'⟩ := s'
  obtain ⟨us, hraw, hus⟩ := feed_eq_some.1 hs
  cases raw with
  | plain =>
    obtain ⟨rfl, rfl⟩ := Prod.mk.inj (Option.some.inj hraw)
    obtain ⟨l₁, hstep, hnil⟩ := Option.bind_eq_some_iff.1 hus
    obtain rfl := Option.some.inj hnil
    obtain ⟨value, rfl⟩ := hin.semicolon hstep
    exact ⟨value, rfl⟩
  | slash =>
    obtain ⟨rfl, rfl⟩ := Prod.mk.inj (Option.some.inj hraw)
    obtain ⟨l₁, hback, hrest⟩ := Option.bind_eq_some_iff.1 hus
    obtain ⟨l₂, hstep, hnil⟩ := Option.bind_eq_some_iff.1 hrest
    obtain rfl := Option.some.inj hnil
    have hin' := (hin.of_step hback).resolve_right fun h => absurd h.1 (by decide)
    obtain ⟨value, rfl⟩ := hin'.semicolon hstep
    exact ⟨value, rfl⟩
  | digits count value => cases hraw

/-- The end of a constant's declaration ends the literal before it as well, or cannot be read. -/
lemma Within.ended (h : Within done n s) (hs : scan s ['"', ';', '\n'] = some s') :
    Ended done (n + 1) s'.lexer := by
  simp only [scan_cons, scan_nil] at hs
  obtain ⟨s₁, hquote, hs⟩ := Option.bind_eq_some_iff.1 hs
  obtain ⟨s₂, hsemicolon, hs⟩ := Option.bind_eq_some_iff.1 hs
  obtain ⟨s₃, hline, hs⟩ := Option.bind_eq_some_iff.1 hs
  obtain rfl := Option.some.inj hs
  rcases h.of_feed hquote with h | h
  · obtain ⟨value, rfl⟩ := h.semicolon hsemicolon
    cases hline
  · have hrest : scan s₁ [';', '\n'] = some s₃ := by
      simp only [scan_cons, scan_nil, hsemicolon, hline, Option.bind_some]
    exact h.mono (Nat.le_refl _) (done_of_scan hrest)

/-- Behind a backslash less is said than stands there. -/
lemma ended_of_slash
    (h : scan ⟨.slash, .text '"'.toNat, value, done⟩ (cs ++ ['"', ';', '\n']) = some s) :
    Ended done (value.length + 1 + (unitsOfList cs).length) s.lexer := by
  cases cs with
  | nil => cases h
  | cons c r =>
    rw [List.cons_append, scan_cons] at h
    obtain ⟨s₁, hc, h⟩ := Option.bind_eq_some_iff.1 h
    rw [scan_append] at h
    obtain ⟨s₂, hr, hend⟩ := Option.bind_eq_some_iff.1 h
    have hfirst : Within done (value.length + (unitsOf c).length) s₁ ∨
        Ended done (value.length + (unitsOf c).length) s₁.lexer := by
      obtain ⟨us, hraw, hus⟩ := feed_eq_some.1 hc
      obtain ⟨raw₁, l₁⟩ := s₁
      by_cases hmark : c = 'u'
      -- nothing is handed on yet, and the backslash is still pending
      · subst hmark
        obtain ⟨rfl, rfl⟩ := Prod.mk.inj (Option.some.inj hraw)
        obtain rfl := Option.some.inj hus
        exact Or.inl ⟨value.length, Nat.le_refl _, .text (Nat.le_refl _)⟩
      · simp only [Raw.step, if_neg hmark, Option.some.injEq, Prod.mk.injEq] at hraw
        obtain ⟨rfl, rfl⟩ := hraw
        obtain ⟨x, us, hx⟩ := List.exists_cons_of_ne_nil (unitsOf_ne_nil c)
        rw [hx, List.foldlM_cons] at hus
        obtain ⟨l₂, hback, hus⟩ := Option.bind_eq_some_iff.1 hus
        obtain rfl := Option.some.inj hback
        rw [List.foldlM_cons] at hus
        obtain ⟨l₃, hescape, hus⟩ := Option.bind_eq_some_iff.1 hus
        have hin := inside_of_inEscape (Nat.lt_succ_self value.length) hescape
        rw [hx, List.length_cons, Nat.add_comm us.length, ← Nat.add_assoc]
        exact (hin.of_foldlM hus).imp_left fun h => ⟨_, Nat.le_refl _, h⟩
    rw [unitsOfList_cons, List.length_append]
    rcases hfirst with h | h
    -- the text may leave the literal open; then the end of the declaration is what ends it
    · rcases h.of_scan hr with h | h
      · exact (h.ended hend).mono (by omega) List.prefix_rfl
      · exact h.mono (by omega) (done_of_scan hend)
    · exact h.mono (by omega) ((done_of_scan hr).trans (done_of_scan hend))

/-- Characters that do not all stand for themselves say less than they should. -/
lemma ended_of_not_bare (hbad : ∃ c ∈ cs, ¬ IsBare c)
    (h : scan (inString value done) (cs ++ ['"', ';', '\n']) = some s) :
    Ended done (value.length + (unitsOfList cs).length) s.lexer := by
  induction cs generalizing value with
  | nil => simp at hbad
  | cons c r ih =>
    rw [unitsOfList_cons, List.length_append]
    by_cases hc : IsBare c
    · have hr : ∃ c ∈ r, ¬ IsBare c := by simpa [hc] using hbad
      rw [List.cons_append, ← List.singleton_append, scan_append, Spells.bare hc,
        Option.bind_some] at h
      have := ih hr h
      rwa [List.length_append, Nat.add_assoc] at this
    · rw [List.cons_append, scan_cons] at h
      obtain ⟨s₁, hs, h⟩ := Option.bind_eq_some_iff.1 h
      by_cases hquote : c = '"'
      · subst hquote
        obtain rfl := Option.some.inj hs
        have hpos := List.length_pos_of_ne_nil (unitsOf_ne_nil '"')
        exact ⟨value, by omega, done_of_scan h⟩
      by_cases hback : c = '\\'
      · subst hback
        obtain rfl := Option.some.inj hs
        have := ended_of_slash h
        rwa [Nat.add_assoc] at this
      · have hbreak : c = '\n' ∨ c = '\r' := by
          by_contra hnone
          exact hc ⟨hquote, fun e => hnone (Or.inl e), fun e => hnone (Or.inr e), hback⟩
        rcases hbreak with rfl | rfl
        · cases hs
        · cases hs

lemma Strays.unescaped (hbad : ∃ c ∈ cs, ¬ IsBare c) :
    Strays ('"' :: cs ++ ['"', ';', '\n']) [unitsOfList cs] := by
  intro done s hs
  rw [List.cons_append, scan_quote] at hs
  obtain ⟨v, hv, hd⟩ := ended_of_not_bare hbad hs
  have hne : v ≠ unitsOfList cs := by
    rintro rfl
    simp at hv
  have hdiffer : Differ (done ++ [v]) (done ++ [unitsOfList cs]) :=
    ⟨done.length, v, unitsOfList cs, by simp, by simp, hne⟩
  exact hdiffer.mono hd List.prefix_rfl

/-- A literal does not go over the end of a line. -/
lemma scan_break (hbad : ∃ c ∈ cs, c = '\n' ∨ c = '\r') :
    scan (inString value done) (cs.flatMap JavaField.literalChar ++ r) = none := by
  induction cs generalizing value with
  | nil => simp at hbad
  | cons c cs ih =>
    rw [List.flatMap_cons, List.append_assoc]
    by_cases hc : c = '\n' ∨ c = '\r'
    · rcases hc with rfl | rfl
      · rfl
      · rfl
    · obtain ⟨hline, hreturn⟩ := not_or.1 hc
      rw [scan_append, Spells.escaped hline hreturn, Option.bind_some]
      refine ih ?_
      simpa [hline, hreturn] using hbad

lemma Strays.escaped {vs : List (List ℕ)} (hbad : ∃ c ∈ cs, c = '\n' ∨ c = '\r') :
    Strays ('"' :: cs.flatMap JavaField.literalChar ++ r) vs := by
  intro done s hs
  rw [List.cons_append, scan_quote, scan_break hbad] at hs
  cases hs

/-! ### Pieces that do either -/

/-- A piece of text that has these literals if `P` holds, and leads astray if not. -/
structure Carries (P : Prop) (cs : List Char) (vs : List (List ℕ)) : Prop where
  reads : P → Reads cs vs
  strays : ¬ P → Strays cs vs

variable {P Q : Prop} {cs' : List Char} {vs vs' : List (List ℕ)}

lemma Reads.carries (h : Reads cs vs) : Carries True cs vs :=
  ⟨fun _ => h, fun h => absurd trivial h⟩

lemma Carries.congr (h : Carries P cs vs) (hpq : P ↔ Q) : Carries Q cs vs :=
  ⟨fun hq => h.reads (hpq.2 hq), fun hq => h.strays fun hp => hq (hpq.1 hp)⟩

lemma Carries.append (h : Carries P cs vs) (h' : Carries Q cs' vs') :
    Carries (P ∧ Q) (cs ++ cs') (vs ++ vs') := by
  refine ⟨fun hpq => (h.reads hpq.1).append (h'.reads hpq.2), fun hn => ?_⟩
  by_cases hp : P
  · exact Strays.behind (h.reads hp) (h'.strays fun hq => hn ⟨hp, hq⟩)
  · exact (h.strays hp).append

lemma Carries.behind (h : Reads cs []) (h' : Carries P cs' vs) : Carries P (cs ++ cs') vs :=
  (h.carries.append h').congr (iff_of_eq (true_and P))

lemma Carries.before (h : Carries P cs vs) (h' : Reads cs' []) : Carries P (cs ++ cs') vs := by
  have := (h.append h'.carries).congr (iff_of_eq (and_true P))
  rwa [List.append_nil] at this

lemma Carries.flatMap {α : Type} {l : List α} {P : α → Prop} {text : α → List Char}
    {literal : α → List ℕ} (h : ∀ a ∈ l, Carries (P a) (text a) [literal a]) :
    Carries (∀ a ∈ l, P a) (l.flatMap text) (l.map literal) := by
  induction l with
  | nil => exact Reads.nil.carries.congr (by simp)
  | cons a l ih =>
    rw [List.forall_mem_cons] at h
    exact (h.1.append (ih h.2)).congr List.forall_mem_cons.symm

/-- A text has the literals of a piece that it consists of. -/
lemma Carries.literals?_iff {text : String} (h : Carries P text.toList vs) :
    literals? text = some vs ↔ P := by
  refine ⟨fun hl => ?_, fun hp => ?_⟩
  · by_contra hp
    obtain ⟨s, hs, hrest⟩ := Option.bind_eq_some_iff.1 hl
    obtain ⟨us, -, hrest⟩ := Option.bind_eq_some_iff.1 hrest
    obtain ⟨l, hus, hresult⟩ := Option.bind_eq_some_iff.1 hrest
    have hdone : l.done = vs := by
      unfold Lexer.result? at hresult
      split at hresult
      · exact Option.some.inj hresult
      · exact Option.some.inj hresult
      · exact Option.some.inj hresult
      · cases hresult
    have hdiffer := (h.strays hp [] s hs).mono (done_of_foldlM hus) List.prefix_rfl
    exact hdiffer.ne hdone
  · rw [literals?, h.reads hp []]
    rfl

end ProviderGen.Java.Scanner
