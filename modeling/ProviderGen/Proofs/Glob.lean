import ProviderGen.Glob.Reader
import ProviderGen.Proofs.Text.Order

/-!
Patterns with one star. Their marks are moved over the bytes that a name has and over no others, so
a name matches if and only if it begins and ends with the bytes around the star. The bytes of a
text begin where a character begins, and no other character has them, so what is left in the middle
is a text as well.
-/

namespace ProviderGen

/-! ### Texts by their bytes -/

variable {a b front back : List Char} {m : List UInt8}

lemma bytesOf_cons (c : Char) (a : List Char) :
    bytesOf (c :: a) = String.utf8EncodeChar c ++ bytesOf a := rfl

lemma exists_encodeChar (c : Char) : ∃ x xs, String.utf8EncodeChar c = x :: xs := by
  refine List.exists_cons_of_ne_nil ?_
  rw [← List.length_pos_iff, String.length_utf8EncodeChar]
  exact c.utf8Size_pos

lemma bytesOf_eq_nil (h : bytesOf a = []) : a = [] := by
  cases a with
  | nil => rfl
  | cons c a =>
    obtain ⟨x, xs, hx⟩ := exists_encodeChar c
    rw [bytesOf_cons, hx] at h
    cases h

/-- Bytes that begin with those of a text are of a text that begins with it. -/
lemma exists_of_bytesOf_front (h : bytesOf a = bytesOf front ++ m) :
    ∃ r, a = front ++ r ∧ m = bytesOf r := by
  induction front generalizing a with
  | nil => exact ⟨a, rfl, h.symm⟩
  | cons c front ih =>
    cases a with
    | nil =>
      obtain ⟨x, xs, hx⟩ := exists_encodeChar c
      rw [bytesOf_cons, hx] at h
      cases h
    | cons c' a =>
      rw [bytesOf_cons, bytesOf_cons, List.append_assoc] at h
      rcases lt_trichotomy c' c with hlt | rfl | hlt
      · have hbytes := Text.encodeChar_lt hlt (bytesOf a) (bytesOf front ++ m)
        rw [h] at hbytes
        exact absurd hbytes (List.lt_irrefl _)
      · obtain ⟨r, rfl, hm⟩ := ih (List.append_cancel_left h)
        exact ⟨r, rfl, hm⟩
      · have hbytes := Text.encodeChar_lt hlt (bytesOf front ++ m) (bytesOf a)
        rw [h] at hbytes
        exact absurd hbytes (List.lt_irrefl _)

lemma bytesOf_injective (h : bytesOf a = bytesOf b) : a = b := by
  rw [← List.append_nil (bytesOf b)] at h
  obtain ⟨r, rfl, hr⟩ := exists_of_bytesOf_front h
  rw [bytesOf_eq_nil hr.symm, List.append_nil]

/-- The first byte of a text is the first of a character. -/
lemma isFirst_of_bytesOf {x : UInt8} (h : bytesOf b = x :: m) : x.IsUTF8FirstByte := by
  cases b with
  | nil => cases h
  | cons c b =>
    obtain ⟨y, ys, hy⟩ := exists_encodeChar c
    have hfirst := UInt8.isUTF8FirstByte_getElem_zero_utf8EncodeChar (c := c)
    rw [bytesOf_cons, hy] at h
    obtain rfl : y = x := (List.cons.inj h).1
    simpa [hy] using hfirst

/-- Bytes that end with those of a text are of a text that ends with it. -/
lemma exists_of_bytesOf_back (h : bytesOf a = m ++ bytesOf back) :
    ∃ r, a = r ++ back ∧ m = bytesOf r := by
  induction a generalizing m with
  | nil =>
    obtain ⟨rfl, hb⟩ := List.append_eq_nil_iff.1 h.symm
    exact ⟨[], by rw [bytesOf_eq_nil hb]; rfl, rfl⟩
  | cons c a ih =>
    rw [bytesOf_cons] at h
    rcases List.append_eq_append_iff.1 h with ⟨s, rfl, ha⟩ | ⟨s, hc, hb⟩
    · obtain ⟨r, rfl, rfl⟩ := ih ha
      exact ⟨c :: r, rfl, rfl⟩
    · -- the text ends within the bytes of the character, so at one of their ends
      cases m with
      | nil =>
        rw [List.nil_append] at hc
        rw [← hc, ← bytesOf_cons] at hb
        exact ⟨[], (bytesOf_injective hb).symm, rfl⟩
      | cons y m =>
        cases s with
        | nil =>
          refine ⟨[c], by rw [bytesOf_injective hb]; rfl, ?_⟩
          rw [bytesOf_cons, hc]
          simp [bytesOf]
        | cons x s =>
          have hfirst : x.IsUTF8FirstByte := isFirst_of_bytesOf hb
          have hi : m.length + 1 < (String.utf8EncodeChar c).length := by simp [hc]
          have hx : (String.utf8EncodeChar c)[m.length + 1] = x := by simp [hc]
          rw [← hx] at hfirst
          exact absurd (UInt8.isUTF8FirstByte_getElem_utf8EncodeChar.1 hfirst) (by simp)

namespace Glob

/-! ### Where marks go -/

variable {bytes xs u v : List UInt8} {ms : Marks} {i j : ℕ} {cs : List Char}

/-- There is a mark for each place, and this place is marked. -/
structure Reaches (bytes : List UInt8) (ms : Marks) (i : ℕ) : Prop where
  length : ms.length = bytes.length + 1
  marked : ms[i]? = some true

lemma reaches_start (bytes : List UInt8) : Reaches bytes (start bytes) 0 :=
  ⟨by simp [start], rfl⟩

lemma Reaches.across {p : UInt8 → Bool} {x : UInt8} (h : Reaches bytes ms i)
    (hx : bytes[i]? = some x) (hp : p x = true) : Reaches bytes (across p bytes ms) (i + 1) := by
  refine ⟨?_, ?_⟩
  · simp [Glob.across, h.length]
  · simp [Glob.across, List.getElem?_zipWith, h.marked, hx, hp]

/-- The marks move over bytes that the name goes on with. -/
lemma Reaches.acrossBytes (h : Reaches bytes ms u.length) (hb : bytes = u ++ xs ++ v) :
    Reaches bytes (acrossBytes xs bytes ms) (u.length + xs.length) := by
  induction xs generalizing u ms with
  | nil => exact h
  | cons x xs ih =>
    have hx : bytes[u.length]? = some x := by
      rw [hb]
      simp
    have hnext := h.across (p := (· == x)) hx (by simp)
    have hrest : Reaches bytes (Glob.acrossBytes xs bytes (Glob.across (· == x) bytes ms))
        ((u ++ [x]).length + xs.length) := ih (by simpa using hnext) (by simpa using hb)
    rw [List.length_append, List.length_singleton] at hrest
    rwa [List.length_cons, Nat.add_comm xs.length, ← Nat.add_assoc]

lemma getElem?_acrossAny_true (hj : j < ms.length) : (acrossAny true ms)[j]? = some true := by
  induction ms generalizing j with
  | nil => simp at hj
  | cons m ms ih =>
    cases j with
    | zero => rfl
    | succ j => exact ih (Nat.lt_of_succ_lt_succ hj)

/-- A mark reaches all places behind it. -/
lemma getElem?_acrossAny {reached : Bool} (h : ms[i]? = some true) (hij : i ≤ j)
    (hj : j < ms.length) : (acrossAny reached ms)[j]? = some true := by
  induction ms generalizing reached i j with
  | nil => simp at hj
  | cons m ms ih =>
    cases i with
    | zero =>
      obtain rfl : m = true := by simpa using h
      have hstart : acrossAny reached (true :: ms) = acrossAny true (true :: ms) := by
        simp [acrossAny]
      rw [hstart]
      exact getElem?_acrossAny_true hj
    | succ i =>
      cases j with
      | zero => exact absurd hij (by simp)
      | succ j => exact ih h (Nat.le_of_succ_le_succ hij) (Nat.lt_of_succ_lt_succ hj)

lemma Reaches.acrossAny (h : Reaches bytes ms i) (hij : i ≤ j) (hj : j ≤ bytes.length) :
    Reaches bytes (acrossAny false ms) j := by
  have hlength := h.length
  exact ⟨by simp [hlength], getElem?_acrossAny h.marked hij (by omega)⟩

lemma move_literals (bytes : List UInt8) (ms : Marks) (cs : List Char) :
    move bytes ms (cs.map .literal) = acrossBytes (bytesOf cs) bytes ms := by
  induction cs generalizing ms with
  | nil => rfl
  | cons c cs ih =>
    have hcons : bytesOf (c :: cs) = String.utf8EncodeChar c ++ bytesOf cs := rfl
    rw [List.map_cons, move_cons, ih, hcons, acrossBytes, acrossBytes, List.foldl_append]
    rfl

/-- A star stands for anything between a front and an end. -/
theorem accepts_star (front middle back : String) :
    Pattern.accepts (front.toList.map .literal ++ .star :: back.toList.map .literal)
      (front ++ middle ++ back) = true := by
  have hbytes : bytesOf (front ++ middle ++ back).toList =
      bytesOf front.toList ++ bytesOf middle.toList ++ bytesOf back.toList := by
    simp [bytesOf]
  unfold Pattern.accepts
  dsimp only
  split
  · rfl
  · rw [hbytes, move_append, move_cons, move_literals, move_literals]
    generalize bytesOf front.toList = u, bytesOf middle.toList = m, bytesOf back.toList = v
    have hfront : Reaches (u ++ m ++ v) (acrossBytes u (u ++ m ++ v) (start (u ++ m ++ v)))
        u.length := by
      have hsplit : u ++ m ++ v = [] ++ u ++ (m ++ v) := by simp
      simpa using (reaches_start (u ++ m ++ v)).acrossBytes hsplit
    have hmiddle := hfront.acrossAny (j := (u ++ m).length) (by simp) (by simp)
    have hsplit : u ++ m ++ v = u ++ m ++ v ++ [] := by simp
    have hend := hmiddle.acrossBytes hsplit
    rw [← List.length_append] at hend
    rw [List.getLast?_eq_getElem?, show Token.move _ _ .star = Glob.acrossAny false _ from rfl,
      hend.length, Nat.add_sub_cancel, hend.marked]
    rfl

/-! ### Where marks come from -/

lemma marked_start (h : (start bytes)[i]? = some true) : i = 0 := by
  cases i with
  | zero => rfl
  | succ i =>
    rw [start, List.getElem?_cons_succ, List.getElem?_map] at h
    cases hx : bytes[i]? <;> simp [hx] at h

lemma marked_across {p : UInt8 → Bool} (h : (across p bytes ms)[i]? = some true) :
    ∃ j x, i = j + 1 ∧ ms[j]? = some true ∧ bytes[j]? = some x ∧ p x = true := by
  cases i with
  | zero => simp [across] at h
  | succ j =>
    rw [across, List.getElem?_cons_succ, List.getElem?_zipWith] at h
    cases hm : ms[j]? with
    | none => simp [hm] at h
    | some b =>
      cases hx : bytes[j]? with
      | none => simp [hm, hx] at h
      | some x =>
        simp only [hm, hx, Option.some.injEq, Bool.and_eq_true] at h
        exact ⟨j, x, rfl, h.1 ▸ hm, hx, h.2⟩

lemma marked_acrossBytes (h : (acrossBytes xs bytes ms)[i]? = some true) :
    ∃ j, i = j + xs.length ∧ ms[j]? = some true ∧ xs <+: bytes.drop j := by
  induction xs generalizing ms with
  | nil => exact ⟨i, rfl, h, List.nil_prefix⟩
  | cons x xs ih =>
    obtain ⟨k, rfl, hk, hxs⟩ := ih h
    obtain ⟨j, y, rfl, hj, hy, hp⟩ := marked_across hk
    obtain rfl : y = x := by simpa using hp
    refine ⟨j, by rw [List.length_cons]; omega, hj, ?_⟩
    obtain ⟨hlt, hget⟩ := List.getElem?_eq_some_iff.1 hy
    rw [List.drop_eq_getElem_cons hlt, hget]
    exact (List.cons_prefix_cons).2 ⟨rfl, hxs⟩

lemma marked_acrossAny {reached : Bool} (h : (acrossAny reached ms)[i]? = some true) :
    reached = true ∨ ∃ j ≤ i, ms[j]? = some true := by
  induction ms generalizing reached i with
  | nil => simp [acrossAny] at h
  | cons b ms ih =>
    rw [acrossAny] at h
    have hfirst : (reached || b) = true → reached = true ∨ ∃ j ≤ i, (b :: ms)[j]? = some true := by
      intro hor
      rcases Bool.or_eq_true_iff.1 hor with hr | rfl
      · exact .inl hr
      · exact .inr ⟨0, Nat.zero_le _, rfl⟩
    cases i with
    | zero => exact hfirst (by simpa using h)
    | succ i =>
      rcases ih h with hor | ⟨j, hj, hm⟩
      · exact hfirst hor
      · exact .inr ⟨j + 1, Nat.succ_le_succ hj, hm⟩

lemma length_acrossBytes (h : ms.length = bytes.length + 1) :
    (acrossBytes xs bytes ms).length = bytes.length + 1 := by
  induction xs generalizing ms with
  | nil => exact h
  | cons x xs ih => exact ih (by simp [across, h])

/-- **A star stands for any text and for nothing else**: a pattern with one star accepts the texts
that begin with what is in front of it and end, behind that, with what is behind it. -/
theorem accepts_star_iff (front back name : String) :
    Pattern.accepts (front.toList.map .literal ++ .star :: back.toList.map .literal) name = true ↔
      ∃ middle, name = front ++ middle ++ back := by
  refine ⟨fun h => ?_, ?_⟩
  · have hlast : (move (bytesOf name.toList) (start (bytesOf name.toList))
        (front.toList.map .literal ++ .star :: back.toList.map .literal)).getLast? =
          some true := by
      unfold Pattern.accepts at h
      dsimp only at h
      split at h
      · rename_i hpattern
        cases hf : front.toList <;> simp [hf] at hpattern
      · simpa using h
    rw [move_append, move_cons, move_literals, move_literals] at hlast
    generalize hbytes : bytesOf name.toList = bytes at hlast
    have hlength : (acrossBytes (bytesOf back.toList) bytes (Token.move bytes
        (acrossBytes (bytesOf front.toList) bytes (start bytes)) .star)).length =
          bytes.length + 1 := by
      refine length_acrossBytes ?_
      rw [show Token.move bytes _ .star = acrossAny false _ from rfl, length_acrossAny]
      exact length_acrossBytes (by simp [start])
    rw [List.getLast?_eq_getElem?, hlength, Nat.add_sub_cancel] at hlast
    obtain ⟨k, hk, hstar, hback⟩ := marked_acrossBytes hlast
    obtain ⟨j, hj, hfront⟩ := (marked_acrossAny hstar).resolve_left (by simp)
    obtain ⟨i, rfl, hstart, hprefix⟩ := marked_acrossBytes hfront
    obtain rfl := marked_start hstart
    obtain ⟨rest, hrest⟩ := hprefix
    rw [List.drop_zero] at hrest
    obtain ⟨r, hr, hm⟩ := exists_of_bytesOf_front (hbytes.trans hrest.symm)
    -- what the pattern ends with is as long as what is left of the name
    have hend : bytesOf back.toList = bytes.drop k :=
      hback.eq_of_length (by rw [List.length_drop]; omega)
    rw [← hrest, List.drop_append, List.drop_eq_nil_of_le (by omega), List.nil_append, hm] at hend
    have hsplit := List.take_append_drop (k - (bytesOf front.toList).length) (bytesOf r)
    rw [← hend] at hsplit
    obtain ⟨middle, rfl, -⟩ := exists_of_bytesOf_back hsplit.symm
    refine ⟨String.ofList middle, ?_⟩
    rw [← String.toList_inj, hr]
    simp
  · rintro ⟨middle, rfl⟩
    exact accepts_star front middle back

/-! ### Reading -/

namespace Reading

/-- A character that stands for itself. -/
def IsLiteral (c : Char) : Prop := c ∉ ['?', '*', '[', '{', '}', ',', '\\']

instance (c : Char) : Decidable (IsLiteral c) := inferInstanceAs (Decidable (c ∉ _))

lemma IsLiteral.plain {c : Char} (h : IsLiteral c) (s : Reading) :
    s.plain c = .ok (s.push (.literal c)) := by
  unfold Reading.plain
  split
  · exact absurd h (by decide)
  · exact absurd h (by decide)
  · exact absurd h (by decide)
  · exact absurd h (by decide)
  · exact absurd h (by decide)
  · exact absurd h (by decide)
  · exact absurd h (by decide)
  · rfl

lemma foldlM_literals (h : ∀ c ∈ cs, IsLiteral c) {s : Reading} (hs : s.mode = .plain) :
    ∃ l, cs.foldlM step s =
      .ok { s with own := (cs.map .literal).reverse ++ s.own, latest := l } := by
  induction cs generalizing s with
  | nil => exact ⟨s.latest, rfl⟩
  | cons c cs ih =>
    rw [List.forall_mem_cons] at h
    have hstep : s.step c = .ok { s.push (.literal c) with latest := some c } := by
      rw [step, read, hs]
      dsimp only
      rw [h.1.plain]
      rfl
    obtain ⟨l, hl⟩ := ih h.2 (s := { s.push (.literal c) with latest := some c }) hs
    refine ⟨l, ?_⟩
    rw [List.foldlM_cons, hstep]
    refine hl.trans ?_
    simp [push]

end Reading

/-- A text with one star in it, and with characters that stand for themselves. -/
lemma parse_star {front back : List Char} {c : Char} (hf : ∀ c ∈ front, Reading.IsLiteral c)
    (hb : ∀ c' ∈ c :: back, Reading.IsLiteral c') :
    parse (String.ofList (front ++ '*' :: c :: back)) =
      .ok (front.map .literal ++ .star :: (c :: back).map .literal) := by
  rw [List.forall_mem_cons] at hb
  have hc : c ≠ '*' := by
    rintro rfl
    exact absurd hb.1 (by decide)
  obtain ⟨l, hl⟩ := Reading.foldlM_literals hf (s := .start) rfl
  -- what the star stands for is settled by the character behind it
  have hstar (s : Reading) (hs : s.mode = .plain) : s.step '*' =
      .ok { s with mode := .star s.latest, latest := some '*' } := by
    rw [Reading.step, Reading.read, hs]
    rfl
  have hnext (s : Reading) {before : Option Char} (hs : s.mode = .star before) : s.step c =
      .ok { s with mode := .plain, own := .literal c :: .star :: s.own, latest := some c } := by
    rw [Reading.step, Reading.read, hs]
    dsimp only
    rw [if_neg hc, hb.1.plain]
    rfl
  obtain ⟨l', hl'⟩ := Reading.foldlM_literals hb.2
    (s := { Reading.start with
      own := .literal c :: .star :: ((front.map .literal).reverse ++ []), latest := some c }) rfl
  rw [parse, String.toList_ofList, List.foldlM_append, hl]
  dsimp only [bind, Except.bind]
  rw [List.foldlM_cons, hstar _ rfl]
  dsimp only [bind, Except.bind]
  rw [List.foldlM_cons, hnext _ rfl]
  dsimp only [bind, Except.bind]
  refine (congrArg (fun r => Except.bind r Reading.finish) hl').trans ?_
  simp [Except.bind, Reading.finish, Reading.start, Reading.isGrouped]

end Glob

end ProviderGen
