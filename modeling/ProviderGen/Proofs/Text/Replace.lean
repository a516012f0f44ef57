import Mathlib.Data.List.Infix
import Mathlib.Tactic.Common

/-!
Replacing characters by words, and pairs of characters by one. A word put in for a character can
be found again where it is a pair that the text had nowhere before; and where it begins with the
character itself, in any text. Of two replacements one after the other, the second leaves alone
what the first has put in, if that does not have the character.
-/

namespace ProviderGen.Text

/-- Every `c` becomes `word`. -/
def replace (c : Char) (word : List Char) (cs : List Char) : List Char :=
  cs.flatMap fun x => if x = c then word else [x]

/-- Every `a` with a `b` behind it becomes, together with that, `c`. -/
def replacePair (a b c : Char) : List Char → List Char
  | [] => []
  | [x] => [x]
  | x :: y :: r =>
    if x = a ∧ y = b then c :: replacePair a b c r else x :: replacePair a b c (y :: r)

variable {a b c d x : Char} {word word' cs r : List Char}

@[simp] lemma replace_nil (c : Char) (word : List Char) : replace c word [] = [] := rfl

lemma replace_cons_self (c : Char) (word r : List Char) :
    replace c word (c :: r) = word ++ replace c word r := by
  rw [replace, List.flatMap_cons, if_pos rfl]
  rfl

lemma replace_cons_of_ne (h : x ≠ c) : replace c word (x :: r) = x :: replace c word r := by
  rw [replace, List.flatMap_cons, if_neg h]
  rfl

lemma replace_of_not_mem (h : c ∉ cs) : replace c word cs = cs := by
  induction cs with
  | nil => rfl
  | cons x r ih =>
    rw [List.mem_cons, not_or] at h
    rw [replace_cons_of_ne (Ne.symm h.1), ih h.2]

/-- Two replacements one after the other. -/
lemma replace_replace (hd : d ∉ word) (cs : List Char) :
    replace d word' (replace c word cs) =
      cs.flatMap fun x => if x = c then word else if x = d then word' else [x] := by
  rw [replace, replace, List.flatMap_assoc]
  congr 1
  funext x
  split
  · exact replace_of_not_mem hd
  · exact List.flatMap_singleton ..

/-! ### Undoing -/

lemma replacePair_pair (a b c : Char) (r : List Char) :
    replacePair a b c (a :: b :: r) = c :: replacePair a b c r := if_pos ⟨rfl, rfl⟩

lemma replacePair_cons_of_ne (h : x ≠ a) (r : List Char) :
    replacePair a b c (x :: r) = x :: replacePair a b c r := by
  cases r with
  | nil => rfl
  | cons y r => exact if_neg fun hxy => h hxy.1

lemma replacePair_cons_of_head (h : ∀ y ∈ r.head?, y ≠ b) :
    replacePair a b c (x :: r) = x :: replacePair a b c r := by
  cases r with
  | nil => rfl
  | cons y r => exact if_neg fun hxy => h y rfl hxy.2

/-- A word that begins with the character that it is for can be found again. -/
theorem replacePair_replace_self (a b : Char) (cs : List Char) :
    replacePair a b a (replace a [a, b] cs) = cs := by
  induction cs with
  | nil => rfl
  | cons x r ih =>
    by_cases hx : x = a
    · subst hx
      rw [replace_cons_self, List.cons_append, List.singleton_append, replacePair_pair, ih]
    · rw [replace_cons_of_ne hx, replacePair_cons_of_ne hx, ih]

lemma head_replace_ne (hab : a ≠ b) (h : ∀ y ∈ r.head?, y ≠ b) :
    ∀ y ∈ (replace c [a, b] r).head?, y ≠ b := by
  cases r with
  | nil => simp
  | cons x r =>
    by_cases hx : x = c
    · rw [hx, replace_cons_self]
      simpa using hab
    · rwa [replace_cons_of_ne hx]

/-- A pair can be found again if the text had it nowhere. -/
theorem replacePair_replace (hab : a ≠ b) (h : ¬ [a, b] <:+: cs) :
    replacePair a b c (replace c [a, b] cs) = cs := by
  induction cs with
  | nil => rfl
  | cons x r ih =>
    rw [List.infix_cons_iff, not_or] at h
    by_cases hx : x = c
    · subst hx
      rw [replace_cons_self, List.cons_append, List.singleton_append, replacePair_pair, ih h.2]
    · rw [replace_cons_of_ne hx]
      by_cases hxa : x = a
      · -- what stands behind it is no `b`, neither before nor after the replacement
        have hhead : ∀ y ∈ r.head?, y ≠ b := by
          rintro y hy rfl
          obtain ⟨r, rfl⟩ := List.head?_eq_some_iff.1 hy
          exact h.1 (hxa ▸ List.prefix_append [x, y] r)
        rw [replacePair_cons_of_head (head_replace_ne hab hhead), ih h.2]
      · rw [replacePair_cons_of_ne hxa, ih h.2]

/-- A replacement by a pair does not make another pair that begins alike. -/
lemma not_infix_replace (hbd : b ≠ d) (had : a ≠ d) (cs : List Char) :
    ¬ [a, b] <:+: replace a [a, d] cs := by
  induction cs with
  | nil => simp
  | cons x r ih =>
    by_cases hx : x = a
    · subst hx
      rw [replace_cons_self, List.cons_append, List.singleton_append, List.infix_cons_iff,
        List.infix_cons_iff]
      simp [hbd, had, ih]
    · rw [replace_cons_of_ne hx, List.infix_cons_iff]
      simp [Ne.symm hx, ih]

end ProviderGen.Text
