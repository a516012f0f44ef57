import ProviderGen.Proofs.Archive.Assembly
import ProviderGen.Proofs.Java.Copy
import ProviderGen.Proofs.Java.Identifier

/-!
Chosen packages. One test of the whole text and four tests of each of its pieces come to a single
grammar for the pieces. What passes is kept as it is and leads to a directory for each piece; what
does not is refused for the first test that fails.
-/

namespace ProviderGen.Java.Package

open Project (IsSegmentText chars_dotted isSegmentText_of_check)
open Text (lower)

variable {c : Char} {r : List Char} {s value : String} {p : Package} {fault : Fault}

/-! ### One piece -/

/-- A letter from `a` to `z`, or an underscore. -/
def MayStart (c : Char) : Prop := ('a' ≤ c ∧ c ≤ 'z') ∨ c = '_'

/-- A letter from `a` to `z`, a digit or an underscore. -/
def MayFollow (c : Char) : Prop := ('a' ≤ c ∧ c ≤ 'z') ∨ ('0' ≤ c ∧ c ≤ '9') ∨ c = '_'

/-- The first character is one to start with. -/
def IsStarted (s : String) : Prop := ∃ c r, s.toList = c :: r ∧ MayStart c

/-- Two characters at least, one to start with and others behind it. -/
def IsSpelled (s : String) : Prop :=
  ∃ c d r, s.toList = c :: d :: r ∧ MayStart c ∧ ∀ x ∈ d :: r, MayFollow x

/-- A piece that may be a segment: it is spelled like one, and the language has not reserved it. -/
structure IsChosen (s : String) : Prop where
  spelled : IsSpelled s
  free : s ∉ languageKeywords

/-- Why a piece is refused, when the tests are made in this order. -/
inductive Fails (s : String) : Fault → Prop where
  | empty (h : s = "") : Fails s .emptySegment
  | keyword (hne : s ≠ "") (h : s ∈ languageKeywords) : Fails s (.keyword s)
  | start (hne : s ≠ "") (hfree : s ∉ languageKeywords) (h : ¬ IsStarted s) :
      Fails s (.badStart s)
  | shape (hne : s ≠ "") (hfree : s ∉ languageKeywords) (hstart : IsStarted s)
      (h : ¬ IsSpelled s) : Fails s (.badShape s)

lemma isSegmentStart_iff : isSegmentStart c = true ↔ MayStart c := by
  unfold isSegmentStart MayStart Char.isLower
  simp [Char.le_def]

lemma isSegmentChar_iff : isSegmentChar c = true ↔ MayFollow c := by
  unfold isSegmentChar MayFollow Char.isLower Char.isDigit
  simp [Char.le_def, or_assoc]

lemma isStarted_iff (hs : s.toList = c :: r) : IsStarted s ↔ isSegmentStart c = true := by
  rw [isSegmentStart_iff, IsStarted, hs]
  refine ⟨?_, fun hc => ⟨c, r, rfl, hc⟩⟩
  rintro ⟨c', r', e, hc⟩
  rwa [(List.cons.inj e).1]

lemma isSpelled_iff : IsSpelled s ↔ isSegment s.toList = true := by
  unfold IsSpelled isSegment
  split
  · rename_i c d r hs
    rw [hs, Bool.and_eq_true, List.all_eq_true, isSegmentStart_iff]
    simp only [isSegmentChar_iff]
    refine ⟨?_, fun h => ⟨c, d, r, rfl, h⟩⟩
    rintro ⟨c', d', r', e, h⟩
    obtain ⟨rfl, htail⟩ := List.cons.inj e
    rwa [htail]
  · rename_i hshort
    refine iff_of_false ?_ (by simp)
    rintro ⟨c, d, r, e, -⟩
    exact hshort c d r e

lemma IsSpelled.isStarted (h : IsSpelled s) : IsStarted s := by
  obtain ⟨c, d, r, hs, hc, -⟩ := h
  exact ⟨c, d :: r, hs, hc⟩

lemma IsStarted.ne_empty (h : IsStarted s) : s ≠ "" := by
  obtain ⟨c, r, hs, -⟩ := h
  rintro rfl
  cases hs

lemma Fails.not_isChosen (h : Fails s fault) : ¬ IsChosen s := by
  intro hs
  cases h with
  | empty hempty => exact hs.spelled.isStarted.ne_empty hempty
  | keyword _ hmem => exact hs.free hmem
  | start _ _ h => exact h hs.spelled.isStarted
  | shape _ _ _ h => exact h hs.spelled

/-- No piece is refused for two reasons. -/
lemma Fails.unique {fault' : Fault} (h : Fails s fault) (h' : Fails s fault') : fault = fault' := by
  cases h <;> cases h' <;> first | rfl | contradiction

lemma checkSegment_result (s : String) :
    Outcome (fun _ => IsChosen s) (fun fault => Fails s fault) (checkSegment s) := by
  unfold checkSegment
  split
  · rename_i hs
    exact .empty (by simpa using hs)
  · rename_i c r hs
    have hne : s ≠ "" := by
      rintro rfl
      cases hs
    split
    · rename_i hk
      exact .keyword hne (isKeyword_iff.1 hk)
    · rename_i hk
      rw [isKeyword_iff] at hk
      split
      · rename_i hstart
        exact .start hne hk (by simpa [isStarted_iff hs] using hstart)
      · rename_i hstart
        have hstarted : IsStarted s := by simpa [isStarted_iff hs] using hstart
        rw [← hs]
        split
        · rename_i hshape
          exact .shape hne hk hstarted (by simpa [isSpelled_iff] using hshape)
        · rename_i hshape
          exact ⟨by simpa [isSpelled_iff] using hshape, hk⟩

lemma checkSegment_ok_iff : checkSegment s = .ok () ↔ IsChosen s := by
  rw [← (checkSegment_result s).ok_iff (fun _ h => h) fun _ => Fails.not_isChosen]
  exact ⟨fun h => ⟨(), h⟩, fun ⟨(), h⟩ => h⟩

lemma checkSegment_error_iff : checkSegment s = .error fault ↔ Fails s fault :=
  (checkSegment_result s).error_iff (fun _ h hf => hf.not_isChosen h) fun _ => Fails.unique

/-! ### The whole text -/

lemma forM_error_iff {α ε : Type} {check : α → Except ε PUnit} {A : α → Prop} {E : ε → α → Prop}
    (hok : ∀ a, check a = .ok () ↔ A a) (herror : ∀ a e, check a = .error e ↔ E e a) {e : ε}
    {l : List α} : l.forM check = .error e ↔ First A (E e) l := by
  induction l with
  | nil =>
    refine iff_of_false (fun h => by cases h) ?_
    rintro ⟨before, a, after, h, -⟩
    simp at h
  | cons a l ih =>
    rw [first_cons, ← hok, ← herror, ← ih]
    change (check a >>= fun _ => l.forM check) = _ ↔ _
    cases check a with
    | error e' => simp [bind, Except.bind]
    | ok u => simp [bind, Except.bind]

/-- Pieces are what dots join to the text. -/
lemma dotted_pieces (value : String) : dotted ⟨pieces value⟩ = value := by
  have hsplit : (pieces value).map String.toList = value.toList.splitOn '.' := by
    rw [pieces, List.map_map]
    exact List.map_id'' (fun _ => String.toList_ofList) _
  rw [← String.toList_inj, dotted, String.toList_intercalate, hsplit]
  exact List.intercalate_splitOn '.'

/-- Pieces that may be segments have nothing in upper case. -/
lemma lower_of_pieces (h : ∀ s ∈ pieces value, IsChosen s) : lower value = value := by
  have htexts : ∀ s ∈ pieces value, IsSegmentText s :=
    fun s hs => isSegmentText_of_check (checkSegment_ok_iff.2 (h s hs))
  have hchars := lowerChars_of_isSegmentChar fun c (hc : c ∈ value.toList) =>
    chars_dotted (k := ⟨pieces value⟩) htexts ((dotted_pieces value).symm ▸ hc)
  rw [lower, hchars, String.ofList_toList]

lemma read_ok_iff : read value = .ok p ↔ (∀ s ∈ pieces value, IsChosen s) ∧ p = ⟨pieces value⟩ := by
  rw [read_iff]
  simp only [checkSegment_ok_iff]
  exact ⟨fun h => h.2, fun h => ⟨lower_of_pieces h.1, h⟩⟩

/-- Why a text is refused: it is not in lower case, or else a piece of it fails a test, and none
before that piece does. -/
def Refused (value : String) (fault : Fault) : Prop :=
  if lower value ≠ value then fault = .upperCase
  else First IsChosen (Fails · fault) (pieces value)

lemma read_error_iff : read value = .error fault ↔ Refused value fault := by
  unfold read Refused
  split
  · rw [Except.error.injEq, eq_comm]
  · rw [← forM_error_iff (fun _ => checkSegment_ok_iff) (fun _ _ => checkSegment_error_iff)]
    cases (pieces value).forM checkSegment with
    | error f => simp [bind, Except.bind]
    | ok u => simp [bind, Except.bind]

end ProviderGen.Java.Package

namespace ProviderGen.Project

open Path (IsName)
open Java (Package)
open Java.Package (pieces read IsChosen Refused checkSegment_ok_iff read_ok_iff read_error_iff
  dotted_pieces)
open Layout (packagePath)

variable {k : Package} {value : String} {e : Error}

/-- A package leads to a directory for each of its segments, wherever it starts. -/
lemma components_join_packagePath (h : ∀ s ∈ k.segments, IsName s) (dir : Path) :
    (dir / packagePath k).components = dir.components ++ k.segments.map .name := by
  have hpath : Path.components ⟨packagePath k⟩ = k.segments.map .name :=
    Path.components_foldl (p := ⟨""⟩) h
  rw [Path.components_join (Path.start_of_components hpath), hpath]

lemma readPackage_ok_iff : readPackage value = .ok k ↔ read value = .ok k := by
  unfold readPackage
  cases read value with
  | error f => simp [Except.mapError]
  | ok k' => simp [Except.mapError]

lemma readPackage_error_iff : readPackage value = .error e ↔
    ∃ fault, read value = .error fault ∧ e = .badPackage value fault.message := by
  unfold readPackage
  cases read value with
  | error f => simp [Except.mapError, Error.ofPackageFault, eq_comm]
  | ok k' => simp [Except.mapError]

/-- **A chosen package is read if and only if each of its pieces may be a segment.** Then it has
the pieces for segments, is written with dots as it was chosen, and adds one ordinary directory for
each segment to any path. Otherwise the error names the chosen text and says what is wrong: that it
is not in lower case, or else which test its first faulty piece fails. -/
theorem readPackage_grammar (value : String) :
    ((∃ k, readPackage value = .ok k) ↔ ∀ s ∈ pieces value, IsChosen s) ∧
    (∀ k, readPackage value = .ok k → k.segments = pieces value ∧ k.dotted = value ∧
      ∀ dir : Path, (dir / packagePath k).components =
        dir.components ++ k.segments.map .name) ∧
    ∀ e, readPackage value = .error e ↔
      ∃ fault, Refused value fault ∧ e = .badPackage value fault.message := by
  refine ⟨?_, fun k hk => ?_, fun e => ?_⟩
  · simp [readPackage_ok_iff, read_ok_iff]
  · obtain ⟨hchosen, rfl⟩ := read_ok_iff.1 (readPackage_ok_iff.1 hk)
    refine ⟨rfl, dotted_pieces value, components_join_packagePath fun s hs => ?_⟩
    exact isName_of_segment (isSegmentText_of_check (checkSegment_ok_iff.2 (hchosen s hs)))
  · simp only [readPackage_error_iff, read_error_iff]

/-- A line break counts as a character of its piece, and a letter with two in lower case as one in
upper case. -/
example : read "com.acme\n" = .error (.badShape "acme\n") ∧ read "\u0130x" = .error .upperCase := by
  decide +kernel

end ProviderGen.Project
