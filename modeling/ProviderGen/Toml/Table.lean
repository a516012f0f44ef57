/-!
Tables that grow while a settings text is read. How a table came to be decides how it may grow:
one that is only implied by a longer name may still get its own heading, unless a dotted key
leads through it first; one that a dotted key has made or led through gets no heading any more;
one with a heading takes no dotted keys from elsewhere, and one written inline is closed.
-/

namespace ProviderGen.Toml

inductive Made where
  | implied
  | dotted
  | written
  | inline
  deriving DecidableEq

/-- What a key stands for. Of a list of tables only the last can still grow, and only that one
is kept; of a list within a line nothing is kept. -/
inductive Node where
  | text (value : String)
  | plain
  | list
  | tables (last : List (String × Node))
  | table (made : Made) (members : List (String × Node))

abbrev Members := List (String × Node)

namespace Members

/-- Sets a key: one that is there keeps its place, a new one comes last. -/
def put (key : String) (n : Node) : Members → Members
  | [] => [(key, n)]
  | (k, v) :: r => if k = key then (k, n) :: r else (k, v) :: put key n r

theorem lookup_put (key k : String) (n : Node) (ms : Members) :
    (put key n ms).lookup k = if k = key then some n else ms.lookup k := by
  induction ms with
  | nil =>
    by_cases h : k = key
    · simp [put, h]
    · have : (k == key) = false := by simp [h]
      simp [put, List.lookup_cons, this, h]
  | cons m r ih =>
    obtain ⟨j, v⟩ := m
    by_cases hj : j = key
    · subst hj
      by_cases h : k = j
      · simp [put, h]
      · have : (k == j) = false := by simp [h]
        simp [put, List.lookup_cons, this, h]
    · simp only [put, hj, if_false, List.lookup_cons, ih]
      by_cases h : k = j
      · subst h
        simp [hj]
      · have : (k == j) = false := by simp [h]
        simp [this]

/-- Changes the table to which a path leads. Tables that are missing on the way are made. -/
def within (dotted : Bool) (change : Made → Members → Option (Made × Members)) :
    List String → Made → Members → Option (Made × Members)
  | [], made, ms => change made ms
  | key :: path, made, ms =>
    match ms.lookup key with
    | none => do
      let (m, sub) ← within dotted change path (if dotted then .dotted else .implied) []
      some (made, put key (.table m sub) ms)
    | some (.table m sub) =>
      if m = .inline ∨ (dotted ∧ m = .written) then none
      else do
        let (m, sub) ← within dotted change path (if dotted then .dotted else m) sub
        some (made, put key (.table m sub) ms)
    | some (.tables last) => do
      let (_, last) ← within dotted change path .written last
      some (made, put key (.tables last) ms)
    | some _ => none

/-- A new key in the table to which a dotted path leads. -/
def assign (path : List String) (key : String) (n : Node) :
    Made → Members → Option (Made × Members) :=
  within true
    (fun made ms =>
      if (made == .dotted) == path.isEmpty || (ms.lookup key).isSome then none
      else some (made, put key n ms))
    path

/-- The table gets a heading of its own. -/
def head (path : List String) (key : String) : Made → Members → Option (Made × Members) :=
  within false
    (fun made ms => match ms.lookup key with
      | none => some (made, put key (.table .written []) ms)
      | some (.table .implied sub) => some (made, put key (.table .written sub) ms)
      | some _ => none)
    path

/-- One more table in a list of tables. -/
def headOfList (path : List String) (key : String) :
    Made → Members → Option (Made × Members) :=
  within false
    (fun made ms => match ms.lookup key with
      | none => some (made, put key (.tables []) ms)
      | some (.tables _) => some (made, put key (.tables []) ms)
      | some _ => none)
    path

end Members

end ProviderGen.Toml
