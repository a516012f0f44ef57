import ProviderGen.Path
import ProviderGen.Refusal

/-!
A disk as a value: what lies at which place, and the directory that relative paths start from.
A place is the list of names that leads to it from the top; the top itself is always a
directory. All that a change does to a disk is said by what lies where afterwards.
-/

namespace ProviderGen

abbrev Place := List String

inductive Entry where
  | directory
  | file (bytes : ByteArray)
  | link (target : Path)

def Entry.isDirectory : Entry → Bool
  | directory => true
  | _ => false

structure Disk where
  entries : List (Place × Entry)
  here : Place

namespace Disk

/-- What lies at a place. -/
def at? (d : Disk) (p : Place) : Option Entry :=
  if p = [] then some .directory else d.entries.lookup p

def hasDirectory (d : Disk) (p : Place) : Bool := (d.at? p).any Entry.isDirectory

def put (p : Place) (e : Entry) : List (Place × Entry) → List (Place × Entry)
  | [] => [(p, e)]
  | (q, f) :: r => if q = p then (p, e) :: r else (q, f) :: put p e r

/-- The disk with `e` at `p`. -/
def set (d : Disk) (p : Place) (e : Entry) : Disk := { d with entries := put p e d.entries }

/-- The disk without `p` and without everything below it. -/
def clear (d : Disk) (p : Place) : Disk :=
  { d with entries := d.entries.filter fun e => !p.isPrefixOf e.1 }

/-- What lies below `p`, with the way that leads to it from there. -/
def below (d : Disk) (p : Place) : List (Place × Entry) :=
  d.entries.filterMap fun e =>
    if p.isPrefixOf e.1 && e.1 != p then some (e.1.drop p.length, e.2) else none

/-- The names directly in a directory. -/
def namesIn (d : Disk) (p : Place) : List String :=
  (d.below p).filterMap fun e => match e.1 with
    | [name] => some name
    | _ => none

/-- Directory order: a directory comes right before what it holds, and names are compared
character by character. -/
def before : Place → Place → Bool
  | [], _ => true
  | _ :: _, [] => false
  | a :: p, b :: q => a < b || (a == b && before p q)

theorem lookup_put (p q : Place) (e : Entry) (es : List (Place × Entry)) :
    (put p e es).lookup q = if q = p then some e else es.lookup q := by
  induction es with
  | nil =>
    by_cases h : q = p
    · simp [put, h]
    · have : (q == p) = false := by simp [h]
      simp [put, List.lookup_cons, this, h]
  | cons x r ih =>
    obtain ⟨s, f⟩ := x
    by_cases hs : s = p
    · subst hs
      by_cases h : q = s
      · simp [put, h]
      · have : (q == s) = false := by simp [h]
        simp [put, List.lookup_cons, this, h]
    · simp only [put, hs, if_false, List.lookup_cons, ih]
      by_cases h : q = s
      · subst h
        simp [hs]
      · have : (q == s) = false := by simp [h]
        simp [this]

/-- A change at one place leaves all other places alone. -/
theorem at?_set {d : Disk} {p : Place} (e : Entry) (q : Place) (h : p ≠ []) :
    (d.set p e).at? q = if q = p then some e else d.at? q := by
  unfold at? set
  by_cases hq : q = []
  · subst hq
    simp [h.symm]
  · simp [hq, lookup_put]

@[simp] theorem here_set (d : Disk) (p : Place) (e : Entry) : (d.set p e).here = d.here := rfl

@[simp] theorem here_clear (d : Disk) (p : Place) : (d.clear p).here = d.here := rfl

theorem lookup_filter_prefix (p q : Place) (es : List (Place × Entry)) :
    (es.filter fun e => !p.isPrefixOf e.1).lookup q =
      if p.isPrefixOf q then none else es.lookup q := by
  induction es with
  | nil => simp
  | cons x r ih =>
    obtain ⟨s, f⟩ := x
    by_cases h : q = s
    · subst h
      by_cases hp : p.isPrefixOf q <;> simp [hp, ih]
    · have : (q == s) = false := by simp [h]
      by_cases hp : p.isPrefixOf s <;> simp [hp, ih, List.lookup_cons, this]

theorem at?_clear {d : Disk} {p : Place} (q : Place) (h : p ≠ []) :
    (d.clear p).at? q = if p.isPrefixOf q then none else d.at? q := by
  unfold at? clear
  by_cases hq : q = []
  · subst hq
    cases p with
    | nil => exact absurd rfl h
    | cons a r => simp
  · simp [hq, lookup_filter_prefix]

end Disk

end ProviderGen
