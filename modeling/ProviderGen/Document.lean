import ProviderGen.Numeral

/-!
Documents: nulls, truth values, numerals, texts, lists, and records whose members keep the
order in which they were declared. A numeral is kept as its digits.
-/

namespace ProviderGen

inductive Document where
  | null
  | bool (value : Bool)
  | number (value : Numeral)
  | text (value : String)
  | list (items : List Document)
  | record (members : List (String × Document))
  deriving Inhabited

namespace Document

abbrev Members := List (String × Document)

/-- A member of a record; nothing else has members. -/
def member? (name : String) : Document → Option Document
  | record members => members.lookup name
  | _ => none

def text? : Document → Option String
  | text value => some value
  | _ => none

def list? : Document → Option (List Document)
  | list items => some items
  | _ => none

def record? : Document → Option Members
  | record members => some members
  | _ => none

/-- Sets a member: a name that is there keeps its place, a new one comes last. -/
def Members.put (name : String) (value : Document) : Members → Members
  | [] => [(name, value)]
  | (n, v) :: r => if n = name then (n, value) :: r else (n, v) :: put name value r

theorem Members.map_fst_put (name : String) (value : Document) (ms : Members) :
    (ms.put name value).map Prod.fst =
      if name ∈ ms.map Prod.fst then ms.map Prod.fst else ms.map Prod.fst ++ [name] := by
  induction ms with
  | nil => simp [put]
  | cons m r ih =>
    obtain ⟨n, v⟩ := m
    by_cases h : n = name
    · simp [put, h]
    · have h' : name ≠ n := fun e => h e.symm
      simp only [put, h, if_false, List.map_cons, ih, List.mem_cons, h', false_or]
      split <;> simp

theorem Members.nodup_put {name : String} {value : Document} {ms : Members}
    (h : (ms.map Prod.fst).Nodup) : ((ms.put name value).map Prod.fst).Nodup := by
  rw [map_fst_put]
  split
  · exact h
  · rename_i hn
    exact List.nodup_append.2 ⟨h, by simp, by
      intro a ha b hb e
      simp only [List.mem_singleton] at hb
      exact hn (hb ▸ e ▸ ha)⟩

theorem Members.mem_of_lookup {name : String} {v : Document} {ms : Members}
    (h : ms.lookup name = some v) : (name, v) ∈ ms := by
  induction ms with
  | nil => simp at h
  | cons m r ih =>
    obtain ⟨n, w⟩ := m
    rw [List.lookup_cons] at h
    split at h
    · rename_i e
      simp only [Option.some.injEq] at h
      simp [(beq_iff_eq.1 e : name = n), h]
    · exact List.mem_cons_of_mem _ (ih h)

theorem Members.sizeOf_lt_of_mem {name : String} {v : Document} {ms : Members}
    (h : (name, v) ∈ ms) : sizeOf v < sizeOf ms := by
  have := List.sizeOf_lt_of_mem h
  simp only [Prod.mk.sizeOf_spec] at this
  omega

theorem Members.sizeOf_lt_of_lookup {name : String} {v : Document} {ms : Members}
    (h : ms.lookup name = some v) : sizeOf v < sizeOf ms :=
  sizeOf_lt_of_mem (mem_of_lookup h)

end Document

end ProviderGen
