/-!
Names that are not taken yet. A name that is free stays as it is; one that is taken gets the
smallest number from one on that makes it free. Among as many candidates as there are taken
names, and one more, at least one is free.
-/

namespace ProviderGen.Java

def numbered (name : String) (k : Nat) : String := name ++ toString k

/-- The first free name numbered from `k` on, looking at `n` of them before settling. -/
def firstFree (taken : List String) (name : String) : Nat → Nat → String
  | 0, k => numbered name k
  | n + 1, k =>
    if numbered name k ∈ taken then firstFree taken name n (k + 1) else numbered name k

def freeName (taken : List String) (name : String) : String :=
  if name ∈ taken then firstFree taken name taken.length 1 else name

/-- Free names for a series of names, each of which is taken from then on. -/
def freeNames (taken : List String) : List String → List String
  | [] => []
  | name :: r => freeName taken name :: freeNames (freeName taken name :: taken) r

theorem freeName_of_free {taken : List String} {name : String} (h : name ∉ taken) :
    freeName taken name = name := by
  simp [freeName, h]

@[simp] theorem length_freeNames (taken names : List String) :
    (freeNames taken names).length = names.length := by
  induction names generalizing taken with
  | nil => rfl
  | cons n r ih => simp [freeNames, ih]

end ProviderGen.Java
