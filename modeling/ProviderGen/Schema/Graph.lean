import ProviderGen.Schema.Key

/-!
The objects of a schema side by side. A property refers to another object by that object's
key, so types nest only through lists, sets and maps. A graph holds at most one object per
key, in the order in which the keys were first met.
-/

namespace ProviderGen.Schema

inductive FlatType where
  | string
  | integer
  | number
  | boolean
  | any
  | object (key : Key)
  | list (item : FlatType)
  | set (item : FlatType)
  | map (value : FlatType)
  deriving DecidableEq, Inhabited

/-- The keys that a type refers to; there is at most one. -/
def FlatType.reference? : FlatType → Option Key
  | object key => some key
  | list t | set t | map t => t.reference?
  | _ => none

structure Property where
  name : String
  type : FlatType
  required : Bool
  deriving DecidableEq, Inhabited

structure Object where
  key : Key
  properties : List Property
  deriving DecidableEq, Inhabited

structure Graph where
  objects : List Object
  distinct : (objects.map Object.key).Nodup

namespace Graph

def empty : Graph := ⟨[], by simp⟩

instance : Inhabited Graph := ⟨empty⟩

def keys (g : Graph) : List Key := g.objects.map Object.key

def get? (g : Graph) (k : Key) : Option Object := g.objects.find? (·.key == k)

def contains (g : Graph) (k : Key) : Bool := g.objects.any (·.key == k)

def size (g : Graph) : Nat := g.objects.length

/-- An object whose key is there takes the place of the old one, a new one comes last. -/
def put (o : Object) : List Object → List Object
  | [] => [o]
  | p :: r => if p.key = o.key then o :: r else p :: put o r

theorem map_key_put (o : Object) (os : List Object) :
    (put o os).map Object.key =
      if o.key ∈ os.map Object.key then os.map Object.key
      else os.map Object.key ++ [o.key] := by
  induction os with
  | nil => simp [put]
  | cons p r ih =>
    by_cases h : p.key = o.key
    · simp [put, h]
    · have h' : o.key ≠ p.key := fun e => h e.symm
      simp only [put, h, if_false, List.map_cons, ih, List.mem_cons, h', false_or]
      split <;> simp

theorem nodup_put {o : Object} {os : List Object} (h : (os.map Object.key).Nodup) :
    ((put o os).map Object.key).Nodup := by
  rw [map_key_put]
  split
  · exact h
  · rename_i hn
    exact List.nodup_append.2 ⟨h, by simp, by
      intro a ha b hb e
      simp only [List.mem_singleton] at hb
      exact hn (hb ▸ e ▸ ha)⟩

def insert (g : Graph) (o : Object) : Graph := ⟨put o g.objects, nodup_put g.distinct⟩

@[simp] theorem keys_empty : empty.keys = [] := rfl

theorem keys_insert (g : Graph) (o : Object) :
    (g.insert o).keys = if o.key ∈ g.keys then g.keys else g.keys ++ [o.key] :=
  map_key_put o g.objects

theorem contains_iff {g : Graph} {k : Key} : g.contains k ↔ k ∈ g.keys := by
  simp [contains, keys]

end Graph

end ProviderGen.Schema
