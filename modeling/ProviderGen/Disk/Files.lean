import ProviderGen.Disk.Request
import ProviderGen.Files

/-!
A disk as a value answers every request, and is the state that the requests change.
-/

namespace ProviderGen.Disk

/-- A request that changes the disk unless it is refused. -/
def change (request : Disk → Except Refusal Disk) : StateM Disk (Except Refusal Unit) := fun d =>
  match request d with
  | .ok d' => (.ok (), d')
  | .error r => (.error r, d)

/-- A request that only looks. -/
def look {α : Type} (request : Disk → α) : StateM Disk α := fun d => (request d, d)

@[simp] theorem change_of_ok {request : Disk → Except Refusal Disk} {d d' : Disk}
    (h : request d = .ok d') : change request d = (.ok (), d') := by
  simp [change, h]

@[simp] theorem change_of_error {request : Disk → Except Refusal Disk} {d : Disk} {r : Refusal}
    (h : request d = .error r) : change request d = (.error r, d) := by
  simp [change, h]

instance : Files (StateM Disk) where
  read p := look (·.read p)
  createNew p bytes := change (·.createNew p bytes)
  write p bytes := change (·.write p bytes)
  makeDirectory p := change (·.makeDirectory p)
  removeTree p := change (·.removeTree p)
  list p := look (·.list p)
  walk p := look (·.walk p)
  canonical p := look (·.canonical p)
  isFile p := look (·.isFile p)
  isDirectory p := look (·.isDirectory p)
  isThere p := look (·.exists? p)

end ProviderGen.Disk
