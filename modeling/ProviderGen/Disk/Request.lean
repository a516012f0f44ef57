import ProviderGen.Disk.Lookup

/-!
Requests to a disk. Each one gives the changed disk or is refused.
-/

namespace ProviderGen

namespace Path

/-- The path without the slashes behind it. -/
def withoutSlash (p : Path) : Path :=
  ⟨String.ofList ((p.text.toList.reverse.dropWhile (· == '/')).reverse)⟩

/-- A name with a slash behind it, which can only be a directory. -/
def asksForDirectory (p : Path) : Bool := p.withoutSlash != p && p.withoutSlash.fileName?.isSome

end Path

namespace Disk

def read (d : Disk) (p : Path) : Except Refusal ByteArray := do
  match d.at? (← d.locate true p) with
  | some (.file bytes) => .ok bytes
  | some .directory => .error .isDirectory
  | _ => .error .notFound

/-- The place at which a file may be written. -/
def target (d : Disk) (last : Bool) (p : Path) : Except Refusal Spot := do
  if p.asksForDirectory then
    let _ ← d.find false p.withoutSlash
    .error .isDirectory
  else
    match ← d.find last p with
    | .free _ true => .error .isDirectory
    | s => .ok s

/-- A new file; there must be nothing at the path, not even a link. -/
def createNew (d : Disk) (p : Path) (bytes : ByteArray) : Except Refusal Disk := do
  match ← d.target false p with
  | .free q _ => .ok (d.set q (.file bytes))
  | .taken _ => .error .occupied

/-- A file with these bytes, whether there was one or not. -/
def write (d : Disk) (p : Path) (bytes : ByteArray) : Except Refusal Disk := do
  match ← d.target true p with
  | .free q _ => .ok (d.set q (.file bytes))
  | .taken q => if d.hasDirectory q then .error .isDirectory else .ok (d.set q (.file bytes))

/-- A new directory. A link at the path is in the way, even with a slash behind it. -/
def makeDirectory (d : Disk) (p : Path) : Except Refusal Disk := do
  match ← d.find false (if p.asksForDirectory then p.withoutSlash else p) with
  | .free q _ => .ok (d.set q .directory)
  | .taken _ => .error .occupied

/-- A link, whether or not there is anything at its target. -/
def makeLink (d : Disk) (p : Path) (target : Path) : Except Refusal Disk := do
  if target.text.toList.contains '\x00' then .error .nulInName
  else if target.text = "" then .error .notFound
  else if pathLimit < target.text.utf8ByteSize then .error .nameTooLong
  else
    match ← d.find false p with
    | .free q false => .ok (d.set q (.link target))
    | .free _ true => .error .notFound
    | .taken _ => .error .occupied

/-- Without the directory at a path and all that it holds; a link goes by itself. -/
def removeTree (d : Disk) (p : Path) : Except Refusal Disk := do
  let q ← d.locate false p
  match d.at? q with
  | some (.file _) => .error .notDirectory
  | _ => .ok (d.clear q)

/-- The names in a directory. -/
def list (d : Disk) (p : Path) : Except Refusal (List String) := do
  let q ← d.locate true p
  if d.hasDirectory q then .ok (d.namesIn q) else .error .notDirectory

/-- Everything below a directory that is none itself, in directory order. Links are listed and
not followed, even where the path itself is one. -/
def walk (d : Disk) (p : Path) : Except Refusal (List Path) := do
  let start ← d.locate false p
  let q ← d.locate true p
  let found := (d.below q).filter fun e => !e.2.isDirectory
  let sorted := (found.map Prod.fst).mergeSort before
  let paths := sorted.map fun names => names.foldl (· / ·) p
  .ok (if d.hasDirectory start then paths else p :: paths)

/-- The absolute path, free of links, of what a path leads to. -/
def canonical (d : Disk) (p : Path) : Except Refusal Path := do
  let q ← d.locate true p
  .ok ⟨"/" ++ "/".intercalate q⟩

end Disk

end ProviderGen
