import ProviderGen.Disk

/-!
Following a path on a disk. Links on the way are followed, at most forty of them; whether a
link at the very end is followed is up to the request. A path leads to something, or to a name
that is free in a directory that exists, or it is refused.
-/

namespace ProviderGen.Disk

/-- Where a path leads. A free name may be asked for as a directory, with a slash behind it. -/
inductive Spot where
  | taken (place : Place)
  | free (place : Place) (asDirectory : Bool)
  deriving DecidableEq

def linkLimit : Nat := 40

/-- In bytes. -/
def nameLimit : Nat := 255

/-- In bytes. -/
def pathLimit : Nat := 4095

/-- Follows the names `todo` from the place `at`. -/
def follow (d : Disk) (last : Bool) (links : Nat) (p : Place) (todo : List String) :
    Except Refusal Spot :=
  match todo with
  | [] => .ok (.taken p)
  | name :: rest =>
    if !d.hasDirectory p then .error .notDirectory
    else if name = "" ∨ name = "." then follow d last links p rest
    else if name = ".." then follow d last links p.dropLast rest
    else if nameLimit < name.utf8ByteSize then .error .nameTooLong
    else
      match d.at? (p ++ [name]) with
      | none =>
        if rest.all (· == "") then .ok (.free (p ++ [name]) (!rest.isEmpty))
        else .error .notFound
      | some (.link target) =>
        if rest.isEmpty && !last then .ok (.taken (p ++ [name]))
        else
          match links with
          | 0 => .error .tooManyLinks
          | n + 1 =>
            follow d last n (if target.isAbsolute then [] else p)
              (target.pieces.map String.ofList ++ rest)
      | some _ => follow d last links (p ++ [name]) rest
termination_by (links, todo.length)

def startOf (d : Disk) (p : Path) : Place := if p.isAbsolute then [] else d.here

/-- Where a path leads; `last` says whether a link at its end is followed. -/
def find (d : Disk) (last : Bool) (p : Path) : Except Refusal Spot :=
  if p.text.toList.contains '\x00' then .error .nulInName
  else if p.text = "" then .error .notFound
  else if pathLimit < p.text.utf8ByteSize then .error .nameTooLong
  else follow d last linkLimit (d.startOf p) (p.pieces.map String.ofList)

/-- The place of what a path leads to. -/
def locate (d : Disk) (last : Bool) (p : Path) : Except Refusal Place :=
  match d.find last p with
  | .ok (.taken q) => .ok q
  | .ok (.free _ _) => .error .notFound
  | .error e => .error e

/-- What a path leads to, with links followed. -/
def entry? (d : Disk) (p : Path) : Option Entry :=
  match d.locate true p with
  | .ok q => d.at? q
  | .error _ => none

def isDirectory (d : Disk) (p : Path) : Bool := (d.entry? p).any Entry.isDirectory

def isFile (d : Disk) (p : Path) : Bool :=
  match d.entry? p with
  | some (.file _) => true
  | _ => false

def exists? (d : Disk) (p : Path) : Bool := (d.entry? p).isSome

end ProviderGen.Disk
