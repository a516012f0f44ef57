/-!
Paths as texts. A path keeps the spelling it was given; its components are read off the pieces
between slashes, where empty pieces and single dots count for nothing, except that a leading
dot of a relative path is a component of its own. Nothing here looks at a disk.
-/

namespace ProviderGen

structure Path where
  text : String
  deriving DecidableEq, Inhabited

namespace Path

inductive Component where
  | top
  | here
  | up
  | name (name : String)
  deriving DecidableEq

def Component.text : Component → String
  | top => "/"
  | here => "."
  | up => ".."
  | name n => n

def pieces (p : Path) : List (List Char) := p.text.toList.splitOn '/'

def isAbsolute (p : Path) : Bool := p.text.toList.head? == some '/'

/-- A piece that counts for nothing. -/
def isIdle (piece : List Char) : Bool := piece == [] || piece == ['.']

def componentOf? (piece : List Char) : Option Component :=
  if isIdle piece then none
  else if piece = ['.', '.'] then some .up
  else some (.name (String.ofList piece))

def start (p : Path) : List Component :=
  if p.isAbsolute then [.top] else if p.pieces.head? = some ['.'] then [.here] else []

def components (p : Path) : List Component := p.start ++ p.pieces.filterMap componentOf?

/-- The path with a further part behind it; an absolute part stands alone. -/
def join (p : Path) (part : String) : Path :=
  if part.toList.head? = some '/' then ⟨part⟩
  else if p.text = "" ∨ p.text.toList.getLast? = some '/' then ⟨p.text ++ part⟩
  else ⟨p.text ++ "/" ++ part⟩

instance : HDiv Path String Path := ⟨join⟩

/-- The last component, if that is a name. -/
def fileName? (p : Path) : Option String :=
  match p.components.getLast? with
  | some (.name n) => some n
  | _ => none

def withoutIdleEnd (ps : List (List Char)) : List (List Char) :=
  (ps.reverse.dropWhile isIdle).reverse

/-- The pieces before the last one that counts, spelled as they were. -/
def parentPieces (ps : List (List Char)) : List (List Char) :=
  withoutIdleEnd (withoutIdleEnd ps).dropLast

def ofPieces (ps : List (List Char)) : Path := ⟨String.ofList (['/'].intercalate ps)⟩

/-- The path without its last component; the top and the empty path have no parent. -/
def parent? (p : Path) : Option Path :=
  match p.pieces with
  | [] => none
  | [] :: rest =>
    if withoutIdleEnd rest = [] then none else some (ofPieces ([] :: (match parentPieces rest with
      | [] => [[]]
      | ps => ps)))
  | ['.'] :: rest =>
    if withoutIdleEnd rest = [] then some ⟨""⟩ else some (ofPieces (['.'] :: parentPieces rest))
  | ps => some (ofPieces (parentPieces ps))

def ancestorsUpTo : Nat → Path → List Path
  | 0, _ => []
  | n + 1, p =>
    match p.parent? with
    | none => []
    | some q => q :: ancestorsUpTo n q

/-- The parent, its parent and so on; there are no more of them than pieces. -/
def ancestors (p : Path) : List Path := ancestorsUpTo p.pieces.length p

/-- What remains of the components of `p` behind those of `root`. -/
def below? (p root : Path) : Option (List Component) :=
  if root.components.isPrefixOf p.components then
    some (p.components.drop root.components.length)
  else none

end Path

end ProviderGen
