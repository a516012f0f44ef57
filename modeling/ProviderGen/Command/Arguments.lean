import ProviderGen.Path

/-!
Reading the arguments of a command line. There are two levels, the program's own options and
those of the command behind them, and the first word that is neither an option nor a value ends
the first level. An argument that has its value in the next word is settled only when the next
option of its level comes, or when all words are read.
-/

namespace ProviderGen.Command

/-- What the program can be asked to do in a project. -/
inductive Action where
  | init (typeName : String) (package : Option String)
  | generate
  | pack (output : Option Path)
  deriving DecidableEq

inductive Request where
  | run (root : Path) (verbose : Bool) (action : Action)
  | help
  | version
  | misuse
  deriving DecidableEq

inductive Argument where
  | root
  | verbose
  | help
  | version
  | typeName
  | package
  | output
  deriving DecidableEq

inductive Level where
  | top
  | init
  | generate
  | pack
  deriving DecidableEq

def Level.ofWord? : String → Option Level
  | "init" => some .init
  | "generate" => some .generate
  | "package" => some .pack
  | _ => none

namespace Argument

def ofName? : String → Option Argument
  | "root" => some root
  | "verbose" => some verbose
  | "help" => some help
  | "version" => some version
  | "type-name" => some typeName
  | "namespace" => some package
  | "output" => some output
  | _ => none

def ofLetter? : Char → Option Argument
  | 'v' => some verbose
  | 'h' => some help
  | 'V' => some version
  | 'o' => some output
  | _ => none

def takesValue : Argument → Bool
  | root | typeName | package | output => true
  | verbose | help | version => false

/-- Paths must not be empty. -/
def isPath : Argument → Bool
  | root | output => true
  | _ => false

def isAllowed (level : Level) : Argument → Bool
  | root | verbose | help => true
  | version => level == .top
  | typeName | package => level == .init
  | output => level == .pack

end Argument

/-- What is given at one level: the settled arguments, and one whose value may be missing. -/
structure Given where
  settled : List (Argument × String)
  pending : Option (Argument × Option String)
  deriving DecidableEq

namespace Given

def nothing : Given := ⟨[], none⟩

/-- An argument may be given once. -/
def add (g : Given) (a : Argument) (value : String) : Except Request Given :=
  if (g.settled.lookup a).isSome || (a.isPath && value == "") then .error .misuse
  else .ok { g with settled := (a, value) :: g.settled }

def settle (g : Given) : Except Request Given :=
  match g.pending with
  | none => .ok g
  | some (a, some value) => add { g with pending := none } a value
  | some (_, none) => .error .misuse

def awaitsValue (g : Given) : Bool :=
  match g.pending with
  | some (_, none) => true
  | _ => false

def withValue (g : Given) (value : String) : Given :=
  { g with pending := g.pending.map fun (a, _) => (a, some value) }

def addFlag (g : Given) (a : Argument) : Except Request Given := do
  let g ← g.settle
  match a with
  | .help => .error .help
  | .version => .error .version
  | a => g.add a ""

/-- An argument with a value behind an equals sign or directly behind its letter. -/
def addAttached (g : Given) (a : Argument) (value : String) : Except Request Given := do
  (← g.settle).add a value

def await (g : Given) (a : Argument) : Except Request Given := do
  .ok { (← g.settle) with pending := some (a, none) }

def value? (g : Given) (a : Argument) : Option String := g.settled.lookup a

end Given

def allowed (level : Level) : Option Argument → Except Request Argument
  | some a => if a.isAllowed level then .ok a else .error .misuse
  | none => .error .misuse

/-- An argument by its name, behind two dashes. -/
def byName (level : Level) (g : Given) (cs : List Char) : Except Request Given := do
  let name := cs.takeWhile (· != '=')
  let a ← allowed level (Argument.ofName? (String.ofList name))
  match a.takesValue, cs.drop name.length with
  | true, [] => g.await a
  | true, _ :: value => g.addAttached a (String.ofList value)
  | false, [] => g.addFlag a
  | false, _ :: _ => .error .misuse

/-- Arguments by their letters, behind one dash; one that takes a value takes all the rest. -/
def byLetters (level : Level) (g : Given) : List Char → Except Request Given
  | [] => .ok g
  | c :: rest => do
    let a ← allowed level (Argument.ofLetter? c)
    if a.takesValue then
      match rest with
      | [] => g.await a
      | '=' :: value => g.addAttached a (String.ofList value)
      | value => g.addAttached a (String.ofList value)
    else byLetters level (← g.addFlag a) rest

/-- What is given at a level, and the words from the first that does not belong to it. -/
def given (level : Level) (g : Given) : List String → Except Request (Given × List String)
  | [] => .ok (g, [])
  | word :: rest =>
    match word.toList with
    | ['-', '-'] => .ok (g, word :: rest)
    | '-' :: '-' :: name => do given level (← byName level g name) rest
    | '-' :: c :: letters => do given level (← byLetters level g (c :: letters)) rest
    | _ => if g.awaitsValue then given level (g.withValue word) rest else .ok (g, word :: rest)

/-- What the help command is asked about. -/
def helpOn : List String → Request
  | [] => .help
  | [word] => if (Level.ofWord? word).isSome || word == "help" then .help else .misuse
  | _ => .misuse

def actionOf (level : Level) (g : Given) : Except Request Action :=
  match level with
  | .top => .error .misuse
  | .init =>
    match g.value? .typeName with
    | some t => .ok (.init t (g.value? .package))
    | none => .error .misuse
  | .generate => .ok .generate
  | .pack => .ok (.pack ((g.value? .output).map Path.mk))

/-- A command with its own arguments. Two dashes may end them, with nothing behind. -/
def command (level : Level) (top : Given) (words : List String) : Except Request Request := do
  let (own, rest) ← given level .nothing words
  if rest ≠ [] ∧ rest ≠ ["--"] then .error .misuse
  let own ← own.settle
  let action ← actionOf level own
  let top ← top.settle
  let root := ((own.value? .root).orElse fun _ => top.value? .root).getD "."
  let verbose := (own.value? .verbose).isSome || (top.value? .verbose).isSome
  .ok (.run ⟨root⟩ verbose action)

def read (words : List String) : Except Request Request := do
  let (top, rest) ← given .top .nothing words
  match rest with
  | [] => .error .misuse
  | "help" :: names => .error (helpOn names)
  | word :: own =>
    match Level.ofWord? word with
    | some level => command level top own
    | none => .error .misuse

/-- The request that a command line makes. -/
def Request.ofArguments (words : List String) : Request :=
  match read words with
  | .ok r => r
  | .error r => r

end ProviderGen.Command
