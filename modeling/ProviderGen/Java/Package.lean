import ProviderGen.Java.Word
import ProviderGen.Text.LowerCase

/-!
Packages. Deriving one from the segments of a type name always succeeds: letters become lower
case, all other characters that a package may not hold become underscores, and reserved words
are guarded. A package that a user has chosen is taken as it is or refused.
-/

namespace ProviderGen.Java

open ProviderGen.Text (lower lowerChars)

structure Package where
  segments : List String
  deriving DecidableEq, Inhabited

namespace Package

def dotted (p : Package) : String := ".".intercalate p.segments

def rootSegment : String := "com"

def isSegmentStart (c : Char) : Bool := c.isLower || c == '_'

def isSegmentChar (c : Char) : Bool := c.isLower || c.isDigit || c == '_'

/-- A segment of the characters allowed, not empty and without a digit in front. -/
def legalSegment (cs : List Char) : List Char :=
  match cs.map fun c => if isSegmentChar c then c else '_' with
  | [] => ['_']
  | c :: r => if c.isDigit then '_' :: c :: r else c :: r

def deriveSegment (segment : String) : String :=
  guard (String.ofList (legalSegment (lowerChars segment.toList)))

def derive (segments : List String) : Package := ⟨rootSegment :: segments.map deriveSegment⟩

/-- Why a chosen package is refused. -/
inductive Fault where
  | upperCase
  | emptySegment
  | keyword (segment : String)
  | badStart (segment : String)
  | badShape (segment : String)
  deriving DecidableEq

def Fault.message : Fault → String
  | upperCase => "package names must be all lower case"
  | emptySegment => "empty segment"
  | keyword s => "'" ++ s ++ "' is a reserved keyword"
  | badStart s =>
    "segment '" ++ s ++ "' must begin with a lower case letter or an underscore"
  | badShape s => "segment '" ++ s ++ "' should match '^[_a-z][_a-z0-9]+$'"

/-- Two characters at least: a start and then letters, digits and underscores. -/
def isSegment : List Char → Bool
  | c :: d :: r => isSegmentStart c && (d :: r).all isSegmentChar
  | _ => false

def checkSegment (segment : String) : Except Fault Unit :=
  match segment.toList with
  | [] => .error .emptySegment
  | c :: r =>
    if isKeyword segment then .error (.keyword segment)
    else if !isSegmentStart c then .error (.badStart segment)
    else if !isSegment (c :: r) then .error (.badShape segment)
    else .ok ()

/-- The pieces of a text between its dots. -/
def pieces (value : String) : List String := (value.toList.splitOn '.').map String.ofList

def read (value : String) : Except Fault Package :=
  if lower value ≠ value then .error .upperCase
  else do
    (pieces value).forM checkSegment
    .ok ⟨pieces value⟩

end Package

end ProviderGen.Java
