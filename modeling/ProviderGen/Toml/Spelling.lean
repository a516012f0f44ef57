import ProviderGen.Toml.Token

/-!
How a text is spelled in a settings text. The plainest of four forms is taken that can hold the
text as it is: double quotes, single quotes, three double quotes, three single quotes. Where
none can, the text is escaped, over several lines if it has line breaks.
-/

namespace ProviderGen.Toml

/-- The length of the longest run of `q` in `cs`, of which `run` are just behind us. -/
def longestRunFrom (q : Char) (run : Nat) : List Char → Nat
  | [] => run
  | c :: r => if c = q then longestRunFrom q (run + 1) r else max run (longestRunFrom q 0 r)

def longestRun (q : Char) (cs : List Char) : Nat := longestRunFrom q 0 cs

/-- Control characters that no form can hold as they are. -/
def isControl (c : Char) : Bool := (c.toNat < 32 && c != '\t' && c != '\n') || c.toNat == 127

inductive Form where
  | quotes
  | literal
  | block
  | literalBlock
  deriving DecidableEq

/-- The plainest form for a text. -/
def formOf (cs : List Char) : Form :=
  let breaks := cs.contains '\n'
  let slashes := cs.contains '\\'
  let doubles := longestRun doubleQuote cs
  let singles := longestRun singleQuote cs
  if cs.any isControl then (if breaks then .block else .quotes)
  else if !slashes && doubles = 0 && !breaks then .quotes
  else if singles = 0 && !breaks then .literal
  else if !slashes && doubles ≤ 2 then .block
  else if singles ≤ 2 then .literalBlock
  else if breaks then .block
  else .quotes

def upperHex (n : Nat) : List Char := (Nat.toDigits 16 n).map Char.toUpper

/-- A number below 2^16 in four digits. -/
def fourDigits (n : Nat) : List Char := List.replicate (4 - (upperHex n).length) '0' ++ upperHex n

/-- How a character other than a quote is written; a line break is kept where lines may break. -/
def escaped (breaks : Bool) (c : Char) : List Char :=
  if c = '\x08' then ['\\', 'b']
  else if c = '\t' then ['\\', 't']
  else if c = '\n' then (if breaks then ['\n'] else ['\\', 'n'])
  else if c = '\x0c' then ['\\', 'f']
  else if c = '\r' then ['\\', 'r']
  else if c = '\\' then ['\\', '\\']
  else if isControl c then '\\' :: 'u' :: fourDigits c.toNat
  else [c]

/-- The characters between double quotes. At most `limit` of these may follow one another, and
`run` are just behind us. -/
def body (breaks : Bool) (limit run : Nat) : List Char → List Char
  | [] => []
  | c :: r =>
    if c = doubleQuote then
      if run < limit then c :: body breaks limit (run + 1) r
      else '\\' :: c :: body breaks limit 0 r
    else escaped breaks c ++ body breaks limit 0 r

/-- A line break right behind the opening quotes belongs to the form, so a text that has line
breaks of its own is written from the next line on. -/
def opening (cs : List Char) : List Char := if cs.contains '\n' then ['\n'] else []

def spelled (cs : List Char) : List Char :=
  match formOf cs with
  | .quotes => doubleQuote :: body false 0 0 cs ++ [doubleQuote]
  | .literal => singleQuote :: cs ++ [singleQuote]
  | .block =>
    List.replicate 3 doubleQuote ++ opening cs ++ body true 2 0 cs ++ List.replicate 3 doubleQuote
  | .literalBlock =>
    List.replicate 3 singleQuote ++ opening cs ++ cs ++ List.replicate 3 singleQuote

def spell (s : String) : String := String.ofList (spelled s.toList)

end ProviderGen.Toml
