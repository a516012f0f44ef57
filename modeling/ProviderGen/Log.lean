import ProviderGen.Text.Blank
import ProviderGen.Text.LowerCase

/-!
How much is logged, and in which form. The configured level holds unless a filter of the user's
own is given; being verbose goes before both.
-/

namespace ProviderGen.Log

open ProviderGen.Text (lower isBlank)

inductive Format where
  | json
  | pretty
  deriving DecidableEq

def Format.name : Format → String
  | json => "json"
  | pretty => "pretty"

/-- Everything that is not called json is pretty. -/
def Format.ofName (name : String) : Format := if lower name = "json" then json else pretty

inductive Level where
  | trace
  | debug
  | info
  | warn
  | error
  deriving DecidableEq

def Level.name : Level → String
  | trace => "trace"
  | debug => "debug"
  | info => "info"
  | warn => "warn"
  | error => "error"

/-- An unknown level counts as info. -/
def Level.ofName (name : String) : Level :=
  match lower name with
  | "trace" => trace
  | "debug" => debug
  | "warn" => warn
  | "error" => error
  | _ => info

structure Config where
  levelName : String
  format : Format
  location : Bool
  forced : Bool
  deriving DecidableEq

namespace Config

/-- The configuration for the given settings of level, format and location. -/
def ofSettings (level format location : Option String) : Config where
  levelName := level.getD Level.info.name
  format := Format.ofName (format.getD Format.pretty.name)
  location := location == some "true"
  forced := false

def verbose (c : Config) : Config := { c with levelName := Level.debug.name, forced := true }

def level (c : Config) : Level := Level.ofName c.levelName

/-- The filter to install, given the user's own. -/
def filter (c : Config) (own : Option String) : String :=
  match own with
  | some f => if c.forced || f.toList.all isBlank then c.level.name else f
  | none => c.level.name

end Config

end ProviderGen.Log
