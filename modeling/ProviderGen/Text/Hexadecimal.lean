/-!
Numbers in hexadecimal. Both cases of the letters are read, and every digit counts.
-/

namespace ProviderGen.Text

def hexValue? (c : Char) : Option Nat :=
  if c.isDigit then some (c.toNat - '0'.toNat)
  else if 'a' ≤ c && c ≤ 'f' then some (c.toNat - 'a'.toNat + 10)
  else if 'A' ≤ c && c ≤ 'F' then some (c.toNat - 'A'.toNat + 10)
  else none

/-- The number that the digits after `n` make of it. -/
def hexFrom? (n : Nat) : List Char → Option Nat
  | [] => some n
  | c :: r => (hexValue? c).bind fun d => hexFrom? (n * 16 + d) r

def hexNumber? (cs : List Char) : Option Nat := hexFrom? 0 cs

@[simp] theorem hexFrom?_nil (n : Nat) : hexFrom? n [] = some n := rfl

end ProviderGen.Text
