import ProviderGen.Text.Hidden

/-!
The quoted form of a text in messages: between double quotes, with a backslash in front of
quotes and backslashes, short escapes for the common control characters, and the code point of
every other hidden character in hexadecimal.
-/

namespace ProviderGen.Text

def escape (c : Char) : List Char :=
  match c with
  | '"' => ['\\', '"']
  | '\\' => ['\\', '\\']
  | '\n' => ['\\', 'n']
  | '\r' => ['\\', 'r']
  | '\t' => ['\\', 't']
  | '\x00' => ['\\', '0']
  | c =>
    if isHidden c then ['\\', 'u', '{'] ++ Nat.toDigits 16 c.toNat ++ ['}']
    else [c]

def quote (s : String) : String :=
  String.ofList ('"' :: s.toList.flatMap escape ++ ['"'])

end ProviderGen.Text
