/-!
Words that a generated declaration must not use as a name: the keywords of the language, and
the one name that the base types already own. A guarded word has an underscore behind it when,
and only when, it is reserved.
-/

namespace ProviderGen.Java

def keywords : List String := [
  "abstract", "assert", "boolean", "break", "byte", "case", "catch", "char", "class", "const",
  "continue", "default", "do", "double", "else", "enum", "extends", "final", "finally", "float",
  "for", "goto", "if", "implements", "import", "instanceof", "int", "interface", "long",
  "native", "new", "package", "private", "protected", "public", "return", "short", "static",
  "strictfp", "super", "switch", "synchronized", "this", "throw", "throws", "transient", "try",
  "void", "volatile", "while"]

/-- Names that the base types of generated classes own. -/
def inheritedNames : List String := ["properties"]

def isKeyword (word : String) : Bool := keywords.contains word

def isReserved (word : String) : Bool := (keywords ++ inheritedNames).contains word

def guard (word : String) : String := if isReserved word then word ++ "_" else word

theorem guard_of_not_reserved {word : String} (h : isReserved word = false) :
    guard word = word := by
  simp [guard, h]

/-- A reserved word ends with a letter. -/
theorem isAlpha_of_isReserved {word : String} (h : isReserved word = true) :
    ∀ c ∈ word.toList.getLast?, c.isAlpha = true := by
  have hall : ∀ w ∈ keywords ++ inheritedNames, w.toList.getLast?.all Char.isAlpha = true := by
    decide
  exact (Option.all_eq_true _ _).1 (hall word (by simpa [isReserved] using h))

/-- A reserved word with an underscore behind it is free. -/
theorem isReserved_guard (word : String) : isReserved (guard word) = false := by
  unfold guard
  split
  · refine Bool.eq_false_iff.2 fun h => ?_
    have hlast := isAlpha_of_isReserved h '_' (by simp)
    exact absurd hlast (by decide)
  · rename_i h
    simpa using h

end ProviderGen.Java
