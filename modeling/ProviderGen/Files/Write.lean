import ProviderGen.Files
import ProviderGen.Template.Source
import ProviderGen.Text.Blank

/-!
Two ways of writing a text. Overwriting replaces whatever is there. Writing safely never touches
a file of the user's: a file that is there already is replaced only if its first line says that
it was generated.
-/

namespace ProviderGen.Files

variable {m : Type → Type} [Monad m] [Files m]

def makeParent (p : Path) : ExceptT Error m Unit :=
  match p.parent? with
  | some q => orRefused q (makeDirectories q)
  | none => pure ()

def overwrite (p : Path) (text : String) : ExceptT Error m Unit := do
  makeParent p
  orRefused p (write p text.toUTF8)

/-- The bytes in front of the first line feed. -/
def firstLine (bytes : ByteArray) : ByteArray :=
  ⟨(bytes.data.toList.takeWhile (· != 10)).toArray⟩

/-- Whether the first line says that the file was generated; blanks behind it do not count. -/
def isGenerated (bytes : ByteArray) : Except Refusal Bool := do
  let line ← textOf (firstLine bytes)
  .ok (Text.trimEnd line.toList == Template.marker.toList)

def safeWrite (p : Path) (text : String) : ExceptT Error m Unit := do
  makeParent p
  match ← createNew (m := m) p text.toUTF8 with
  | .ok _ => pure ()
  | .error .occupied =>
    if ← orRefused p (do pure ((← read p).bind isGenerated)) then overwrite p text
    else throw (.fileExists p)
  | .error r => throw (.refused p r)

end ProviderGen.Files
