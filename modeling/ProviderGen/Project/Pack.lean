import ProviderGen.Archive.Zip
import ProviderGen.Project
import ProviderGen.Project.Artifact

/-!
Packing a project into an archive: the artifact, the build descriptor, the sources and the
generated sources. An archive that would lie on or in one of them is refused before anything is
written; a failure after that leaves an archive of what had been packed.
-/

namespace ProviderGen.Project

open Files (orRefused)

/-- What is packed, in this order. -/
def packedPaths (root artifact : Path) : List Path := [
  artifact,
  root / Layout.buildDescriptorFile,
  root / "src",
  (Layout.generatedSegments.take 2).foldl (· / ·) root]

/-- The directory of a path, the current one if the path says nothing about it. -/
def directoryOf (p : Path) : Path :=
  match p.parent? with
  | some q => if q.text = "" then ⟨"."⟩ else q
  | none => ⟨"."⟩

variable {m : Type → Type} [Monad m] [Files m]

/-- Whether the absolute path `archive` is one of the paths or lies in one of them. A path that
is not there covers nothing. -/
def covers (archive : Path) : List Path → m Bool
  | [] => pure false
  | p :: rest => do
    match ← Files.canonical p with
    | .error _ => covers archive rest
    | .ok q =>
      if archive = q then pure true
      else if (← Files.isDirectory q) && (archive.below? q).isSome then pure true
      else covers archive rest

/-- Refuses an archive that lies on or in what is packed. -/
def checkPlace (archive : Path) (packed : List Path) : ExceptT Error m Unit := do
  match ← Files.canonical (m := m) (directoryOf archive), archive.fileName? with
  | .ok dir, some name =>
    if ← ExceptT.lift (covers (dir / name) packed) then throw (.archiveInsideSources archive)
  | _, _ => pure ()

def pack (p : Project) (archive : Path) : ExceptT Error m Unit := do
  let artifact ← Artifact.find p.root p.hyphenated
  let packed := packedPaths p.root artifact
  checkPlace archive packed
  orRefused archive (Files.write archive .empty)
  let assembly ← ExceptT.lift (Archive.assemble (m := m) p.root packed)
  orRefused archive (Files.write archive (Archive.Zip.encode assembly.entries))
  match assembly.failure with
  | some e => throw e
  | none => pure ()

end ProviderGen.Project
