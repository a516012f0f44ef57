import Mathlib.Data.String.Lemmas
import ProviderGen.Project.Generate
import ProviderGen.Proofs.Files.Grounds
import ProviderGen.Proofs.Project.Artifact
import ProviderGen.Proofs.Project.Layout
import ProviderGen.Proofs.Project.Scaffold

/-!
Where the files of a project lie, as names that lead there from its root: those of the scaffold,
those that are generated, the artifact and the archive. The directories have names without dots
and the files names with one, and where there is room enough all of them can be asked for.
-/

namespace ProviderGen

open Path (IsName)

/-! ### Names one after the other -/

namespace Path

variable {p : Path} {ns : List String} {size : ℕ}

/-- What names add to the size of a path. -/
def weight : List String → ℕ
  | [] => 0
  | n :: ns => 1 + n.utf8ByteSize + weight ns

@[simp] lemma weight_nil : weight [] = 0 := rfl

@[simp] lemma weight_cons (n : String) (ns : List String) :
    weight (n :: ns) = 1 + n.utf8ByteSize + weight ns := rfl

@[simp] lemma weight_append (ns ms : List String) : weight (ns ++ ms) = weight ns + weight ms := by
  induction ns with
  | nil => simp
  | cons n ns ih =>
    rw [List.cons_append, weight_cons, weight_cons, ih]
    omega

lemma Short.foldl (h : p.Short size) (hn : ∀ n ∈ ns, IsName n ∧ '\x00' ∉ n.toList) :
    (ns.foldl (· / ·) p).Short (size + weight ns) := by
  induction ns generalizing p size with
  | nil => exact h
  | cons n ns ih =>
    rw [List.forall_mem_cons] at hn
    have hnext := ih (h.join hn.1.1.head? hn.1.2) hn.2
    rw [weight_cons]
    rwa [Nat.add_assoc, Nat.add_assoc, ← Nat.add_assoc 1] at hnext

lemma pieces_foldl (hp : p.EndsInStep) (h : ∀ n ∈ ns, IsName n) :
    (ns.foldl (· / ·) p).pieces = p.pieces ++ ns.map String.toList := by
  induction ns generalizing p with
  | nil => simp
  | cons n ns ih =>
    rw [List.forall_mem_cons] at h
    rw [List.foldl_cons, ih h.1.endsInStep_join h.2, pieces_join_name hp h.1, List.append_assoc]
    rfl

end Path

namespace Project

open Disk (Fits)
open Files (Reaches Slot Undotted)
open Java (Operation Package)

variable {root dir : Path} {hyphenated n : String} {k : Package} {s front : Place}

/-- The path of a package stands for its segments. -/
lemma join_packagePath (hdir : dir.EndsInStep) (hne : k.segments ≠ [])
    (hk : ∀ s ∈ k.segments, IsName s) :
    dir / Layout.packagePath k = k.segments.foldl (· / ·) dir := by
  obtain ⟨hhead, -, -⟩ := packagePath_ok hne hk
  have hpath : Path.pieces ⟨Layout.packagePath k⟩ = k.segments.map String.toList := by
    have hself : (⟨Layout.packagePath k⟩ : Path) = k.segments.foldl (· / ·) ⟨""⟩ := rfl
    obtain ⟨s, ss, hsegments⟩ := List.exists_cons_of_ne_nil hne
    rw [hself]
    rw [hsegments, List.forall_mem_cons] at hk
    have hfirst : (⟨""⟩ : Path) / s = ⟨s⟩ := by
      show Path.join ⟨""⟩ s = ⟨s⟩
      rw [Path.join, if_neg hk.1.head?, if_pos (Or.inl rfl)]
      exact congrArg Path.mk String.empty_append
    rw [hsegments, List.foldl_cons, hfirst, Path.pieces_foldl hk.1.endsInStep hk.2, hk.1.pieces_eq]
    rfl
  refine Path.eq_of_pieces ?_
  rw [Path.pieces_foldl hdir hk]
  rcases Path.pieces_join (p := dir) hhead with ⟨he, -⟩ | ⟨x, hx, -, -⟩ | ⟨-, hj⟩
  · exact absurd he hdir.text_ne
  · exact absurd hx (hdir.ne x)
  · rw [hj, hpath]

/-! ### Names that can be asked for -/

/-- A name that can be asked for as a part of a path. -/
structure Asked (n : String) : Prop where
  named : IsName n
  fits : Fits n
  noNul : '\x00' ∉ n.toList

instance (n : String) : Decidable (Asked n) :=
  decidable_of_iff (IsName n ∧ Fits n ∧ '\x00' ∉ n.toList)
    ⟨fun h => ⟨h.1, h.2.1, h.2.2⟩, fun h => ⟨h.named, h.fits, h.noNul⟩⟩

/-- A name without a dot, for a directory, and one with a dot, for a file. -/
def IsDirectoryName (n : String) : Prop := Asked n ∧ '.' ∉ n.toList

def IsFileName (n : String) : Prop := Asked n ∧ '.' ∈ n.toList

instance (n : String) : Decidable (IsDirectoryName n) :=
  inferInstanceAs (Decidable (Asked n ∧ _))

instance (n : String) : Decidable (IsFileName n) := inferInstanceAs (Decidable (Asked n ∧ _))

lemma undotted_of_names (hs : ∀ m ∈ s, IsDirectoryName m) : Undotted s := fun m hm =>
  ⟨(hs m hm).1.named, (hs m hm).1.fits, (hs m hm).2⟩

lemma valid_of_names (hroot : root.Valid) (hs : ∀ m ∈ s, Asked m)
    (hsize : root.text.utf8ByteSize + Path.weight s ≤ Disk.pathLimit) :
    (s.foldl (· / ·) root).Valid := by
  have hshort : root.Short root.text.utf8ByteSize := ⟨hroot.noNul, hroot.nonempty, le_rfl⟩
  exact (hshort.foldl fun m hm => ⟨(hs m hm).named, (hs m hm).noNul⟩).valid hsize

lemma slot_of_names (hroot : root.Valid) (hs : ∀ m ∈ s, IsDirectoryName m) (hn : IsFileName n)
    (hsize : root.text.utf8ByteSize + Path.weight (s ++ [n]) ≤ Disk.pathLimit) :
    Slot root s n := by
  have hall : ∀ m ∈ s ++ [n], Asked m := by
    rw [List.forall_mem_append, List.forall_mem_singleton]
    exact ⟨fun m hm => (hs m hm).1, hn.1⟩
  exact ⟨valid_of_names hroot hall hsize, undotted_of_names hs, hn.1.named, hn.1.fits, hn.2⟩

/-- Letters, digits and hyphens with an ending that has a dot make the name of a file. -/
lemma isFileName_append {text ending : String}
    (ht : ∀ c ∈ text.toList, c = '-' ∨ c.isAlphanum = true)
    (he : '/' ∉ ending.toList ∧ '\x00' ∉ ending.toList ∧ '.' ∈ ending.toList ∧
      2 < ending.toList.length)
    (hsize : (text ++ ending).utf8ByteSize ≤ Disk.nameLimit) : IsFileName (text ++ ending) := by
  obtain ⟨hslash, hnul, hdot, hlength⟩ := he
  have hnot {c : Char} (hc : ¬ (c = '-' ∨ c.isAlphanum = true)) (hc' : c ∉ ending.toList) :
      c ∉ (text ++ ending).toList := by
    rw [String.toList_append, List.mem_append, not_or]
    exact ⟨fun hm => hc (ht c hm), hc'⟩
  have hne {short : String} (hs : short.toList.length ≤ 2) : text ++ ending ≠ short := by
    rintro rfl
    rw [String.toList_append, List.length_append] at hs
    omega
  have hcounts : text ++ ending ≠ "" ∧ text ++ ending ≠ "." := ⟨hne (by decide), hne (by decide)⟩
  have hname : IsName (text ++ ending) :=
    ⟨Disk.counts_iff.2 hcounts, hne (by decide), hnot (by decide) hslash⟩
  refine ⟨⟨hname, ⟨hcounts, hname.notUp, hsize⟩, hnot (by decide) hnul⟩, ?_⟩
  rw [String.toList_append, List.mem_append]
  exact Or.inr hdot

/-! ### Room -/

/-- The names and paths that are put together from the root, the name of a project and its package
are not too long: the names of the artifact and of the directories of the package, and the paths
to the artifact and to a source that is generated. -/
structure Room (root : Path) (hyphenated : String) (k : Package) : Prop where
  artifact : hyphenated.utf8ByteSize + 25 ≤ Disk.nameLimit
  segments : ∀ s ∈ k.segments, s.utf8ByteSize ≤ Disk.nameLimit
  artifactPath : root.text.utf8ByteSize + hyphenated.utf8ByteSize + 35 ≤ Disk.pathLimit
  sourcePath : root.text.utf8ByteSize + k.dotted.utf8ByteSize + 54 ≤ Disk.pathLimit

instance (root : Path) (hyphenated : String) (k : Package) : Decidable (Room root hyphenated k) :=
  decidable_of_iff (_ ∧ _ ∧ _ ∧ _) ⟨fun h => ⟨h.1, h.2.1, h.2.2.1, h.2.2.2⟩,
    fun h => ⟨h.artifact, h.segments, h.artifactPath, h.sourcePath⟩⟩

/-- What there is to know of the root, the name and the package of a project with room enough. -/
structure Site (root : Path) (hyphenated : String) (k : Package) : Prop where
  valid : root.Valid
  room : Room root hyphenated k
  nonempty : k.segments ≠ []
  segments : ∀ s ∈ k.segments, IsSegmentText s
  chars : ∀ c ∈ hyphenated.toList, c = '-' ∨ c.isAlphanum = true

lemma weight_segments (hne : k.segments ≠ []) :
    Path.weight k.segments = 1 + k.dotted.utf8ByteSize := by
  have hall : ∀ ns : List String, ns ≠ [] →
      Path.weight ns = 1 + (".".intercalate ns).utf8ByteSize := by
    intro ns
    induction ns with
    | nil => simp
    | cons n ns ih =>
      intro _
      cases ns with
      | nil => simp
      | cons m ns =>
        rw [Path.weight_cons, ih (by simp), String.intercalate_cons_cons,
          String.utf8ByteSize_append, String.utf8ByteSize_append]
        have hdot : ".".utf8ByteSize = 1 := rfl
        omega
  exact hall _ hne

namespace Site

variable (h : Site root hyphenated k)
include h

lemma isDirectoryName : ∀ s ∈ k.segments, IsDirectoryName s := by
  intro s hs
  have htext := h.segments s hs
  have hname := isName_of_segment htext
  refine ⟨⟨hname, ⟨Disk.counts_iff.1 hname.counts, hname.notUp, h.room.segments s hs⟩, ?_⟩, ?_⟩
  · exact fun hm => absurd (htext.2 _ hm) (by decide)
  · exact fun hm => absurd (htext.2 _ hm) (by decide)

lemma isName : ∀ s ∈ k.segments, IsName s := fun s hs => (h.isDirectoryName s hs).1.named

lemma isDirectoryName_below (hfront : ∀ m ∈ front, IsDirectoryName m) :
    ∀ m ∈ front ++ k.segments, IsDirectoryName m := by
  rw [List.forall_mem_append]
  exact ⟨hfront, h.isDirectoryName⟩

/-- A file directly below the root. -/
lemma top (hn : IsFileName n) (hsize : n.utf8ByteSize ≤ hyphenated.utf8ByteSize + 25) :
    Slot root [] n := by
  refine slot_of_names h.valid (by simp) hn ?_
  have hpath := h.room.artifactPath
  rw [List.nil_append, Path.weight_cons, Path.weight_nil]
  omega

/-- A directory of the package. -/
lemma directory (hfront : ∀ m ∈ front, IsDirectoryName m) (hweight : Path.weight front ≤ 30) :
    Reaches root ((front ++ k.segments).foldl (· / ·) root) (front ++ k.segments) := by
  have hall := h.isDirectoryName_below hfront
  have hnames : ∀ m ∈ front ++ k.segments, IsName m := fun m hm => (hall m hm).1.named
  have hpath := h.room.sourcePath
  refine ⟨valid_of_names h.valid (fun m hm => (hall m hm).1) ?_,
    Path.endsInStep_foldl (by simp [h.nonempty]) hnames, Path.steps_foldl hnames,
    Path.isAbsolute_foldl hnames⟩
  rw [Path.weight_append, weight_segments h.nonempty]
  omega

/-- A file in a directory of the package. -/
lemma source (hfront : ∀ m ∈ front, IsDirectoryName m) (hweight : Path.weight front ≤ 30)
    (hn : IsFileName n) (hsize : n.utf8ByteSize ≤ 22) : Slot root (front ++ k.segments) n := by
  refine slot_of_names h.valid (h.isDirectoryName_below hfront) hn ?_
  have hpath := h.room.sourcePath
  rw [Path.weight_append, Path.weight_append, weight_segments h.nonempty, Path.weight_cons,
    Path.weight_nil]
  omega

lemma isFileName {ending : String} (he : '/' ∉ ending.toList ∧ '\x00' ∉ ending.toList ∧
    '.' ∈ ending.toList ∧ 2 < ending.toList.length) (hsize : ending.utf8ByteSize ≤ 25) :
    IsFileName (hyphenated ++ ending) := by
  refine isFileName_append h.chars he ?_
  have hname := h.room.artifact
  rw [String.utf8ByteSize_append]
  omega

lemma artifact : Slot root ["target"] (hyphenated ++ "-handler-1.0-SNAPSHOT.jar") := by
  have hsize : "-handler-1.0-SNAPSHOT.jar".utf8ByteSize = 25 := by decide
  have htarget : "target".utf8ByteSize = 6 := by decide
  refine slot_of_names h.valid (by decide) (h.isFileName (by decide) (by decide)) ?_
  have hpath := h.room.artifactPath
  rw [Path.weight_append, Path.weight_cons, Path.weight_cons, Path.weight_nil,
    String.utf8ByteSize_append]
  omega

end Site

/-! ### The files of a project -/

def mainPlace (k : Package) : Place := ["src", "main", "java"] ++ k.segments

def testPlace (k : Package) : Place := ["src", "test", "java"] ++ k.segments

def generatedPlace (k : Package) : Place := Layout.generatedSegments ++ k.segments

/-- The files that the scaffold has once its directories are there, by directory and name. -/
def scaffoldPlaces (k : Package) : List (Place × String) := [
    ([], "pom.xml"), ([], "lombok.config"), ([], "template.yml")] ++
  Operation.all.flatMap (fun op => [
    (mainPlace k, sourceFile op.handlerClass), (testPlace k, sourceFile op.testClass)]) ++ [
    (mainPlace k, "CallbackContext.java"), (mainPlace k, "Configuration.java"), ([], "README.md")]

/-- Their names, which do not depend on the package. -/
def scaffoldNames : List String := (scaffoldPlaces ⟨[]⟩).map Prod.snd

lemma map_scaffoldPlaces (k : Package) : (scaffoldPlaces k).map Prod.snd = scaffoldNames := rfl

lemma mem_scaffoldNames {x : Place × String} (hx : x ∈ scaffoldPlaces k) :
    x.2 ∈ scaffoldNames := by
  rw [← map_scaffoldPlaces k]
  exact List.mem_map_of_mem hx

lemma directory_of_scaffold {x : Place × String} (hx : x ∈ scaffoldPlaces k) :
    x.1 = [] ∨ x.1 = mainPlace k ∨ x.1 = testPlace k := by
  simp only [scaffoldPlaces, List.mem_append, List.mem_flatMap, List.mem_cons, List.not_mem_nil,
    or_false] at hx
  rcases hx with ((rfl | rfl | rfl) | ⟨op, -, rfl | rfl⟩) | rfl | rfl | rfl
  all_goals simp

lemma not_mem_scaffoldPlaces (hn : n ∉ scaffoldNames) :
    s ++ [n] ∉ (scaffoldPlaces k).map fun x => x.1 ++ [x.2] := by
  intro hmem
  obtain ⟨x, hx, he⟩ := List.mem_map.1 hmem
  have hname : x.2 = n := List.singleton_inj.1 (List.append_inj' he rfl).2
  exact hn (hname ▸ mem_scaffoldNames hx)

lemma scaffoldPlaces_nodup (k : Package) :
    ((scaffoldPlaces k).map fun x => x.1 ++ [x.2]).Nodup := by
  have hnames : scaffoldNames.Nodup := by decide
  have hlast : ((scaffoldPlaces k).map fun x => x.1 ++ [x.2]).map (fun r : Place => r.getLast?) =
      scaffoldNames.map some := by
    rw [← map_scaffoldPlaces k]
    simp [Function.comp_def]
  refine List.Nodup.of_map (fun r : Place => r.getLast?) ?_
  rw [hlast]
  exact hnames.map (Option.some_injective _)

section

variable (hne : k.segments ≠ []) (hk : ∀ s ∈ k.segments, IsName s)
include hne hk

lemma mainSources_eq (root : Path) :
    Layout.mainSources root k = (mainPlace k).foldl (· / ·) root := by
  rw [mainPlace, List.foldl_append]
  exact join_packagePath (IsName.endsInStep_join (by decide)) hne hk

lemma testSources_eq (root : Path) :
    Layout.testSources root k = (testPlace k).foldl (· / ·) root := by
  rw [testPlace, List.foldl_append]
  exact join_packagePath (IsName.endsInStep_join (by decide)) hne hk

lemma scaffoldFiles_paths (p : Project) : (p.scaffoldFiles k).map Prod.fst =
    (scaffoldPlaces k).map fun x => (x.1 ++ [x.2]).foldl (· / ·) p.root := by
  simp [scaffoldFiles, descriptors, stubs, companions, scaffoldPlaces, mainSources_eq hne hk,
    testSources_eq hne hk, List.map_flatMap, List.foldl_append, Layout.buildDescriptorFile]

end

/-- The names that lead from the root to a path. -/
def placeOf (root f : Path) : Place := f.steps.drop root.steps.length

lemma placeOf_foldl (h : ∀ n ∈ s, IsName n) : placeOf root (s.foldl (· / ·) root) = s := by
  rw [placeOf, Path.steps_foldl h, List.drop_left]

namespace Site

section

variable (h : Site root hyphenated k)
include h

lemma generatedPackage_eq : generatedPackage root k = (generatedPlace k).foldl (· / ·) root := by
  rw [generatedPlace, List.foldl_append]
  exact join_packagePath (IsName.endsInStep_join (by decide)) h.nonempty h.isName

lemma reaches_main : Reaches root (Layout.mainSources root k) (mainPlace k) := by
  rw [mainSources_eq h.nonempty h.isName]
  exact h.directory (by decide) (by decide)

lemma reaches_test : Reaches root (Layout.testSources root k) (testPlace k) := by
  rw [testSources_eq h.nonempty h.isName]
  exact h.directory (by decide) (by decide)

lemma reaches_generated : Reaches root (generatedPackage root k) (generatedPlace k) := by
  rw [h.generatedPackage_eq]
  exact h.directory (by decide) (by decide)

lemma slot_scaffold : ∀ x ∈ scaffoldPlaces k, Slot root x.1 x.2 := by
  have hnames : ∀ n ∈ scaffoldNames, IsFileName n ∧ n.utf8ByteSize ≤ 22 := by decide
  intro x hx
  obtain ⟨hname, hsize⟩ := hnames x.2 (mem_scaffoldNames hx)
  rcases directory_of_scaffold hx with hs | hs | hs
  · exact hs ▸ h.top hname (by omega)
  · exact hs ▸ h.source (by decide) (by decide) hname hsize
  · exact hs ▸ h.source (by decide) (by decide) hname hsize

lemma isDirectoryName_main : ∀ m ∈ mainPlace k, IsDirectoryName m :=
  h.isDirectoryName_below (by decide)

lemma isDirectoryName_test : ∀ m ∈ testPlace k, IsDirectoryName m :=
  h.isDirectoryName_below (by decide)

lemma isDirectoryName_generated : ∀ m ∈ generatedPlace k, IsDirectoryName m :=
  h.isDirectoryName_below (by decide)

/-- The archive, where no other is asked for. -/
lemma slot_archive : Slot root [] (hyphenated ++ ".zip") := by
  have hsize : ".zip".utf8ByteSize = 4 := by decide
  refine h.top (h.isFileName (by decide) (by decide)) ?_
  rw [String.utf8ByteSize_append]
  omega

end

lemma slot_schema {p : Project} (h : Site p.root p.hyphenated k) :
    Slot p.root [] (TypeName.schemaFile p.segments) := by
  have hsize : ".json".utf8ByteSize = 5 := by decide
  have hshort : (String.ofList (p.hyphenated.toList.filter (· != '-'))).utf8ByteSize ≤
      p.hyphenated.utf8ByteSize := by
    conv_rhs => rw [← String.ofList_toList (s := p.hyphenated)]
    rw [String.utf8ByteSize_ofList, String.utf8ByteSize_ofList]
    exact String.utf8Len_le_of_sublist List.filter_sublist
  have hname := h.room.artifact
  have htotal : (TypeName.schemaFile p.segments).utf8ByteSize ≤ p.hyphenated.utf8ByteSize + 5 := by
    rw [TypeName.schemaFile, String.utf8ByteSize_append, hsize]
    exact Nat.add_le_add_right hshort 5
  refine h.top (isFileName_append (fun c hc => ?_) (by decide) (htotal.trans (by omega)))
    (by omega)
  rw [String.toList_ofList] at hc
  exact h.chars c (List.mem_of_mem_filter hc)

end Site

end Project

end ProviderGen
