import ProviderGen.Archive
import ProviderGen.Proofs.Disk.Sound
import ProviderGen.Proofs.Text.Join
import Mathlib.Data.List.Forall2

/-!
Assembling an archive. If nothing goes wrong there is one entry for each file, in order, with
the bytes that are read from it. The name of a file below the root, however the root is spelled,
consists of the names that lead to it from there, and different files have different names.
-/

namespace ProviderGen

namespace Path

variable {p : Path} {n : String} {names names' : List String}

lemma IsName.componentOf (h : IsName n) : componentOf? n.toList = some (.name n) := by
  have hup : n.toList ≠ ['.', '.'] := fun he => h.notUp (by rw [← String.toList_inj, he]; rfl)
  rw [componentOf?, if_neg (by simp [h.counts]), if_neg hup, String.ofList_toList]

lemma IsName.start (h : IsName n) : start ⟨n⟩ = [] := by
  have hcounts := h.counts
  have habsolute : isAbsolute ⟨n⟩ = false := by
    rw [isAbsolute, beq_eq_false_iff_ne]
    exact h.head?
  rw [Path.start, habsolute, h.pieces_eq]
  simp only [isIdle, Bool.or_eq_false_iff, beq_eq_false_iff_ne] at hcounts
  simp [hcounts.2]

/-- A part that is neither absolute nor begins with a dot of its own adds its components. -/
lemma components_join {s : String} (hs : start ⟨s⟩ = []) :
    (p / s).components = p.components ++ components ⟨s⟩ := by
  have hhead : s.toList.head? ≠ some '/' := by
    intro e
    have habsolute : isAbsolute ⟨s⟩ = true := by
      rw [isAbsolute, e]
      rfl
    rw [start, if_pos habsolute] at hs
    cases hs
  have habsolute := isAbsolute_join (p := p) hhead
  have hadded : components ⟨s⟩ = (pieces ⟨s⟩).filterMap componentOf? := by
    rw [components, hs, List.nil_append]
  rw [hadded]
  rcases pieces_join (p := p) hhead with ⟨he, hp⟩ | ⟨x, hx, hne, hp⟩ | ⟨-, hp⟩
  · have hempty : p.components = [] := by
      obtain ⟨t⟩ := p
      obtain rfl : t = "" := he
      rfl
    rw [hempty, eq_of_pieces hp, hadded, List.nil_append]
  · have hstart : (p / s).start = p.start := by
      rw [start, start, habsolute, hp, hx, List.head?_append_of_ne_nil _ hne,
        List.head?_append_of_ne_nil _ hne]
    rw [components, components, hstart, hp, hx, List.filterMap_append, List.filterMap_append,
      List.append_assoc]
    simp [componentOf?, isIdle]
  · have hstart : (p / s).start = p.start := by
      rw [start, start, habsolute, hp, List.head?_append_of_ne_nil _ p.pieces_ne_nil]
    rw [components, components, hstart, hp, List.filterMap_append, List.append_assoc]

/-- A name that is joined to a path is one more component, whatever the path looks like. -/
lemma components_join_name (h : IsName n) : (p / n).components = p.components ++ [.name n] := by
  have hname : components ⟨n⟩ = [.name n] := by
    rw [components, h.start, h.pieces_eq, List.nil_append,
      List.filterMap_cons_some h.componentOf, List.filterMap_nil]
  rw [components_join h.start, hname]

/-- A path of names alone has nothing before them. -/
lemma start_of_components (h : p.components = names.map .name) : p.start = [] := by
  have hnames : ∀ c ∈ p.start, ∃ n, c = .name n := by
    intro c hc
    have hmem : c ∈ p.components := List.mem_append_left _ hc
    rw [h] at hmem
    obtain ⟨n, -, rfl⟩ := List.mem_map.1 hmem
    exact ⟨n, rfl⟩
  unfold start at hnames ⊢
  split at hnames
  · simp at hnames
  · rw [if_neg ‹_›]
    split at hnames
    · simp at hnames
    · exact if_neg ‹_›

lemma components_foldl (h : ∀ n ∈ names, IsName n) :
    (names.foldl (· / ·) p).components = p.components ++ names.map .name := by
  induction names generalizing p with
  | nil => simp
  | cons n names ih =>
    rw [List.forall_mem_cons] at h
    rw [List.foldl_cons, ih h.2, components_join_name h.1, List.append_assoc]
    rfl

lemma below?_foldl (h : ∀ n ∈ names, IsName n) :
    (names.foldl (· / ·) p).below? p = some (names.map .name) := by
  have hprefix : p.components.isPrefixOf (p.components ++ names.map .name) = true :=
    List.isPrefixOf_iff_prefix.2 (List.prefix_append _ _)
  rw [below?, components_foldl h, if_pos hprefix, List.drop_left]

end Path

namespace Archive

open Path (IsName)

variable {root : Path} {names names' : List String} {d : Disk} {f : Path}

/-! ### Names -/

lemma entryName_foldl (h : ∀ n ∈ names, IsName n) :
    entryName root (names.foldl (· / ·) root) = .ok ("/".intercalate names) := by
  have htexts : (names.map Path.Component.name).map Path.Component.text = names := by
    rw [List.map_map]
    exact List.map_id _
  rw [entryName, Path.below?_foldl h]
  dsimp only
  rw [htexts]

/-- Names without slashes can be told from the text that slashes join them to. -/
lemma intercalate_inj (hn : ∀ n ∈ names, IsName n) (hn' : ∀ n ∈ names', IsName n)
    (hne : names ≠ []) (hne' : names' ≠ [])
    (h : "/".intercalate names = "/".intercalate names') : names = names' := by
  refine (Text.joined_inj rfl hne hne' (fun n hin => ?_) (fun n hin => ?_)).1 h
  · exact (hn n hin).noSlash
  · exact (hn' n hin).noSlash

/-! ### Entries -/

/-- The entry of a file. -/
structure EntryOf (d : Disk) (root f : Path) (e : Entry) : Prop where
  name : entryName root f = .ok e.name
  bytes : d.read f = .ok e.bytes

/-- The files that a path stands for. -/
def StandsFor (d : Disk) (f : Path) (files : List Path) : Prop :=
  if d.isDirectory f then d.walk f = .ok files else files = [f]

lemma standsFor_file {files : List Path} (h : d.isFile f = true) :
    StandsFor d f files ↔ files = [f] := by
  unfold StandsFor
  rw [if_neg (Disk.not_isDirectory_of_isFile h)]

/-- A part that leaves the disk alone and, unless it fails, has made an entry for each of the
files that it is about. -/
def Gives (d : Disk) (root : Path) (about : List Path → Prop) (y : StateM Disk Assembly) : Prop :=
  (Disk.perform y d).2 = d ∧ ((Disk.perform y d).1.failure = none →
    ∃ files, about files ∧ List.Forall₂ (EntryOf d root) files (Disk.perform y d).1.entries)

lemma gives_ofFile (d : Disk) (root f : Path) : Gives d root (· = [f]) (ofFile root f) := by
  unfold Gives ofFile
  cases hname : entryName root f with
  | error e => exact ⟨rfl, fun h => by cases h⟩
  | ok name =>
    dsimp only
    rw [Disk.perform_bind, Disk.perform_read]
    cases hread : d.read f with
    | ok bytes => exact ⟨rfl, fun _ => ⟨_, rfl, .cons ⟨hname, hread⟩ .nil⟩⟩
    | error r => cases r <;> exact ⟨rfl, fun h => by cases h⟩

lemma gives_ofAll {α : Type} {entry : α → StateM Disk Assembly} {about : α → List Path → Prop}
    {xs : List α} (h : ∀ x ∈ xs, Gives d root (about x) (entry x)) :
    Gives d root (fun files => ∃ parts, List.Forall₂ about xs parts ∧ files = parts.flatten)
      (ofAll entry xs) := by
  induction xs with
  | nil => exact ⟨rfl, fun _ => ⟨[], ⟨[], .nil, rfl⟩, .nil⟩⟩
  | cons x xs ih =>
    rw [List.forall_mem_cons] at h
    obtain ⟨hstay, hfirst⟩ := h.1
    obtain ⟨hrest, hothers⟩ := ih h.2
    unfold Gives ofAll
    rw [Disk.perform_bind, hstay]
    cases hfail : (Disk.perform (entry x) d).1.failure with
    | some e => exact ⟨rfl, fun h => by rw [Disk.perform_pure, hfail] at h; cases h⟩
    | none =>
      rw [Disk.perform_bind, hrest]
      refine ⟨rfl, fun hnone => ?_⟩
      obtain ⟨files, habout, hentries⟩ := hfirst hfail
      obtain ⟨_, ⟨parts, hparts, rfl⟩, hmore⟩ := hothers hnone
      exact ⟨_, ⟨files :: parts, .cons habout hparts, rfl⟩, List.rel_append hentries hmore⟩

lemma flatten_singletons {fs : List Path} {parts : List (List Path)}
    (h : List.Forall₂ (fun f part => part = [f]) fs parts) : parts.flatten = fs := by
  induction h with
  | nil => rfl
  | cons hpart _ ih => rw [hpart, List.flatten_cons, ih, List.singleton_append]

lemma gives_ofTree (d : Disk) (root f : Path) :
    Gives d root (fun files => d.walk f = .ok files) (ofTree root f) := by
  unfold Gives ofTree
  rw [Disk.perform_bind, Disk.perform_walk]
  cases hfiles : d.walk f with
  | error r => exact ⟨rfl, fun h => by cases h⟩
  | ok files =>
    have hall : Gives d root _ (ofAll (ofFile root) files) :=
      gives_ofAll fun f _ => gives_ofFile d root f
    refine ⟨hall.1, fun hnone => ?_⟩
    obtain ⟨_, ⟨parts, hparts, rfl⟩, hentries⟩ := hall.2 hnone
    rw [flatten_singletons hparts] at hentries
    exact ⟨files, rfl, hentries⟩

lemma gives_ofPath (d : Disk) (root f : Path) :
    Gives d root (StandsFor d f) (ofPath root f) := by
  unfold Gives ofPath StandsFor
  rw [Disk.perform_bind, Disk.perform_isDirectory]
  cases hdir : d.isDirectory f with
  | true =>
    exact gives_ofTree d root f
  | false => exact gives_ofFile d root f

/-- **Without a failure there is one entry for each file.** -/
lemma gives_assemble (d : Disk) (root : Path) (paths : List Path) :
    Gives d root (fun files => ∃ parts, List.Forall₂ (StandsFor d) paths parts ∧
      files = parts.flatten) (assemble root paths) :=
  gives_ofAll fun f _ => gives_ofPath d root f

lemma perform_ofFile {e : Entry} (h : EntryOf d root f e) :
    Disk.perform (ofFile root f) d = (.done [e], d) := by
  unfold ofFile
  rw [h.name]
  dsimp only
  rw [Disk.perform_bind, Disk.perform_read, h.bytes]
  rfl

lemma perform_ofAll {α : Type} {entry : α → StateM Disk Assembly} {xs : List α}
    {parts : List (List Entry)}
    (h : List.Forall₂ (fun x es => Disk.perform (entry x) d = (.done es, d)) xs parts) :
    Disk.perform (ofAll entry xs) d = (.done parts.flatten, d) := by
  induction h with
  | nil => rfl
  | cons hx _ ih =>
    unfold ofAll
    rw [Disk.perform_bind, hx]
    dsimp only [Assembly.done]
    rw [Disk.perform_bind, ih]
    rfl

lemma perform_ofPath {files : List Path} {es : List Entry} (hf : StandsFor d f files)
    (h : List.Forall₂ (EntryOf d root) files es) :
    Disk.perform (ofPath root f) d = (.done es, d) := by
  unfold StandsFor at hf
  rw [ofPath, Disk.perform_bind, Disk.perform_isDirectory]
  cases hdir : d.isDirectory f with
  | true =>
    rw [if_pos hdir] at hf
    have hall : List.Forall₂ (fun f es => Disk.perform (ofFile root f) d = (.done es, d)) files
        (es.map ([·])) :=
      List.forall₂_map_right_iff.2 (h.imp fun _ _ => perform_ofFile)
    have hfiles := perform_ofAll hall
    rw [← List.flatMap_def, List.flatMap_singleton'] at hfiles
    dsimp only
    rw [if_pos rfl, ofTree, Disk.perform_bind, Disk.perform_walk, hf]
    exact hfiles
  | false =>
    rw [if_neg (by simp [hdir])] at hf
    subst hf
    rcases h with _ | ⟨he, ⟨⟩⟩
    exact perform_ofFile he

/-- With an entry for each file nothing fails. -/
lemma perform_assemble {paths : List Path} {parts : List (List Entry)}
    (h : List.Forall₂ (fun f es => ∃ files, StandsFor d f files ∧
      List.Forall₂ (EntryOf d root) files es) paths parts) :
    Disk.perform (assemble root paths) d = (.done parts.flatten, d) :=
  perform_ofAll (h.imp fun _ _ ⟨_, hf, he⟩ => perform_ofPath hf he)

end Archive

end ProviderGen
