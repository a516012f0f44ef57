import ProviderGen.Proofs.Command
import ProviderGen.Proofs.Project.Candidates
import ProviderGen.Proofs.Project.Spared

/-!
Which places an archive is refused at. Where there are no links, a path denotes a place by its
steps alone, whatever is spelled in between and behind them, and the check compares places: that of
the archive with those of what is packed, a directory with everything below it, name by name and not
as texts. A path whose last step is a name has the same parent whatever idle pieces stand behind
that name.
-/

namespace ProviderGen

/-! ### Paths with idle pieces at their end -/

namespace Path

variable {p : Path} {n : String}

/-- The path without the pieces at its end that count for nothing. -/
def trimmed (p : Path) : Path := ofPieces (withoutIdleEnd p.pieces)

lemma withoutIdleEnd_idem (ps : List (List Char)) :
    withoutIdleEnd (withoutIdleEnd ps) = withoutIdleEnd ps := by
  rcases withoutIdleEnd_eq_nil_or ps with h | ⟨before, l, h, hl⟩
  · rw [h]
    rfl
  · rw [h, withoutIdleEnd_concat hl]

lemma parentPieces_withoutIdleEnd (ps : List (List Char)) :
    parentPieces (withoutIdleEnd ps) = parentPieces ps := by
  rw [parentPieces, withoutIdleEnd_idem, parentPieces]

lemma withoutIdleEnd_cons {ps : List (List Char)} (l : List Char) (h : withoutIdleEnd ps ≠ []) :
    withoutIdleEnd (l :: ps) = l :: withoutIdleEnd ps := by
  unfold withoutIdleEnd at *
  have hne : ps.reverse.dropWhile isIdle ≠ [] := by simpa using h
  rw [List.reverse_cons, List.dropWhile_append, if_neg (by simpa using hne), List.reverse_append]
  rfl

/-- Some piece counts. -/
lemma withoutIdleEnd_ne_nil {ps : List (List Char)} (h : (ps.filter fun l => !isIdle l) ≠ []) :
    withoutIdleEnd ps ≠ [] := by
  intro hnil
  rw [← filter_withoutIdleEnd, hnil] at h
  exact h rfl

section

variable (h : p.steps ≠ [])
include h

lemma withoutIdleEnd_pieces_ne_nil : withoutIdleEnd p.pieces ≠ [] := by
  refine withoutIdleEnd_ne_nil fun hnil => h ?_
  rw [steps_eq, hnil]
  rfl

lemma pieces_trimmed : p.trimmed.pieces = withoutIdleEnd p.pieces := by
  have hfront := withoutIdleEnd_prefix p.pieces
  exact pieces_ofPieces (fun _ hl => noSlash_of_mem_pieces (hfront.subset hl))
    (withoutIdleEnd_pieces_ne_nil h)

lemma endsInStep_trimmed : p.trimmed.EndsInStep := by
  unfold EndsInStep
  rw [pieces_trimmed h]
  exact (withoutIdleEnd_eq_nil_or _).resolve_left (withoutIdleEnd_pieces_ne_nil h)

lemma steps_trimmed : p.trimmed.steps = p.steps := by
  rw [steps_eq, pieces_trimmed h, filter_withoutIdleEnd, ← steps_eq]

/-- The first piece is the same; if it is idle, there is another one behind it. -/
lemma pieces_cases : ∃ l rest, p.pieces = l :: rest ∧
    ((isIdle l = false ∧ ∃ rest', withoutIdleEnd p.pieces = l :: rest') ∨
      withoutIdleEnd rest ≠ [] ∧ withoutIdleEnd p.pieces = l :: withoutIdleEnd rest) := by
  obtain ⟨l, rest, hp⟩ := List.exists_cons_of_ne_nil p.pieces_ne_nil
  refine ⟨l, rest, hp, ?_⟩
  by_cases hrest : withoutIdleEnd rest = []
  · have hne := withoutIdleEnd_pieces_ne_nil h
    obtain ⟨l', rest', hw⟩ := List.exists_cons_of_ne_nil hne
    have hprefix := withoutIdleEnd_prefix p.pieces
    rw [hw, hp] at hprefix
    obtain ⟨rfl, -⟩ := List.cons_prefix_cons.1 hprefix
    refine .inl ⟨?_, rest', hw⟩
    by_contra hidle
    refine h ?_
    have hfilter := filter_withoutIdleEnd rest
    rw [hrest] at hfilter
    rw [steps_eq, hp, List.filter_cons, ← hfilter]
    simp [hidle]
  · exact .inr ⟨hrest, by rw [hp, withoutIdleEnd_cons l hrest]⟩

lemma isAbsolute_trimmed : p.trimmed.isAbsolute = p.isAbsolute := by
  rw [Bool.eq_iff_iff, isAbsolute_iff, isAbsolute_iff, pieces_trimmed h]
  obtain ⟨l, rest, hp, ⟨hl, rest', hw⟩ | ⟨hrest, hw⟩⟩ := pieces_cases h
  · have hne : l ≠ [] := by
      rintro rfl
      cases hl
    rw [hw, hp]
    simp [hne]
  · have hne : rest ≠ [] := by
      rintro rfl
      exact hrest rfl
    rw [hw, hp]
    simp [hrest, hne]

lemma parent?_trimmed : p.trimmed.parent? = p.parent? := by
  obtain ⟨l, rest, hp, ⟨hl, rest', hw⟩ | ⟨hrest, hw⟩⟩ := pieces_cases h
  · have htop : l ≠ [] := by
      rintro rfl
      cases hl
    have hhere : l ≠ ['.'] := by
      rintro rfl
      cases hl
    have hparent {q : Path} {r : List (List Char)} (hq : q.pieces = l :: r) :
        q.parent? = some (ofPieces (parentPieces q.pieces)) := by
      unfold parent?
      rw [hq]
      simp [htop, hhere]
    rw [hparent hp, hparent ((pieces_trimmed h).trans hw), pieces_trimmed h,
      parentPieces_withoutIdleEnd]
  · have hidem : withoutIdleEnd (withoutIdleEnd rest) = withoutIdleEnd rest :=
      withoutIdleEnd_idem rest
    have hparent := parentPieces_withoutIdleEnd rest
    have hall : parentPieces (l :: withoutIdleEnd rest) = parentPieces (l :: rest) := by
      rw [← withoutIdleEnd_cons l hrest, parentPieces_withoutIdleEnd]
    unfold parent?
    rw [pieces_trimmed h, hw, hp]
    by_cases htop : l = []
    · subst htop
      simp only [hidem, hparent]
    · by_cases hhere : l = ['.']
      · subst hhere
        simp only [hidem, hparent]
      · simp [htop, hhere, hall]

end

lemma filterMap_componentOf? (ls : List (List Char)) :
    ls.filterMap componentOf? = ((ls.filter fun l => !isIdle l).map String.ofList).map fun n =>
      if n = ".." then .up else .name n := by
  induction ls with
  | nil => rfl
  | cons l ls ih =>
    cases hl : isIdle l with
    | true =>
      rw [List.filterMap_cons_none (by rw [componentOf?, if_pos hl]), ih,
        List.filter_cons_of_neg (by simp [hl])]
    | false =>
      have hup : (String.ofList l = "..") ↔ l = ['.', '.'] := by
        rw [← String.toList_inj, String.toList_ofList]
        rfl
      have hcomponent : componentOf? l =
          some (if String.ofList l = ".." then .up else .name (String.ofList l)) := by
        rw [componentOf?, if_neg (by simp [hl])]
        simp only [hup]
        split <;> rfl
      rw [List.filterMap_cons_some hcomponent, ih, List.filter_cons_of_pos (by simp [hl])]
      rfl

/-- The file name is the last step. -/
lemma steps_of_fileName? (h : p.fileName? = some n) : ∃ s, p.steps = s ++ [n] ∧ IsName n := by
  cases hs : p.steps using List.reverseRecOn with
  | nil =>
    rw [fileName?_of_no_steps hs] at h
    cases h
  | append_singleton s m =>
    have hlast : p.components.getLast? = some (if m = ".." then .up else .name m) := by
      rw [components, filterMap_componentOf?, ← steps_eq, hs, List.map_append, ← List.append_assoc]
      exact List.getLast?_concat
    rw [fileName?, hlast] at h
    by_cases hup : m = ".."
    · rw [if_pos hup] at h
      cases h
    · rw [if_neg hup] at h
      obtain rfl : m = n := Option.some.inj h
      exact ⟨s, rfl, isName_of_mem_steps (hs ▸ List.mem_append_right s List.mem_cons_self) hup⟩

end Path

/-! ### Places without links -/

namespace Disk

variable {d : Disk} {f : Path} {p q r : Place} {a : List String} {links links' : ℕ}

/-- Where a step leads, up or to what it names. -/
def stepFrom (q : Place) (n : String) : Place := if n = ".." then q.dropLast else q ++ [n]

/-- The place that a path denotes if nothing on its way is a link. -/
def placeOf (d : Disk) (f : Path) : Place := f.steps.foldl stepFrom (d.startOf f)

lemma Way.eq_foldl (hu : d.Unlinked) (h : Way d links p a links' q) :
    q = (a.filter fun n => !Path.isIdle n.toList).foldl stepFrom p := by
  induction h with
  | done => rfl
  | idle hp hn _ ih =>
    rw [List.filter_cons_of_neg, ih]
    rcases hn with rfl | rfl <;> decide
  | up hp _ ih =>
    rw [List.filter_cons_of_pos (by decide), ih]
    rfl
  | enter hp hn he hl _ ih =>
    rw [List.filter_cons_of_pos (by simp [counts_iff.2 hn.counts]), ih, List.foldl_cons, stepFrom,
      if_neg hn.notUp]
  | link hp hn he _ => exact absurd he (hu _ _)

lemma placeOf_of_locate (hu : d.Unlinked) (h : d.locate true f = .ok q) : d.placeOf f = q := by
  obtain ⟨-, links, hw⟩ := exists_way_of_locate h
  exact (hw.eq_foldl hu).symm

lemma components_absolute (hq : ∀ n ∈ q, Path.IsName n) :
    (absolute q).components = .top :: q.map .name := by
  have hfold : absolute q = q.foldl (· / ·) (absolute []) := absolute_append (q := []) hq
  have htop : (absolute []).components = [.top] := by decide
  rw [hfold, Path.components_foldl hq, htop]
  rfl

lemma absolute_eq_iff (hq : ∀ n ∈ q, Path.IsName n) (hr : ∀ n ∈ r, Path.IsName n) :
    absolute q = absolute r ↔ q = r := by
  refine ⟨fun h => ?_, congrArg absolute⟩
  have hcomponents := congrArg Path.components h
  rw [components_absolute hq, components_absolute hr, List.cons.injEq] at hcomponents
  exact List.map_injective_iff.2 (fun _ _ => Path.Component.name.inj) hcomponents.2

lemma isSome_below?_iff (hq : ∀ n ∈ q, Path.IsName n) (hr : ∀ n ∈ r, Path.IsName n) :
    ((absolute r).below? (absolute q)).isSome = true ↔ q <+: r := by
  refine ⟨fun h => ?_, ?_⟩
  · rw [Path.below?, components_absolute hq, components_absolute hr] at h
    split at h
    · rename_i hprefix
      have hnames := (List.cons_prefix_cons.1 (List.isPrefixOf_iff_prefix.1 hprefix)).2
      exact (List.prefix_map_iff_of_injective fun _ _ => Path.Component.name.inj).1 hnames
    · cases h
  · rintro ⟨s, rfl⟩
    exact isSome_below?_absolute hr

end Disk

namespace Project

open Disk (Askable absolute outcome)

variable {d d' : Disk} {p : Project} {archive f : Path} {packed : List Path} {q r : Place}
  {a n : String} {s : List String}

/-! ### The place of the archive -/

/-- The directory of a path has all of its steps but the last. -/
lemma directoryOf_steps (h : archive.steps = s ++ [n]) :
    (directoryOf archive).steps = s ∧ (directoryOf archive).isAbsolute = archive.isAbsolute := by
  have hne : archive.steps ≠ [] := by simp [h]
  obtain ⟨g, m, hg, hparent, hsteps, -, -⟩ := Disk.exists_front (Path.endsInStep_trimmed hne)
  have habs := hparent.absolute
  rw [Path.parent?_trimmed hne] at hg
  rw [Path.steps_trimmed hne, h] at hsteps
  rw [Path.isAbsolute_trimmed hne] at habs
  obtain ⟨rfl, -⟩ := List.append_inj' hsteps rfl
  unfold directoryOf
  rw [hg]
  dsimp only
  split
  · rename_i hempty
    obtain ⟨t⟩ := g
    obtain rfl : t = "" := hempty
    exact ⟨rfl, habs⟩
  · exact ⟨rfl, habs⟩

/-- The archive is called by its last step, and lies in the directory of its path. -/
lemma placeOf_archive (hu : d.Unlinked) (hname : archive.fileName? = some a)
    (hdir : d.locate true (directoryOf archive) = .ok r) : d.placeOf archive = r ++ [a] := by
  obtain ⟨s, hs, ha⟩ := Path.steps_of_fileName? hname
  obtain ⟨hsteps, habs⟩ := directoryOf_steps hs
  have hplace := Disk.placeOf_of_locate hu hdir
  rw [Disk.placeOf, hsteps, Disk.startOf, habs] at hplace
  rw [Disk.placeOf, hs, List.foldl_append, Disk.startOf, hplace]
  exact if_neg ha.notUp

/-! ### The check -/

/-- What is packed covers its own place, and a directory all that is below it. -/
def Covers (d : Disk) (a q : Place) : Prop := a = q ∨ d.hasDirectory q = true ∧ q <+: a

lemma checkPlace_refuses {top : Path} (htop : d.canonical (directoryOf archive) = .ok top)
    (hname : archive.fileName? = some n) (h : ¬ Uncovered d (top / n) packed) :
    outcome (checkPlace archive packed) d = (.error (.archiveInsideSources archive), d) := by
  have hlooks : d = (Disk.perform (covers (top / n) packed) d).2 := covers_looks _ _ d
  rw [← covers_eq_false, Bool.not_eq_false] at h
  unfold checkPlace
  rw [Disk.outcome_bind, Disk.outcome_liftM, Disk.perform_canonical, htop, hname]
  dsimp only
  rw [Disk.outcome_bind, Disk.outcome_lift, ← hlooks, h]
  rfl

lemma names_of_locate (hd : d.Sound) (h : d.locate true f = .ok q) :
    ∀ m ∈ q, Path.IsName m := by
  obtain ⟨e, he, -⟩ := Disk.stands_of_locate hd h
  exact fun m hm => hd.isName_of_mem (q := []) he hm

/-- The check compares places. -/
lemma uncovered_iff (hd : d.Sound) (hr : d.hasDirectory r = true) (ha : Path.IsName a)
    (hask : ∀ f ∈ packed, ∀ q, d.locate true f = .ok q → d.hasDirectory q = true → Askable q) :
    Uncovered d (absolute r / a) packed ↔
      ∀ f ∈ packed, ∀ q, d.locate true f = .ok q → ¬ Covers d (r ++ [a]) q := by
  have hnames : ∀ m ∈ r, Path.IsName m := fun m hm =>
    hd.isName_of_mem (q := []) (Disk.hasDirectory_iff.1 hr) hm
  have hall : ∀ m ∈ r ++ [a], Path.IsName m := by
    rw [List.forall_mem_append, List.forall_mem_singleton]
    exact ⟨hnames, ha⟩
  rw [← Disk.absolute_concat hnames ha]
  refine ⟨fun h f hf q hq hcovers => ?_, fun h f hf g hg => ?_⟩
  · have hqnames := names_of_locate hd hq
    obtain ⟨hne, hbelow⟩ := h f hf _ (Disk.canonical_iff.2 ⟨q, hq, rfl⟩)
    rcases hcovers with rfl | ⟨hdir, hprefix⟩
    · exact hne rfl
    · have hsome := (Disk.isSome_below?_iff hqnames hall).2 hprefix
      rw [hbelow (Disk.isDirectory_absolute hd (hask f hf q hq hdir) hdir)] at hsome
      cases hsome
  · obtain ⟨q, hq, rfl⟩ := Disk.canonical_iff.1 hg
    have hqnames := names_of_locate hd hq
    have hnot := h f hf q hq
    refine ⟨fun heq => hnot (.inl ((Disk.absolute_eq_iff hall hqnames).1 heq)), fun _ => ?_⟩
    by_contra hbelow
    rw [← ne_eq, Option.ne_none_iff_isSome, Disk.isSome_below?_iff hqnames hall,
      List.prefix_concat_iff] at hbelow
    rcases hbelow with rfl | hprefix
    · exact hnot (.inl rfl)
    · -- what lies above the directory of the archive is a directory
      refine hnot (.inr ⟨?_, hprefix.trans (List.prefix_append r [a])⟩)
      obtain ⟨t, rfl⟩ := hprefix
      cases t with
      | nil => rwa [List.append_nil] at hr
      | cons m t => exact hd.hasDirectory_above (Disk.hasDirectory_iff.1 hr) (by simp)

/-- Once the archive is accepted, packing fails only where something is refused. -/
lemma pack_fails_of_accepted {e : Error}
    (hfound : outcome (Artifact.find p.root p.hyphenated) d = (.ok f, d))
    (hcheck : outcome (checkPlace archive (packedPaths p.root f)) d = (.ok (), d))
    (h : outcome (p.pack archive) d = (.error e, d')) : e.kind = .io := by
  cases hempty : d.write archive .empty with
  | error refusal =>
    have hrefused : outcome (Files.orRefused archive (Files.write archive .empty)) d = _ :=
      Disk.outcome_change archive (·.write archive .empty) d
    rw [hempty] at hrefused
    rw [pack, Disk.outcome_bind, hfound] at h
    dsimp only at h
    rw [Disk.outcome_bind, hcheck] at h
    dsimp only at h
    rw [Disk.outcome_bind, hrefused] at h
    obtain ⟨he, -⟩ := Prod.mk.inj h
    rw [← Except.error.inj he]
    rfl
  | ok d₁ =>
    have hbegins : Begins d p archive f d₁ := ⟨hfound, hcheck, hempty⟩
    have hassembly := refused_assemble p.root (packedPaths p.root f) d₁
    rw [hbegins.outcome_pack] at h
    dsimp only at h
    split at h
    · obtain ⟨he, -⟩ := Prod.mk.inj h
      unfold Archive.Assembly.result at he
      split at he
      · cases he
      · rename_i e' hfailure
        rw [← Except.error.inj he]
        exact hassembly e' hfailure
    · obtain ⟨he, -⟩ := Prod.mk.inj h
      rw [← Except.error.inj he]
      rfl

/-! ### Packing -/

/-- Without links, all that is packed is there, with one artifact. The absolute paths of the trees
are not too long to be asked for. -/
structure Provided (d : Disk) (p : Project) (n : String) : Prop where
  sound : d.Sound
  unlinked : d.Unlinked
  artifact : ∀ m, Candidate d p m ↔ m = n
  descriptor : d.isFile (p.root / "pom.xml") = true
  sources : d.isDirectory (p.root / "src") = true
  generated : d.isDirectory (p.root / "target" / "generated-sources") = true
  askable : ∀ dir ∈ packedTrees p.root, Askable (d.placeOf dir)

/-- The archive would take the place of the artifact or of the build descriptor, or would lie at or
below one of the trees. -/
def LiesInside (d : Disk) (p : Project) (n : String) (archive : Path) : Prop :=
  d.placeOf archive = d.placeOf (p.root / "target" / n) ∨
    d.placeOf archive = d.placeOf (p.root / "pom.xml") ∨
    d.placeOf (p.root / "src") <+: d.placeOf archive ∨
    d.placeOf (p.root / "target" / "generated-sources") <+: d.placeOf archive

instance (d : Disk) (p : Project) (n : String) (archive : Path) :
    Decidable (LiesInside d p n archive) := inferInstanceAs (Decidable (_ ∨ _ ∨ _ ∨ _))

lemma packedPaths_spelled (p : Project) (n : String) :
    packedPaths p.root (p.root / "target" / n) = [p.root / "target" / n, p.root / "pom.xml",
      p.root / "src", p.root / "target" / "generated-sources"] := rfl

lemma placeOf_of_isFile (hu : d.Unlinked) (h : d.isFile f = true) :
    d.locate true f = .ok (d.placeOf f) ∧ d.hasDirectory (d.placeOf f) = false := by
  obtain ⟨bytes, hread⟩ := Disk.isFile_iff.1 h
  obtain ⟨q, hq, hbytes⟩ := Disk.read_iff.1 hread
  rw [Disk.placeOf_of_locate hu hq]
  exact ⟨hq, Disk.hasDirectory_of_file hbytes⟩

lemma placeOf_of_isDirectory (hu : d.Unlinked) (h : d.isDirectory f = true) :
    d.locate true f = .ok (d.placeOf f) ∧ d.hasDirectory (d.placeOf f) = true := by
  obtain ⟨q, hq, hdir⟩ := Disk.isDirectory_iff.1 h
  rw [Disk.placeOf_of_locate hu hq]
  exact ⟨hq, hdir⟩

/-- A file covers its place. -/
lemma covers_file (hu : d.Unlinked) (h : d.isFile f = true) :
    (∀ q, d.locate true f = .ok q → ¬ Covers d r q) ↔ ¬ r = d.placeOf f := by
  obtain ⟨hq, hfile⟩ := placeOf_of_isFile hu h
  simp [hq, Covers, hfile]

/-- A directory covers its place and all that is below. -/
lemma covers_directory (hu : d.Unlinked) (h : d.isDirectory f = true) :
    (∀ q, d.locate true f = .ok q → ¬ Covers d r q) ↔ ¬ d.placeOf f <+: r := by
  obtain ⟨hq, hdir⟩ := placeOf_of_isDirectory hu h
  have hself : r = d.placeOf f → d.placeOf f <+: r := fun h => h ▸ List.prefix_rfl
  simpa [hq, Covers, hdir] using fun hnot heq => hnot (hself heq)

namespace Provided

variable (h : Provided d p n)
include h

lemma canList : CanList d (p.root / "target") := by
  obtain ⟨hq, -⟩ := placeOf_of_isDirectory h.unlinked h.generated
  have hends : (p.root / "target").EndsInStep := Path.IsName.endsInStep_join (by decide)
  obtain ⟨r, e, hr, he⟩ := direct_of_locate hends (by decide) hq
  exact .inr (Disk.isDirectory_iff.2 ⟨r, hr, h.sound.inDirectory he⟩)

lemma found : outcome (Artifact.find p.root p.hyphenated) d = (.ok (p.root / "target" / n), d) :=
  find_single h.sound h.canList h.artifact

lemma isFile_artifact : d.isFile (p.root / "target" / n) = true := ((h.artifact n).2 rfl).file

lemma askable_of_directory : ∀ f ∈ packedPaths p.root (p.root / "target" / n),
    ∀ q, d.locate true f = .ok q → d.hasDirectory q = true → Askable q := by
  have hfile {f : Path} (hf : d.isFile f = true) (q : Place) (hq : d.locate true f = .ok q)
      (hdir : d.hasDirectory q = true) : Askable q := by
    obtain ⟨hplace, hnot⟩ := placeOf_of_isFile h.unlinked hf
    obtain rfl := Except.ok.inj (hplace.symm.trans hq)
    rw [hnot] at hdir
    cases hdir
  have htree {f : Path} (hf : f ∈ packedTrees p.root) (q : Place) (hq : d.locate true f = .ok q)
      (_ : d.hasDirectory q = true) : Askable q :=
    Disk.placeOf_of_locate h.unlinked hq ▸ h.askable f hf
  rw [packedPaths_spelled, List.forall_mem_cons, List.forall_mem_cons, List.forall_mem_cons,
    List.forall_mem_singleton]
  exact ⟨hfile h.isFile_artifact, hfile h.descriptor, htree (by simp [packedTrees]),
    htree (by simp [packedTrees])⟩

/-- The check lets an archive pass if and only if it lies outside. -/
lemma uncovered_iff (hname : archive.fileName? = some a)
    (hr : d.locate true (directoryOf archive) = .ok r) (hdir : d.hasDirectory r = true) :
    Uncovered d (absolute r / a) (packedPaths p.root (p.root / "target" / n)) ↔
      ¬ LiesInside d p n archive := by
  obtain ⟨-, -, ha⟩ := Path.steps_of_fileName? hname
  rw [Project.uncovered_iff h.sound hdir ha h.askable_of_directory, packedPaths_spelled,
    List.forall_mem_cons, List.forall_mem_cons, List.forall_mem_cons, List.forall_mem_singleton,
    covers_file h.unlinked h.isFile_artifact, covers_file h.unlinked h.descriptor,
    covers_directory h.unlinked h.sources, covers_directory h.unlinked h.generated,
    LiesInside, placeOf_archive h.unlinked hname hr]
  simp only [not_or]

end Provided

/-- **An archive is refused where it would lie on or in something that is packed, and only there.**
What the archive is compared with is decided by places alone, however the paths are spelled: an
archive at the place of the artifact or of the build descriptor, or at or below one of the trees, is
refused and nothing is changed. Any other archive whose directory exists passes the check, and is
not refused on this ground later. -/
theorem pack_refuses_iff (h : Provided d p n) (hname : archive.fileName? = some a)
    (hdir : d.isDirectory (directoryOf archive) = true) :
    (outcome (p.pack archive) d = (.error (.archiveInsideSources archive), d) ↔
      LiesInside d p n archive) ∧
    (¬ LiesInside d p n archive →
      outcome (checkPlace archive (packedPaths p.root (p.root / "target" / n))) d = (.ok (), d) ∧
      ∀ r d', outcome (p.pack archive) d = (r, d') →
        r ≠ .error (.archiveInsideSources archive)) := by
  obtain ⟨r, hr, hrdir⟩ := Disk.isDirectory_iff.1 hdir
  have htop : d.canonical (directoryOf archive) = .ok (absolute r) :=
    Disk.canonical_iff.2 ⟨r, hr, rfl⟩
  have hcheck := h.uncovered_iff hname hr hrdir
  have haccepted (hnot : ¬ LiesInside d p n archive) :
      outcome (checkPlace archive (packedPaths p.root (p.root / "target" / n))) d = (.ok (), d) :=
    (checkPlace_iff htop hname).2 (hcheck.2 hnot)
  have hrefused (hnot : ¬ LiesInside d p n archive) (res : Except Error Unit) (d' : Disk)
      (hpack : outcome (p.pack archive) d = (res, d')) :
      res ≠ .error (.archiveInsideSources archive) := by
    rintro rfl
    have hkind := pack_fails_of_accepted h.found (haccepted hnot) hpack
    cases hkind
  refine ⟨⟨fun hpack => ?_, fun hinside => ?_⟩, fun hnot => ⟨haccepted hnot, hrefused hnot⟩⟩
  · by_contra hnot
    exact hrefused hnot _ d hpack rfl
  · rw [pack, Disk.outcome_bind, h.found]
    dsimp only
    rw [Disk.outcome_bind, checkPlace_refuses htop hname fun hun => hcheck.1 hun hinside]

lemma depot_candidate (m : String) :
    Candidate depot depotProject m ↔ m = "depot-1-SNAPSHOT.jar" := by
  have htarget := depot_stocked.locate true ["target"] (by decide)
  refine ⟨fun h => ?_, ?_⟩
  · obtain ⟨q, e, hq, he⟩ := h.direct
    obtain rfl := Except.ok.inj (htarget.symm.trans hq)
    have hin : m ∈ depot.namesIn ["p", "target"] := (Disk.mem_namesIn depot_sound).2 ⟨e, he⟩
    have hnames : depot.namesIn ["p", "target"] =
      ["depot-1-SNAPSHOT.jar", "generated-sources"] := rfl
    rw [hnames, List.mem_pair] at hin
    refine hin.resolve_right ?_
    rintro rfl
    have hplace : depot.locate true (depotProject.root / "target" / "generated-sources") =
        .ok ["p", "target", "generated-sources"] :=
      depot_stocked.locate true ["target", "generated-sources"] (by decide)
    have hfile := h.file
    rw [Disk.isFile, Disk.entry?, hplace] at hfile
    cases hfile
  · rintro rfl
    exact ⟨⟨_, _, htarget, rfl⟩, depot_stocked.artifact.file, "1", by decide⟩

lemma depot_provided : Provided depot depotProject "depot-1-SNAPSHOT.jar" where
  sound := depot_sound
  unlinked := depot_unlinked
  artifact := depot_candidate
  descriptor := depot_stocked.isFile ["pom.xml"] (by decide)
  sources := Disk.isDirectory_iff.2 ⟨_, depot_stocked.locate true ["src"] (by decide), rfl⟩
  generated := Disk.isDirectory_iff.2
    ⟨_, depot_stocked.locate true ["target", "generated-sources"] (by decide), rfl⟩
  askable := by decide

/-- Into the sources by a detour, with an idle piece behind the name. -/
def detour : Path := ⟨"p/./target/../src/z/."⟩

/-- Beside the sources, under a name that begins like theirs. -/
def beside : Path := ⟨"p/src.zip"⟩

lemma depot_isDirectory {f : Path} (names : List String) (hv : f.Valid) (hnames : f.names = names)
    (hw : Disk.Way depot Disk.linkLimit [] names Disk.linkLimit q)
    (hq : depot.hasDirectory q = true) : depot.isDirectory f = true := by
  subst hnames
  have hway : Disk.Way depot Disk.linkLimit (depot.startOf f) f.names Disk.linkLimit q := by
    rw [Disk.startOf_top rfl]
    exact hw
  exact Disk.isDirectory_iff.2 ⟨q, Disk.locate_of_way hv hway, hq⟩

/-- The one is refused, and the other is not. -/
theorem depot_places :
    outcome (depotProject.pack detour) depot = (.error (.archiveInsideSources detour), depot) ∧
      outcome (checkPlace beside (packedPaths depotProject.root
        (depotProject.root / "target" / "depot-1-SNAPSHOT.jar"))) depot = (.ok (), depot) := by
  have hdetour : depot.isDirectory (directoryOf detour) = true :=
    depot_isDirectory (q := ["p", "src"]) ["p", ".", "target", "..", "src"] (by decide) (by decide)
      (.enter rfl (by decide) rfl (by simp) (.idle rfl (.inr rfl)
        (.enter rfl (by decide) rfl (by simp) (.up rfl
          (.enter rfl (by decide) rfl (by simp) .done))))) rfl
  have hbeside : depot.isDirectory (directoryOf beside) = true :=
    depot_isDirectory (q := ["p"]) ["p"] (by decide) (by decide)
      (.enter rfl (by decide) rfl (by simp) .done) rfl
  have hrefused := pack_refuses_iff (a := "z") depot_provided (by decide) hdetour
  have haccepted := pack_refuses_iff (a := "src.zip") depot_provided (by decide) hbeside
  exact ⟨hrefused.1.2 (by decide), (haccepted.2 (by decide)).1⟩

end Project

end ProviderGen
