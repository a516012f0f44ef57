import ProviderGen.Project.Pack
import ProviderGen.Proofs.Archive.Assembly
import ProviderGen.Proofs.Disk.Making
import ProviderGen.Proofs.Disk.Walk
import ProviderGen.Proofs.Files.Write

/-!
Packing a project. The archive has one entry for each file, first the artifact, then the build
descriptor, then the sources and the generated sources, each tree in the order of a walk; under
the names that lead to them from the root, and with their bytes.
-/

namespace ProviderGen.Project

open Archive (assemble)
open Disk (Always outcome)
open Files (orRefused)
open Path (IsName)

variable {d d' d₁ : Disk} {p : Project} {archive dir f : Path} {a q r : Place} {n : String}
  {names : List String} {links links' : ℕ}

/-! ### The artifact -/

/-- A file of the build directory that the pattern of the project's name accepts. -/
structure IsArtifact (d : Disk) (p : Project) (n : String) : Prop where
  named : IsName n
  accepted : ∃ pattern, Artifact.patternOf p.hyphenated = .ok pattern ∧ pattern.accepts n = true
  file : d.isFile (p.root / "target" / n) = true

lemma outcome_filterM (g : String → Path) (names : List String) (d : Disk) :
    outcome (names.filterM fun n =>
        (ExceptT.lift (Files.isFile (g n)) : ExceptT Error (StateM Disk) Bool)) d =
      (.ok (names.filter fun n => d.isFile (g n)), d) := by
  have haux (acc : List String) : outcome (names.filterAuxM (fun n =>
        (ExceptT.lift (Files.isFile (g n)) : ExceptT Error (StateM Disk) Bool)) acc) d =
      (.ok ((names.filter fun n => d.isFile (g n)).reverse ++ acc), d) := by
    induction names generalizing acc with
    | nil => rfl
    | cons n names ih =>
      rw [List.filterAuxM, Disk.outcome_bind, Disk.outcome_lift, Disk.perform_isFile]
      dsimp only
      rw [ih]
      cases hfile : d.isFile (g n) with
      | true => simp [hfile]
      | false => simp [hfile]
  rw [List.filterM, Disk.outcome_bind, haux]
  simp

/-- The names in a directory, or none because it is not there. -/
lemma built_ok (h : outcome (Artifact.built dir) d = (.ok names, d')) :
    d' = d ∧ (names = [] ∨ ∃ t, d.locate true dir = .ok t ∧ names = d.namesIn t) := by
  rw [Artifact.built, Disk.outcome_bind, Disk.outcome_liftM, Disk.perform_list] at h
  cases hl : d.list dir with
  | ok listed =>
    rw [hl] at h
    obtain ⟨hnames, rfl⟩ := Prod.mk.inj h
    obtain rfl := Except.ok.inj hnames
    obtain ⟨t, ht, hl⟩ := bind_eq_ok.1 hl
    split at hl
    · exact ⟨rfl, Or.inr ⟨t, ht, (Except.ok.inj hl).symm⟩⟩
    · cases hl
  | error r =>
    rw [hl] at h
    cases r with
    | notFound =>
      obtain ⟨hnames, rfl⟩ := Prod.mk.inj h
      exact ⟨rfl, Or.inl (Except.ok.inj hnames).symm⟩
    | _ => cases h

/-- One path is left if there was one name. -/
lemma only_ok {pattern : String} {files : List String}
    (h : Artifact.only dir pattern ((files.mergeSort fun a b => decide (a ≤ b)).map (dir / ·)) =
      .ok f) : ∃ n, files = [n] ∧ f = dir / n := by
  have hperm := List.mergeSort_perm files fun a b => decide (a ≤ b)
  generalize files.mergeSort (fun a b => decide (a ≤ b)) = sorted at h hperm
  match sorted with
  | [] => cases h
  | [n] => exact ⟨n, (List.perm_singleton.1 hperm.symm), (Except.ok.inj h).symm⟩
  | _ :: _ :: _ => cases h

/-- What a name in a directory leads to is in the directory. -/
lemma exists_at?_of_locate (hdir : dir.EndsInStep) (ht : d.locate true dir = .ok r)
    (hn : IsName n) (hq : d.locate true (dir / n) = .ok q) :
    ∃ e, d.at? (r ++ [n]) = some e := by
  have hends : (dir / n).EndsInStep := hn.endsInStep_join
  obtain ⟨hv, -⟩ := Disk.exists_way_of_locate hq
  obtain ⟨hvdir, -⟩ := Disk.exists_way_of_locate ht
  obtain ⟨links, hw⟩ := (Disk.locate_iff hvdir hdir).1 ht
  have hstart : d.startOf (dir / n) = d.startOf dir := by
    rw [Disk.startOf, Disk.startOf, Path.isAbsolute_join hn.head?]
  have hat : Disk.At d (dir / n) n links r :=
    ⟨hv, hends, dir.steps, Path.steps_join_name hn, hstart ▸ hw⟩
  obtain ⟨links', hlast⟩ := hat.locate_iff.1 hq
  cases hlast with
  | idle _ hidle _ => exact absurd hidle (not_or.2 (Disk.counts_iff.1 hn.counts))
  | up => exact absurd rfl hn.notUp
  | enter _ _ he => exact ⟨_, he⟩
  | link _ _ he => exact ⟨_, he⟩

lemma find_looks (root : Path) (hyphenated : String) :
    Always Eq (Artifact.find root hyphenated : ExceptT Error (StateM Disk) Path).run := by
  unfold Artifact.find
  refine (Disk.always_liftExcept _).andThen fun pattern => ?_
  refine Always.andThen ?_ fun names => ?_
  · unfold Artifact.built
    refine (Disk.always_lift (Disk.always_look _)).andThen fun answer => ?_
    split
    · exact Disk.always_pure _
    · exact Disk.always_pure _
    · exact Disk.always_throw _
  · refine Always.andThen (fun d => ?_) fun files => Disk.always_liftExcept _
    exact (congrArg Prod.snd (outcome_filterM _ _ d)).symm

/-- The one artifact that is found. -/
lemma find_ok (hd : d.Sound) (h : outcome (Artifact.find p.root p.hyphenated) d = (.ok f, d')) :
    d' = d ∧ ∃ n, f = p.root / "target" / n ∧ ∀ m, IsArtifact d p m ↔ m = n := by
  unfold Artifact.find at h
  obtain ⟨pattern, d₁, hread, h₁⟩ := Disk.outcome_bind_ok.1 h
  rw [Disk.outcome_liftExcept] at hread
  obtain ⟨hpattern, rfl⟩ := Prod.mk.inj hread
  obtain ⟨listed, d₂, hbuilt, h₂⟩ := Disk.outcome_bind_ok.1 h₁
  obtain ⟨rfl, hlisted⟩ := built_ok hbuilt
  obtain ⟨files, d₃, hfilter, h₃⟩ := Disk.outcome_bind_ok.1 h₂
  rw [outcome_filterM] at hfilter
  obtain ⟨hfiles, rfl⟩ := Prod.mk.inj hfilter
  rw [Disk.outcome_liftExcept] at h₃
  obtain ⟨honly, rfl⟩ := Prod.mk.inj h₃
  obtain ⟨n, rfl, rfl⟩ := only_ok honly
  have hmem (m : String) : m ∈ [n] ↔ (m ∈ listed ∧ pattern.accepts m = true) ∧
      d₂.isFile (p.root / "target" / m) = true := by
    rw [← Except.ok.inj hfiles, List.mem_filter, List.mem_filter]
    rfl
  refine ⟨rfl, n, rfl, fun m => ?_⟩
  rw [← List.mem_singleton, hmem]
  rcases hlisted with rfl | ⟨t, ht, rfl⟩
  · exact absurd ((hmem n).1 (List.mem_singleton_self n)).1.1 List.not_mem_nil
  · rw [Disk.mem_namesIn hd]
    refine ⟨fun h => ?_, fun ⟨⟨⟨e, he⟩, haccepts⟩, hfile⟩ =>
      ⟨hd.named he, ⟨pattern, hpattern, haccepts⟩, hfile⟩⟩
    obtain ⟨pattern', hpattern', haccepts⟩ := h.accepted
    obtain rfl := Except.ok.inj (hpattern.symm.trans hpattern')
    obtain ⟨bytes, hread⟩ := Disk.isFile_iff.1 h.file
    obtain ⟨q, hq, -⟩ := Disk.read_iff.1 hread
    have hends : (p.root / "target").EndsInStep := IsName.endsInStep_join (by decide)
    exact ⟨⟨exists_at?_of_locate hends ht h.named hq, haccepts⟩, h.file⟩

/-- The one file of the build directory that the pattern accepts is found. -/
lemma find_of {pattern : Glob.Pattern} (hpattern : Artifact.patternOf p.hyphenated = .ok pattern)
    (hlist : d.list (Artifact.directory p.root) = .ok names)
    (honly : (names.filter pattern.accepts).filter (fun m => d.isFile (p.root / "target" / m)) =
      [n]) :
    outcome (Artifact.find p.root p.hyphenated) d = (.ok (p.root / "target" / n), d) := by
  unfold Artifact.find
  refine Disk.outcome_bind_ok.2 ⟨pattern, d, ?_, Disk.outcome_bind_ok.2
    ⟨names, d, ?_, Disk.outcome_bind_ok.2 ⟨[n], d, ?_, ?_⟩⟩⟩
  · rw [Disk.outcome_liftExcept, hpattern]
  · rw [Artifact.built, Disk.outcome_bind, Disk.outcome_liftM, Disk.perform_list, hlist]
    rfl
  · rw [outcome_filterM]
    exact congrArg (fun ms => (Except.ok ms, d)) honly
  · rw [Disk.outcome_liftExcept, List.mergeSort_singleton]
    rfl

/-! ### The steps of packing -/

lemma covers_looks (archive : Path) (packed : List Path) :
    Always Eq (covers archive packed : StateM Disk Bool) := by
  induction packed with
  | nil => exact Disk.always_pure _
  | cons f rest ih =>
    unfold covers
    refine (Disk.always_look _).bind fun answer => ?_
    split
    · exact ih
    · split
      · exact Disk.always_pure _
      · refine (Disk.always_look _).bind fun _ => ?_
        split
        · exact Disk.always_pure _
        · exact ih

lemma checkPlace_looks (archive : Path) (packed : List Path) :
    Always Eq (checkPlace archive packed : ExceptT Error (StateM Disk) Unit).run := by
  unfold checkPlace
  refine (Disk.always_lift (Disk.always_look _)).andThen fun answer => ?_
  split
  · refine (Disk.always_lift (covers_looks _ _)).andThen fun b => ?_
    split
    · exact Disk.always_throw _
    · exact Disk.always_pure _
  · exact Disk.always_pure _

lemma write_iff {bytes : ByteArray} {u : Unit} :
    outcome (orRefused f (Files.write f bytes)) d = (.ok u, d') ↔ d.write f bytes = .ok d' :=
  Disk.outcome_orRefused_ok.trans Disk.perform_change_ok

/-- The archive is none of what is there, and in no directory that is. -/
def Uncovered (d : Disk) (archive : Path) (packed : List Path) : Prop :=
  ∀ f ∈ packed, ∀ q, d.canonical f = .ok q →
    archive ≠ q ∧ (d.isDirectory q = true → archive.below? q = none)

lemma covers_eq_false {packed : List Path} :
    (Disk.perform (covers archive packed) d).1 = false ↔ Uncovered d archive packed := by
  unfold Uncovered
  induction packed with
  | nil => simp [covers]
  | cons f rest ih =>
    rw [List.forall_mem_cons, covers, Disk.perform_bind, Disk.perform_canonical]
    cases hf : d.canonical f with
    | error r => simpa using ih
    | ok q =>
      dsimp only
      by_cases hq : archive = q
      · simp [hq]
      · rw [if_neg hq, Disk.perform_bind, Disk.perform_isDirectory]
        dsimp only
        cases hdir : d.isDirectory q with
        | false => simp [hq, hdir, ih]
        | true => cases hbelow : archive.below? q <;> simp [hq, hdir, hbelow, ih]

/-- Once its directory is known, the archive is accepted if and only if it is not covered. -/
lemma checkPlace_iff {top : Path} {packed : List Path}
    (htop : d.canonical (directoryOf archive) = .ok top) (hname : archive.fileName? = some n) :
    outcome (checkPlace archive packed) d = (.ok (), d) ↔ Uncovered d (top / n) packed := by
  have hlooks : d = (Disk.perform (covers (top / n) packed) d).2 := covers_looks _ _ d
  rw [← covers_eq_false]
  unfold checkPlace
  rw [Disk.outcome_bind, Disk.outcome_liftM, Disk.perform_canonical, htop, hname]
  dsimp only
  rw [Disk.outcome_bind, Disk.outcome_lift, ← hlooks]
  cases (Disk.perform (covers (top / n) packed) d).1 <;> simp

/-- The artifact is found, the place of the archive is accepted, and the archive is made empty. -/
structure Begins (d : Disk) (p : Project) (archive f : Path) (d₁ : Disk) : Prop where
  found : outcome (Artifact.find p.root p.hyphenated) d = (.ok f, d)
  accepted : outcome (checkPlace archive (packedPaths p.root f)) d = (.ok (), d)
  opened : d.write archive .empty = .ok d₁

/-- Packing begins, or it fails and has changed nothing. -/
lemma begins_or_fails {r : Except Error Unit} (h : outcome (p.pack archive) d = (r, d')) :
    (∃ f d₁, Begins d p archive f d₁) ∨ (d' = d ∧ ∃ e, r = .error e) := by
  unfold pack at h
  rcases (find_looks _ _).outcome_bind h with hfails | ⟨f, hfind, hrest⟩
  · exact Or.inr hfails
  rcases (checkPlace_looks _ _).outcome_bind hrest with hfails | ⟨_, hcheck, hwrite⟩
  · exact Or.inr hfails
  cases hempty : d.write archive .empty with
  | ok d₁ => exact Or.inl ⟨f, d₁, hfind, hcheck, hempty⟩
  | error refusal =>
    have hrefused : outcome (orRefused archive (Files.write archive .empty)) d = _ :=
      Disk.outcome_change archive (·.write archive .empty) d
    rw [hempty] at hrefused
    rw [Disk.outcome_bind, hrefused] at hwrite
    obtain ⟨rfl, rfl⟩ := Prod.mk.inj hwrite
    exact Or.inr ⟨rfl, _, rfl⟩

/-- Once packing has begun, what is packed is looked at, and the archive is written. -/
lemma Begins.outcome_pack (h : Begins d p archive f d₁) : outcome (p.pack archive) d =
    let assembly := (Disk.perform (assemble p.root (packedPaths p.root f)) d₁).1
    match d₁.write archive (Archive.Zip.encode assembly.entries) with
    | .ok d' => (assembly.result.map fun _ => (), d')
    | .error r => (.error (.refused archive r), d₁) := by
  have hwrite (bytes : ByteArray) (d : Disk) :
      outcome (orRefused archive (Files.write archive bytes)) d = _ :=
    Disk.outcome_change archive (·.write archive bytes) d
  have hstay := (Archive.gives_assemble d₁ p.root (packedPaths p.root f)).1
  rw [pack, Disk.outcome_bind, h.found]
  dsimp only
  rw [Disk.outcome_bind, h.accepted]
  dsimp only
  rw [Disk.outcome_bind, hwrite, h.opened]
  dsimp only
  rw [Disk.outcome_bind, Disk.outcome_lift, hstay]
  dsimp only
  rw [Disk.outcome_bind, hwrite]
  cases d₁.write archive _ with
  | error r => rfl
  | ok d' =>
    obtain ⟨es, failure⟩ := (Disk.perform (assemble p.root (packedPaths p.root f)) d₁).1
    cases failure <;> rfl

lemma pack_iff : outcome (p.pack archive) d = (.ok (), d') ↔
    ∃ f d₁ es, Begins d p archive f d₁ ∧
      (Disk.perform (assemble p.root (packedPaths p.root f)) d₁).1 = .done es ∧
      d₁.write archive (Archive.Zip.encode es) = .ok d' := by
  refine ⟨fun h => ?_, ?_⟩
  · rcases begins_or_fails h with ⟨f, d₁, hbegins⟩ | ⟨-, e, he⟩
    · rw [hbegins.outcome_pack] at h
      refine ⟨f, d₁, (Disk.perform (assemble p.root (packedPaths p.root f)) d₁).1.entries,
        hbegins, ?_⟩
      generalize (Disk.perform (assemble p.root (packedPaths p.root f)) d₁).1 = assembly at h ⊢
      obtain ⟨es, failure⟩ := assembly
      dsimp only at h
      split at h
      · rename_i d₂ hwrite
        obtain ⟨hresult, rfl⟩ := Prod.mk.inj h
        cases failure with
        | none => exact ⟨rfl, hwrite⟩
        | some e => cases hresult
      · cases h
    · cases he
  · rintro ⟨f, d₁, es, hbegins, hassemble, hwrite⟩
    rw [hbegins.outcome_pack, hassemble]
    dsimp only [Archive.Assembly.done]
    rw [hwrite]
    rfl

end ProviderGen.Project
