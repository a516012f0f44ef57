import ProviderGen.Project.Scaffold
import ProviderGen.Proofs.Project.Artifact
import ProviderGen.Proofs.Project.Entries

/-!
The search for the artifact, whatever lies in the build directory. It looks at the files directly
in that directory whose names are the project's, a version and an end, and its answer depends on
nothing but the set of these, so it is the same for every order in which the directory is listed.
What the build descriptor makes, under the name that the deployment descriptor has for it, is one
of them.
-/

namespace ProviderGen

/-! ### Disks with their entries in another order -/

namespace Disk

variable {d d' : Disk} {f : Path} {last : Bool} {links : ℕ} {p : Place} {todo : List String}

/-- The same entries in another order, so that directories are listed in another order. -/
structure Reordered (d d' : Disk) : Prop where
  here : d'.here = d.here
  perm : d'.entries.Perm d.entries

lemma lookup_of_perm {es es' : List (Place × Entry)} (h : es'.Perm es)
    (hn : (es.map Prod.fst).Nodup) (q : Place) : es'.lookup q = es.lookup q := by
  induction h with
  | nil => rfl
  | cons x _ ih =>
    rw [List.map_cons, List.nodup_cons] at hn
    rw [List.lookup_cons, List.lookup_cons, ih hn.2]
  | swap x y l =>
    rw [List.map_cons, List.map_cons, List.nodup_cons, List.mem_cons, not_or] at hn
    rw [List.lookup_cons, List.lookup_cons, List.lookup_cons, List.lookup_cons]
    by_cases hx : q = x.1
    · have hy : (q == y.1) = false := beq_eq_false_iff_ne.2 (hx ▸ hn.1.1)
      rw [hy]
    · rw [beq_eq_false_iff_ne.2 hx]
  | trans h₁ h₂ ih₁ ih₂ => rw [ih₁ ((h₂.map Prod.fst).nodup_iff.2 hn), ih₂ hn]

namespace Reordered

lemma at? (hd : d.Sound) (h : Reordered d d') (q : Place) : d'.at? q = d.at? q := by
  unfold Disk.at?
  rw [lookup_of_perm h.perm hd.distinct]

lemma hasDirectory (hd : d.Sound) (h : Reordered d d') (q : Place) :
    d'.hasDirectory q = d.hasDirectory q := by
  rw [Disk.hasDirectory, Disk.hasDirectory, h.at? hd]

lemma sound (hd : d.Sound) (h : Reordered d d') : d'.Sound := by
  refine ⟨(h.perm.map Prod.fst).nodup_iff.2 hd.distinct, fun he => ?_, fun he => ?_⟩
  · rw [h.at? hd] at he
    rw [h.hasDirectory hd]
    exact hd.inDirectory he
  · rw [h.at? hd] at he
    exact hd.named he

lemma follow (hd : d.Sound) (h : Reordered d d') :
    d'.follow last links p todo = d.follow last links p todo := by
  have hat := h.at? hd
  have hdir := h.hasDirectory hd
  fun_induction d.follow last links p todo <;> rw [Disk.follow] <;> grind

lemma locate (hd : d.Sound) (h : Reordered d d') : d'.locate last f = d.locate last f := by
  unfold Disk.locate Disk.find Disk.startOf
  rw [h.here, h.follow hd]

lemma entry? (hd : d.Sound) (h : Reordered d d') : d'.entry? f = d.entry? f := by
  simp only [Disk.entry?, h.locate hd, h.at? hd]

end Reordered

end Disk

namespace Project

open Disk (outcome)

variable {d d' : Disk} {p : Project} {dir : Path} {n : String}

/-! ### The candidates -/

/-- A file directly in the build directory, links followed, that is called like an artifact. -/
structure Candidate (d : Disk) (p : Project) (n : String) : Prop where
  direct : ∃ q e, d.locate true (p.root / "target") = .ok q ∧ d.at? (q ++ [n]) = some e
  file : d.isFile (p.root / "target" / n) = true
  named : ∃ version, n = p.hyphenated ++ "-" ++ version ++ "-SNAPSHOT.jar"

/-- There is no build directory, or it is a directory. -/
def CanList (d : Disk) (dir : Path) : Prop :=
  d.locate true dir = .error .notFound ∨ d.isDirectory dir = true

lemma Candidate.of_reordered (hd : d.Sound) (h : d.Reordered d') :
    Candidate d' p n ↔ Candidate d p n := by
  have hfile : d'.isFile (p.root / "target" / n) = d.isFile (p.root / "target" / n) := by
    rw [Disk.isFile, Disk.isFile, h.entry? hd]
  refine ⟨fun hc => ⟨?_, hfile ▸ hc.file, hc.named⟩, fun hc => ⟨?_, hfile ▸ hc.file, hc.named⟩⟩
  · simpa only [h.locate hd, h.at? hd] using hc.direct
  · simpa only [h.locate hd, h.at? hd] using hc.direct

lemma CanList.of_reordered (hd : d.Sound) (h : d.Reordered d') (hl : CanList d dir) :
    CanList d' dir := by
  unfold CanList Disk.isDirectory
  rwa [h.locate hd, h.entry? hd]

/-- What is listed of a build directory. -/
lemma built_of (hd : d.Sound) (hl : CanList d dir) :
    ∃ listed, outcome (Artifact.built dir) d = (.ok listed, d) ∧ listed.Nodup ∧
      ∀ n, n ∈ listed ↔ ∃ q e, d.locate true dir = .ok q ∧ d.at? (q ++ [n]) = some e := by
  unfold Artifact.built
  rw [Disk.outcome_bind, Disk.outcome_liftM, Disk.perform_list]
  rcases hl with hl | hl
  · have hlist : d.list dir = .error .notFound := by
      rw [Disk.list, hl]
      rfl
    rw [hlist]
    exact ⟨[], rfl, List.nodup_nil, fun n => by simp [hl]⟩
  · obtain ⟨q, hq, hdir⟩ := Disk.isDirectory_iff.1 hl
    have hlist : d.list dir = .ok (d.namesIn q) := by
      rw [Disk.list, hq]
      exact if_pos hdir
    rw [hlist]
    refine ⟨d.namesIn q, rfl, Disk.namesIn_nodup hd q, fun n => ?_⟩
    rw [Disk.mem_namesIn hd]
    simp [hq]

lemma sorted_mergeSort {names : List String} (hn : names.Nodup) :
    (names.mergeSort fun a b => decide (a ≤ b)).Pairwise fun a b =>
      Text.bytes a < Text.bytes b := by
  have hle : (names.mergeSort fun a b => decide (a ≤ b)).Pairwise fun a b =>
      decide (a ≤ b) = true :=
    List.pairwise_mergeSort (fun a b c => by simpa using le_trans)
      (fun a b => by simpa using le_total a b) names
  have hne := ((List.mergeSort_perm names fun a b => decide (a ≤ b)).nodup_iff).2 hn
  exact (hle.and hne).imp fun h =>
    Text.lt_iff_bytes_lt.1 (lt_of_le_of_ne (of_decide_eq_true h.1) h.2)

/-- Names are put in order in one way. -/
lemma eq_of_sorted {names names' : List String}
    (h : names.Pairwise fun a b => Text.bytes a < Text.bytes b)
    (h' : names'.Pairwise fun a b => Text.bytes a < Text.bytes b)
    (hm : ∀ n, n ∈ names ↔ n ∈ names') : names = names' := by
  have hne {a b : String} (hlt : Text.bytes a < Text.bytes b) : a ≠ b := by
    rintro rfl
    exact List.lt_irrefl _ hlt
  have hnodup {ns : List String} (hs : ns.Pairwise fun a b => Text.bytes a < Text.bytes b) :
      ns.Nodup := hs.imp hne
  exact ((List.perm_ext_iff_of_nodup (hnodup h) (hnodup h')).2 hm).eq_of_pairwise
    (fun a b _ _ hab hba => absurd hba (List.lt_asymm hab)) h h'

/-- The search sorts the candidates and looks how many there are. -/
lemma find_sorted (hd : d.Sound) (hl : CanList d (p.root / "target")) :
    ∃ names : List String, names.Pairwise (fun a b => Text.bytes a < Text.bytes b) ∧
      (∀ n, n ∈ names ↔ Candidate d p n) ∧
      outcome (Artifact.find p.root p.hyphenated) d =
        (Artifact.only (p.root / "target") (Layout.artifactPattern p.hyphenated)
          (names.map (p.root / "target" / ·)), d) := by
  obtain ⟨pattern, hpattern, haccepts⟩ := patternOf_accepts_iff p.segments_eq
  obtain ⟨listed, hbuilt, hnodup, hlisted⟩ := built_of hd hl
  let files := (listed.filter pattern.accepts).filter fun n => d.isFile (p.root / "target" / n)
  refine ⟨files.mergeSort fun a b => decide (a ≤ b),
    sorted_mergeSort ((hnodup.filter _).filter _), fun n => ?_, ?_⟩
  · rw [List.mem_mergeSort, List.mem_filter, List.mem_filter, hlisted, haccepts]
    exact ⟨fun ⟨⟨hdirect, hnamed⟩, hfile⟩ => ⟨hdirect, hfile, hnamed⟩,
      fun hc => ⟨⟨hc.direct, hc.named⟩, hc.file⟩⟩
  · unfold Artifact.find
    rw [Disk.outcome_bind, Disk.outcome_liftExcept, show Artifact.patternOf p.hyphenated = _ from
      hpattern]
    dsimp only
    rw [Disk.outcome_bind, show outcome (Artifact.built (Artifact.directory p.root)) d = _ from
      hbuilt]
    dsimp only
    rw [Disk.outcome_bind, outcome_filterM]
    exact Disk.outcome_liftExcept _ d

/-- The only candidate is found. -/
lemma find_single (hd : d.Sound) (hl : CanList d (p.root / "target"))
    (hone : ∀ m, Candidate d p m ↔ m = n) :
    outcome (Artifact.find p.root p.hyphenated) d = (.ok (p.root / "target" / n), d) := by
  obtain ⟨names, hsorted, hmem, hanswer⟩ := find_sorted (p := p) hd hl
  obtain rfl : names = [n] := eq_of_sorted hsorted (List.pairwise_singleton _ _) fun m => by
    rw [hmem, hone, List.mem_singleton]
  exact hanswer

/-! ### The file that the descriptors mean -/

/-- The file that a build makes: the build tool calls it by its artifact and its version. -/
def Yields (build : Template.Lines) (file : String) : Prop :=
  ∃ artifact version, "    <artifactId>" ++ artifact ++ "</artifactId>" ∈ build ∧
    "    <version>" ++ version ++ "</version>" ∈ build ∧
    "    <packaging>jar</packaging>" ∈ build ∧ file = artifact ++ "-" ++ version ++ ".jar"

/-- The file that the build of a project makes. -/
def jar (p : Project) : String := artifactName p.hyphenated

lemma codeUri_jar (p : Project) : Layout.codeUri p.hyphenated = "./target/" ++ p.jar :=
  codeUri_eq p.hyphenated

lemma jar_named (p : Project) :
    p.jar = p.hyphenated ++ "-" ++ "handler-1.0" ++ "-SNAPSHOT.jar" := by
  rw [← String.toList_inj]
  simp [jar, artifactName]

lemma yields_jar (p : Project) (k : Java.Package) : Yields (p.buildDescriptor k) p.jar := by
  refine ⟨Layout.artifactId p.hyphenated, "1.0-SNAPSHOT", ?_, ?_, ?_, ?_⟩
  · simp [buildDescriptor, Template.buildDescriptor]
  · simp [buildDescriptor, Template.buildDescriptor]
  · simp [buildDescriptor, Template.buildDescriptor]
  · rw [← String.toList_inj]
    simp [jar, artifactName, Layout.artifactId]

lemma isName_jar (p : Project) : Path.IsName p.jar := by
  have hchars : ∀ c ∈ p.hyphenated.toList, c ≠ '/' := by
    rintro c hc rfl
    rcases TypeName.chars_hyphenated p.segments_eq hc with h | h
    · exact absurd h (by decide)
    · exact absurd h (by decide)
  have htext : p.jar.toList = p.hyphenated.toList ++ "-handler-1.0-SNAPSHOT.jar".toList := by
    simp [jar, artifactName]
  have hlength : 3 ≤ p.jar.toList.length := by simp [htext]
  refine ⟨?_, ?_, ?_⟩
  · rw [Path.isIdle, Bool.or_eq_false_iff, beq_eq_false_iff_ne, beq_eq_false_iff_ne]
    refine ⟨fun h => ?_, fun h => ?_⟩
    · rw [h] at hlength
      exact absurd hlength (by decide)
    · rw [h] at hlength
      exact absurd hlength (by decide)
  · intro h
    rw [h] at hlength
    exact absurd hlength (by decide)
  · rw [htext, List.mem_append, not_or]
    exact ⟨fun h => hchars _ h rfl, by decide⟩

lemma codeUri_head (p : Project) : (Layout.codeUri p.hyphenated).toList.head? ≠ some '/' := by
  rw [codeUri_jar]
  simp

lemma codeUri_spelled (p : Project) :
    (⟨Layout.codeUri p.hyphenated⟩ : Path) = (⟨"."⟩ : Path) / "target" / p.jar := by
  have htarget : (⟨"."⟩ : Path) / "target" = ⟨"./target"⟩ := by decide
  have htext : ((⟨"./target"⟩ : Path) / p.jar).text = Layout.codeUri p.hyphenated := by
    rw [← String.toList_inj, Path.join_eq (isName_jar p).head?, if_neg (by decide), codeUri_jar]
    simp
  rw [htarget, ← htext]

/-- The two ways to write where the artifact is; they differ in one dot. -/
lemma exists_text_front (p : Project) : ∃ front : String,
    (p.root / "target" / p.jar).text = front ++ "target/" ++ p.jar ∧
      (p.root / Layout.codeUri p.hyphenated).text = front ++ "./target/" ++ p.jar := by
  have hlast : (p.root / "target").text.toList.getLast? = some 't' := by
    rw [Path.join_eq (by decide)]
    split <;> simp
  have hne : ¬ ((p.root / "target").text = "" ∨
      (p.root / "target").text.toList.getLast? = some '/') := by
    rintro (h | h)
    · rw [h] at hlast
      cases hlast
    · rw [hlast] at h
      cases h
  simp only [← String.toList_inj]
  rw [Path.join_eq (isName_jar p).head?, if_neg hne, Path.join_eq (codeUri_head p),
    Path.join_eq (by decide), codeUri_jar]
  split
  · exact ⟨p.root.text, by simp, by simp⟩
  · exact ⟨p.root.text ++ "/", by simp, by simp⟩

lemma valid_of_codeUri (h : (p.root / Layout.codeUri p.hyphenated).Valid) :
    (p.root / "target" / p.jar).Valid := by
  obtain ⟨front, hplain, hcode⟩ := exists_text_front p
  have hnul := h.noNul
  have hsize := h.size
  rw [hcode] at hnul hsize
  refine ⟨?_, ?_, ?_⟩
  · rw [hplain]
    simpa using hnul
  · rw [hplain]
    simp
  · rw [hplain]
    refine le_trans ?_ hsize
    simp only [String.utf8ByteSize_append]
    have hdot : "target/".utf8ByteSize ≤ "./target/".utf8ByteSize := by decide
    omega

/-- Where the deployment descriptor looks is where the search looks. -/
lemma locate_codeUri {q : Place}
    (h : d.locate true (p.root / Layout.codeUri p.hyphenated) = .ok q) :
    d.locate true (p.root / "target" / p.jar) = .ok q := by
  have hjar := isName_jar p
  have hsteps : (p.root / Layout.codeUri p.hyphenated).steps =
      (p.root / "target" / p.jar).steps := by
    have hdot : Path.steps ⟨"."⟩ = [] := by decide
    rw [Path.steps_join (codeUri_head p), codeUri_spelled, Path.steps_join_name hjar,
      Path.steps_join_name (by decide), Path.steps_join_name hjar, Path.steps_join_name (by decide),
      hdot]
    simp
  have hends : (p.root / Layout.codeUri p.hyphenated).EndsInStep := by
    refine Path.endsInStep_join (codeUri_head p) ?_
    rw [codeUri_spelled]
    exact hjar.endsInStep_join
  have habs : (p.root / Layout.codeUri p.hyphenated).isAbsolute =
      (p.root / "target" / p.jar).isAbsolute := by
    rw [Path.isAbsolute_join (codeUri_head p), Path.isAbsolute_join hjar.head?,
      Path.isAbsolute_join (by decide)]
  obtain ⟨hv, -⟩ := Disk.exists_way_of_locate h
  obtain ⟨links, hw⟩ := (Disk.locate_iff hv hends).1 h
  refine (Disk.locate_iff (valid_of_codeUri hv) hjar.endsInStep_join).2 ⟨links, ?_⟩
  rwa [Disk.startOf, habs, hsteps] at hw

/-- What is found by a name in a directory is directly in it. -/
lemma direct_of_locate {q : Place} (hdir : dir.EndsInStep) (hn : Path.IsName n)
    (h : d.locate true (dir / n) = .ok q) :
    ∃ r e, d.locate true dir = .ok r ∧ d.at? (r ++ [n]) = some e := by
  obtain ⟨hv, -⟩ := Disk.exists_way_of_locate h
  obtain ⟨links, hw⟩ := (Disk.locate_iff hv hn.endsInStep_join).1 h
  rw [Path.steps_join_name hn] at hw
  obtain ⟨links', r, hfront, -⟩ := hw.split
  rw [Disk.startOf, Path.isAbsolute_join hn.head?] at hfront
  have hvalid : dir.Valid := hv.of_front (Path.text_front_join hn.head?) hdir.text_ne
  have hr : d.locate true dir = .ok r := (Disk.locate_iff hvalid hdir).2 ⟨links', hfront⟩
  obtain ⟨e, he⟩ := exists_at?_of_locate hdir hr hn h
  exact ⟨r, e, hr, he⟩

/-- The file that the deployment descriptor means is a candidate. -/
lemma candidate_of_codeUri (h : d.isFile (p.root / Layout.codeUri p.hyphenated) = true) :
    Candidate d p p.jar ∧ d.locate true (p.root / "target" / p.jar) =
      d.locate true (p.root / Layout.codeUri p.hyphenated) := by
  obtain ⟨bytes, hread⟩ := Disk.isFile_iff.1 h
  obtain ⟨q, hq, hbytes⟩ := Disk.read_iff.1 hread
  have hjar := locate_codeUri hq
  have htarget : (p.root / "target").EndsInStep := Path.IsName.endsInStep_join (by decide)
  exact ⟨⟨direct_of_locate htarget (isName_jar p) hjar,
    Disk.isFile_iff.2 ⟨bytes, Disk.read_iff.2 ⟨q, hjar, hbytes⟩⟩, "handler-1.0", jar_named p⟩,
    by rw [hjar, hq]⟩

/-! ### The search -/

/-- **The artifact is found among all that lies in the build directory.** The candidates, in the
order of the bytes of their names, are what the answer depends on, for every order in which the
directory is listed: without one, and with several, there is an error that says so. What the build
descriptor makes is what the deployment descriptor refers to, is a candidate once it is there, and
is found if it is the only one. -/
theorem find_candidates (hd : d.Sound) (hl : CanList d (p.root / "target")) :
    (∃ names : List String, names.Pairwise (fun a b => Text.bytes a < Text.bytes b) ∧
      (∀ n, n ∈ names ↔ Candidate d p n) ∧
      ∀ d', d.Reordered d' → outcome (Artifact.find p.root p.hyphenated) d' =
        (match names with
          | [] => .error (.artifactMissing (p.root / "target")
            (p.hyphenated ++ "-*-SNAPSHOT.jar"))
          | [n] => .ok (p.root / "target" / n)
          | _ => .error (.artifactAmbiguous (names.map (p.root / "target" / ·))), d')) ∧
    (∀ k, Yields (p.buildDescriptor k) p.jar ∧
      "      CodeUri: " ++ Layout.codeUri p.hyphenated ∈ p.deploymentDescriptor k) ∧
    Layout.codeUri p.hyphenated = "./target/" ++ p.jar ∧
    (d.isFile (p.root / Layout.codeUri p.hyphenated) = true →
      Candidate d p p.jar ∧ d.locate true (p.root / "target" / p.jar) =
        d.locate true (p.root / Layout.codeUri p.hyphenated)) ∧
    ((∀ n, Candidate d p n ↔ n = p.jar) → ∀ d', d.Reordered d' →
      outcome (Artifact.find p.root p.hyphenated) d' =
        (.ok (p.root / "target" / p.jar), d')) := by
  obtain ⟨names, hsorted, hmem, -⟩ := find_sorted (p := p) hd hl
  have hfind {d' : Disk} (h : d.Reordered d') : outcome (Artifact.find p.root p.hyphenated) d' =
      (Artifact.only (p.root / "target") (Layout.artifactPattern p.hyphenated)
        (names.map (p.root / "target" / ·)), d') := by
    obtain ⟨names', hsorted', hmem', hanswer⟩ := find_sorted (p := p) (h.sound hd)
      (hl.of_reordered hd h)
    obtain rfl : names' = names := eq_of_sorted hsorted' hsorted fun n => by
      rw [hmem', hmem, Candidate.of_reordered hd h]
    exact hanswer
  refine ⟨⟨names, hsorted, hmem, fun d' h => ?_⟩, fun k => ⟨yields_jar p k, ?_⟩, codeUri_jar p,
    candidate_of_codeUri, fun honly d' h => ?_⟩
  · rw [hfind h]
    match names with
    | [] => rfl
    | [n] => rfl
    | _ :: _ :: _ => rfl
  · simp [deploymentDescriptor, Template.deploymentDescriptor]
  · exact find_single (h.sound hd) (hl.of_reordered hd h) fun m => by
      rw [Candidate.of_reordered hd h, honly]

/-- The jar of a build among others: one with nothing between the name and the end, a directory
that is called like a jar, and a jar in that directory. -/
def heap : Disk := ⟨[
  (["p"], .directory),
  (["p", "target"], .directory),
  (["p", "target", "depot-SNAPSHOT.jar"], .file "none".toUTF8),
  (["p", "target", "depot-old-SNAPSHOT.jar"], .directory),
  (["p", "target", "depot-old-SNAPSHOT.jar", "depot-1-SNAPSHOT.jar"], .file "one".toUTF8),
  (["p", "target", "depot-handler-1.0-SNAPSHOT.jar"], .file "jar".toUTF8)], []⟩

lemma heap_sound : heap.Sound := Disk.sound_of_entries (by decide) (by decide)

lemma heap_locate (names : List String) {e : Entry}
    (hn : names ≠ [] ∧ (∀ n ∈ names, Path.IsName n) ∧ (∀ n ∈ "p" :: names, Disk.Fits n) ∧
      (names.foldl (· / ·) depotProject.root).Valid)
    (he : heap.at? ("p" :: names) = some e) (hl : ∀ t, e ≠ .link t) :
    heap.locate true (names.foldl (· / ·) depotProject.root) = .ok ("p" :: names) := by
  obtain ⟨hne, hnames, hfits, hv⟩ := hn
  have hsteps : (names.foldl (· / ·) depotProject.root).steps = "p" :: names :=
    Path.steps_foldl hnames
  rw [← hsteps] at he hfits ⊢
  exact heap_sound.locate_top rfl hv (Path.endsInStep_foldl hne hnames) hfits he hl

lemma heap_candidate (n : String) : Candidate heap depotProject n ↔ n = depotProject.jar := by
  have hname : depotProject.hyphenated = "depot" := by decide
  have hjar : depotProject.jar = "depot-handler-1.0-SNAPSHOT.jar" := by decide
  have htarget : heap.locate true (depotProject.root / "target") = .ok ["p", "target"] :=
    heap_locate ["target"] (by decide) rfl (by simp)
  refine ⟨fun h => ?_, ?_⟩
  · obtain ⟨q, e, hq, he⟩ := h.direct
    obtain rfl := Except.ok.inj (htarget.symm.trans hq)
    have hin : n ∈ heap.namesIn ["p", "target"] := (Disk.mem_namesIn heap_sound).2 ⟨e, he⟩
    have hnames : heap.namesIn ["p", "target"] = ["depot-SNAPSHOT.jar", "depot-old-SNAPSHOT.jar",
      "depot-handler-1.0-SNAPSHOT.jar"] := rfl
    rw [hnames, List.mem_cons, List.mem_pair] at hin
    rcases hin with rfl | rfl | rfl
    · -- the front and the end of the pattern do not share the hyphen
      obtain ⟨version, hversion⟩ := h.named
      rw [hname] at hversion
      have hlength := congrArg String.length hversion
      simp only [String.length_append] at hlength
      have hl : "depot-SNAPSHOT.jar".length = 18 ∧ "depot".length = 5 ∧ "-".length = 1 ∧
        "-SNAPSHOT.jar".length = 13 := by decide
      omega
    · have hplace : heap.locate true (depotProject.root / "target" / "depot-old-SNAPSHOT.jar") =
          .ok ["p", "target", "depot-old-SNAPSHOT.jar"] :=
        heap_locate ["target", "depot-old-SNAPSHOT.jar"] (by decide) rfl (by simp)
      have hfile := h.file
      rw [Disk.isFile, Disk.entry?, hplace] at hfile
      cases hfile
    · exact hjar.symm
  · rintro rfl
    have hplace : heap.locate true (depotProject.root / "target" / depotProject.jar) =
        .ok ["p", "target", "depot-handler-1.0-SNAPSHOT.jar"] := by
      rw [hjar]
      exact heap_locate ["target", "depot-handler-1.0-SNAPSHOT.jar"] (by decide) rfl
        (by simp)
    have hfile : heap.isFile (depotProject.root / "target" / depotProject.jar) = true := by
      rw [Disk.isFile, Disk.entry?, hplace]
      rfl
    have hthere : ∃ e, heap.at? (["p", "target"] ++ [depotProject.jar]) = some e := by
      rw [hjar]
      exact ⟨_, rfl⟩
    obtain ⟨e, he⟩ := hthere
    exact ⟨⟨_, e, htarget, he⟩, hfile, "handler-1.0", jar_named _⟩

/-- The jar of the build is found in the heap, in whichever order that is listed. -/
theorem heap_found : heap.Sound ∧ heap.isDirectory (depotProject.root / "target") = true ∧
    ∀ d', heap.Reordered d' → outcome (Artifact.find depotProject.root depotProject.hyphenated) d' =
      (.ok (depotProject.root / "target" / "depot-handler-1.0-SNAPSHOT.jar"), d') := by
  have hdir : heap.isDirectory (depotProject.root / "target") = true :=
    Disk.isDirectory_iff.2 ⟨_, heap_locate ["target"] (by decide) rfl (by simp), rfl⟩
  obtain ⟨-, -, -, -, hfound⟩ := find_candidates (p := depotProject) heap_sound (.inr hdir)
  exact ⟨heap_sound, hdir, hfound heap_candidate⟩

end Project

end ProviderGen
