import ProviderGen.Project.Generate
import ProviderGen.Proofs.Java.ClassName
import ProviderGen.Proofs.Disk.Run
import ProviderGen.Proofs.Disk.Way

/-!
The names of generated things. Whatever a schema calls its objects, the files of their classes
have different names, none of them that of a file written beside them, and no name leads into
another directory; nor do the segments of a package.
-/

namespace ProviderGen

open Path (IsName)

namespace Project

open Java (JavaClass Package ResourceKeys rootClassName takenNames)

/-! ### Class files -/

lemma isName_source {name : String} (h : '/' ∉ name.toList) : IsName (name ++ ".java") := by
  have hlist : (name ++ ".java").toList = name.toList ++ ['.', 'j', 'a', 'v', 'a'] := by
    rw [String.toList_append]
    rfl
  refine ⟨?_, fun e => ?_, ?_⟩
  · rw [hlist]
    cases name.toList with
    | nil => rfl
    | cons c r => simp [Path.isIdle]
  · have := congrArg (fun s : String => s.toList.length) e
    rw [hlist] at this
    simp at this
  · rw [hlist, List.mem_append, not_or]
    exact ⟨h, by decide⟩

variable {k : Package} {schema : Document} {classes : List JavaClass} {keys : ResourceKeys}

lemma modelOf_ok : modelOf k schema = .ok (classes, keys) ↔
    ∃ graph found, Schema.Graph.ofDocument schema = .ok graph ∧
      Java.classesOf rootClassName k graph = .ok classes ∧
      ResourceKeys.ofDocument schema = .ok found ∧ keys = found.bindTo classes := by
  unfold modelOf
  cases Schema.Graph.ofDocument schema with
  | error e => simp [Except.mapError, bind, Except.bind]
  | ok graph =>
    cases hc : Java.classesOf rootClassName k graph with
    | error e => simp [hc, Except.mapError, bind, Except.bind]
    | ok classes' =>
      cases ResourceKeys.ofDocument schema with
      | error e => simp [hc, Except.mapError, bind, Except.bind]
      | ok found =>
        simp only [hc, Except.mapError, bind, Except.bind, Except.ok.injEq, Prod.mk.injEq,
          exists_and_left, exists_eq_left']
        refine ⟨?_, ?_⟩
        · rintro ⟨rfl, rfl⟩
          exact ⟨rfl, rfl⟩
        · rintro ⟨rfl, rfl⟩
          exact ⟨rfl, rfl⟩

lemma classes_of_modelOf (h : modelOf k schema = .ok (classes, keys)) :
    (classes.map JavaClass.name).Nodup ∧ ∀ c ∈ classes,
      c.name ∉ takenNames rootClassName ∧ '/' ∉ c.name.toList := by
  obtain ⟨graph, -, -, hc, -, -⟩ := modelOf_ok.1 h
  obtain ⟨hnodup, hnames⟩ := Java.classNames_ok hc
  exact ⟨hnodup, fun c hc => ⟨(hnames c hc).1, fun hm => absurd ((hnames c hc).2 _ hm)
    (by decide)⟩⟩

/-- Generated files have different names, and all of them are names of entries. -/
lemma generatedFiles_names (h : modelOf k schema = .ok (classes, keys)) (typeName : String) :
    ((generatedFiles typeName k classes keys).map Prod.fst).Nodup ∧
      ∀ f ∈ generatedFiles typeName k classes keys, IsName f.1 := by
  obtain ⟨hnodup, hclasses⟩ := classes_of_modelOf h
  have hfixed : ((generatedFiles typeName k classes keys).map Prod.fst) =
      ["HandlerWrapper", "BaseConfiguration", "BaseHandler"].map (· ++ ".java") ++
        (classes.map JavaClass.name).map (· ++ ".java") := by
    unfold generatedFiles
    rw [List.map_append, List.map_map, List.map_map]
    rfl
  rw [hfixed, ← List.map_append]
  have htaken : ∀ n ∈ ["HandlerWrapper", "BaseConfiguration", "BaseHandler"],
      n ∈ takenNames rootClassName ∧ '/' ∉ n.toList := by decide
  refine ⟨List.Nodup.map (fun a b hab => (String.append_left_inj _).1 hab) ?_, fun f hf => ?_⟩
  · refine List.Nodup.append (by decide) hnodup fun n hn hclass => ?_
    obtain ⟨c, hc, rfl⟩ := List.mem_map.1 hclass
    exact (hclasses c hc).1 (htaken _ hn).1
  · have hmem : f.1 ∈ (generatedFiles typeName k classes keys).map Prod.fst :=
      List.mem_map_of_mem hf
    rw [hfixed, ← List.map_append] at hmem
    obtain ⟨n, hn, hname⟩ := List.mem_map.1 hmem
    rw [← hname]
    refine isName_source ?_
    rcases List.mem_append.1 hn with hn | hn
    · exact (htaken n hn).2
    · obtain ⟨c, hc, rfl⟩ := List.mem_map.1 hn
      exact (hclasses c hc).2

/-! ### Packages -/

lemma isSegmentChar_of_mem_legalSegment {cs : List Char} {c : Char}
    (h : c ∈ Package.legalSegment cs) : Package.isSegmentChar c = true := by
  have hchars : ∀ c ∈ cs.map fun c => if Package.isSegmentChar c then c else '_',
      Package.isSegmentChar c = true := by
    intro c hc
    obtain ⟨a, -, rfl⟩ := List.mem_map.1 hc
    split
    · assumption
    · decide
  unfold Package.legalSegment at h
  split at h
  · obtain rfl := List.mem_singleton.1 h
    decide
  · rename_i c' r hcs
    rw [hcs] at hchars
    split at h
    · rcases List.mem_cons.1 h with rfl | h
      · decide
      · exact hchars c h
    · exact hchars c h

lemma legalSegment_ne_nil (cs : List Char) : Package.legalSegment cs ≠ [] := by
  unfold Package.legalSegment
  split
  · simp
  · split
    · simp
    · simp

/-- A segment of a package: some of the characters allowed. -/
def IsSegmentText (s : String) : Prop := s ≠ "" ∧ ∀ c ∈ s.toList, Package.isSegmentChar c = true

instance (s : String) : Decidable (IsSegmentText s) :=
  decidable_of_iff (s ≠ "" ∧ s.toList.all Package.isSegmentChar = true)
    (and_congr_right fun _ => List.all_eq_true)

lemma isName_of_segment {s : String} (h : IsSegmentText s) : IsName s := by
  have hdot : '.' ∉ s.toList := fun hm => absurd (h.2 _ hm) (by decide)
  refine ⟨?_, ?_, fun hm => absurd (h.2 _ hm) (by decide)⟩
  · rw [Disk.counts_iff]
    refine ⟨h.1, ?_⟩
    rintro rfl
    exact hdot (by decide)
  · rintro rfl
    exact hdot (by decide)

lemma isSegmentText_derive (segment : String) : IsSegmentText (Package.deriveSegment segment) := by
  have hne := legalSegment_ne_nil (Text.lowerChars segment.toList)
  unfold Package.deriveSegment Java.guard
  split
  · refine ⟨?_, fun c hc => ?_⟩
    · rw [Ne, ← String.toList_inj]
      simp
    · rw [String.toList_append, String.toList_ofList] at hc
      rcases List.mem_append.1 hc with hc | hc
      · exact isSegmentChar_of_mem_legalSegment hc
      · obtain rfl : c = '_' := by simpa using hc
        decide
  · refine ⟨?_, fun c hc => ?_⟩
    · rw [Ne, ← String.toList_inj, String.toList_ofList]
      simpa using hne
    · rw [String.toList_ofList] at hc
      exact isSegmentChar_of_mem_legalSegment hc

lemma isSegmentChar_of_isSegment {cs : List Char} {c : Char} (h : Package.isSegment cs = true)
    (hc : c ∈ cs) : Package.isSegmentChar c = true := by
  cases cs with
  | nil => cases hc
  | cons a r =>
    cases r with
    | nil => cases h
    | cons b r =>
      simp only [Package.isSegment, Bool.and_eq_true, List.all_eq_true] at h
      rcases List.mem_cons.1 hc with rfl | hc
      · have hstart := h.1
        simp only [Package.isSegmentStart, Bool.or_eq_true] at hstart
        simp only [Package.isSegmentChar, Bool.or_eq_true]
        exact hstart.imp_left Or.inl
      · exact h.2 c hc

lemma isSegmentText_of_check {segment : String} (h : Package.checkSegment segment = .ok ()) :
    IsSegmentText segment := by
  unfold Package.checkSegment at h
  split at h
  · cases h
  · rename_i c r hcs
    split at h
    · cases h
    · split at h
      · cases h
      · rename_i hstart
        split at h
        · cases h
        · rename_i hshape
          refine ⟨?_, fun c' hc' => ?_⟩
          · rintro rfl
            cases hcs
          · rw [hcs] at hc'
            exact isSegmentChar_of_isSegment (by simpa using hshape) hc'

lemma forM_ok {α ε : Type} {check : α → Except ε PUnit} {l : List α} (h : l.forM check = .ok ()) :
    ∀ a ∈ l, check a = .ok () := by
  induction l with
  | nil => simp
  | cons a l ih =>
    obtain ⟨u, ha, hl⟩ := bind_eq_ok.1 (h : check a >>= (fun _ => l.forM check) = .ok ())
    exact List.forall_mem_cons.2 ⟨ha, ih hl⟩

/-- A package has a segment, and its segments hold the characters allowed. -/
lemma isSegmentText_of_package {p : Project} (h : p.package = .ok k) :
    k.segments ≠ [] ∧ ∀ s ∈ k.segments, IsSegmentText s := by
  unfold package at h
  split at h
  · rename_i chosen _
    unfold readPackage at h
    cases hr : Package.read chosen with
    | error f =>
      rw [hr] at h
      cases h
    | ok k' =>
      rw [hr] at h
      obtain rfl := Except.ok.inj h
      unfold Package.read at hr
      split at hr
      · cases hr
      · obtain ⟨u, hall, hk⟩ := bind_eq_ok.1 hr
        obtain rfl := Except.ok.inj hk
        refine ⟨?_, fun s hs => isSegmentText_of_check (forM_ok hall s hs)⟩
        simp [Package.pieces]
  · obtain rfl := Except.ok.inj h
    refine ⟨by simp [Package.derive], fun s hs => ?_⟩
    rcases List.mem_cons.1 hs with rfl | hs
    · decide
    · obtain ⟨segment, -, rfl⟩ := List.mem_map.1 hs
      exact isSegmentText_derive segment

/-- Its segments are names of entries. -/
lemma segments_of_package {p : Project} (h : p.package = .ok k) :
    k.segments ≠ [] ∧ ∀ s ∈ k.segments, IsName s := by
  obtain ⟨hne, hs⟩ := isSegmentText_of_package h
  exact ⟨hne, fun s hm => isName_of_segment (hs s hm)⟩

lemma mem_intercalate {α : Type} {sep : List α} {c : α} {ls : List (List α)}
    (h : c ∈ sep.intercalate ls) : c ∈ sep ∨ ∃ l ∈ ls, c ∈ l := by
  induction ls with
  | nil => simp at h
  | cons l r ih =>
    cases r with
    | nil => exact Or.inr ⟨l, by simp, by simpa using h⟩
    | cons m r =>
      rw [List.intercalate_cons_cons, List.mem_append, List.mem_append] at h
      rcases h with (h | h) | h
      · exact Or.inr ⟨l, by simp, h⟩
      · exact Or.inl h
      · rcases ih h with h | ⟨x, hx, hc⟩
        · exact Or.inl h
        · exact Or.inr ⟨x, List.mem_cons_of_mem _ hx, hc⟩

/-- Written with dots, a package holds such characters and dots. -/
lemma chars_dotted (h : ∀ s ∈ k.segments, IsSegmentText s) {c : Char} (hc : c ∈ k.dotted.toList) :
    c = '.' ∨ Package.isSegmentChar c = true := by
  rw [Package.dotted, String.toList_intercalate] at hc
  rcases mem_intercalate hc with hc | ⟨l, hl, hc⟩
  · exact Or.inl (List.mem_singleton.1 hc)
  · obtain ⟨s, hs, rfl⟩ := List.mem_map.1 hl
    exact Or.inr ((h s hs).2 c hc)

/-- The path of a package has the package's segments as its steps. -/
lemma packagePath_ok (hne : k.segments ≠ []) (h : ∀ s ∈ k.segments, IsName s) :
    (Layout.packagePath k).toList.head? ≠ some '/' ∧
      Path.EndsInStep ⟨Layout.packagePath k⟩ ∧
      Path.steps ⟨Layout.packagePath k⟩ = k.segments := by
  have habsolute : (k.segments.foldl (· / ·) (⟨""⟩ : Path)).isAbsolute = false := by
    rw [Path.isAbsolute_foldl h]
    rfl
  refine ⟨?_, Path.endsInStep_foldl hne h, Path.steps_foldl h⟩
  intro hhead
  simp [Path.isAbsolute, Layout.packagePath] at habsolute hhead
  exact habsolute hhead

end Project

end ProviderGen
