import ProviderGen.Proofs.Java.Source
import ProviderGen.Proofs.Project.Layout
import ProviderGen.Proofs.Schema.Translation
import ProviderGen.Template.Source

/-!
Classes that are named like a type. A generated source uses some types by their simple names,
because it imports them or because the language has them without an import. Most of these names
no class ever gets; seven of them are given away, each exactly if an object of the schema asks
for it.
-/

namespace ProviderGen.Java

open Schema (Key Graph)
open Template (render model)

/-- The types that the source of a class imports. -/
def importedTypes : List String := [
  "JsonProperty", "ArrayList", "List", "Map", "Set", "AllArgsConstructor", "Builder", "Data",
  "NoArgsConstructor", "JSONObject"]

/-- The types that generated sources use without an import. -/
def plainTypes : List String :=
  ["String", "Integer", "Double", "Boolean", "Object", "Override", "RuntimeException"]

/-- The types that a class may be named like. -/
def unguardedTypes : List String :=
  (importedTypes ++ plainTypes).filter fun n => !occupiedNames.contains n

example : unguardedTypes = ["JsonProperty", "AllArgsConstructor", "Builder", "Data",
    "NoArgsConstructor", "Override", "RuntimeException"] := by decide

variable {taken names : List String} {name : String}

/-! ### Names that are asked for -/

/-- A name that is asked for and not taken is given to somebody. -/
lemma mem_freeNames_of_mem (h : name ∈ names) (hfree : name ∉ taken) :
    name ∈ freeNames taken names := by
  induction names generalizing taken with
  | nil => simp at h
  | cons n r ih =>
    rw [freeNames, List.mem_cons]
    by_cases hn : name = freeName taken n
    · exact Or.inl hn
    · rcases List.mem_cons.1 h with rfl | h
      · exact absurd (freeName_of_free hfree).symm hn
      · exact Or.inr (ih h (by simp [hn, hfree]))

/-- A name that is given to somebody is asked for, perhaps without the number behind it. -/
lemma mem_of_mem_freeNames (h : name ∈ freeNames taken names) :
    name ∈ names ∨ ∃ n ∈ names, ∃ i, name = numbered n i := by
  induction names generalizing taken with
  | nil => simp [freeNames] at h
  | cons n r ih =>
    rw [freeNames, List.mem_cons] at h
    rcases h with rfl | h
    · rcases (nextFree_freeName taken n).eq_or_number with hn | ⟨i, -, hi⟩
      · exact Or.inl (by simp [hn])
      · exact Or.inr ⟨n, by simp, i, hi⟩
    · rcases ih h with h | ⟨m, hm, i, hi⟩
      · exact Or.inl (List.mem_cons_of_mem _ h)
      · exact Or.inr ⟨m, List.mem_cons_of_mem _ hm, i, hi⟩

lemma isDigit_last_numbered (name : String) (i : Nat) :
    ∀ c ∈ (numbered name i).toList.getLast?, c.isDigit = true := by
  intro c hc
  have hdigits : Nat.toDigits 10 i ≠ [] := by simp
  rw [numbered, String.toList_append, Nat.toString_eq_ofList_toDigits, String.toList_ofList,
    List.getLast?_append_of_ne_nil _ hdigits] at hc
  exact Nat.isDigit_of_mem_toDigits (by decide) (by decide) (List.mem_of_getLast? hc)

/-- A free name without a digit at the end is given exactly if it is asked for. -/
lemma mem_freeNames_iff (hfree : name ∉ taken)
    (hlast : ∃ c ∈ name.toList.getLast?, c.isDigit = false) :
    name ∈ freeNames taken names ↔ name ∈ names := by
  refine ⟨fun h => ?_, fun h => mem_freeNames_of_mem h hfree⟩
  rcases mem_of_mem_freeNames h with h | ⟨n, -, i, rfl⟩
  · exact h
  · obtain ⟨c, hlast, hc⟩ := hlast
    rw [isDigit_last_numbered n i c hlast] at hc
    cases hc

/-! ### Names of classes -/

variable {package : Package} {g : Graph} {classes : List JavaClass}

/-- A name that is not taken, without a digit at the end, belongs to a class exactly if an
object asks for it. -/
lemma exists_class_iff (hc : classesOf rootClassName package g = .ok classes)
    (hfree : name ∉ takenNames rootClassName)
    (hlast : ∃ c ∈ name.toList.getLast?, c.isDigit = false) :
    (∃ c ∈ classes, c.name = name) ↔ ∃ key ∈ g.keys, wantedName rootClassName key = name := by
  have hmem : (∃ c ∈ classes, c.name = name) ↔
      name ∈ freeNames (takenNames rootClassName) (g.keys.map (wantedName rootClassName)) := by
    rw [← names_of_classes hc, List.mem_map]
  rw [hmem, ← List.mem_map]
  exact mem_freeNames_iff hfree hlast

/-- What holds of every used type: a name is refused exactly if it is on the list of occupied
names, and it is neither the root's nor one with a number. -/
lemma usedType_ok (h : name ∈ importedTypes ++ plainTypes) :
    name ≠ rootClassName ∧ (name ∈ takenNames rootClassName ↔ name ∈ occupiedNames) ∧
      ∃ c ∈ name.toList.getLast?, c.isDigit = false := by
  have hall : ∀ n ∈ importedTypes ++ plainTypes, n ≠ rootClassName ∧
      (n ∈ takenNames rootClassName ↔ n ∈ occupiedNames) ∧
      (n.toList.getLast?.any fun c => !c.isDigit) = true := by decide
  obtain ⟨hroot, htaken, hlast⟩ := hall name h
  refine ⟨hroot, htaken, ?_⟩
  cases hc : name.toList.getLast? with
  | none => simp [hc] at hlast
  | some c => exact ⟨c, rfl, by simpa [hc] using hlast⟩

/-! ### Imports -/

lemma package_of_classes (hc : classesOf rootClassName package g = .ok classes) :
    ∀ c ∈ classes, c.package = package := by
  intro c hin
  have hr := classesOf_result rootClassName package g
  rw [hc] at hr
  obtain ⟨o, -, -, hpackage, -⟩ := Schema.exists_of_forall₂ hr.2.2 hin
  exact hpackage

/-- A package written with dots fits on its line. -/
lemma fits_of_package {p : Project} (hk : p.package = .ok package) :
    '\n' ∉ package.dotted.toList ∧ ';' ∉ package.dotted.toList := by
  have hchars : ∀ c ∈ package.dotted.toList, c = '.' ∨ Package.isSegmentChar c = true :=
    fun c hc => Project.chars_dotted (Project.isSegmentText_of_package hk).2 hc
  refine ⟨fun hm => ?_, fun hm => ?_⟩
  · exact absurd (hchars _ hm) (by decide)
  · exact absurd (hchars _ hm) (by decide)

lemma endsName_of_isClassChar {x : Char} (h : IsClassChar x) : Source.endsName x = false := by
  by_contra hends
  simp only [Source.endsName, Bool.not_eq_false, Bool.or_eq_true, beq_iff_eq] at hends
  rcases hends with (rfl | rfl) | rfl
  all_goals exact absurd h (by decide)

/-- The lines of a class's source between its package and its name. -/
def importLines : Template.Lines := ((Template.modelHead "" "").drop 2).dropLast

def classLine (name : String) : String := "public class " ++ name ++ " \x7b"

/-- The source of a class says so up to its name. -/
lemma head_of_model {k name : String} (hbreak : '\n' ∉ k.toList) (hend : ';' ∉ k.toList)
    (hname : ∀ x ∈ name.toList, IsClassChar x) :
    Source.Head k name [Template.marker] importLines (classLine name) where
  comments := by
    rw [List.forall_mem_singleton]
    exact ⟨_, rfl, by decide⟩
  no_break := hbreak
  no_end := hend
  between := by
    repeat refine .cons (by decide) (by decide) ?_
    exact .nil
  line_no_break := by
    simp only [classLine, String.toList_append, List.mem_append, not_or]
    exact ⟨⟨by decide, fun hm => absurd (hname _ hm) (by decide)⟩, by decide⟩
  names := Source.classOf?_line (by decide) (fun x hx => endsName_of_isClassChar (hname x hx))
    rfl rfl

lemma model_eq (typeName : String) (c : JavaClass) (ks : ResourceKeys) : ∃ post,
    model typeName c ks = Source.headLines c.package.dotted [Template.marker] importLines
      (classLine c.name) ++ post := ⟨_, rfl⟩

/-- Read off its text, the source of a class is in the class's package and declares the class. -/
lemma model_reads {p : Project} (hk : p.package = .ok package)
    (hc : classesOf rootClassName package g = .ok classes) {c : JavaClass} (hin : c ∈ classes)
    (typeName : String) (ks : ResourceKeys) :
    Source.packageName? (render (model typeName c ks)) = some package.dotted ∧
      Source.className? (render (model typeName c ks)) = some c.name ∧
      Source.importedNames (render (model typeName c ks)) = importedTypes := by
  have hhead := head_of_model (fits_of_package hk).1 (fits_of_package hk).2
    ((classNames_ok hc).2 c hin).2
  obtain ⟨post, hpost⟩ := model_eq typeName c ks
  rw [package_of_classes hc c hin] at hpost
  rw [hpost]
  obtain ⟨hpackage, hclass, himports⟩ := hhead.reads post
  exact ⟨hpackage, hclass, himports.trans (by decide)⟩

/-! ### The result -/

/-- **The used types that a class is named like** are the seven that are not guarded, each exactly
if an object behind the root asks for its name; and what the source of a class imports does not
depend on the schema. -/
theorem named_like_used_iff {p : Project} (hk : p.package = .ok package)
    (hc : classesOf rootClassName package g = .ok classes) :
    (∀ c ∈ classes, ∀ typeName ks,
      Source.importedNames (render (model typeName c ks)) = importedTypes) ∧
    ∀ n ∈ importedTypes ++ plainTypes, (∃ c ∈ classes, c.name = n) ↔
      n ∈ unguardedTypes ∧ ∃ key ∈ g.keys, key ≠ .root ∧ className key = n := by
  refine ⟨fun c hin typeName ks => (model_reads hk hc hin typeName ks).2.2, fun n hn => ?_⟩
  obtain ⟨hroot, htaken, hlast⟩ := usedType_ok hn
  have hwanted : (∃ key ∈ g.keys, wantedName rootClassName key = n) ↔
      ∃ key ∈ g.keys, key ≠ .root ∧ className key = n := by
    refine exists_congr fun key => and_congr_right fun _ => ?_
    unfold wantedName
    split
    · rename_i h
      rw [Schema.Key.isRoot_iff] at h
      exact iff_of_false (Ne.symm hroot) fun h' => h'.1 h
    · rename_i h
      rw [Schema.Key.isRoot_iff] at h
      simp [h]
  have hunguarded : n ∈ unguardedTypes ↔ n ∉ takenNames rootClassName := by
    rw [unguardedTypes, List.mem_filter, htaken]
    simp only [hn, true_and, List.contains_eq_mem, Bool.not_eq_true', decide_eq_false_iff_not]
  rw [hunguarded, ← hwanted]
  by_cases hfree : n ∈ takenNames rootClassName
  · refine iff_of_false ?_ fun h => h.1 hfree
    rintro ⟨c, hin, rfl⟩
    exact ((classNames_ok hc).2 c hin).1 hfree
  · rw [exists_class_iff hc hfree hlast]
    simp [hfree]

/-- Two properties that are objects, one called like an annotation and one like a collection. -/
def drive : Document.Members :=
  [("properties", .record [("Data", .record [("properties", .record [])]),
    ("Map", .record [("properties", .record [])])])]

def driveProject : Project := ⟨⟨"p"⟩, .ofTypeName "Aa::Drive", ["Aa", "Drive"], by decide⟩

lemma drive_classes : ∃ g classes, Graph.ofDocument (.record drive) = .ok g ∧
    classesOf rootClassName (.derive ["Aa", "Drive"]) g = .ok classes ∧
    g.keys = [.root, ⟨["properties", "Data"]⟩, ⟨["properties", "Map"]⟩] ∧
    classes.map JavaClass.name = ["ResourceModel", "Data", "Map1"] :=
  ⟨_, _, Schema.ofDocument_record.2 (Or.inr ⟨_, _, _, rfl,
    .cons (.hoist rfl (by decide) rfl .nil) (.cons (.hoist rfl (by decide) rfl .nil) .nil), rfl⟩),
    rfl, rfl, rfl⟩

theorem used_names_of_drive :
    driveProject.package = .ok (.derive ["Aa", "Drive"]) ∧
    ∃ g classes, Graph.ofDocument (.record drive) = .ok g ∧
      classesOf rootClassName (.derive ["Aa", "Drive"]) g = .ok classes ∧
      (∃ c ∈ classes, c.name = "Data") ∧ (¬ ∃ c ∈ classes, c.name = "Map") ∧
      ∀ c ∈ classes, Source.importedNames (render (model "Aa::Drive" c ⟨[], []⟩)) =
        importedTypes := by
  obtain ⟨g, classes, hg, hc, hkeys, -⟩ := drive_classes
  obtain ⟨himports, hnames⟩ := named_like_used_iff (p := driveProject) rfl hc
  refine ⟨rfl, g, classes, hg, hc, ?_, ?_, fun c hin => himports c hin _ _⟩
  · refine (hnames "Data" (by decide)).2 ⟨by decide, ⟨["properties", "Data"]⟩, ?_, by decide, ?_⟩
    · simp [hkeys]
    · decide
  · exact fun h => absurd ((hnames "Map" (by decide)).1 h).1 (by decide)

/-- The source of such a class imports another type of its name. -/
theorem data_named_like_import : ∃ g classes, Graph.ofDocument (.record drive) = .ok g ∧
    classesOf rootClassName (.derive ["Aa", "Drive"]) g = .ok classes ∧
    ∃ c ∈ classes, c.name ∈ Source.importedNames (render (model "Aa::Drive" c ⟨[], []⟩)) := by
  obtain ⟨g, classes, hg, hc, -, hnames⟩ := drive_classes
  obtain ⟨c, hin, hname⟩ : ∃ c ∈ classes, c.name = "Data" := by
    rw [← List.mem_map, hnames]
    decide
  refine ⟨g, classes, hg, hc, c, hin, ?_⟩
  rw [(model_reads (p := driveProject) rfl hc hin _ _).2.2, hname]
  decide

end ProviderGen.Java
