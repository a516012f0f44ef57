import ProviderGen.Proofs.Disk.Run
import ProviderGen.Proofs.Glob
import ProviderGen.Proofs.Project.Layout
import ProviderGen.Project.Artifact

/-!
The artifact that the deployment descriptor refers to. The search for what the build has made
accepts it: the name of the project stands for itself in the pattern, whatever the type is
called, and a star stands for the version.
-/

namespace ProviderGen

/-! ### Names in lower case -/

namespace TypeName

variable {name : String} {segments : List String} {c : Char}

lemma isAlphanum_lower (h : c.isAlphanum = true) :
    Text.lowerChar c = [c.toLower] ∧ c.toLower.isAlphanum = true := by
  have hascii : c.toNat < 128 := by
    unfold Char.isAlphanum Char.isAlpha Char.isUpper Char.isLower Char.isDigit at h
    simp only [Bool.or_eq_true, Bool.and_eq_true, decide_eq_true_eq,
      UInt32.le_iff_toNat_le] at h
    change c.val.toNat < 128
    rcases h with (h | h) | h
    · exact h.2.trans_lt (by decide)
    · exact h.2.trans_lt (by decide)
    · exact h.2.trans_lt (by decide)
  have hall : ∀ n < 128, (Char.ofNat n).isAlphanum = true →
      (Char.ofNat n).toLower.isAlphanum = true := by decide
  refine ⟨Text.lowerChar_of_ascii hascii, ?_⟩
  have hlower := hall c.toNat hascii
  rw [Char.ofNat_toNat] at hlower
  exact hlower h

/-- A hyphenated name holds letters, digits and hyphens. -/
lemma chars_hyphenated (h : TypeName.segments name = .ok segments)
    (hc : c ∈ (hyphenated segments).toList) : c = '-' ∨ c.isAlphanum = true := by
  rw [hyphenated, Text.toList_lower, Text.lowerChars, List.mem_flatMap] at hc
  obtain ⟨a, ha, hc⟩ := hc
  rw [String.toList_intercalate] at ha
  rcases Project.mem_intercalate ha with ha | ⟨l, hl, ha⟩
  · obtain rfl : a = '-' := List.mem_singleton.1 ha
    rw [Text.lowerChar_of_ascii (by decide)] at hc
    exact Or.inl (List.mem_singleton.1 hc)
  · obtain ⟨s, hs, rfl⟩ := List.mem_map.1 hl
    have hsegment := isSegment_of_segments h s hs
    simp only [isSegment, Bool.and_eq_true, List.all_eq_true] at hsegment
    obtain ⟨hlower, hchar⟩ := isAlphanum_lower (hsegment.1.1 a ha)
    rw [hlower, List.mem_singleton] at hc
    exact Or.inr (hc ▸ hchar)

lemma isLiteral_of_hyphenated (h : TypeName.segments name = .ok segments)
    (hc : c ∈ (hyphenated segments).toList) : Glob.Reading.IsLiteral c := by
  have hall : ∀ c ∈ ['?', '*', '[', '{', '}', ',', '\\'], ¬ (c = '-' ∨ c.isAlphanum = true) :=
    List.forall_iff_forall_mem.1 (by decide)
  exact fun hspecial => hall c hspecial (chars_hyphenated h hc)

end TypeName

/-! ### The artifact -/

namespace Project

variable {typeName : String} {segments : List String}

/-- What the build makes, as the deployment descriptor calls it. -/
def artifactName (hyphenated : String) : String := hyphenated ++ "-handler-1.0-SNAPSHOT.jar"

lemma codeUri_eq (hyphenated : String) :
    Layout.codeUri hyphenated = "./target/" ++ artifactName hyphenated := String.append_assoc ..

/-- The pattern of a name accepts the name with a version in it, and nothing else. -/
lemma patternOf_accepts_iff (h : TypeName.segments typeName = .ok segments) : ∃ pattern,
    Artifact.patternOf (TypeName.hyphenated segments) = .ok pattern ∧ ∀ name : String,
      pattern.accepts name = true ↔
        ∃ version, name = TypeName.hyphenated segments ++ "-" ++ version ++ "-SNAPSHOT.jar" := by
  have hfront : ∀ c ∈ (TypeName.hyphenated segments ++ "-").toList,
      Glob.Reading.IsLiteral c := by
    rw [String.toList_append, List.forall_mem_append]
    exact ⟨fun c hc => TypeName.isLiteral_of_hyphenated h hc,
      List.forall_iff_forall_mem.1 (by decide)⟩
  have hback : ∀ c ∈ "-SNAPSHOT.jar".toList, Glob.Reading.IsLiteral c :=
    List.forall_iff_forall_mem.1 (by decide)
  have htext : Layout.artifactPattern (TypeName.hyphenated segments) =
      String.ofList ((TypeName.hyphenated segments ++ "-").toList ++
        '*' :: "-SNAPSHOT.jar".toList) := by
    rw [← String.toList_inj]
    simp [Layout.artifactPattern]
  refine ⟨(TypeName.hyphenated segments ++ "-").toList.map .literal ++
    .star :: "-SNAPSHOT.jar".toList.map .literal, ?_, fun name => ?_⟩
  · rw [Artifact.patternOf, htext]
    exact congrArg (Except.mapError _) (Glob.parse_star hfront hback)
  · exact Glob.accepts_star_iff (TypeName.hyphenated segments ++ "-") "-SNAPSHOT.jar" name

/-- **The search accepts what the build makes**, whatever the type is called and whichever version
it has. -/
theorem patternOf_accepts (h : TypeName.segments typeName = .ok segments) : ∃ pattern,
    Artifact.patternOf (TypeName.hyphenated segments) = .ok pattern ∧ ∀ version : String,
      pattern.accepts (TypeName.hyphenated segments ++ "-" ++ version ++ "-SNAPSHOT.jar") =
        true := by
  obtain ⟨pattern, hpattern, haccepts⟩ := patternOf_accepts_iff h
  exact ⟨pattern, hpattern, fun version => (haccepts _).2 ⟨version, rfl⟩⟩

end Project

end ProviderGen
