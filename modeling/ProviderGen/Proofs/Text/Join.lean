import Mathlib.Data.List.Basic
import Mathlib.Tactic.Common

/-!
Joined texts. What a separator joins is found between its places if it does not occur in what it
joins, and what stands behind a beginning is left when that is dropped.
-/

namespace ProviderGen.Text

variable {separator : String} {c : Char} {texts texts' : List String}

lemma splitOn_joined (hc : separator.toList = [c]) (hne : texts ≠ [])
    (h : ∀ t ∈ texts, c ∉ t.toList) :
    (separator.intercalate texts).toList.splitOn c = texts.map String.toList := by
  rw [String.toList_intercalate, hc]
  exact List.splitOn_intercalate c (List.forall_mem_map.2 h) (by simpa using hne)

lemma joined_inj (hc : separator.toList = [c]) (hne : texts ≠ []) (hne' : texts' ≠ [])
    (h : ∀ t ∈ texts, c ∉ t.toList) (h' : ∀ t ∈ texts', c ∉ t.toList) :
    separator.intercalate texts = separator.intercalate texts' ↔ texts = texts' := by
  refine ⟨fun e => ?_, fun e => e ▸ rfl⟩
  have hsplit := splitOn_joined hc hne h
  rw [e, splitOn_joined hc hne' h'] at hsplit
  exact (List.map_injective_iff.2 (fun _ _ => String.toList_inj.1) hsplit).symm

lemma isPrefixOf_append (front behind : String) :
    front.toList.isPrefixOf (front ++ behind).toList = true := by
  rw [String.toList_append]
  exact List.isPrefixOf_iff_prefix.2 (List.prefix_append _ _)

lemma drop_append (front behind : String) :
    (front ++ behind).toList.drop front.length = behind.toList := by
  rw [String.toList_append, ← String.length_toList, List.drop_left]

end ProviderGen.Text
