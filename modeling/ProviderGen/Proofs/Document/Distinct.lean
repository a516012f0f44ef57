import ProviderGen.Document.Reader
import Mathlib.Data.Set.Finite.Lattice
import Mathlib.Tactic.Common

/-!
Documents whose records have no name twice. Every document that is read is one: the reader puts
a repeated member in the place of the old one. In such a document the member names that lead to
a part of it lead to nothing else. In any document only finitely many ways lead anywhere.
-/

namespace ProviderGen.Document

inductive Distinct : Document → Prop where
  | null : Distinct .null
  | bool (b : Bool) : Distinct (.bool b)
  | number (n : Numeral) : Distinct (.number n)
  | text (s : String) : Distinct (.text s)
  | list {items : List Document} (each : ∀ d ∈ items, Distinct d) : Distinct (.list items)
  | record {members : Members} (names : (members.map Prod.fst).Nodup)
      (each : ∀ m ∈ members, Distinct m.2) : Distinct (.record members)

attribute [simp] Distinct.null Distinct.bool Distinct.number Distinct.text

@[simp] lemma distinct_list {items : List Document} :
    (list items).Distinct ↔ ∀ d ∈ items, d.Distinct := by
  refine ⟨?_, ?_⟩
  · intro h
    cases h with
    | list each => exact each
  · exact Distinct.list

@[simp] lemma distinct_record {members : Members} :
    (record members).Distinct ↔
      (members.map Prod.fst).Nodup ∧ ∀ m ∈ members, m.2.Distinct := by
  refine ⟨?_, ?_⟩
  · intro h
    cases h with
    | record names each => exact ⟨names, each⟩
  · rintro ⟨hn, h⟩
    exact .record hn h

lemma Distinct.of_lookup {members : Members} {name : String} {d : Document}
    (h : (Document.record members).Distinct) (hl : members.lookup name = some d) : d.Distinct :=
  (distinct_record.1 h).2 _ (Members.mem_of_lookup hl)

/-- Where no name occurs twice, every member is found under its name. -/
lemma Members.lookup_of_mem {members : Members} {name : String} {d : Document}
    (hn : (members.map Prod.fst).Nodup) (h : (name, d) ∈ members) :
    members.lookup name = some d := by
  induction members with
  | nil => simp at h
  | cons m r ih =>
    obtain ⟨n, v⟩ := m
    rw [List.map_cons, List.nodup_cons] at hn
    rw [List.lookup_cons]
    rcases List.mem_cons.1 h with e | hr
    · cases e
      simp
    · have hne : name ≠ n := by
        rintro rfl
        exact hn.1 (List.mem_map.2 ⟨_, hr, rfl⟩)
      rw [beq_false_of_ne hne]
      exact ih hn.2 hr

/-! ### Parts of a document -/

/-- The part of a document that the given member names lead to. -/
def follow? (d : Document) : List String → Option Document
  | [] => some d
  | name :: rest => (d.member? name).bind fun e => follow? e rest

lemma follow?_append (d : Document) (a b : List String) :
    d.follow? (a ++ b) = (d.follow? a).bind fun e => e.follow? b := by
  induction a generalizing d with
  | nil => rfl
  | cons name rest ih =>
    simp only [List.cons_append, follow?]
    cases d.member? name with
    | none => rfl
    | some e => exact ih e

lemma Distinct.of_follow? {d e : Document} {path : List String} (h : d.Distinct)
    (he : d.follow? path = some e) : e.Distinct := by
  induction path generalizing d with
  | nil =>
    obtain rfl : d = e := by simpa [follow?] using he
    exact h
  | cons name rest ih =>
    obtain ⟨c, hc, hr⟩ := Option.bind_eq_some_iff.1 he
    cases d with
    | record members => exact ih (h.of_lookup hc) hr
    | _ => simp [member?] at hc

/-- A way that leads anywhere ends at once or goes through a member. -/
lemma follow?_cases {d : Document} {way : List String} (h : (d.follow? way).isSome) :
    way = [] ∨ ∃ members, d = .record members ∧ ∃ m ∈ members, ∃ rest,
      way = m.1 :: rest ∧ (m.2.follow? rest).isSome := by
  cases way with
  | nil => exact Or.inl rfl
  | cons name rest =>
    obtain ⟨e, he⟩ := Option.isSome_iff_exists.1 h
    obtain ⟨c, hc, hr⟩ := Option.bind_eq_some_iff.1 he
    cases d with
    | record members =>
      exact Or.inr ⟨members, rfl, (name, c), Members.mem_of_lookup hc, rest, rfl, by simp [hr]⟩
    | _ => simp [member?] at hc

/-- Only finitely many ways lead anywhere. -/
lemma finite_ways (d : Document) : {way | (d.follow? way).isSome}.Finite := by
  -- the parts of a record are smaller than the record
  induction hn : sizeOf d using Nat.strong_induction_on generalizing d with
  | _ n ih =>
    cases d with
    | record members =>
      have hparts : ∀ m ∈ members, {way | (m.2.follow? way).isSome}.Finite := by
        intro m hm
        refine ih (sizeOf m.2) ?_ m.2 rfl
        have hpart : (m.1, m.2) ∈ members := hm
        have := Members.sizeOf_lt_of_mem hpart
        rw [← hn, record.sizeOf_spec]
        omega
      refine Set.Finite.subset (Set.Finite.insert [] (Set.Finite.biUnion members.finite_toSet
        fun m hm => (hparts m hm).image (List.cons m.1))) ?_
      intro way hway
      rcases follow?_cases hway with rfl | ⟨ms, hms, m, hm, rest, rfl, hrest⟩
      · simp
      · obtain rfl := record.inj hms
        exact Or.inr (Set.mem_biUnion hm ⟨rest, hrest, rfl⟩)
    | _ =>
      refine (Set.finite_singleton []).subset fun way hway => ?_
      rcases follow?_cases hway with rfl | ⟨ms, hms, -⟩
      · rfl
      · cases hms

/-! ### What the reader keeps -/

lemma Members.distinct_put {name : String} {v : Document} {members : Members}
    (h : (record members).Distinct) (hv : v.Distinct) :
    (record (members.put name v)).Distinct := by
  rw [distinct_record] at h ⊢
  refine ⟨Members.nodup_put h.1, ?_⟩
  have hr := h.2
  clear h
  induction members with
  | nil => simpa [Members.put] using hv
  | cons m r ih =>
    obtain ⟨n, w⟩ := m
    have hw : w.Distinct := hr (n, w) (by simp)
    have hrest : ∀ m ∈ r, m.2.Distinct := fun m hm => hr m (List.mem_cons_of_mem _ hm)
    intro m hm
    unfold Members.put at hm
    split at hm
    · rcases List.mem_cons.1 hm with rfl | hm
      · exact hv
      · exact hrest m hm
    · rcases List.mem_cons.1 hm with rfl | hm
      · exact hw
      · exact ih hrest m hm

/-- A plain token holds neither a list nor a record. -/
lemma distinct_of_mem_tokens? {cs : List Char} {ts : List Token} {v : Document}
    (h : tokens? cs = some ts) (hv : .plain v ∈ ts) : v.Distinct := by
  fun_induction tokens? cs generalizing ts with
  | case1 =>
    obtain rfl : [] = ts := by simpa using h
    simp at hv
  | case12 => simp at h
  | case15 => simp at h
  | case13 c r _ _ _ _ _ _ _ _ _ _ _ ih => exact ih h hv
  | _ =>
    rename_i ih
    obtain ⟨us, hus, rfl⟩ := Option.map_eq_some_iff.1 h
    rcases List.mem_cons.1 hv with e | hm
    · simp_all
    · exact ih hus hm

/-- What a container holds so far has no name twice. -/
def Frame.Distinct : Frame → Prop
  | .list items => ∀ d ∈ items, d.Distinct
  | .record members | .field members _ => (Document.record members).Distinct

namespace Reading

structure Distinct (s : Reading) : Prop where
  frames : ∀ f ∈ s.frames, f.Distinct
  root : ∀ d ∈ s.root, d.Distinct

lemma distinct_start : start.Distinct := ⟨by simp [start], by simp [start]⟩

variable {s s' : Reading} {frames : List Frame} {v : Document} {t : Token}

lemma distinct_close (hf : ∀ f ∈ frames, f.Distinct) (hv : v.Distinct)
    (h : close frames v = some s') : s'.Distinct := by
  match frames with
  | [] =>
    obtain rfl : _ = s' := by simpa [close] using h
    exact ⟨by simp, by simpa using hv⟩
  | .list items :: fs =>
    obtain rfl : _ = s' := by simpa [close] using h
    rw [List.forall_mem_cons] at hf
    refine ⟨List.forall_mem_cons.2 ⟨?_, hf.2⟩, by simp⟩
    exact List.forall_mem_cons.2 ⟨hv, hf.1⟩
  | .field members name :: fs =>
    obtain rfl : _ = s' := by simpa [close] using h
    rw [List.forall_mem_cons] at hf
    exact ⟨List.forall_mem_cons.2 ⟨Members.distinct_put hf.1 hv, hf.2⟩, by simp⟩
  | .record _ :: _ => simp [close] at h

lemma distinct_enter {f : Frame} {a : Awaited} (hf : ∀ f ∈ frames, f.Distinct)
    (hn : f.Distinct) (h : enter frames f a = some s') : s'.Distinct := by
  unfold enter at h
  split at h
  · obtain rfl : _ = s' := by simpa using h
    exact ⟨List.forall_mem_cons.2 ⟨hn, hf⟩, by simp⟩
  · simp at h

lemma distinct_value (hf : ∀ f ∈ frames, f.Distinct) (ht : ∀ v, t = .plain v → v.Distinct)
    (h : value frames t = some s') : s'.Distinct := by
  cases t with
  | openRecord => exact distinct_enter hf (by simp [Frame.Distinct]) h
  | openList => exact distinct_enter hf (by simp [Frame.Distinct]) h
  | text w => exact distinct_close hf (.text w) h
  | plain v => exact distinct_close hf (ht v rfl) h
  | _ => simp [value] at h

lemma distinct_afterValue (hf : ∀ f ∈ frames, f.Distinct)
    (h : afterValue frames t = some s') : s'.Distinct := by
  unfold afterValue at h
  split at h
  · obtain rfl : _ = s' := by simpa using h
    exact ⟨hf, by simp⟩
  · rw [List.forall_mem_cons] at hf
    refine distinct_close hf.2 (distinct_list.2 fun d hd => ?_) h
    exact hf.1 d (List.mem_reverse.1 hd)
  · obtain rfl : _ = s' := by simpa using h
    exact ⟨hf, by simp⟩
  · rw [List.forall_mem_cons] at hf
    exact distinct_close hf.2 hf.1 h
  · simp at h

lemma distinct_step (hs : s.Distinct) (ht : ∀ v, t = .plain v → v.Distinct)
    (h : step s t = some s') : s'.Distinct := by
  have hf := hs.frames
  unfold step at h
  split at h
  · exact distinct_value hf ht h
  · rename_i e
    rw [e, List.forall_mem_cons] at hf
    exact distinct_close hf.2 (distinct_list.2 (by simp)) h
  · exact distinct_value hf ht h
  · rename_i e
    obtain rfl : _ = s' := by simpa using h
    rw [e, List.forall_mem_cons] at hf
    exact ⟨List.forall_mem_cons.2 ⟨hf.1, hf.2⟩, by simp⟩
  · rename_i e
    obtain rfl : _ = s' := by simpa using h
    rw [e, List.forall_mem_cons] at hf
    exact ⟨List.forall_mem_cons.2 ⟨hf.1, hf.2⟩, by simp⟩
  · rename_i e
    rw [e, List.forall_mem_cons] at hf
    exact distinct_close hf.2 hf.1 h
  · obtain rfl : _ = s' := by simpa using h
    exact ⟨hf, by simp⟩
  · exact distinct_afterValue hf h
  · simp at h

lemma distinct_run {ts : List Token} (hs : s.Distinct)
    (ht : ∀ v, Token.plain v ∈ ts → v.Distinct) (h : ts.foldlM step s = some s') :
    s'.Distinct := by
  induction ts generalizing s with
  | nil =>
    obtain rfl : s = s' := by simpa using h
    exact hs
  | cons t r ih =>
    rw [List.foldlM_cons] at h
    obtain ⟨s₁, h₁, h₂⟩ := Option.bind_eq_some_iff.1 h
    refine ih (distinct_step hs ?_ h₁) (fun v hv => ht v (List.mem_cons_of_mem _ hv)) h₂
    rintro v rfl
    exact ht v (by simp)

end Reading

/-- **A document that is read has no name twice** in any of its records. -/
theorem distinct_of_parse? {s : String} {d : Document} (h : parse? s = some d) : d.Distinct := by
  obtain ⟨ts, hts, ho⟩ := Option.bind_eq_some_iff.1 h
  obtain ⟨r, hr, hd⟩ := Option.bind_eq_some_iff.1 ho
  have ht : ∀ v, Token.plain v ∈ ts → v.Distinct := fun v hv => distinct_of_mem_tokens? hts hv
  exact (Reading.distinct_run Reading.distinct_start ht hr).root d hd

end ProviderGen.Document
