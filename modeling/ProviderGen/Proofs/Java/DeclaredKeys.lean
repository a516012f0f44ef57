import ProviderGen.Proofs.Java.PrintedPointer
import ProviderGen.Proofs.Java.StringLiterals

/-!
Which identifiers a schema may declare. Every text in a list has to be a pointer to a property, and
its key is made from the names in it. A schema is refused for the primary list before the
additional ones are looked at, and for the first of these that is not a list of such pointers; the
place of the defect is the list, whichever of its entries is at fault.
-/

namespace ProviderGen.Java

open ProviderGen.Schema (Defect Fault IsPlainName written written_eq_iff)
open ResourceKey (path? ofPointer? pointerStart)
open ResourceKeys (keysAt groupsFrom primaryOf additionalOf ofDocument primaryPlace additionalPlace)

/-- A text that starts with `/properties/` and does not only have slashes behind it. -/
def IsPointer (s : String) : Prop := ∃ rest, s = "/properties/" ++ rest ∧ ∃ c ∈ rest.toList, c ≠ '/'

/-- What a list of pointers may hold. -/
def IsPointerText (d : Document) : Prop := ∃ s, d = .text s ∧ IsPointer s

def IsPointerList (d : Document) : Prop := ∃ l, d = .list l ∧ ∀ p ∈ l, IsPointerText p

/-- What is wrong with an entry of a list. -/
inductive BadEntry : Fault → Document → Prop where
  | notText {d : Document} (h : ∀ s, d ≠ .text s) : BadEntry .pointerNotText d
  | elsewhere {s : String} (h : ¬ IsPointer s) : BadEntry (.pointerElsewhere s) (.text s)

/-- What is wrong with a list: it is none, or its first bad entry is bad in this way. -/
inductive BadList : Fault → Document → Prop where
  | notList {d : Document} (h : ∀ l, d ≠ .list l) : BadList .notPointerList d
  | entry {fault : Fault} {l : List Document} (h : First IsPointerText (BadEntry fault) l) :
      BadList fault (.list l)

/-- The key that a text gives: it calls the getters that the names in the text ask for, one after
the other, and tests each of them. -/
def KeyOf (d : Document) (k : ResourceKey) : Prop :=
  ∃ names, d = .text k.pointer ∧ NamesIn k.pointer names ∧ names ≠ [] ∧
    Calls k (names.map fun n => "get" ++ accessor (fieldName n) ++ "()")

/-- The keys of the texts in a list, in their order. -/
def KeysOf (d : Document) (ks : List ResourceKey) : Prop :=
  ∃ l, d = .list l ∧ List.Forall₂ KeyOf l ks

variable {d : Document} {s : String} {k : ResourceKey} {fault fault' : Fault} {cs : List Char}

/-! ### One pointer -/

lemma exists_piece_iff : (∃ piece ∈ cs.splitOn '/', piece ≠ []) ↔ ∃ c ∈ cs, c ≠ '/' := by
  induction cs with
  | nil => simp
  | cons c cs ih =>
    rw [List.exists_mem_cons_iff, ← ih, List.splitOn, List.splitOnP_cons_eq_if_modifyHead]
    by_cases hc : c = '/'
    · simp [hc, List.splitOn]
    · -- the piece in front has `c`
      obtain ⟨piece, pieces, hpieces⟩ := List.exists_cons_of_ne_nil
        (List.splitOnP_ne_nil (· == '/') cs)
      simp [hc, hpieces]

lemma isPointer_iff : IsPointer s ↔ ∃ names, path? s = some names := by
  constructor
  · rintro ⟨rest, rfl, hrest⟩
    obtain ⟨piece, hin, hne⟩ := exists_piece_iff.2 hrest
    have hpieces : ((rest.toList.splitOn '/').filter (!·.isEmpty)).isEmpty = false := by
      simpa using ⟨piece, hin, hne⟩
    have hprefix : pointerStart.toList.isPrefixOf ("/properties/" ++ rest).toList = true :=
      Text.isPrefixOf_append _ _
    have hdrop : ("/properties/" ++ rest).toList.drop pointerStart.length = rest.toList :=
      Text.drop_append _ _
    rw [path?, if_pos hprefix, hdrop]
    dsimp only
    rw [hpieces]
    exact ⟨_, rfl⟩
  · rintro ⟨names, hnames⟩
    obtain ⟨⟨rest, rfl, rfl⟩, hne⟩ := namesIn_of_path? hnames
    refine ⟨rest, rfl, exists_piece_iff.1 ?_⟩
    simpa [List.filter_eq_nil_iff] using hne

/-- Slashes alone lead to no property, and a slash too many is skipped. -/
example : path? "/properties//" = none ∧ path? "/properties//a/" = some ["a"] := by decide

lemma ofPointer?_eq_none_iff : ofPointer? s = none ↔ ¬ IsPointer s := by
  rw [isPointer_iff, ofPointer?, Option.map_eq_none_iff, Option.eq_none_iff_forall_ne_some,
    not_exists]

lemma keyOf_of_ofPointer? (h : ofPointer? s = some k) : KeyOf (.text s) k := by
  obtain ⟨names, hnames, rfl⟩ := Option.map_eq_some_iff.1 h
  obtain ⟨hin, hne⟩ := namesIn_of_path? hnames
  exact ⟨names, rfl, hin, hne, calls_getters _⟩

/-! ### One list -/

lemma BadEntry.not_pointer (h : BadEntry fault d) : ¬ IsPointerText d := by
  rintro ⟨s, rfl, hs⟩
  cases h with
  | notText h => exact h s rfl
  | elsewhere h => exact h hs

lemma BadEntry.unique (h : BadEntry fault d) (h' : BadEntry fault' d) : fault = fault' := by
  cases h with
  | notText h =>
    cases h' with
    | notText => rfl
    | elsewhere => exact absurd rfl (h _)
  | elsewhere h =>
    cases h' with
    | notText h' => exact absurd rfl (h' _)
    | elsewhere => rfl

/-- The key of one entry. -/
def entryAt (place : Schema.Key) : Document → Except Defect ResourceKey
  | .text pointer =>
    match ofPointer? pointer with
    | some k => .ok k
    | none => .error ⟨place, .pointerElsewhere pointer⟩
  | _ => .error ⟨place, .pointerNotText⟩

lemma entryAt_text (place : Schema.Key) (s : String) : entryAt place (.text s) =
    match ofPointer? s with
    | some k => .ok k
    | none => .error ⟨place, .pointerElsewhere s⟩ := rfl

lemma entryAt_result (place : Schema.Key) (d : Document) :
    Outcome (fun k => IsPointerText d ∧ KeyOf d k)
      (fun e => e.place = place ∧ BadEntry e.fault d) (entryAt place d) := by
  cases d with
  | text s =>
    rw [entryAt_text]
    cases hk : ofPointer? s with
    | some k =>
      have hs : IsPointer s := by
        by_contra hnot
        rw [ofPointer?_eq_none_iff.2 hnot] at hk
        cases hk
      exact ⟨⟨s, rfl, hs⟩, keyOf_of_ofPointer? hk⟩
    | none => exact ⟨rfl, .elsewhere (ofPointer?_eq_none_iff.1 hk)⟩
  | _ => exact ⟨rfl, .notText (by simp)⟩

lemma keysAt_list (place : Schema.Key) (ds : List Document) :
    keysAt place (.list ds) = ds.mapM (entryAt place) := by
  have hentry : (fun d => match d with
      | .text pointer => match ofPointer? pointer with
        | some k => Except.ok k
        | none => .error ⟨place, .pointerElsewhere pointer⟩
      | _ => .error ⟨place, .pointerNotText⟩) = entryAt place := by
    funext d
    cases d <;> rfl
  rw [← hentry]
  rfl

lemma BadList.not_list (h : BadList fault d) : ¬ IsPointerList d := by
  rintro ⟨l, rfl, hall⟩
  cases h with
  | notList h => exact h l rfl
  | entry h =>
    obtain ⟨before, p, after, rfl, -, hbad⟩ := h
    exact hbad.not_pointer (hall p (by simp))

lemma BadList.unique (h : BadList fault d) (h' : BadList fault' d) : fault = fault' := by
  cases h with
  | notList h =>
    cases h' with
    | notList => rfl
    | entry => exact absurd rfl (h _)
  | entry h =>
    cases h' with
    | notList h' => exact absurd rfl (h' _)
    | entry h' =>
      obtain ⟨p, hp, hp'⟩ := h.exists_both h' (fun _ => BadEntry.not_pointer)
        fun _ => BadEntry.not_pointer
      exact hp.unique hp'

lemma keysAt_result (place : Schema.Key) (d : Document) :
    Outcome (fun ks => IsPointerList d ∧ KeysOf d ks)
      (fun e => e.place = place ∧ BadList e.fault d) (keysAt place d) := by
  cases d with
  | list l =>
    rw [keysAt_list]
    refine (mapM_result (entryAt_result place) l).imp ?_ ?_
    · rintro ks ⟨hall, hkeys⟩
      exact ⟨⟨l, rfl, hall⟩, l, rfl, hkeys⟩
    · rintro e ⟨before, p, after, rfl, hbefore, hplace, hbad⟩
      exact ⟨hplace, .entry ⟨before, p, after, rfl, hbefore, hbad⟩⟩
  | _ => exact ⟨rfl, .notList (by simp)⟩

/-! ### All lists -/

lemma groupAt_result (place : Schema.Key) (d : Document) :
    Outcome (fun g => IsPointerList d ∧ KeysOf d g.keys)
      (fun e => e.place = place ∧ BadList e.fault d) (groupAt place d) :=
  (keysAt_result place d).bind fun _ h => h

lemma groupsFrom_result (ds : List Document) :
    Outcome (fun gs => (∀ d ∈ ds, IsPointerList d) ∧
        List.Forall₂ (fun d g => KeysOf d g.keys) ds gs)
      (fun e => ∃ before d after, ds = before ++ d :: after ∧ (∀ b ∈ before, IsPointerList b) ∧
        BadList e.fault d ∧ e.place = additionalPlace.child (toString before.length))
      (groupsFrom 0 ds) := by
  have hfst : ds.zipIdx.map Prod.fst = ds := List.zipIdx_map_fst 0 ds
  rw [groupsFrom_eq_mapM]
  refine (mapM_result (fun a : Document × ℕ => groupAt_result _ a.1) ds.zipIdx).imp ?_ ?_
  · rintro gs ⟨hall, hgroups⟩
    refine ⟨?_, ?_⟩
    · rw [← hfst]
      exact List.forall_mem_map.2 hall
    · rw [← hfst, List.forall₂_map_left_iff]
      exact hgroups
  · rintro e ⟨before, a, after, hzip, hbefore, hplace, hbad⟩
    obtain ⟨front, rest, rfl, rfl, hrest⟩ := List.zipIdx_eq_append_iff.1 hzip
    obtain ⟨d, tail, rfl, rfl, -⟩ := List.zipIdx_eq_cons_iff.1 hrest.symm
    have hfront : ∀ b ∈ front, IsPointerList b := by
      rw [← List.zipIdx_map_fst 0 front]
      exact List.forall_mem_map.2 hbefore
    rw [Nat.zero_add] at hplace
    exact ⟨front, d, tail, rfl, hfront, hbad, hplace⟩

/-- Every list of identifiers that the schema declares is a list of pointers. -/
structure DeclaresPointers (d : Document) : Prop where
  primary : ∀ p, d.member? "primaryIdentifier" = some p → IsPointerList p
  additional : ∀ a, d.member? "additionalIdentifiers" = some a →
    ∃ l, a = .list l ∧ ∀ g ∈ l, IsPointerList g

/-- The place and the fault for which the identifiers of the schema are refused. -/
inductive Refused (d : Document) : String → Fault → Prop where
  | primary {p : Document} {fault : Fault} (hp : d.member? "primaryIdentifier" = some p)
      (h : BadList fault p) : Refused d "#/primaryIdentifier" fault
  | additional {a : Document}
      (hp : ∀ p, d.member? "primaryIdentifier" = some p → IsPointerList p)
      (ha : d.member? "additionalIdentifiers" = some a) (h : ∀ l, a ≠ .list l) :
      Refused d "#/additionalIdentifiers" .notGroupList
  | group {before after : List Document} {g : Document} {fault : Fault}
      (hp : ∀ p, d.member? "primaryIdentifier" = some p → IsPointerList p)
      (ha : d.member? "additionalIdentifiers" = some (.list (before ++ g :: after)))
      (hb : ∀ b ∈ before, IsPointerList b) (h : BadList fault g) :
      Refused d ("#/additionalIdentifiers/" ++ toString before.length) fault

/-- The keys of the lists that the schema declares; there are none without such a list. -/
structure KeysIn (d : Document) (all : ResourceKeys) : Prop where
  primary : ∀ p, d.member? "primaryIdentifier" = some p → KeysOf p all.primary
  additional : ∀ a, d.member? "additionalIdentifiers" = some a →
    ∃ l, a = .list l ∧ List.Forall₂ (fun g group => KeysOf g group.keys) l all.additional
  noPrimary : d.member? "primaryIdentifier" = none → all.primary = []
  noAdditional : d.member? "additionalIdentifiers" = none → all.additional = []

variable {pointer pointer' : String}

lemma Refused.not_declares (h : Refused d pointer fault) : ¬ DeclaresPointers d := by
  intro hd
  cases h with
  | primary hp h => exact h.not_list (hd.primary _ hp)
  | additional _ ha h =>
    obtain ⟨l, rfl, -⟩ := hd.additional _ ha
    exact h l rfl
  | group _ ha _ h =>
    obtain ⟨l, ⟨⟩, hall⟩ := hd.additional _ ha
    exact h.not_list (hall _ (by simp))

/-- There is one place and one fault to tell. -/
lemma Refused.unique (h : Refused d pointer fault) (h' : Refused d pointer' fault') :
    pointer = pointer' ∧ fault = fault' := by
  cases h with
  | primary hp h =>
    cases h' with
    | primary hp' h' =>
      obtain rfl := Option.some.inj (hp.symm.trans hp')
      exact ⟨rfl, h.unique h'⟩
    | additional hp' => exact absurd (hp' _ hp) h.not_list
    | group hp' => exact absurd (hp' _ hp) h.not_list
  | additional hp ha h =>
    cases h' with
    | primary hp' h' => exact absurd (hp _ hp') h'.not_list
    | additional => exact ⟨rfl, rfl⟩
    | group _ ha' => exact absurd (Option.some.inj (ha.symm.trans ha')) (h _)
  | group hp ha hb h =>
    cases h' with
    | primary hp' h' => exact absurd (hp _ hp') h'.not_list
    | additional _ ha' h' => exact absurd (Option.some.inj (ha'.symm.trans ha)) (h' _)
    | group _ ha' hb' h' =>
      have hlist := Document.list.inj (Option.some.inj (ha.symm.trans ha'))
      obtain ⟨rfl, rfl⟩ := split_unique hlist hb hb' h.not_list h'.not_list
      exact ⟨rfl, h.unique h'⟩

lemma primaryOf_result (p? : Option Document) :
    Outcome (fun ks => (∀ p, p? = some p → IsPointerList p ∧ KeysOf p ks) ∧
        (p? = none → ks = []))
      (fun e => ∃ p, p? = some p ∧ e.place = primaryPlace ∧ BadList e.fault p)
      (primaryOf p?) := by
  cases p? with
  | none => exact ⟨by simp, fun _ => rfl⟩
  | some p =>
    refine (keysAt_result primaryPlace p).imp ?_ fun e h => ⟨p, rfl, h⟩
    intro ks h
    refine ⟨?_, by simp⟩
    rintro _ ⟨⟩
    exact h

lemma additionalOf_result (a? : Option Document) :
    Outcome (fun gs => (∀ a, a? = some a → ∃ l, a = .list l ∧ (∀ g ∈ l, IsPointerList g) ∧
          List.Forall₂ (fun g group => KeysOf g group.keys) l gs) ∧
        (a? = none → gs = []))
      (fun e => (∃ a, a? = some a ∧ (∀ l, a ≠ .list l) ∧
          e = ⟨additionalPlace, .notGroupList⟩) ∨
        ∃ before g after, a? = some (.list (before ++ g :: after)) ∧
          (∀ b ∈ before, IsPointerList b) ∧ BadList e.fault g ∧
          e.place = additionalPlace.child (toString before.length))
      (additionalOf a?) := by
  cases a? with
  | none => exact ⟨by simp, fun _ => rfl⟩
  | some a =>
    cases a with
    | list l =>
      refine (groupsFrom_result l).imp ?_ ?_
      · intro gs h
        refine ⟨?_, by simp⟩
        rintro _ ⟨⟩
        exact ⟨l, rfl, h⟩
      · rintro e ⟨before, g, after, rfl, h⟩
        exact .inr ⟨before, g, after, rfl, h⟩
    | _ => exact .inl ⟨_, rfl, by simp, rfl⟩

/-- The digits of a number stand in a place as they are. -/
lemma text_additional (n : ℕ) :
    (additionalPlace.child (toString n)).text = "#/additionalIdentifiers/" ++ toString n := by
  have hplain : IsPlainName (toString n) := by
    have hword := isWord_toString n
    exact ⟨fun h => absurd (hword _ h) (by decide), fun h => absurd (hword _ h) (by decide)⟩
  have hescape : Schema.Key.escape (toString n) = (toString n).toList := by
    conv_rhs => rw [← written_eq_iff.2 hplain, written, String.toList_ofList]
  rw [← String.toList_inj, Schema.Key.toList_text, String.toList_append, ← hescape]
  simp [Schema.Key.chars, Schema.Key.child, additionalPlace, Schema.Key.escape,
    Schema.Key.escapeChar]

lemma ofDocument_result (d : Document) :
    Outcome (fun all => DeclaresPointers d ∧ KeysIn d all)
      (fun e => Refused d e.place.text e.fault) (ofDocument d) := by
  -- the additional lists are looked at only if nothing is wrong with the primary one
  refine ((primaryOf_result (d.member? "primaryIdentifier")).imp (fun _ h => h) ?_).bind ?_
  · rintro e ⟨p, hmember, hplace, hbad⟩
    rw [hplace]
    exact .primary hmember hbad
  rintro primary ⟨hprimary, hnoPrimary⟩
  have hlists : ∀ p, d.member? "primaryIdentifier" = some p → IsPointerList p :=
    fun p hp => (hprimary p hp).1
  refine ((additionalOf_result (d.member? "additionalIdentifiers")).imp (fun _ h => h) ?_).bind ?_
  · rintro e (⟨a, hmember, hlist, rfl⟩ | ⟨before, g, after, hmember, hb, hbad, hplace⟩)
    · exact .additional hlists hmember hlist
    · rw [hplace, text_additional]
      exact .group hlists hmember hb hbad
  rintro additional ⟨hadditional, hnoAdditional⟩
  refine ⟨⟨hlists, fun a ha => ?_⟩, fun p hp => (hprimary p hp).2, fun a ha => ?_, hnoPrimary,
    hnoAdditional⟩
  · obtain ⟨l, rfl, hall, -⟩ := hadditional a ha
    exact ⟨l, rfl, hall⟩
  · obtain ⟨l, rfl, -, hgroups⟩ := hadditional a ha
    exact ⟨l, rfl, hgroups⟩

/-- **A schema may declare lists of pointers to properties, and nothing else.** Its identifiers are
read if and only if every list that it declares holds such pointers only. Then there is a key for
each pointer, in the order of the lists, with a getter and a test for each name in the pointer.
Otherwise the place of the defect is the primary list if something is wrong there, else the
additional identifiers if they are no list, else the first of them that something is wrong with. -/
theorem declared_keys (d : Document) :
    ((∃ all, ofDocument d = .ok all) ↔ DeclaresPointers d) ∧
    (∀ all, ofDocument d = .ok all → KeysIn d all) ∧
    ∀ pointer fault, (∃ e, ofDocument d = .error e ∧ e.place.text = pointer ∧ e.fault = fault) ↔
      Refused d pointer fault := by
  have hresult := ofDocument_result d
  refine ⟨hresult.ok_iff (fun _ h => h.1) fun _ => Refused.not_declares, fun all h => ?_,
    fun pointer fault => ⟨?_, fun h => ?_⟩⟩
  · rw [h] at hresult
    exact hresult.2
  · rintro ⟨e, he, rfl, rfl⟩
    rwa [he] at hresult
  · cases he : ofDocument d with
    | ok all =>
      rw [he] at hresult
      exact absurd hresult.1 h.not_declares
    | error e =>
      rw [he] at hresult
      exact ⟨e, rfl, Refused.unique hresult h⟩

end ProviderGen.Java
