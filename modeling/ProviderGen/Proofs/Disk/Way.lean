import ProviderGen.Disk.Request
import ProviderGen.Proofs.Path

/-!
The way that names lead through a disk, as a relation with one rule for each thing that a name
can do. Links are followed wherever they are met, so the names in front of the last one of a path
lead along a way whether or not a link at the end is followed.
-/

namespace ProviderGen

/-- The same, but for the bytes of a file. -/
inductive Entry.Alike : Entry → Entry → Prop where
  | same (e : Entry) : Alike e e
  | file (b b' : ByteArray) : Alike (.file b) (.file b')

lemma Entry.Alike.trans {e e' e'' : Entry} (h : e.Alike e') (h' : e'.Alike e'') :
    e.Alike e'' := by
  cases h with
  | same => exact h'
  | file b b' =>
    cases h' with
    | same => exact .file b b'
    | file _ b'' => exact .file b b''

namespace Disk

open Path (isIdle names steps noSlash_of_mem_names)

/-- The name of an entry that can be asked for. -/
structure Fits (n : String) : Prop where
  counts : n ≠ "" ∧ n ≠ "."
  notUp : n ≠ ".."
  size : n.utf8ByteSize ≤ nameLimit

instance (n : String) : Decidable (Fits n) :=
  decidable_of_iff ((n ≠ "" ∧ n ≠ ".") ∧ n ≠ ".." ∧ n.utf8ByteSize ≤ nameLimit)
    ⟨fun h => ⟨h.1, h.2.1, h.2.2⟩, fun h => ⟨h.counts, h.notUp, h.size⟩⟩

inductive Way (d : Disk) : Nat → Place → List String → Nat → Place → Prop where
  | done {links p} : Way d links p [] links p
  | idle {links p n rest links' q} (hp : d.hasDirectory p = true) (hn : n = "" ∨ n = ".")
      (hw : Way d links p rest links' q) : Way d links p (n :: rest) links' q
  | up {links p rest links' q} (hp : d.hasDirectory p = true)
      (hw : Way d links p.dropLast rest links' q) : Way d links p (".." :: rest) links' q
  | enter {links p n rest links' q e} (hp : d.hasDirectory p = true) (hn : Fits n)
      (he : d.at? (p ++ [n]) = some e) (hl : ∀ t, e ≠ .link t)
      (hw : Way d links (p ++ [n]) rest links' q) : Way d links p (n :: rest) links' q
  | link {links p n rest links' q t} (hp : d.hasDirectory p = true) (hn : Fits n)
      (he : d.at? (p ++ [n]) = some (.link t))
      (hw : Way d links (if t.isAbsolute then [] else p) (t.names ++ rest) links' q) :
      Way d (links + 1) p (n :: rest) links' q

variable {d d' : Disk} {links links' links'' : Nat} {p q r : Place} {a b rest todo : List String}
  {last : Bool} {n : String} {s : Spot}

/-! ### One step -/

lemma follow_nil : d.follow last links p [] = .ok (.taken p) := by
  rw [follow]

lemma follow_of_not_directory (hp : d.hasDirectory p = false) :
    d.follow last links p (n :: rest) = .error .notDirectory := by
  rw [follow]
  simp [hp]

lemma follow_idle (hp : d.hasDirectory p = true) (hn : n = "" ∨ n = ".") :
    d.follow last links p (n :: rest) = d.follow last links p rest := by
  rw [follow]
  simp [hp, hn]

lemma follow_up (hp : d.hasDirectory p = true) :
    d.follow last links p (".." :: rest) = d.follow last links p.dropLast rest := by
  rw [follow]
  simp [hp]

/-- There is nothing of that name. -/
lemma follow_absent (hp : d.hasDirectory p = true) (hn : Fits n) (he : d.at? (p ++ [n]) = none) :
    d.follow last links p (n :: rest) =
      if rest.all (· == "") then .ok (.free (p ++ [n]) (!rest.isEmpty)) else .error .notFound := by
  rw [follow]
  simp [hp, hn.counts, hn.notUp, not_lt.2 hn.size, he]

lemma follow_entry (hp : d.hasDirectory p = true) (hn : Fits n) {e : Entry}
    (he : d.at? (p ++ [n]) = some e) (hl : ∀ t, e ≠ .link t) :
    d.follow last links p (n :: rest) = d.follow last links (p ++ [n]) rest := by
  rw [follow]
  cases e with
  | link t => exact absurd rfl (hl t)
  | _ => simp [hp, hn.counts, hn.notUp, not_lt.2 hn.size, he]

lemma follow_link (hp : d.hasDirectory p = true) (hn : Fits n) {t : Path}
    (he : d.at? (p ++ [n]) = some (.link t)) (hr : last = true ∨ rest ≠ []) :
    d.follow last (links + 1) p (n :: rest) =
      d.follow last links (if t.isAbsolute then [] else p) (t.names ++ rest) := by
  have hgo : (rest.isEmpty && !last) = false := by
    rcases hr with rfl | hr
    · simp
    · simp [hr]
  rw [follow]
  simp [hp, hn.counts, hn.notUp, not_lt.2 hn.size, he, hgo, names]

/-- A link at the end is not followed unless that is asked for. -/
lemma follow_last_link (hp : d.hasDirectory p = true) (hn : Fits n) {t : Path}
    (he : d.at? (p ++ [n]) = some (.link t)) :
    d.follow false links p [n] = .ok (.taken (p ++ [n])) := by
  rw [follow]
  simp [hp, hn.counts, hn.notUp, not_lt.2 hn.size, he]

lemma follow_long (hp : d.hasDirectory p = true) (hc : n ≠ "" ∧ n ≠ ".") (hu : n ≠ "..")
    (hn : nameLimit < n.utf8ByteSize) :
    d.follow last links p (n :: rest) = .error .nameTooLong := by
  rw [follow]
  simp [hp, hc, hu, hn]

lemma follow_tired (hp : d.hasDirectory p = true) (hn : Fits n) {t : Path}
    (he : d.at? (p ++ [n]) = some (.link t)) (hr : last = true ∨ rest ≠ []) :
    d.follow last 0 p (n :: rest) = .error .tooManyLinks := by
  have hgo : (rest.isEmpty && !last) = false := by
    rcases hr with rfl | hr
    · simp
    · simp [hr]
  rw [follow]
  simp [hp, hn.counts, hn.notUp, not_lt.2 hn.size, he, hgo]

lemma counts_iff : isIdle n.toList = false ↔ n ≠ "" ∧ n ≠ "." := by
  have hdot : n.toList = ['.'] ↔ n = "." := by
    rw [← String.toList_inj]
    rfl
  simp [isIdle, hdot]

/-- Only the names that count lead anywhere, if the last one does. -/
lemma follow_steps (hn : isIdle n.toList = false) :
    d.follow last links p (a ++ [n]) =
      d.follow last links p ((a.filter fun m => !isIdle m.toList) ++ [n]) := by
  -- a link starts over with the names of its target, and one link less to follow
  induction links using Nat.strong_induction_on generalizing p a with
  | _ links ihl =>
    induction a generalizing p with
    | nil => rfl
    | cons m a ih =>
      have hkept : isIdle m.toList = false →
          ((m :: a).filter fun m => !isIdle m.toList) =
            m :: a.filter fun m => !isIdle m.toList := fun hm => by simp [hm]
      have hall (b : List String) : (b ++ [n]).all (· == "") = false := by
        simp [(counts_iff.1 hn).1]
      have hne (b : List String) : last = true ∨ b ++ [n] ≠ [] := Or.inr (by simp)
      by_cases hp : d.hasDirectory p = true
      · by_cases hm : isIdle m.toList = true
        · have hidle : m = "" ∨ m = "." := by
            by_contra h
            rw [counts_iff.2 (not_or.1 h)] at hm
            cases hm
          rw [List.filter_cons_of_neg (by simp [hm]), List.cons_append, follow_idle hp hidle, ih]
        · rw [Bool.not_eq_true] at hm
          have hc := counts_iff.1 hm
          rw [hkept hm, List.cons_append, List.cons_append]
          by_cases hu : m = ".."
          · rw [hu, follow_up hp, follow_up hp, ih]
          · by_cases hsize : nameLimit < m.utf8ByteSize
            · rw [follow_long hp hc hu hsize, follow_long hp hc hu hsize]
            · have hfits : Fits m := ⟨hc, hu, not_lt.1 hsize⟩
              cases he : d.at? (p ++ [m]) with
              | none =>
                rw [follow_absent hp hfits he, follow_absent hp hfits he, hall, hall]
                rfl
              | some e =>
                cases e with
                | link t =>
                  cases links with
                  | zero => rw [follow_tired hp hfits he (hne _), follow_tired hp hfits he (hne _)]
                  | succ links =>
                    rw [follow_link hp hfits he (hne _), follow_link hp hfits he (hne _),
                      ← List.append_assoc, ihl links (Nat.lt_succ_self _), ← List.append_assoc,
                      ihl links (Nat.lt_succ_self _) (a := t.names ++ _)]
                    simp
                | _ =>
                  rw [follow_entry hp hfits he (by simp), follow_entry hp hfits he (by simp), ih]
      · rw [Bool.not_eq_true] at hp
        rw [List.cons_append, follow_of_not_directory hp]
        cases hb : (List.filter (fun m => !isIdle m.toList) (m :: a)) ++ [n] with
        | nil => simp at hb
        | cons => rw [follow_of_not_directory hp]

/-- Names that do not count lead nowhere. -/
lemma follow_of_idle (hp : d.hasDirectory p = true) (h : ∀ n ∈ todo, isIdle n.toList = true) :
    d.follow last links p todo = .ok (.taken p) := by
  induction todo with
  | nil => exact follow_nil
  | cons n rest ih =>
    rw [List.forall_mem_cons] at h
    have hn : n = "" ∨ n = "." := by
      by_contra hn
      have hcounts := counts_iff.2 (not_or.1 hn)
      rw [h.1] at hcounts
      cases hcounts
    rw [follow_idle hp hn]
    exact ih h.2

lemma follow_idle_all (h : ∀ n ∈ todo, isIdle n.toList = true) :
    d.follow last links p todo = .ok (.taken p) ∨
      d.follow last links p todo = .error .notDirectory := by
  by_cases hp : d.hasDirectory p = true
  · exact Or.inl (follow_of_idle hp h)
  · cases todo with
    | nil => exact Or.inl follow_nil
    | cons n rest => exact Or.inr (follow_of_not_directory (by simpa using hp))

/-! ### Ways -/

lemma Way.append (h : Way d links p a links' q) (h' : Way d links' q b links'' r) :
    Way d links p (a ++ b) links'' r := by
  induction h with
  | done => exact h'
  | idle hp hn _ ih => exact .idle hp hn (ih h')
  | up hp _ ih => exact .up hp (ih h')
  | enter hp hn he hl _ ih => exact .enter hp hn he hl (ih h')
  | link hp hn he _ ih =>
    have := ih h'
    rw [List.append_assoc] at this
    exact .link hp hn he this

lemma Way.split (h : Way d links p (a ++ b) links'' r) :
    ∃ links' q, Way d links p a links' q ∧ Way d links' q b links'' r := by
  generalize htodo : a ++ b = todo at h
  induction h generalizing a with
  | done =>
    obtain ⟨rfl, rfl⟩ := List.append_eq_nil_iff.1 htodo
    exact ⟨_, _, .done, .done⟩
  | idle hp hn hw ih =>
    rcases List.append_eq_cons_iff.1 htodo with ⟨rfl, rfl⟩ | ⟨a', rfl, ha⟩
    · exact ⟨_, _, .done, .idle hp hn hw⟩
    · obtain ⟨l, q, hq, hr⟩ := ih ha.symm
      exact ⟨l, q, .idle hp hn hq, hr⟩
  | up hp hw ih =>
    rcases List.append_eq_cons_iff.1 htodo with ⟨rfl, rfl⟩ | ⟨a', rfl, ha⟩
    · exact ⟨_, _, .done, .up hp hw⟩
    · obtain ⟨l, q, hq, hr⟩ := ih ha.symm
      exact ⟨l, q, .up hp hq, hr⟩
  | enter hp hn he hl hw ih =>
    rcases List.append_eq_cons_iff.1 htodo with ⟨rfl, rfl⟩ | ⟨a', rfl, ha⟩
    · exact ⟨_, _, .done, .enter hp hn he hl hw⟩
    · obtain ⟨l, q, hq, hr⟩ := ih ha.symm
      exact ⟨l, q, .enter hp hn he hl hq, hr⟩
  | @link links p n rest' links' q t hp hn he hw ih =>
    rcases List.append_eq_cons_iff.1 htodo with ⟨rfl, rfl⟩ | ⟨a', rfl, rfl⟩
    · exact ⟨_, _, .done, .link hp hn he hw⟩
    · obtain ⟨l, q, hq, hr⟩ := ih (a := t.names ++ a') (List.append_assoc ..)
      exact ⟨l, q, .link hp hn he hq, hr⟩

/-! ### Disks that keep what others hold -/

/-- Nothing is lost from the first disk to the second, and only files may be others. -/
structure Keeps (d d' : Disk) : Prop where
  here : d'.here = d.here
  at? : ∀ {q e}, d.at? q = some e → ∃ e', d'.at? q = some e' ∧ e.Alike e'

lemma Keeps.refl (d : Disk) : Keeps d d := ⟨rfl, fun {_ e} he => ⟨e, he, .same e⟩⟩

lemma Keeps.trans {d'' : Disk} (h : Keeps d d') (h' : Keeps d' d'') : Keeps d d'' := by
  refine ⟨h'.here.trans h.here, fun he => ?_⟩
  obtain ⟨e', he', ha⟩ := h.at? he
  obtain ⟨e'', he'', ha'⟩ := h'.at? he'
  exact ⟨e'', he'', ha.trans ha'⟩

lemma hasDirectory_iff : d.hasDirectory p = true ↔ d.at? p = some .directory := by
  unfold hasDirectory
  cases d.at? p with
  | none => simp
  | some e => cases e <;> simp [Entry.isDirectory]

lemma hasDirectory_of_file {bytes : ByteArray} (h : d.at? p = some (.file bytes)) :
    d.hasDirectory p = false := by
  rw [hasDirectory, h]
  rfl

lemma Keeps.hasDirectory (h : Keeps d d') (hp : d.hasDirectory p = true) :
    d'.hasDirectory p = true := by
  rw [hasDirectory_iff] at hp ⊢
  obtain ⟨e, he, ha⟩ := h.at? hp
  cases ha
  exact he

lemma Keeps.stays {e : Entry} (h : Keeps d d') (he : d.at? q = some e) (hl : ∀ t, e ≠ .link t) :
    ∃ e', d'.at? q = some e' ∧ ∀ t, e' ≠ .link t := by
  obtain ⟨e', he', ha⟩ := h.at? he
  refine ⟨e', he', ?_⟩
  cases ha with
  | same => exact hl
  | file => simp

lemma Keeps.link {t : Path} (h : Keeps d d') (he : d.at? q = some (.link t)) :
    d'.at? q = some (.link t) := by
  obtain ⟨e', he', ha⟩ := h.at? he
  cases ha
  exact he'

lemma Keeps.startOf (h : Keeps d d') (f : Path) : d'.startOf f = d.startOf f := by
  unfold Disk.startOf
  rw [h.here]

/-- What is put at a free place, or in a file's stead, is no loss. -/
lemma keeps_set {e : Entry} (h : ∀ f, d.at? p = some f → f.Alike e) (hp : p ≠ []) :
    Keeps d (d.set p e) := by
  refine ⟨rfl, fun {q f} hq => ?_⟩
  rw [at?_set e q hp]
  split
  · rename_i he
    exact ⟨e, rfl, h f (he ▸ hq)⟩
  · exact ⟨f, hq, .same f⟩

lemma Way.keeps (hk : Keeps d d') (h : Way d links p a links' q) : Way d' links p a links' q := by
  induction h with
  | done => exact .done
  | idle hp hn _ ih => exact .idle (hk.hasDirectory hp) hn ih
  | up hp _ ih => exact .up (hk.hasDirectory hp) ih
  | enter hp hn he hl _ ih =>
    obtain ⟨e', he', hl'⟩ := hk.stays he hl
    exact .enter (hk.hasDirectory hp) hn he' hl' ih
  | link hp hn he _ ih => exact .link (hk.hasDirectory hp) hn (hk.link he) ih

/-! ### Ways and following -/

/-- Behind a way, the rest is followed from where it leads. -/
lemma Way.follow_append (h : Way d links p a links' q) (hr : last = true ∨ rest ≠ []) :
    d.follow last links p (a ++ rest) = d.follow last links' q rest := by
  induction h with
  | done => rfl
  | idle hp hn _ ih => rw [List.cons_append, follow_idle hp hn, ih]
  | up hp _ ih => rw [List.cons_append, follow_up hp, ih]
  | enter hp hn he hl _ ih => rw [List.cons_append, follow_entry hp hn he hl, ih]
  | @link links p n rest' links' q t hp hn he _ ih =>
    have hr' : last = true ∨ rest' ++ rest ≠ [] := hr.imp_right fun h => by simp [h]
    rw [List.cons_append, follow_link hp hn he hr', ← List.append_assoc, ih]

lemma Way.follow (h : Way d links p todo links' q) :
    d.follow true links p todo = .ok (.taken q) := by
  have hend : d.follow true links p (todo ++ []) = d.follow true links' q [] :=
    h.follow_append (Or.inl rfl)
  rwa [List.append_nil, follow_nil] at hend

/-- Where there is something to follow behind them, the names in front lead along a way. -/
lemma exists_way_of_follow (h : d.follow last links p (a ++ rest) = .ok s)
    (hr : ∃ n ∈ rest, n ≠ "") : ∃ links' q, Way d links p a links' q := by
  generalize htodo : a ++ rest = todo at h
  fun_induction follow d last links p todo generalizing a with
  | case1 =>
    rw [(List.append_eq_nil_iff.1 htodo).1]
    exact ⟨_, _, .done⟩
  | case3 links p name todo' hp hn ih =>
    rcases List.append_eq_cons_iff.1 htodo with ⟨rfl, -⟩ | ⟨a', rfl, ha⟩
    · exact ⟨_, _, .done⟩
    · obtain ⟨l, q, hw⟩ := ih ha.symm h
      exact ⟨l, q, .idle (by simpa using hp) hn hw⟩
  | case4 links p todo' hp hn ih =>
    rcases List.append_eq_cons_iff.1 htodo with ⟨rfl, -⟩ | ⟨a', rfl, ha⟩
    · exact ⟨_, _, .done⟩
    · obtain ⟨l, q, hw⟩ := ih ha.symm h
      exact ⟨l, q, .up (by simpa using hp) hw⟩
  | case6 links p name todo' hp hn hu hsize he hall =>
    rcases List.append_eq_cons_iff.1 htodo with ⟨rfl, -⟩ | ⟨a', rfl, ha⟩
    · exact ⟨_, _, .done⟩
    · obtain ⟨n, hn, hne⟩ := hr
      rw [ha, List.all_eq_true] at hall
      exact absurd (beq_iff_eq.1 (hall n (List.mem_append_right _ hn))) hne
  | case8 links p name todo' hp hn hu hsize t he hend =>
    rcases List.append_eq_cons_iff.1 htodo with ⟨rfl, -⟩ | ⟨a', rfl, ha⟩
    · exact ⟨_, _, .done⟩
    · obtain ⟨n, hn, -⟩ := hr
      have hend : todo' = [] := by
        rw [Bool.and_eq_true, List.isEmpty_iff] at hend
        exact hend.1
      rw [ha] at hend
      simp_all
  | case10 p name todo' hp hn hu hsize t he hgo n ih =>
    rcases List.append_eq_cons_iff.1 htodo with ⟨rfl, -⟩ | ⟨a', rfl, ha⟩
    · exact ⟨_, _, .done⟩
    · obtain ⟨l, q, hw⟩ := ih (a := t.names ++ a') (by rw [ha, List.append_assoc]; rfl) h
      exact ⟨l, q, .link (by simpa using hp) ⟨not_or.1 hn, hu, not_lt.1 hsize⟩ he hw⟩
  | case11 links p name todo' hp hn hu hsize e hl he ih =>
    rcases List.append_eq_cons_iff.1 htodo with ⟨rfl, -⟩ | ⟨a', rfl, ha⟩
    · exact ⟨_, _, .done⟩
    · obtain ⟨l, q, hw⟩ := ih ha.symm h
      exact ⟨l, q, .enter (by simpa using hp) ⟨not_or.1 hn, hu, not_lt.1 hsize⟩ he
        (fun t ht => hl t ht) hw⟩
  | _ => cases h

/-- What following leads to. -/
def Spot.Found (d : Disk) (last : Bool) (links : Nat) (p : Place) (todo : List String) :
    Spot → Prop
  | .taken q => (∃ links', Way d links p todo links' q) ∨
      (last = false ∧ ∃ t, d.at? q = some (.link t))
  | .free q _ => ∃ r n, q = r ++ [n] ∧ d.hasDirectory r = true ∧ Fits n ∧ '/' ∉ n.toList ∧
      d.at? q = none

lemma follow_found (hs : ∀ n ∈ todo, '/' ∉ n.toList)
    (h : d.follow last links p todo = .ok s) : s.Found d last links p todo := by
  fun_induction follow d last links p todo with
  | case1 links p =>
    obtain rfl := Except.ok.inj h
    exact Or.inl ⟨_, .done⟩
  | case3 links p name rest hp hn ih =>
    have hp : d.hasDirectory p = true := by simpa using hp
    have := ih (fun m hm => hs m (List.mem_cons_of_mem _ hm)) h
    cases s with
    | taken q => exact this.imp_left fun ⟨l, hw⟩ => ⟨l, .idle hp hn hw⟩
    | free q b => exact this
  | case4 links p rest hp hn ih =>
    have hp : d.hasDirectory p = true := by simpa using hp
    have := ih (fun m hm => hs m (List.mem_cons_of_mem _ hm)) h
    cases s with
    | taken q => exact this.imp_left fun ⟨l, hw⟩ => ⟨l, .up hp hw⟩
    | free q b => exact this
  | case6 links p name rest hp hn hu hsize he hall =>
    have hp : d.hasDirectory p = true := by simpa using hp
    obtain rfl := Except.ok.inj h
    exact ⟨p, name, rfl, hp, ⟨not_or.1 hn, hu, not_lt.1 hsize⟩, hs _ List.mem_cons_self, he⟩
  | case8 links p name rest hp hn hu hsize t he hend =>
    obtain rfl := Except.ok.inj h
    have hlast : rest.isEmpty = true ∧ last = false := by simpa using hend
    exact Or.inr ⟨hlast.2, t, he⟩
  | case10 p name rest hp hn hu hsize t he hgo n ih =>
    have hp : d.hasDirectory p = true := by simpa using hp
    have hfits : Fits name := ⟨not_or.1 hn, hu, not_lt.1 hsize⟩
    have := ih (fun m hm => (List.mem_append.1 hm).elim noSlash_of_mem_names fun hm =>
      hs m (List.mem_cons_of_mem _ hm)) h
    cases s with
    | taken q => exact this.imp_left fun ⟨l, hw⟩ => ⟨l, .link hp hfits he hw⟩
    | free q b => exact this
  | case11 links p name rest hp hn hu hsize e hl he ih =>
    have hp : d.hasDirectory p = true := by simpa using hp
    have hfits : Fits name := ⟨not_or.1 hn, hu, not_lt.1 hsize⟩
    have := ih (fun m hm => hs m (List.mem_cons_of_mem _ hm)) h
    cases s with
    | taken q => exact this.imp_left fun ⟨l, hw⟩ => ⟨l, .enter hp hfits he (fun t ht => hl t ht) hw⟩
    | free q b => exact this
  | _ => cases h

lemma follow_taken_iff (hs : ∀ n ∈ todo, '/' ∉ n.toList) :
    d.follow true links p todo = .ok (.taken q) ↔ ∃ links', Way d links p todo links' q := by
  refine ⟨fun h => ?_, fun ⟨_, h⟩ => h.follow⟩
  exact (follow_found hs h).resolve_right fun h => Bool.noConfusion h.1

/-- A single name leads to what is there, even if that is a link. -/
lemma Way.follow_single (hn : isIdle n.toList = false) (h : Way d links p [n] links' q) :
    ∃ r, d.follow false links p [n] = .ok (.taken r) := by
  have hc := counts_iff.1 hn
  cases h with
  | idle hp hm _ =>
    rcases hm with rfl | rfl
    · exact absurd rfl hc.1
    · exact absurd rfl hc.2
  | up hp _ => exact ⟨_, by rw [follow_up hp, follow_nil]⟩
  | enter hp hf he hl _ => exact ⟨_, by rw [follow_entry hp hf he hl, follow_nil]⟩
  | link hp hf he _ => exact ⟨_, follow_last_link hp hf he⟩

lemma follow_single_free (hn : isIdle n.toList = false) {b : Bool}
    (h : d.follow false links p [n] = .ok (.free q b)) :
    d.hasDirectory p = true ∧ Fits n ∧ d.at? (p ++ [n]) = none ∧ q = p ++ [n] := by
  have hc := counts_iff.1 hn
  by_cases hp : d.hasDirectory p = true
  · by_cases hu : n = ".."
    · rw [hu, follow_up hp, follow_nil] at h
      cases h
    · by_cases hsize : nameLimit < n.utf8ByteSize
      · rw [follow_long hp hc hu hsize] at h
        cases h
      · have hf : Fits n := ⟨hc, hu, not_lt.1 hsize⟩
        cases he : d.at? (p ++ [n]) with
        | none =>
          rw [follow_absent hp hf he] at h
          exact ⟨hp, hf, rfl, ((Spot.free.inj (Except.ok.inj h)).1).symm⟩
        | some e =>
          cases e with
          | link t =>
            rw [follow_last_link hp hf he] at h
            cases h
          | _ =>
            rw [follow_entry hp hf he (by simp), follow_nil] at h
            cases h
  · rw [follow_of_not_directory (by simpa using hp)] at h
    cases h

/-- A single name leads to the entry of that name. -/
lemma follow_single_of_at? {e : Entry} (hp : d.hasDirectory p = true) (hn : Fits n)
    (he : d.at? (p ++ [n]) = some e) :
    d.follow false links p [n] = .ok (.taken (p ++ [n])) := by
  cases e with
  | link t => exact follow_last_link hp hn he
  | _ => rw [follow_entry hp hn he (by simp), follow_nil]

lemma follow_single_taken (hn : Fits n) (h : d.follow false links p [n] = .ok (.taken q)) :
    q = p ++ [n] := by
  by_cases hp : d.hasDirectory p = true
  · cases he : d.at? (p ++ [n]) with
    | none =>
      rw [follow_absent hp hn he] at h
      cases h
    | some e =>
      rw [follow_single_of_at? hp hn he] at h
      cases h
      rfl
  · rw [follow_of_not_directory (by simpa using hp)] at h
    cases h

lemma free_absent (hs : ∀ n ∈ todo, '/' ∉ n.toList) {b : Bool}
    (h : d.follow last links p todo = .ok (.free q b)) : d.at? q = none := by
  obtain ⟨r, n, -, -, -, -, he⟩ := follow_found hs h
  exact he

/-- Once there is something at a free place, the names lead to it. -/
lemma exists_way_of_free (hs : ∀ n ∈ todo, '/' ∉ n.toList)
    (h : d.follow last links p todo = .ok (.free q false)) {e : Entry} (hl : ∀ t, e ≠ .link t) :
    ∃ links', Way (d.set q e) links p todo links' q := by
  have hq := free_absent hs h
  have hne : q ≠ [] := by
    rintro rfl
    cases hq
  have hk : Keeps d (d.set q e) := keeps_set (fun g hg => by rw [hq] at hg; cases hg) hne
  clear hs
  fun_induction follow d last links p todo with
  | case3 links p name rest hp hn ih =>
    obtain ⟨l, hw⟩ := ih h
    exact ⟨l, .idle (hk.hasDirectory (by simpa using hp)) hn hw⟩
  | case4 links p rest hp hn ih =>
    obtain ⟨l, hw⟩ := ih h
    exact ⟨l, .up (hk.hasDirectory (by simpa using hp)) hw⟩
  | case6 links p name rest hp hn hu hsize he hall =>
    rw [Except.ok.injEq, Spot.free.injEq] at h
    obtain ⟨rfl, hempty⟩ := h
    obtain rfl : rest = [] := by simpa using hempty
    have hat : (d.set (p ++ [name]) e).at? (p ++ [name]) = some e := by
      rw [at?_set e _ (by simp), if_pos rfl]
    exact ⟨links, .enter (hk.hasDirectory (by simpa using hp)) ⟨not_or.1 hn, hu, not_lt.1 hsize⟩
      hat hl .done⟩
  | case8 => cases h
  | case10 p name rest hp hn hu hsize t he hgo n ih =>
    obtain ⟨l, hw⟩ := ih h
    exact ⟨l, .link (hk.hasDirectory (by simpa using hp)) ⟨not_or.1 hn, hu, not_lt.1 hsize⟩
      (hk.link he) hw⟩
  | case11 links p name rest hp hn hu hsize g hg he ih =>
    obtain ⟨l, hw⟩ := ih h
    obtain ⟨e', he', hl'⟩ := hk.stays he (fun t ht => hg t ht)
    exact ⟨l, .enter (hk.hasDirectory (by simpa using hp)) ⟨not_or.1 hn, hu, not_lt.1 hsize⟩
      he' hl' hw⟩
  | _ => cases h

/-! ### Paths -/

/-- Where a path leads, with links followed. -/
def Leads (d : Disk) (p : Path) (q : Place) : Prop :=
  ∃ links, Way d linkLimit (d.startOf p) p.steps links q

variable {f : Path}

lemma find_eq (h : f.Valid) :
    d.find last f = d.follow last linkLimit (d.startOf f) f.names := by
  unfold find
  rw [if_neg (by simpa using h.noNul), if_neg h.nonempty, if_neg (not_lt.2 h.size)]
  rfl

lemma valid_of_find (h : d.find last f = .ok s) : f.Valid := by
  unfold find at h
  split at h
  · cases h
  · split at h
    · cases h
    · split at h
      · cases h
      · rename_i hnul hempty hsize
        exact ⟨by simpa using hnul, hempty, not_lt.1 hsize⟩

/-- What is no valid path is refused, whatever there is. -/
lemma find_invalid (hv : ¬ f.Valid) (hne : f.text ≠ "") :
    ∃ r, r ≠ .notFound ∧ ∀ (d : Disk) (last : Bool), d.find last f = .error r := by
  unfold find
  by_cases hnul : f.text.toList.contains '\x00' = true
  · exact ⟨.nulInName, by simp, fun _ _ => by rw [if_pos hnul]⟩
  · have hsize : pathLimit < f.text.utf8ByteSize := by
      by_contra hsize
      exact hv ⟨by simpa using hnul, hne, not_lt.1 hsize⟩
    exact ⟨.nameTooLong, by simp, fun _ _ => by rw [if_neg hnul, if_neg hne, if_pos hsize]⟩

lemma find_steps (hv : f.Valid) (he : f.EndsInStep) :
    d.find last f = d.follow last linkLimit (d.startOf f) f.steps := by
  obtain ⟨before, l, hb, hl⟩ := he
  have hn : f.names = before.map String.ofList ++ [String.ofList l] := by
    rw [names, hb, List.map_append, List.map_singleton]
  rw [find_eq hv, steps, hn, follow_steps (by simpa using hl), List.filter_append]
  congr 2
  simp [hl]

lemma find_of_locate (h : d.locate last f = .ok q) : d.find last f = .ok (.taken q) := by
  unfold locate at h
  cases hf : d.find last f with
  | error e =>
    rw [hf] at h
    cases h
  | ok s =>
    rw [hf] at h
    cases s with
    | taken r => rw [Except.ok.inj h]
    | free r b => cases h

lemma locate_iff (hv : f.Valid) (he : f.EndsInStep) : d.locate true f = .ok q ↔ d.Leads f q := by
  have hs : ∀ n ∈ f.steps, '/' ∉ n.toList := fun n hn =>
    noSlash_of_mem_names (List.mem_of_mem_filter hn)
  unfold locate
  rw [find_steps hv he]
  refine ⟨fun h => ?_, fun h => ?_⟩
  · cases hf : d.follow true linkLimit (d.startOf f) f.steps with
    | error e => simp [hf] at h
    | ok s =>
      cases s with
      | free r b => simp [hf] at h
      | taken r =>
        obtain rfl : r = q := by simpa [hf] using h
        exact (follow_taken_iff hs).1 hf
  · obtain ⟨links, hw⟩ := h
    rw [hw.follow]

/-- A way through a path that leads somewhere goes on from there. -/
lemma Way.behind (hw : Way d linkLimit (d.startOf f) (f.steps ++ rest) links r)
    (hv : f.Valid) (he : f.EndsInStep) (hq : d.locate true f = .ok q) :
    ∃ links', Way d links' q rest links r := by
  obtain ⟨_, hfront⟩ := (locate_iff hv he).1 hq
  obtain ⟨links', x, hx, hrest⟩ := hw.split
  have hsame := hx.follow.symm.trans hfront.follow
  obtain rfl : x = q := Spot.taken.inj (Except.ok.inj hsame)
  exact ⟨links', hrest⟩

lemma isDirectory_iff : d.isDirectory f = true ↔
    ∃ q, d.locate true f = .ok q ∧ d.hasDirectory q = true := by
  unfold isDirectory entry? hasDirectory
  cases d.locate true f with
  | error e => simp
  | ok q => simp

end Disk

end ProviderGen
