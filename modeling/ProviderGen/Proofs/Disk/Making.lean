import ProviderGen.Proofs.Disk.Sound

/-!
Making directories. Along the steps of a path every directory that is missing is made, and
whatever is there is passed through. Making the directories of a path succeeds exactly if that
ends in a directory, and then it has done just that.
-/

namespace ProviderGen.Disk

open Files (makeFrom makeDirectories orThere)
open Path (IsName IsParent isIdle)

/-- From one disk and place to another, by names that lead on or to directories yet to make. -/
inductive Makes : Disk → Nat → Place → List String → Disk → Nat → Place → Prop where
  | done {d links p} : Makes d links p [] d links p
  | pass {d links p n rest d' links₁ links' q r} (hw : Way d links p [n] links₁ q)
      (hm : Makes d links₁ q rest d' links' r) : Makes d links p (n :: rest) d' links' r
  | make {d links p n rest d' links' r} (hp : d.hasDirectory p = true) (hn : IsName n)
      (hf : Fits n) (he : d.at? (p ++ [n]) = none)
      (hm : Makes (d.set (p ++ [n]) .directory) links (p ++ [n]) rest d' links' r) :
      Makes d links p (n :: rest) d' links' r

variable {d d' d'' d₁ : Disk} {links links' links'' links₁ : Nat} {p q r : Place}
  {a b todo : List String} {n : String}

lemma Makes.append (h : Makes d links p a d' links' q) (h' : Makes d' links' q b d'' links'' r) :
    Makes d links p (a ++ b) d'' links'' r := by
  induction h with
  | done => exact h'
  | pass hw _ ih => exact .pass hw (ih h')
  | make hp hn hf he _ ih => exact .make hp hn hf he (ih h')

lemma Makes.split (h : Makes d links p (a ++ b) d'' links'' r) :
    ∃ d' links' q, Makes d links p a d' links' q ∧ Makes d' links' q b d'' links'' r := by
  generalize htodo : a ++ b = todo at h
  induction h generalizing a with
  | done =>
    obtain ⟨rfl, rfl⟩ := List.append_eq_nil_iff.1 htodo
    exact ⟨_, _, _, .done, .done⟩
  | pass hw hm ih =>
    rcases List.append_eq_cons_iff.1 htodo with ⟨rfl, rfl⟩ | ⟨a', rfl, ha⟩
    · exact ⟨_, _, _, .done, .pass hw hm⟩
    · obtain ⟨d', l, q, hq, hr⟩ := ih ha.symm
      exact ⟨d', l, q, .pass hw hq, hr⟩
  | make hp hn hf he hm ih =>
    rcases List.append_eq_cons_iff.1 htodo with ⟨rfl, rfl⟩ | ⟨a', rfl, ha⟩
    · exact ⟨_, _, _, .done, .make hp hn hf he hm⟩
    · obtain ⟨d', l, q, hq, hr⟩ := ih ha.symm
      exact ⟨d', l, q, .make hp hn hf he hq, hr⟩

lemma Way.makes (h : Way d links p a links' q) : Makes d links p a d links' q := by
  induction a generalizing links p with
  | nil =>
    cases h
    exact .done
  | cons n a ih =>
    obtain ⟨l, r, hn, hr⟩ := Way.split (a := [n]) h
    exact .pass hn (ih hr)

lemma puts_directory (hp : d.hasDirectory p = true) (hn : IsName n)
    (he : d.at? (p ++ [n]) = none) : Puts d .directory p n := ⟨hp, hn, Or.inl he⟩

lemma Makes.keeps (h : Makes d links p a d' links' q) : Keeps d d' := by
  induction h with
  | done => exact .refl _
  | pass _ _ ih => exact ih
  | make hp hn _ he _ ih => exact (puts_directory hp hn he).keeps.trans ih

lemma Makes.sound (hd : d.Sound) (h : Makes d links p a d' links' q) : d'.Sound := by
  induction h with
  | done => exact hd
  | pass _ _ ih => exact ih hd
  | make hp hn _ he _ ih => exact ih ((puts_directory hp hn he).sound hd)

/-- Afterwards the names lead along a way. -/
lemma Makes.way (h : Makes d links p a d' links' q) : Way d' links p a links' q := by
  induction h with
  | done => exact .done
  | pass hw hm ih => exact (hw.keeps hm.keeps).append ih
  | @make d links p n rest d' links' r hp hn hf he hm ih =>
    have hk := (puts_directory hp hn he).keeps.trans hm.keeps
    have hnew : (d.set (p ++ [n]) .directory).at? (p ++ [n]) = some .directory := by
      rw [at?_set _ _ (by simp), if_pos rfl]
    obtain ⟨e, he', hl⟩ := hm.keeps.stays hnew (by simp)
    exact .enter (hk.hasDirectory hp) hf he' hl ih

/-- What differs was not there, is a directory now, and was on the way. -/
lemma Makes.at? (h : Makes d links p a d' links' q) (r : Place) :
    d'.at? r = d.at? r ∨ (d.at? r = none ∧ d'.at? r = some .directory ∧
      ∃ b links₁, b <+: a ∧ b ≠ [] ∧ Way d' links p b links₁ r) := by
  induction h with
  | done => exact Or.inl rfl
  | @pass d links p n rest d' links₁ links' q r' hw hm ih =>
    refine ih.imp_right fun ⟨hr, hr', b, l, hb, hne, hway⟩ => ⟨hr, hr', n :: b, l, ?_, ?_, ?_⟩
    · exact List.cons_prefix_cons.2 ⟨rfl, hb⟩
    · simp
    · exact (hw.keeps hm.keeps).append hway
  | @make d links p n rest d' links' r' hp hn hf he hm ih =>
    have hk := (puts_directory hp hn he).keeps.trans hm.keeps
    have hset : (d.set (p ++ [n]) .directory).at? r =
        if r = p ++ [n] then some .directory else d.at? r := at?_set _ _ (by simp)
    have hnew : d'.at? (p ++ [n]) = some .directory := by
      rw [← hasDirectory_iff]
      refine hm.keeps.hasDirectory ?_
      rw [hasDirectory_iff, at?_set _ _ (by simp), if_pos rfl]
    have henter {b : List String} {l : Nat} {s : Place} (hb : Way d' links (p ++ [n]) b l s) :
        Way d' links p (n :: b) l s := .enter (hk.hasDirectory hp) hf hnew (by simp) hb
    by_cases hr : r = p ++ [n]
    · subst hr
      exact Or.inr ⟨he, hnew, [n], links, List.cons_prefix_cons.2 ⟨rfl, List.nil_prefix⟩,
        by simp, henter .done⟩
    · rw [if_neg hr] at hset
      rw [hset] at ih
      refine ih.imp_right fun ⟨hr, hr', b, l, hb, _, hway⟩ => ⟨hr, hr', n :: b, l, ?_, ?_, ?_⟩
      · exact List.cons_prefix_cons.2 ⟨rfl, hb⟩
      · simp
      · exact henter hway

/-- Nothing had to be made, or the names lead nowhere as yet. -/
lemma Makes.way_or_missing (h : Makes d links p a d' links' q) :
    (d' = d ∧ Way d links p a links' q) ∨ ∀ last rest, (∃ n ∈ rest, n ≠ "") →
      d.follow last links p (a ++ rest) = .error .notFound := by
  induction h with
  | done => exact Or.inl ⟨rfl, .done⟩
  | @pass d links p n rest d' links₁ links' q r hw hm ih =>
    refine ih.imp (fun ⟨hd, hway⟩ => ⟨hd, hw.append hway⟩) fun hmissing last more hmore => ?_
    have hne : rest ++ more ≠ [] := by
      obtain ⟨m, hm, -⟩ := hmore
      exact List.append_ne_nil_of_right_ne_nil _ (List.ne_nil_of_mem hm)
    have hfirst : d.follow last links p ([n] ++ (rest ++ more)) =
        d.follow last links₁ q (rest ++ more) := hw.follow_append (Or.inr hne)
    rw [List.singleton_append] at hfirst
    rw [List.cons_append, hfirst]
    exact hmissing last more hmore
  | @make d links p n rest d' links' r hp hn hf he hm ih =>
    refine Or.inr fun last more hmore => ?_
    obtain ⟨m, hm, hne⟩ := hmore
    rw [List.cons_append, follow_absent hp hf he, if_neg ?_]
    rw [List.all_eq_true]
    intro h
    exact hne (beq_iff_eq.1 (h m (List.mem_append_right _ hm)))

/-! ### One directory -/

variable {f g : Path} {up : List Path}

/-- The directory is made, or it was there. -/
def Settles (d : Disk) (f : Path) (d' : Disk) : Prop :=
  d.makeDirectory f = .ok d' ∨
    d' = d ∧ d.isDirectory f = true ∧ ∃ r, d.makeDirectory f = .error r

lemma perform_orThere (f : Path) (r : Refusal) (d : Disk) :
    perform (orThere f (.error r)) d =
      (if d.isDirectory f then .ok () else .error r, d) := rfl

lemma settles_iff : Settles d f d' ↔
    perform (orThere f (perform (Files.makeDirectory f) d).1)
      (perform (Files.makeDirectory f) d).2 = (.ok (), d') := by
  unfold Settles
  rw [perform_makeDirectory]
  cases hm : d.makeDirectory f with
  | ok d₁ => simp [orThere]
  | error r =>
    rw [perform_orThere]
    by_cases hd : d.isDirectory f = true
    · simp [hd, eq_comm]
    · simp [hd]

lemma makeFrom_empty (h : f.text = "") :
    (makeFrom f up : StateM Disk (Except Refusal Unit)) = pure (.ok ()) := by
  unfold makeFrom
  rw [if_pos h]

/-- A directory whose parent is there. -/
lemma perform_makeFrom (h : f.text ≠ "") (hm : d.makeDirectory f ≠ .error .notFound) :
    perform (makeFrom f up) d =
      perform (orThere f (perform (Files.makeDirectory f) d).1)
        (perform (Files.makeDirectory f) d).2 := by
  unfold makeFrom
  rw [if_neg h, perform_bind, perform_makeDirectory]
  cases hr : d.makeDirectory f with
  | ok d₁ => rfl
  | error r =>
    cases r with
    | notFound => exact absurd hr hm
    | _ => rfl

/-- A directory whose parent is missing. -/
lemma perform_makeFrom_missing (h : f.text ≠ "") (hm : d.makeDirectory f = .error .notFound) :
    perform (makeFrom f (g :: up)) d =
      match perform (makeFrom g up) d with
      | (.ok _, d₁) => perform (orThere f (perform (Files.makeDirectory f) d₁).1)
          (perform (Files.makeDirectory f) d₁).2
      | (.error r, d₁) => (.error r, d₁) := by
  conv_lhs => unfold makeFrom
  rewrite [if_neg h, perform_bind, perform_makeDirectory, hm]
  dsimp only
  rewrite [perform_bind]
  rcases perform (makeFrom g up) d with ⟨s, d₁⟩
  cases s with
  | ok u => exact perform_bind _ _ _
  | error r => exact perform_pure _ _

lemma perform_makeFrom_nil (h : f.text ≠ "") (hm : d.makeDirectory f = .error .notFound) :
    (perform (makeFrom f []) d).1 ≠ .ok () := by
  unfold makeFrom
  rw [if_neg h, perform_bind, perform_makeDirectory, hm]
  simp

lemma makeDirectory_eq (hf : f.asksForDirectory = false) : d.makeDirectory f =
    match d.find false f with
    | .ok (.free q _) => .ok (d.set q .directory)
    | .ok (.taken _) => .error .occupied
    | .error r => .error r := by
  unfold makeDirectory
  rw [if_neg (by simp [hf])]
  cases d.find false f with
  | error r => rfl
  | ok s =>
    cases s with
    | free q b => rfl
    | taken q => rfl

/-- A path through the names `a` to `n` in a directory that is there. -/
structure At (d : Disk) (f : Path) (n : String) (links : Nat) (p : Place) : Prop where
  valid : f.Valid
  ends : f.EndsInStep
  way : ∃ a, f.steps = a ++ [n] ∧ Way d linkLimit (d.startOf f) a links p

lemma At.counts (h : At d f n links p) : isIdle n.toList = false := by
  obtain ⟨a, ha, -⟩ := h.way
  have : n ∈ f.steps := by simp [ha]
  simpa using (List.mem_filter.1 this).2

lemma At.noSlash (h : At d f n links p) : '/' ∉ n.toList := by
  obtain ⟨a, ha, -⟩ := h.way
  have : n ∈ f.steps := by simp [ha]
  exact Path.noSlash_of_mem_names (List.mem_of_mem_filter this)

lemma At.find (h : At d f n links p) (last : Bool) :
    d.find last f = d.follow last links p [n] := by
  obtain ⟨a, ha, hw⟩ := h.way
  rw [find_steps h.valid h.ends, ha, hw.follow_append (Or.inr (by simp))]

lemma At.locate_iff (h : At d f n links p) :
    d.locate true f = .ok q ↔ ∃ links', Way d links p [n] links' q := by
  have hs : ∀ m ∈ [n], '/' ∉ m.toList := by simpa using h.noSlash
  unfold locate
  rw [h.find, ← follow_taken_iff hs]
  cases d.follow true links p [n] with
  | error e => simp
  | ok s => cases s <;> simp

/-- A directory is made only where nothing is. -/
lemma At.free_of_makeDirectory (h : At d f n links p) (hmake : d.makeDirectory f = .ok d') :
    d.hasDirectory p = true ∧ Fits n ∧ d.at? (p ++ [n]) = none ∧
      d' = d.set (p ++ [n]) .directory := by
  rw [makeDirectory_eq h.ends.not_asksForDirectory, h.find] at hmake
  cases hfind : d.follow false links p [n] with
  | error e =>
    rw [hfind] at hmake
    cases hmake
  | ok s =>
    rw [hfind] at hmake
    cases s with
    | taken r => cases hmake
    | free r b =>
      obtain ⟨hp, hf, he, rfl⟩ := follow_single_free h.counts hfind
      exact ⟨hp, hf, he, (Except.ok.inj hmake).symm⟩

lemma At.makes (h : At d f n links p) (hs : Settles d f d') :
    ∃ links' q, Makes d links p [n] d' links' q ∧ d'.hasDirectory q = true := by
  rcases hs with hs | ⟨rfl, hdir, -⟩
  · obtain ⟨hp, hf, he, rfl⟩ := h.free_of_makeDirectory hs
    refine ⟨_, _, .make hp (hf.isName h.noSlash) hf he .done, ?_⟩
    rw [hasDirectory_iff, at?_set _ _ (by simp), if_pos rfl]
  · rw [isDirectory_iff] at hdir
    obtain ⟨q, hq, hdir⟩ := hdir
    obtain ⟨links', hw⟩ := h.locate_iff.1 hq
    exact ⟨links', q, hw.makes, hdir⟩

lemma At.settles (h : At d f n links p) (hm : Makes d links p [n] d' links' q)
    (hq : d'.hasDirectory q = true) :
    Settles d f d' ∧ d.makeDirectory f ≠ .error .notFound := by
  have hmake := makeDirectory_eq (d := d) h.ends.not_asksForDirectory
  rw [h.find] at hmake
  cases hm with
  | @pass _ _ _ _ _ _ links₁ _ r _ hw hdone =>
    cases hdone
    obtain ⟨r, hr⟩ := hw.follow_single h.counts
    rw [hr] at hmake
    refine ⟨Or.inr ⟨rfl, ?_, _, hmake⟩, ?_⟩
    · exact isDirectory_iff.2 ⟨q, h.locate_iff.2 ⟨_, hw⟩, hq⟩
    · rw [hmake]
      simp
  | make hp hn hf he hdone =>
    cases hdone
    rw [follow_absent hp hf he] at hmake
    exact ⟨Or.inl hmake, by rw [hmake]; simp⟩

/-! ### All directories of a path -/

/-- Nothing is made of a path without steps. -/
lemma makeDirectory_of_no_steps (h : f.steps = []) (hne : f.text ≠ "") :
    ∃ r, r ≠ .notFound ∧ d.makeDirectory f = .error r := by
  have hidle : ∀ n ∈ f.names, isIdle n.toList = true := by
    simpa [Path.steps, List.filter_eq_nil_iff] using h
  rw [makeDirectory_eq (Path.not_asksForDirectory_of_no_steps h)]
  by_cases hv : f.Valid
  · rw [find_eq hv]
    rcases follow_idle_all hidle (d := d)
      with hf | hf
    · rw [hf]
      exact ⟨.occupied, by simp, rfl⟩
    · rw [hf]
      exact ⟨.notDirectory, by simp, rfl⟩
  · obtain ⟨r, hr, hf⟩ := find_invalid hv hne
    rw [hf]
    exact ⟨r, hr, rfl⟩

lemma exists_find_of_settles (he : f.EndsInStep) (h : Settles d f d') :
    ∃ last s, d.find last f = .ok s := by
  rcases h with h | ⟨-, h, -⟩
  · rw [makeDirectory_eq he.not_asksForDirectory] at h
    cases hf : d.find false f with
    | error e =>
      rw [hf] at h
      cases h
    | ok s => exact ⟨false, s, hf⟩
  · obtain ⟨q, hq, -⟩ := isDirectory_iff.1 h
    unfold Disk.locate at hq
    cases hf : d.find true f with
    | error e =>
      rw [hf] at hq
      cases hq
    | ok s => exact ⟨true, s, hf⟩

/-- The parent of a path, and the step from there. -/
lemma exists_front (he : f.EndsInStep) : ∃ g n, f.parent? = some g ∧ IsParent f g ∧
    f.steps = g.steps ++ [n] ∧ isIdle n.toList = false ∧ ∀ d : Disk, d.startOf f = d.startOf g := by
  obtain ⟨g, hg, hparent⟩ := Path.exists_parent he
  obtain ⟨n, hn⟩ := hparent.steps_concat
  have hmem : n ∈ f.steps := by simp [hn]
  refine ⟨g, n, hg, hparent, hn, by simpa using (List.mem_filter.1 hmem).2, fun d => ?_⟩
  unfold startOf
  rw [hparent.absolute]

lemma exists_at_of_settles (he : f.EndsInStep) (hsteps : f.steps = a ++ [n])
    (hn : isIdle n.toList = false) (h : Settles d f d') :
    ∃ links p, Way d linkLimit (d.startOf f) a links p ∧ At d f n links p := by
  obtain ⟨last, s, hs⟩ := exists_find_of_settles he h
  have hv := valid_of_find hs
  rw [find_steps hv he, hsteps] at hs
  obtain ⟨links, p, hw⟩ := exists_way_of_follow hs ⟨n, by simp, (counts_iff.1 hn).1⟩
  exact ⟨links, p, hw, hv, he, a, hsteps, hw⟩

lemma makes_of_no_steps (hf : f.steps = []) (h : perform (makeFrom f up) d = (.ok (), d')) :
    Makes d linkLimit (d.startOf f) f.steps d' linkLimit (d.startOf f) := by
  rw [hf]
  by_cases hne : f.text = ""
  · rw [makeFrom_empty hne, perform_pure] at h
    obtain rfl := congrArg Prod.snd h
    exact .done
  · obtain ⟨r, hr, hm⟩ := makeDirectory_of_no_steps (d := d) hf hne
    rw [perform_makeFrom hne (by rw [hm]; simpa using hr), ← settles_iff] at h
    rcases h with h | ⟨rfl, -⟩
    · rw [hm] at h
      cases h
    · exact .done

/-- The parent is there. -/
lemma makes_of_there (he : f.EndsInStep) (hthere : d.makeDirectory f ≠ .error .notFound)
    (h : perform (makeFrom f up) d = (.ok (), d')) :
    ∃ links q, Makes d linkLimit (d.startOf f) f.steps d' links q ∧
      f.Valid ∧ d'.hasDirectory q = true := by
  obtain ⟨g, n, -, -, hsteps, hn, -⟩ := exists_front he
  rw [perform_makeFrom he.text_ne hthere, ← settles_iff] at h
  obtain ⟨links, p, hw, hat⟩ := exists_at_of_settles he hsteps hn h
  obtain ⟨links', q, hm, hq⟩ := hat.makes h
  rw [hsteps]
  exact ⟨links', q, hw.makes.append hm, hat.valid, hq⟩

/-- **What making the directories of a path has done.** -/
lemma makes_of_makeFrom {k : ℕ} (he : f.EndsInStep)
    (h : perform (makeFrom f (f.ancestorsUpTo k)) d = (.ok (), d')) :
    ∃ links q, Makes d linkLimit (d.startOf f) f.steps d' links q ∧
      f.Valid ∧ d'.hasDirectory q = true := by
  induction k generalizing f d' with
  | zero =>
    by_cases hthere : d.makeDirectory f = .error .notFound
    · exact absurd (congrArg Prod.fst h) (perform_makeFrom_nil he.text_ne hthere)
    · exact makes_of_there he hthere h
  | succ k ih =>
    by_cases hthere : d.makeDirectory f = .error .notFound
    · obtain ⟨g, n, hg, hparent, hsteps, hn, hstart⟩ := exists_front he
      rw [Path.ancestorsUpTo, hg] at h
      dsimp only at h
      rw [perform_makeFrom_missing he.text_ne hthere] at h
      rcases hrest : perform (makeFrom g (g.ancestorsUpTo k)) d with ⟨s, d₁⟩
      rw [hrest] at h
      cases s with
      | error r => cases h
      | ok u =>
        have hsettles := settles_iff.2 h
        obtain ⟨_, _, _, hthen⟩ := exists_at_of_settles he hsteps hn hsettles
        have hfront : ∃ links p, Makes d linkLimit (d.startOf g) g.steps d₁ links p := by
          rcases hparent.ends with hg' | hempty
          · obtain ⟨links, p, hm, -⟩ := ih hg' hrest
            exact ⟨links, p, hm⟩
          · exact ⟨_, _, makes_of_no_steps hempty hrest⟩
        obtain ⟨links, p, hfront⟩ := hfront
        rw [← hstart] at hfront
        have hat : At d₁ f n links p := by
          refine ⟨hthen.valid, he, g.steps, hsteps, ?_⟩
          rw [hfront.keeps.startOf]
          exact hfront.way
        obtain ⟨links', q, hm, hq⟩ := hat.makes hsettles
        rw [hsteps]
        exact ⟨links', q, hfront.append hm, hat.valid, hq⟩
    · exact makes_of_there he hthere h

/-- **Making the directories of a path succeeds if they can be made.** -/
lemma makeFrom_of_makes {k : ℕ} (he : f.EndsInStep) (hv : f.Valid) (hk : f.steps.length ≤ k)
    (hm : Makes d linkLimit (d.startOf f) f.steps d' links q) (hq : d'.hasDirectory q = true) :
    perform (makeFrom f (f.ancestorsUpTo k)) d = (.ok (), d') := by
  induction k generalizing f d' links q with
  | zero =>
    obtain ⟨g, n, -, -, hsteps, -⟩ := exists_front he
    rw [hsteps] at hk
    simp at hk
  | succ k ih =>
    obtain ⟨g, n, hg, hparent, hsteps, hn, hstart⟩ := exists_front he
    have hup : f.ancestorsUpTo (k + 1) = g :: g.ancestorsUpTo k := by
      rw [Path.ancestorsUpTo, hg]
    rw [hsteps] at hm hk
    obtain ⟨d₁, links₁, p, hfront, hlast⟩ := hm.split
    have hat : At d₁ f n links₁ p := by
      refine ⟨hv, he, g.steps, hsteps, ?_⟩
      rw [hfront.keeps.startOf]
      exact hfront.way
    obtain ⟨hsettles, hthere⟩ := hat.settles hlast hq
    rw [settles_iff] at hsettles
    rcases hfront.way_or_missing with ⟨rfl, -⟩ | hmissing
    · rw [perform_makeFrom hv.nonempty hthere]
      exact hsettles
    · have hnot : d.makeDirectory f = .error .notFound := by
        rw [makeDirectory_eq he.not_asksForDirectory, find_steps hv he, hsteps,
          hmissing _ _ ⟨n, by simp, ?_⟩]
        exact (counts_iff.1 hn).1
      have hg' : g.EndsInStep := by
        refine hparent.ends.resolve_right fun hempty => ?_
        rw [hempty] at hfront
        cases hfront
        exact hthere hnot
      have hvg : g.Valid := hv.of_front hparent.text_front hg'.text_ne
      have hdir : d₁.hasDirectory p = true := by
        cases hlast with
        | pass hw _ =>
          cases hw with
          | idle hp => exact hp
          | up hp => exact hp
          | enter hp => exact hp
          | link hp => exact hp
        | make hp => exact hp
      rw [hstart] at hfront
      rw [hup, perform_makeFrom_missing hv.nonempty hnot,
        ih hg' hvg (by simpa using hk) hfront hdir]
      exact hsettles

lemma makeDirectories_iff (he : f.EndsInStep) :
    perform (makeDirectories f) d = (.ok (), d') ↔ f.Valid ∧
      ∃ links q, Makes d linkLimit (d.startOf f) f.steps d' links q ∧
        d'.hasDirectory q = true := by
  refine ⟨fun h => ?_, fun ⟨hv, links, q, hm, hq⟩ => ?_⟩
  · obtain ⟨links, q, hm, hv, hq⟩ := makes_of_makeFrom he h
    exact ⟨hv, links, q, hm, hq⟩
  · refine makeFrom_of_makes he hv ?_ hm hq
    unfold Path.steps Path.names
    exact (List.length_filter_le _ _).trans_eq (List.length_map _)

/-! ### Where nothing is yet -/

/-- The disk with a directory in `p`, one in that and so on, under these names. -/
def grow (d : Disk) (p : Place) : List String → Disk
  | [] => d
  | n :: names => grow (d.set (p ++ [n]) .directory) (p ++ [n]) names

variable {names : List String}

lemma at?_set_concat (d : Disk) (q : Place) (n : String) (e : Entry) (r : Place) :
    (d.set (q ++ [n]) e).at? r = if r = q ++ [n] then some e else d.at? r :=
  at?_set e r (by simp)

@[simp] lemma here_grow (d : Disk) (p : Place) (names : List String) :
    (d.grow p names).here = d.here := by
  induction names generalizing d p with
  | nil => rfl
  | cons n names ih => rw [grow, ih, here_set]

lemma at?_grow_of_ne {names : List String}
    (h : ∀ s, s <+: names → s ≠ [] → r ≠ p ++ s) : (d.grow p names).at? r = d.at? r := by
  induction names generalizing d p with
  | nil => rfl
  | cons n names ih =>
    have hcons {s : List String} (hs : s <+: names) : n :: s <+: n :: names :=
      List.cons_prefix_cons.2 ⟨rfl, hs⟩
    rw [grow, ih, at?_set_concat, if_neg (h [n] (hcons List.nil_prefix) (by simp))]
    intro s hs _
    rw [List.append_assoc]
    exact h (n :: s) (hcons hs) (by simp)

lemma at?_grow_new {names s : List String} (hs : s <+: names) (hne : s ≠ []) :
    (d.grow p names).at? (p ++ s) = some .directory := by
  induction names generalizing d p s with
  | nil => exact absurd (List.prefix_nil.1 hs) hne
  | cons n names ih =>
    cases s with
    | nil => exact absurd rfl hne
    | cons m s =>
      obtain ⟨rfl, htail⟩ := List.cons_prefix_cons.1 hs
      cases s with
      | nil =>
        rw [grow, at?_grow_of_ne, at?_set_concat, if_pos rfl]
        intro t _ ht e
        exact ht (List.append_right_eq_self.1 e.symm)
      | cons l s =>
        have := ih htail (by simp) (d := d.set (p ++ [m]) .directory) (p := p ++ [m])
        rwa [List.append_assoc, List.singleton_append] at this

lemma Sound.absent_below (hd : d.Sound) (h : d.at? p = none) (r : Place) :
    d.at? (p ++ r) = none := by
  cases r with
  | nil => rwa [List.append_nil]
  | cons n r =>
    cases he : d.at? (p ++ n :: r) with
    | none => rfl
    | some e =>
      have := hd.hasDirectory_above he (by simp)
      rw [hasDirectory_iff, h] at this
      cases this

/-- Where there is nothing under the first name, all directories are new. -/
lemma makes_new_iff (hd : d.Sound) (hp : d.hasDirectory p = true) (hn : ∀ n ∈ names, IsName n)
    (hfree : ∀ n, names.head? = some n → d.at? (p ++ [n]) = none) :
    Makes d links p names d' links' q ↔
      (∀ n ∈ names, Fits n) ∧ d' = d.grow p names ∧ links' = links ∧ q = p ++ names := by
  induction names generalizing d p with
  | nil =>
    refine ⟨fun h => ?_, fun ⟨_, hd', hl, hq⟩ => ?_⟩
    · cases h
      simp [grow]
    · rw [hd', hl, hq, List.append_nil]
      exact .done
  | cons n names ih =>
    have hfree := hfree n rfl
    have hname := hn n List.mem_cons_self
    have hputs := puts_directory hp hname hfree
    have hnext : Makes (d.set (p ++ [n]) .directory) links (p ++ [n]) names d' links' q ↔
        (∀ m ∈ names, Fits m) ∧ d' = d.grow p (n :: names) ∧ links' = links ∧
          q = p ++ n :: names := by
      rw [ih (hputs.sound hd) ?_ (fun m hm => hn m (List.mem_cons_of_mem _ hm)) ?_]
      · simp [grow]
      · rw [hasDirectory_iff, at?_set_concat, if_pos rfl]
      · intro m _
        rw [at?_set_concat, if_neg (by simp)]
        exact hd.absent_below hfree [m]
    refine ⟨fun h => ?_, fun ⟨hf, hrest⟩ => ?_⟩
    · cases h with
      | pass hw _ =>
        cases hw with
        | idle _ hm _ =>
          have := counts_iff.1 hname.counts
          simp_all
        | up => exact absurd rfl hname.notUp
        | enter _ _ he =>
          rw [hfree] at he
          cases he
        | link _ _ he =>
          rw [hfree] at he
          cases he
      | make _ _ hf _ hm =>
        obtain ⟨hfits, hrest⟩ := hnext.1 hm
        exact ⟨List.forall_mem_cons.2 ⟨hf, hfits⟩, hrest⟩
    · obtain ⟨hf, hfits⟩ := List.forall_mem_cons.1 hf
      exact .make hp hname hf hfree (hnext.2 ⟨hfits, hrest⟩)

end ProviderGen.Disk
