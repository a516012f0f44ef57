import ProviderGen.Proofs.Disk.Making
import ProviderGen.Proofs.Disk.Walk

/-!
A disk on which the file at one place is another, or new. What does not lead to that place leads
where it led before, and a directory that does not hold it has the same listing.
-/

namespace ProviderGen.Disk

/-- The path ends in a link. -/
def EndsInLink (d : Disk) (f : Path) : Prop :=
  ∃ q t, d.locate false f = .ok q ∧ d.at? q = some (.link t)

/-- The second disk is the first with a file at this place, where there was a file or nothing. -/
structure Rewrites (d : Disk) (a : Place) (d' : Disk) : Prop where
  here : d'.here = d.here
  others : ∀ q, q ≠ a → d'.at? q = d.at? q
  file : ∃ b, d'.at? a = some (.file b)
  before : d.at? a = none ∨ ∃ b, d.at? a = some (.file b)

variable {d d' d'' : Disk} {a p q r : Place} {names : List String} {ls : List Place}
  {links links' : ℕ} {f dir : Path} {bytes : ByteArray} {e : Entry} {n : String}

lemma Rewrites.keeps (h : Rewrites d a d') : Keeps d d' := by
  refine ⟨h.here, fun {q e} he => ?_⟩
  by_cases hq : q = a
  · subst hq
    obtain ⟨b', hb'⟩ := h.file
    rcases h.before with hnone | ⟨b, hb⟩
    · rw [hnone] at he
      cases he
    · rw [hb] at he
      obtain rfl := Option.some.inj he
      exact ⟨_, hb', .file b b'⟩
  · exact ⟨e, by rw [h.others q hq, he], .same e⟩

lemma Rewrites.trans (h : Rewrites d a d') (h' : Rewrites d' a d'') : Rewrites d a d'' := by
  refine ⟨h'.here.trans h.here, fun q hq => ?_, h'.file, h.before⟩
  rw [h'.others q hq, h.others q hq]

/-- A file is rewritten where its path leads afterwards. -/
lemma exists_rewrites (hd : d.Sound) (h : d.write f bytes = .ok d') :
    ∃ a, Rewrites d a d' ∧ d'.Sound ∧ d'.locate true f = .ok a ∧
      d'.at? a = some (.file bytes) := by
  obtain ⟨q, n, rfl, hputs, -, hlocate⟩ := write_ok hd h
  have hat (r : Place) : (d.set (q ++ [n]) (.file bytes)).at? r =
      if r = q ++ [n] then some (.file bytes) else d.at? r := at?_set _ r (by simp)
  have hnew : (d.set (q ++ [n]) (.file bytes)).at? (q ++ [n]) = some (.file bytes) := by
    rw [hat, if_pos rfl]
  refine ⟨q ++ [n], ⟨rfl, fun r hr => by rw [hat, if_neg hr], ⟨_, hnew⟩, ?_⟩, hputs.sound hd,
    hlocate, hnew⟩
  exact hputs.free.imp_right fun ⟨b, _, hb, _⟩ => ⟨b, hb⟩

/-! ### What leads elsewhere -/

/-- Only a directory can be left. -/
lemma Way.hasDirectory {rest : List String} (h : Way d links p (n :: rest) links' q) :
    d.hasDirectory p = true := by
  cases h <;> assumption

/-- No directory is at the place of a file. -/
lemma Rewrites.ne_of_hasDirectory (h : Rewrites d a d') (hp : d'.hasDirectory p = true) :
    p ≠ a := by
  rintro rfl
  obtain ⟨b, hb⟩ := h.file
  rw [hasDirectory_iff, hb] at hp
  cases hp

lemma Rewrites.ne_of_link {t : Path} (h : Rewrites d a d') (he : d'.at? q = some (.link t)) :
    q ≠ a := by
  rintro rfl
  obtain ⟨b, hb⟩ := h.file
  rw [hb] at he
  cases he

/-- No way goes on from a file. -/
lemma Rewrites.eq_of_way (h : Rewrites d a d') (hw : Way d' links a names links' q) : q = a := by
  cases names with
  | nil =>
    cases hw
    rfl
  | cons n rest => exact absurd rfl (h.ne_of_hasDirectory hw.hasDirectory)

lemma Rewrites.hasDirectory (h : Rewrites d a d') (hp : d'.hasDirectory p = true) :
    d.hasDirectory p = true := by
  have hne := h.ne_of_hasDirectory hp
  rw [hasDirectory_iff] at hp ⊢
  rw [← h.others p hne, hp]

lemma Rewrites.way (h : Rewrites d a d') (hw : Way d' links p names links' q) (hq : q ≠ a) :
    Way d links p names links' q := by
  induction hw with
  | done => exact .done
  | idle hp hn _ ih => exact .idle (h.hasDirectory hp) hn (ih hq)
  | up hp _ ih => exact .up (h.hasDirectory hp) (ih hq)
  | @enter links p n rest links' q e hp hn he hl hw ih =>
    have hne : p ++ [n] ≠ a := fun heq => hq (h.eq_of_way (heq ▸ hw))
    exact .enter (h.hasDirectory hp) hn (by rw [← h.others _ hne, he]) hl (ih hq)
  | @link links p n rest links' q t hp hn he _ ih =>
    exact .link (h.hasDirectory hp) hn (by rw [← h.others _ (h.ne_of_link he), he]) (ih hq)

lemma Rewrites.locate (h : Rewrites d a d') (hq : d'.locate true f = .ok q) (hne : q ≠ a) :
    d.locate true f = .ok q := by
  obtain ⟨hv, links, hw⟩ := exists_way_of_locate hq
  rw [h.keeps.startOf] at hw
  exact locate_of_way hv (h.way hw hne)

lemma Rewrites.read (h : Rewrites d a d') (hr : d'.read f = .ok bytes)
    (hne : d'.locate true f ≠ .ok a) : d.read f = .ok bytes := by
  obtain ⟨q, hq, hb⟩ := read_iff.1 hr
  have hqa : q ≠ a := fun heq => hne (heq ▸ hq)
  exact read_iff.2 ⟨q, h.locate hq hqa, by rw [← h.others q hqa, hb]⟩

/-- What did not lead to the place is read as it was. -/
lemma Rewrites.read_of_ne (h : Rewrites d a d') (hr : d.read f = .ok bytes)
    (hne : d.locate true f ≠ .ok a) : d'.read f = .ok bytes := by
  obtain ⟨q, hq, hb⟩ := read_iff.1 hr
  have hqa : q ≠ a := fun heq => hne (heq ▸ hq)
  exact read_iff.2 ⟨q, h.keeps.locate hq, by rw [h.others q hqa, hb]⟩

/-! ### What leads there -/

/-- What led to the place before, when there may have been nothing. -/
lemma Rewrites.follow (h : Rewrites d a d') (hd' : d'.Sound)
    (hw : Way d' links p names links' a) (hp : p ≠ a) :
    d.follow true links p names =
      .ok (if (d.at? a).isSome then .taken a else .free a false) := by
  generalize hq : a = q at hw
  induction hw with
  | done => exact absurd hq.symm hp
  | idle hdir hn _ ih => rw [follow_idle (h.hasDirectory hdir) hn, ih hp hq]
  | up hdir _ ih =>
    rw [follow_up (h.hasDirectory hdir),
      ih (h.ne_of_hasDirectory (hd'.hasDirectory_dropLast hdir)) hq]
  | @enter links p n rest links' q e hdir hn he hl hw ih =>
    subst hq
    by_cases hne : p ++ [n] = a
    · subst hne
      cases rest with
      | nil =>
        rcases h.before with hnone | ⟨b, hb⟩
        · rw [follow_absent (h.hasDirectory hdir) hn hnone, hnone]
          rfl
        · rw [follow_entry (h.hasDirectory hdir) hn hb (by simp), follow_nil, hb]
          rfl
      | cons m rest => exact absurd rfl (h.ne_of_hasDirectory hw.hasDirectory)
    · rw [h.others _ hne] at he
      rw [follow_entry (h.hasDirectory hdir) hn he hl, ih hne rfl]
  | @link links p n rest links' q t hdir hn he hw ih =>
    subst hq
    rw [h.others _ (h.ne_of_link he)] at he
    rw [follow_link (h.hasDirectory hdir) hn he (Or.inl rfl), ih ?_ rfl]
    split
    · exact h.ne_of_hasDirectory rfl
    · exact hp

lemma Rewrites.find (h : Rewrites d a d') (hd' : d'.Sound) (hf : d'.locate true f = .ok a) :
    d.find true f = .ok (if (d.at? a).isSome then .taken a else .free a false) := by
  obtain ⟨hv, links, hw⟩ := exists_way_of_locate hf
  rw [find_eq hv, ← h.keeps.startOf]
  cases hnames : f.names with
  | nil => exact absurd hnames (by simpa [Path.names] using f.pieces_ne_nil)
  | cons n rest =>
    rw [hnames] at hw
    exact h.follow hd' hw (h.ne_of_hasDirectory hw.hasDirectory)

/-- The last step to what is no directory is its name, or the name of a link. -/
lemma Way.last (hd : d.Sound) (h : Way d links p [n] links' q) (hq : d.hasDirectory q = false) :
    d.hasDirectory p = true ∧ Fits n ∧
      (q = p ++ [n] ∨ ∃ t, d.at? (p ++ [n]) = some (.link t)) := by
  cases h with
  | idle hp _ hw =>
    cases hw
    rw [hp] at hq
    cases hq
  | up hp hw =>
    cases hw
    rw [hd.hasDirectory_dropLast hp] at hq
    cases hq
  | enter hp hn _ _ hw =>
    cases hw
    exact ⟨hp, hn, Or.inl rfl⟩
  | link hp hn he _ => exact ⟨hp, hn, Or.inr ⟨_, he⟩⟩

/-- A path that leads to a file ends in a step. -/
lemma endsInStep_of_locate (hd : d.Sound) (h : d.locate true f = .ok q)
    (hq : d.hasDirectory q = false) : f.EndsInStep := by
  obtain ⟨-, links, hw⟩ := exists_way_of_locate h
  obtain ⟨before, l, hb⟩ : ∃ before l, f.pieces = before ++ [l] :=
    ⟨_, _, (List.dropLast_append_getLast f.pieces_ne_nil).symm⟩
  rw [Path.names, hb, List.map_append] at hw
  obtain ⟨_, p, -, hlast⟩ := hw.split
  obtain ⟨-, hfits, -⟩ := hlast.last hd hq
  have hcounts := counts_iff.2 hfits.counts
  rw [String.toList_ofList] at hcounts
  exact ⟨before, l, hb, hcounts⟩

/-- What leads to a file leads to a directory in front of its last step. -/
lemma exists_at_of_locate (hd : d.Sound) (h : d.locate true f = .ok q)
    (hq : d.hasDirectory q = false) :
    ∃ n links p links', At d f n links p ∧ Way d links p [n] links' q := by
  have hends := endsInStep_of_locate hd h hq
  obtain ⟨hv, -⟩ := exists_way_of_locate h
  obtain ⟨links', hw⟩ := (locate_iff hv hends).1 h
  obtain ⟨g, n, -, -, hsteps, -⟩ := exists_front hends
  rw [hsteps] at hw
  obtain ⟨links, p, hfront, hlast⟩ := hw.split
  exact ⟨n, links, p, links', ⟨hv, hends, g.steps, hsteps, hfront⟩, hlast⟩

/-- What leads to the place of a file leads to its directory, and ends in its name or a link. -/
lemma Rewrites.exists_at (h : Rewrites d a d') (hd' : d'.Sound) (hf : d'.locate true f = .ok a) :
    ∃ n links p, At d f n links p ∧ d.hasDirectory p = true ∧ Fits n ∧
      (a = p ++ [n] ∨ EndsInLink d f) := by
  obtain ⟨b, hb⟩ := h.file
  have hfile := hasDirectory_of_file hb
  obtain ⟨n, links₁, p, _, hat', hlast⟩ := exists_at_of_locate hd' hf hfile
  obtain ⟨names, hsteps, hfront⟩ := hat'.way
  obtain ⟨hp, hfits, hwhere⟩ := hlast.last hd' hfile
  have hback := h.way hfront (h.ne_of_hasDirectory hp)
  rw [h.keeps.startOf] at hback
  have hat : At d f n links₁ p := ⟨hat'.valid, hat'.ends, names, hsteps, hback⟩
  rcases hwhere with hname | ⟨t, ht⟩
  · exact ⟨n, links₁, p, hat, h.hasDirectory hp, hfits, Or.inl hname⟩
  · rw [h.others _ (h.ne_of_link ht)] at ht
    have hplace : d.locate false f = .ok (p ++ [n]) := by
      rw [Disk.locate, hat.find, follow_last_link (h.hasDirectory hp) hfits ht]
    exact ⟨n, links₁, p, hat, h.hasDirectory hp, hfits, Or.inr ⟨p ++ [n], t, hplace, ht⟩⟩

/-! ### What holds something else -/

lemma NamesAt.congr (h : d'.NamesAt q names)
    (heq : ∀ r, r ≠ [] → d'.at? (q ++ r) = d.at? (q ++ r)) : d.NamesAt q names :=
  ⟨h.sorted, fun n => by rw [h.all n, heq [n] (by simp)]⟩

lemma Walked.congr (h : d'.Walked q names ls)
    (heq : ∀ r, r ≠ [] → d'.at? (q ++ r) = d.at? (q ++ r)) : d.Walked q names ls := by
  induction h with
  | done => exact .done
  | @leaf q n names ls e he hl _ ih =>
    exact .leaf (by rw [← heq [n] (by simp), he]) hl (ih heq)
  | @tree q n names ls inner below he hn _ _ ihw ih =>
    have hbelow : ∀ r, r ≠ [] → d'.at? (q ++ [n] ++ r) = d.at? (q ++ [n] ++ r) := fun r _ => by
      rw [List.append_assoc]
      exact heq _ (by simp)
    rw [hasDirectory_iff, heq [n] (by simp), ← hasDirectory_iff] at he
    exact .tree he (hn.congr hbelow) (ihw hbelow) (ih heq)

lemma Rewrites.listed (h : Rewrites d a d') (hl : d'.Listed q ls) (hne : ∀ r, r ≠ [] → q ++ r ≠ a) :
    d.Listed q ls := by
  have heq (r : Place) (hr : r ≠ []) : d'.at? (q ++ r) = d.at? (q ++ r) :=
    h.others _ (hne r hr)
  obtain ⟨names, hn, hw⟩ := hl
  exact ⟨names, hn.congr heq, hw.congr heq⟩

end ProviderGen.Disk
