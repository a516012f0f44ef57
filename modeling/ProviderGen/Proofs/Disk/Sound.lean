import ProviderGen.Proofs.Disk.Run
import ProviderGen.Proofs.Disk.Way
import Mathlib.Data.List.Nodup

/-!
Disks that are trees: every entry lies in a directory, under a name that entries can have, and no
place is listed twice. Every request leaves such a disk behind.
-/

namespace ProviderGen.Disk

open Path (IsName)

structure Sound (d : Disk) : Prop where
  distinct : (d.entries.map Prod.fst).Nodup
  inDirectory : ∀ {q n e}, d.at? (q ++ [n]) = some e → d.hasDirectory q = true
  named : ∀ {q n e}, d.at? (q ++ [n]) = some e → IsName n

/-- There is something, and it is no link. -/
def Stands (d : Disk) (q : Place) : Prop := ∃ e, d.at? q = some e ∧ ∀ t, e ≠ .link t

variable {d d' : Disk} {links links' : Nat} {p q r : Place} {a : List String} {n : String}
  {e : Entry} {f : Path} {bytes : ByteArray}

@[simp] lemma hasDirectory_nil (d : Disk) : d.hasDirectory [] = true := rfl

lemma stands_of_hasDirectory (h : d.hasDirectory q = true) : d.Stands q :=
  ⟨.directory, hasDirectory_iff.1 h, by simp⟩

lemma Sound.hasDirectory_above (hd : d.Sound) (h : d.at? (q ++ r) = some e) (hr : r ≠ []) :
    d.hasDirectory q = true := by
  induction r using List.reverseRecOn generalizing e with
  | nil => exact absurd rfl hr
  | append_singleton r n ih =>
    rw [← List.append_assoc] at h
    have hdir := hd.inDirectory h
    cases r with
    | nil => rwa [List.append_nil] at hdir
    | cons m r => exact ih (hasDirectory_iff.1 hdir) (by simp)

lemma Sound.hasDirectory_dropLast (hd : d.Sound) (h : d.hasDirectory q = true) :
    d.hasDirectory q.dropLast = true := by
  cases q using List.reverseRecOn with
  | nil => exact h
  | append_singleton q n =>
    rw [List.dropLast_concat]
    exact hd.inDirectory (hasDirectory_iff.1 h)

lemma mem_of_at? (h : d.at? q = some e) (hq : q ≠ []) : (q, e) ∈ d.entries := by
  unfold at? at h
  rw [if_neg hq, List.lookup_eq_some_iff] at h
  obtain ⟨before, after, he, -⟩ := h
  rw [he]
  simp

lemma mem_of_link {t : Path} (h : d.at? q = some (.link t)) : (q, .link t) ∈ d.entries := by
  refine mem_of_at? h ?_
  rintro rfl
  cases h

lemma at?_of_mem (hd : d.Sound) (h : (q, e) ∈ d.entries) (hq : q ≠ []) : d.at? q = some e := by
  unfold at?
  rw [if_neg hq, List.lookup_eq_some_iff]
  obtain ⟨before, after, he⟩ := List.append_of_mem h
  refine ⟨before, after, he, fun x hx => ?_⟩
  have hdistinct := hd.distinct
  rw [he, List.map_append, List.nodup_append] at hdistinct
  have := hdistinct.2.2 x.1 (List.mem_map_of_mem hx) q (by simp)
  simpa using Ne.symm this

/-- A disk is sound if each of its entries is in order. -/
lemma sound_of_entries (hkeys : (d.entries.map Prod.fst).Nodup)
    (h : ∀ x ∈ d.entries, d.hasDirectory x.1.dropLast = true ∧ ∀ n ∈ x.1, IsName n) :
    d.Sound := by
  have hentry {q : Place} {n : String} {e : Entry} (he : d.at? (q ++ [n]) = some e) :
      d.hasDirectory q = true ∧ IsName n := by
    obtain ⟨hdir, hnames⟩ := h _ (mem_of_at? he (by simp))
    rw [List.dropLast_concat] at hdir
    exact ⟨hdir, hnames n (by simp)⟩
  exact ⟨hkeys, fun he => (hentry he).1, fun he => (hentry he).2⟩

/-- To what there is, its names lead. -/
lemma Sound.way_of_at? {names : List String} (hd : d.Sound) (links : Nat)
    (hfits : ∀ n ∈ names, Fits n) (hx : d.at? (p ++ names) = some e) (hl : ∀ t, e ≠ .link t) :
    Way d links p names links (p ++ names) := by
  induction names generalizing p with
  | nil =>
    rw [List.append_nil]
    exact .done
  | cons n names ih =>
    rw [List.forall_mem_cons] at hfits
    have hsplit : p ++ n :: names = p ++ [n] ++ names := by simp
    rw [hsplit] at hx ⊢
    have hp : d.hasDirectory p = true := by
      rw [List.append_assoc] at hx
      exact hd.hasDirectory_above hx (by simp)
    have hrest := ih hfits.2 hx
    cases names with
    | nil =>
      rw [List.append_nil] at hx hrest ⊢
      exact .enter hp hfits.1 hx hl .done
    | cons m names =>
      have hdir := hd.hasDirectory_above hx (by simp)
      exact .enter hp hfits.1 (hasDirectory_iff.1 hdir) (by simp) hrest

lemma Sound.follow_of_at? {names : List String} {last : Bool} (hd : d.Sound)
    (hfits : ∀ n ∈ names, Fits n) (hx : d.at? (p ++ names) = some e) (hl : ∀ t, e ≠ .link t) :
    d.follow last links p names = .ok (.taken (p ++ names)) := by
  cases names using List.reverseRecOn with
  | nil => rw [follow_nil, List.append_nil]
  | append_singleton names n =>
    rw [List.forall_mem_append] at hfits
    rw [← List.append_assoc] at hx ⊢
    have hdir := hd.inDirectory hx
    have hw := hd.way_of_at? links hfits.1 (hasDirectory_iff.1 hdir) (by simp)
    rw [hw.follow_append (Or.inr (by simp)),
      follow_entry hdir (hfits.2 n (List.mem_singleton_self n)) hx hl, follow_nil]

lemma Sound.locate_of_at? {last : Bool} (hd : d.Sound) (hv : f.Valid) (he : f.EndsInStep)
    (hfits : ∀ n ∈ f.steps, Fits n) (hx : d.at? (d.startOf f ++ f.steps) = some e)
    (hl : ∀ t, e ≠ .link t) : d.locate last f = .ok (d.startOf f ++ f.steps) := by
  rw [locate, find_steps hv he, hd.follow_of_at? hfits hx hl]

lemma startOf_top (h : d.here = []) (f : Path) : d.startOf f = [] := by
  unfold Disk.startOf
  split
  · rfl
  · exact h

/-- The same where relative paths start from the top. -/
lemma Sound.locate_top {last : Bool} (hd : d.Sound) (hhere : d.here = []) (hv : f.Valid)
    (he : f.EndsInStep) (hfits : ∀ n ∈ f.steps, Fits n) (hx : d.at? f.steps = some e)
    (hl : ∀ t, e ≠ .link t) : d.locate last f = .ok f.steps := by
  have hstart := startOf_top hhere f
  have hlocate : d.locate last f = .ok (d.startOf f ++ f.steps) :=
    hd.locate_of_at? hv he hfits (by rw [hstart, List.nil_append, hx]) hl
  rwa [hstart, List.nil_append] at hlocate

/-- A way ends at something, and not at a link. -/
lemma Way.stands (hd : d.Sound) (h : Way d links p a links' q) (hp : d.Stands p ∨ a ≠ []) :
    d.Stands q := by
  induction h with
  | done => exact hp.resolve_right fun h => h rfl
  | idle hdir _ _ ih => exact ih (Or.inl (stands_of_hasDirectory hdir))
  | up hdir _ ih => exact ih (Or.inl (stands_of_hasDirectory (hd.hasDirectory_dropLast hdir)))
  | enter _ _ he hl _ ih => exact ih (Or.inl ⟨_, he, hl⟩)
  | @link links p n rest links' q t hdir _ _ _ ih =>
    refine ih (Or.inl ?_)
    split
    · exact stands_of_hasDirectory rfl
    · exact stands_of_hasDirectory hdir

/-- All that the first disk holds is on the second, as it is. -/
structure Extends (d d' : Disk) : Prop where
  here : d'.here = d.here
  at? : ∀ {q e}, d.at? q = some e → d'.at? q = some e

lemma Extends.trans {d'' : Disk} (h : Extends d d') (h' : Extends d' d'') : Extends d d'' :=
  ⟨h'.here.trans h.here, fun he => h'.at? (h.at? he)⟩

lemma Extends.keeps (h : Extends d d') : Keeps d d' :=
  ⟨h.here, fun {_ e} he => ⟨e, h.at? he, .same e⟩⟩

/-! ### Changes at one place -/

lemma keys_put (p : Place) (e : Entry) (es : List (Place × Entry)) :
    (put p e es).map Prod.fst =
      if p ∈ es.map Prod.fst then es.map Prod.fst else es.map Prod.fst ++ [p] := by
  induction es with
  | nil => rfl
  | cons x es ih =>
    obtain ⟨q, g⟩ := x
    unfold put
    by_cases hq : q = p
    · simp [hq]
    · simp only [if_neg hq, List.map_cons, ih, List.mem_cons, Ne.symm hq, false_or]
      split
      · rfl
      · rfl

lemma Sound.set (hd : d.Sound) (hq : d.hasDirectory q = true) (hn : IsName n)
    (hfree : d.hasDirectory (q ++ [n]) = false) : (d.set (q ++ [n]) e).Sound := by
  have hat (r : Place) : (d.set (q ++ [n]) e).at? r =
      if r = q ++ [n] then some e else d.at? r := at?_set e r (by simp)
  have hdir (r : Place) (hr : d.hasDirectory r = true) :
      (d.set (q ++ [n]) e).hasDirectory r = true := by
    rw [hasDirectory_iff, hat, if_neg ?_]
    · exact hasDirectory_iff.1 hr
    · rintro rfl
      rw [hfree] at hr
      cases hr
  refine ⟨?_, fun {r m g} h => ?_, fun {r m g} h => ?_⟩
  · show ((put _ _ _).map _).Nodup
    rw [keys_put]
    split
    · exact hd.distinct
    · rename_i hnew
      rw [← List.concat_eq_append]
      exact List.Nodup.concat hnew hd.distinct
  · rw [hat] at h
    split at h
    · rename_i he
      obtain ⟨rfl, -⟩ := List.append_inj' he rfl
      exact hdir r hq
    · exact hdir r (hd.inDirectory h)
  · rw [hat] at h
    split at h
    · rename_i he
      obtain ⟨-, he⟩ := List.append_inj' he rfl
      rw [List.singleton_inj.1 he]
      exact hn
    · exact hd.named h

lemma at?_clear_of_below (h : p <+: q) (hq : q ≠ []) : (d.clear p).at? q = none := by
  cases p with
  | nil => simp [clear, at?, hq]
  | cons m p => rw [at?_clear q (by simp), if_pos (List.isPrefixOf_iff_prefix.2 h)]

lemma at?_clear_of_not_below (h : ¬ p <+: q) : (d.clear p).at? q = d.at? q := by
  cases p with
  | nil => exact absurd (List.nil_prefix) h
  | cons m p => rw [at?_clear q (by simp), if_neg (by rwa [List.isPrefixOf_iff_prefix])]

lemma Sound.clear (hd : d.Sound) (p : Place) : (d.clear p).Sound := by
  have hnot {q : Place} {n : String} {e : Entry} (h : (d.clear p).at? (q ++ [n]) = some e) :
      ¬ p <+: q ++ [n] := by
    intro hp
    rw [at?_clear_of_below hp (by simp)] at h
    cases h
  refine ⟨?_, fun {q n e} h => ?_, fun {q n e} h => ?_⟩
  · exact List.Nodup.sublist (List.Sublist.map _ List.filter_sublist) hd.distinct
  · have hp := hnot h
    rw [at?_clear_of_not_below hp] at h
    rw [hasDirectory_iff, at?_clear_of_not_below fun hq => hp (hq.trans (List.prefix_append _ _))]
    exact hasDirectory_iff.1 (hd.inDirectory h)
  · rw [at?_clear_of_not_below (hnot h)] at h
    exact hd.named h

/-! ### Requests -/

lemma Fits.isName (h : Fits n) (hs : '/' ∉ n.toList) : IsName n :=
  ⟨counts_iff.2 h.counts, h.notUp, hs⟩

lemma find_free {last b : Bool} (h : d.find last f = .ok (.free r b)) :
    ∃ q n, r = q ++ [n] ∧ d.hasDirectory q = true ∧ IsName n ∧ d.at? r = none := by
  rw [find_eq (valid_of_find h)] at h
  obtain ⟨q, n, hr, hq, hn, hs, he⟩ := follow_found (fun _ => Path.noSlash_of_mem_names) h
  exact ⟨q, n, hr, hq, hn.isName hs, he⟩

lemma locate_of_way (hv : f.Valid) (hw : Way d linkLimit (d.startOf f) f.names links q) :
    d.locate true f = .ok q := by
  unfold locate
  rw [find_eq hv, hw.follow]

/-- The path leads to what is put at its free place. -/
lemma locate_set_of_free {last : Bool} (h : d.find last f = .ok (.free q false))
    (hl : ∀ t, e ≠ .link t) : (d.set q e).locate true f = .ok q := by
  have hv := valid_of_find h
  rw [find_eq hv] at h
  obtain ⟨links, hw⟩ := exists_way_of_free (fun _ => Path.noSlash_of_mem_names) h hl
  exact locate_of_way hv hw

lemma exists_way_of_locate (h : d.locate true f = .ok q) :
    f.Valid ∧ ∃ links, Way d linkLimit (d.startOf f) f.names links q := by
  unfold locate at h
  cases hs : d.find true f with
  | error e => simp [hs] at h
  | ok s =>
    cases s with
    | free r b => simp [hs] at h
    | taken r =>
      obtain rfl : r = q := by simpa [hs] using h
      have hv := valid_of_find hs
      rw [find_eq hv] at hs
      have hfound := follow_found (fun _ => Path.noSlash_of_mem_names) hs
      exact ⟨hv, hfound.resolve_right fun h => Bool.noConfusion h.1⟩

/-- What is found behind the last link stands there. -/
lemma stands_of_locate (hd : d.Sound) (h : d.locate true f = .ok q) : d.Stands q := by
  obtain ⟨-, links, hw⟩ := exists_way_of_locate h
  refine hw.stands hd (Or.inr ?_)
  simpa [Path.names] using f.pieces_ne_nil

/-- What is found is found where nothing was lost. -/
lemma Keeps.locate (hk : Keeps d d') (h : d.locate true f = .ok q) :
    d'.locate true f = .ok q := by
  obtain ⟨hv, links, hw⟩ := exists_way_of_locate h
  have hw' := hw.keeps hk
  rw [← hk.startOf] at hw'
  exact locate_of_way hv hw'

lemma read_iff : d.read f = .ok bytes ↔
    ∃ q, d.locate true f = .ok q ∧ d.at? q = some (.file bytes) := by
  unfold Disk.read
  rw [bind_eq_ok]
  refine exists_congr fun q => and_congr_right fun _ => ?_
  cases d.at? q with
  | none => simp
  | some e => cases e <;> simp

lemma isFile_iff : d.isFile f = true ↔ ∃ bytes, d.read f = .ok bytes := by
  simp only [read_iff]
  unfold isFile entry?
  cases d.locate true f with
  | error r => simp
  | ok q =>
    cases he : d.at? q with
    | none => simp [he]
    | some e => cases e <;> simp [he]

lemma not_isDirectory_of_isFile (h : d.isFile f = true) : ¬ d.isDirectory f = true := by
  obtain ⟨bytes, hread⟩ := isFile_iff.1 h
  obtain ⟨q, hq, hb⟩ := read_iff.1 hread
  rw [isDirectory_iff]
  rintro ⟨q', hq', hdir⟩
  obtain rfl := Except.ok.inj (hq.symm.trans hq')
  rw [hasDirectory_iff, hb] at hdir
  cases hdir

lemma Keeps.isFile (hk : Keeps d d') (h : d.isFile f = true) : d'.isFile f = true := by
  obtain ⟨bytes, hread⟩ := isFile_iff.1 h
  obtain ⟨q, hq, hb⟩ := read_iff.1 hread
  obtain ⟨e, he, halike⟩ := hk.at? hb
  obtain ⟨b, rfl⟩ : ∃ b, e = .file b := by
    cases halike with
    | same => exact ⟨_, rfl⟩
    | file _ b => exact ⟨b, rfl⟩
  exact isFile_iff.2 ⟨b, read_iff.2 ⟨q, hk.locate hq, he⟩⟩

/-- A file is there afterwards; there was nothing at its place, or a file. -/
structure Puts (d : Disk) (e : Entry) (q : Place) (n : String) : Prop where
  directory : d.hasDirectory q = true
  named : IsName n
  free : d.at? (q ++ [n]) = none ∨ ∃ b b', d.at? (q ++ [n]) = some (.file b) ∧ e = .file b'

lemma Puts.keeps (h : Puts d e q n) : Keeps d (d.set (q ++ [n]) e) := by
  refine keeps_set (fun g hg => ?_) (by simp)
  rcases h.free with hn | ⟨b, b', hb, rfl⟩
  · rw [hn] at hg
    cases hg
  · rw [hb] at hg
    cases hg
    exact .file b b'

lemma Puts.sound (hd : d.Sound) (h : Puts d e q n) : (d.set (q ++ [n]) e).Sound := by
  refine hd.set h.directory h.named ?_
  rcases h.free with hn | ⟨b, b', hb, rfl⟩
  · simp [hasDirectory, hn]
  · simp [hasDirectory, hb, Entry.isDirectory]

lemma makeDirectory_ok (h : d.makeDirectory f = .ok d') :
    ∃ q n, d' = d.set (q ++ [n]) .directory ∧ Puts d .directory q n := by
  obtain ⟨s, hs, h⟩ := bind_eq_ok.1 h
  cases s with
  | taken r => cases h
  | free r b =>
    obtain rfl := Except.ok.inj h
    obtain ⟨q, n, rfl, hq, hn, he⟩ := find_free hs
    exact ⟨q, n, rfl, hq, hn, Or.inl he⟩

lemma target_ok {last : Bool} {s : Spot} (h : d.target last f = .ok s) :
    d.find last f = .ok s ∧ ∀ q, s ≠ .free q true := by
  unfold target at h
  split at h
  · obtain ⟨s', -, h⟩ := bind_eq_ok.1 h
    cases h
  · obtain ⟨s', hs, h⟩ := bind_eq_ok.1 h
    split at h
    · cases h
    · rename_i hfree
      obtain rfl := Except.ok.inj h
      exact ⟨hs, fun q hq => hfree q hq⟩

lemma target_free {last b : Bool} (h : d.target last f = .ok (.free r b)) :
    ∃ q n, r = q ++ [n] ∧ d.at? r = none ∧ (∀ bytes, Puts d (.file bytes) q n) ∧
      ∀ bytes, (d.set r (.file bytes)).locate true f = .ok r := by
  obtain ⟨hf, hb⟩ := target_ok h
  obtain ⟨q, n, rfl, hq, hn, he⟩ := find_free hf
  have hb : b = false := by
    cases b with
    | false => rfl
    | true => exact absurd rfl (hb _)
  rw [hb] at hf
  exact ⟨q, n, rfl, he, fun _ => ⟨hq, hn, Or.inl he⟩, fun _ => locate_set_of_free hf (by simp)⟩

lemma createNew_ok (h : d.createNew f bytes = .ok d') :
    ∃ q n, d' = d.set (q ++ [n]) (.file bytes) ∧ Puts d (.file bytes) q n ∧
      d.at? (q ++ [n]) = none ∧ d'.locate true f = .ok (q ++ [n]) := by
  obtain ⟨s, hs, h⟩ := bind_eq_ok.1 h
  cases s with
  | taken r => cases h
  | free r b =>
    obtain rfl := Except.ok.inj h
    obtain ⟨q, n, rfl, he, hputs, hlocate⟩ := target_free hs
    exact ⟨q, n, rfl, hputs bytes, he, hlocate bytes⟩

lemma write_ok (hd : d.Sound) (h : d.write f bytes = .ok d') :
    ∃ q n, d' = d.set (q ++ [n]) (.file bytes) ∧ Puts d (.file bytes) q n ∧
      (d.at? (q ++ [n]) = none ∨ d.locate true f = .ok (q ++ [n])) ∧
      d'.locate true f = .ok (q ++ [n]) := by
  obtain ⟨s, hs, h⟩ := bind_eq_ok.1 h
  cases s with
  | free r b =>
    obtain rfl := Except.ok.inj h
    obtain ⟨q, n, rfl, he, hputs, hlocate⟩ := target_free hs
    exact ⟨q, n, rfl, hputs bytes, Or.inl he, hlocate bytes⟩
  | taken r =>
    have hr : d.locate true f = .ok r := by
      unfold locate
      rw [(target_ok hs).1]
    obtain ⟨e, he, hl⟩ := stands_of_locate hd hr
    dsimp only at h
    split at h
    · cases h
    · rename_i hdir
      obtain rfl := Except.ok.inj h
      rw [hasDirectory_iff] at hdir
      cases r using List.reverseRecOn with
      | nil => exact absurd rfl hdir
      | append_singleton q n =>
        have hputs : Puts d (.file bytes) q n := by
          refine ⟨hd.inDirectory he, hd.named he, Or.inr ?_⟩
          cases e with
          | directory => exact absurd he hdir
          | file b => exact ⟨b, bytes, he, rfl⟩
          | link t => exact absurd rfl (hl t)
        exact ⟨q, n, rfl, hputs, Or.inr hr, hputs.keeps.locate hr⟩

lemma write_free (hf : d.find true f = .ok (.free q false)) (hplain : f.asksForDirectory = false) :
    d.write f bytes = .ok (d.set q (.file bytes)) := by
  rw [write, target, hplain, hf]
  rfl

lemma write_taken (hf : d.find true f = .ok (.taken q)) (hplain : f.asksForDirectory = false)
    (hq : d.hasDirectory q = false) : d.write f bytes = .ok (d.set q (.file bytes)) := by
  rw [write, target, hplain, hf]
  simp [bind, Except.bind, hq]

end ProviderGen.Disk
