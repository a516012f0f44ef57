import ProviderGen.Proofs.Disk.Failure
import ProviderGen.Proofs.Files.FirstLine
import ProviderGen.Proofs.Files.Grounds
import ProviderGen.Proofs.Files.Parents

/-!
Writing safely, in all cases. First the parent directories are made; from then on what lies at the
path decides. Where there is nothing, the file is new; a file that was generated is replaced; one
that is the user's is left alone, and all the rest is refused.
-/

namespace ProviderGen

namespace Disk

open Files (makeParent)

/-- Nothing is at the path, the directory that it lies in is there, and a file can have the name
that it ends in. -/
structure FreeAt (d : Disk) (f : Path) : Prop where
  valid : f.Valid
  ends : f.EndsInStep
  fits : ∀ n ∈ f.steps.getLast?, Fits n
  directory : ∃ g q, f.parent? = some g ∧ d.Leads g q ∧ d.hasDirectory q = true
  nothing : ∀ q, d.locate false f ≠ .ok q

variable {d d' : Disk} {f : Path} {bytes bytes' : ByteArray} {q : Place} {e : Entry}

lemma FreeAt.find (h : d.FreeAt f) :
    ∃ q, d.find false f = .ok (.free q false) ∧ d.at? q = none := by
  obtain ⟨g, n, hg, -, hsteps, -, hstart⟩ := exists_front h.ends
  obtain ⟨g', p, hg', ⟨links, hw⟩, hp⟩ := h.directory
  obtain rfl := Option.some.inj (hg.symm.trans hg')
  have hfits : Fits n := h.fits n (by simp [hsteps])
  have hat : At d f n links p := ⟨h.valid, h.ends, g.steps, hsteps, hstart d ▸ hw⟩
  have hnone : d.at? (p ++ [n]) = none := by
    cases he : d.at? (p ++ [n]) with
    | none => rfl
    | some e =>
      refine absurd ?_ (h.nothing (p ++ [n]))
      rw [Disk.locate, hat.find, follow_single_of_at? hp hfits he]
  refine ⟨p ++ [n], ?_, hnone⟩
  rw [hat.find, follow_absent hp hfits hnone]
  rfl

lemma createNew_of_freeAt (h : d.FreeAt f) (bytes : ByteArray) :
    ∃ q, d.at? q = none ∧ d.createNew f bytes = .ok (d.set q (.file bytes)) ∧
      (d.set q (.file bytes)).locate true f = .ok q := by
  obtain ⟨q, hfind, hnone⟩ := h.find
  refine ⟨q, hnone, ?_, locate_set_of_free hfind (by simp)⟩
  simp [Disk.createNew, Disk.target, h.ends.not_asksForDirectory, hfind, bind, Except.bind]

/-- A file can be created only at such a path. -/
lemma freeAt_of_createNew (hd : d.Sound) (h : d.createNew f bytes = .ok d') : d.FreeAt f := by
  obtain ⟨s, hs, hcreate⟩ := bind_eq_ok.1 h
  cases s with
  | taken r => cases hcreate
  | free r b =>
    have hfind := (target_ok hs).1
    obtain ⟨q, n, rfl, hputs, hnone, hplace⟩ := createNew_ok h
    have hnew : (d.set (q ++ [n]) (.file bytes)).at? (q ++ [n]) = some (.file bytes) := by
      rw [at?_set _ _ (by simp), if_pos rfl]
    have hrewrites : Rewrites d (q ++ [n]) (d.set (q ++ [n]) (.file bytes)) :=
      ⟨rfl, fun r hr => by rw [at?_set _ _ (by simp), if_neg hr], ⟨_, hnew⟩, Or.inl hnone⟩
    obtain ⟨m, links, p, hat, hp, hfits, -⟩ := hrewrites.exists_at (hputs.sound hd) hplace
    obtain ⟨a, hsteps, hw⟩ := hat.way
    obtain ⟨g, n', hg, -, hsteps', -, hstart⟩ := exists_front hat.ends
    obtain ⟨rfl, -⟩ := List.append_inj' (hsteps.symm.trans hsteps') rfl
    refine ⟨hat.valid, hat.ends, ?_, ⟨g, p, hg, ⟨links, hstart d ▸ hw⟩, hp⟩, fun x hx => ?_⟩
    · rw [hsteps, List.getLast?_concat]
      rintro _ ⟨⟩
      exact hfits
    · rw [Disk.locate, hfind] at hx
      cases hx

/-- A file is in the way of a new one. -/
lemma createNew_of_read (hd : d.Sound) (h : d.read f = .ok bytes) :
    d.createNew f bytes' = .error .occupied := by
  obtain ⟨q, hq, hb⟩ := read_iff.1 h
  obtain ⟨n, links, p, _, hat, hlast⟩ := exists_at_of_locate hd hq (hasDirectory_of_file hb)
  obtain ⟨x, hx⟩ := hlast.follow_single hat.counts
  have hfind : d.find false f = .ok (.taken x) := by rw [hat.find, hx]
  simp [Disk.createNew, Disk.target, hat.ends.not_asksForDirectory, hfind, bind, Except.bind]

/-- What is at a place is not free. -/
lemma not_freeAt_of_read (hd : d.Sound) (h : d.read f = .ok bytes) : ¬ d.FreeAt f := by
  intro hfree
  obtain ⟨q, -, hcreate, -⟩ := createNew_of_freeAt hfree bytes
  rw [createNew_of_read hd h] at hcreate
  cases hcreate

end Disk

namespace Files

open Disk (outcome Adds)
open Template (marker)
open Text (trimEnd)

variable {d d' d₁ : Disk} {p : Path} {text : String} {r : Except Error Unit × Disk}

/-- What comes of writing a text safely on a disk that has the parent directories. -/
structure SafeWriting (p : Path) (text : String) (d : Disk) (r : Except Error Unit × Disk) :
    Prop where
  new : d.FreeAt p → ∃ q, d.at? q = none ∧ r = (.ok (), d.set q (.file text.toUTF8)) ∧
    r.2.locate true p = .ok q
  replaced : ∀ q bytes, d.locate true p = .ok q → d.at? q = some (.file bytes) →
    Generated bytes → r = (.ok (), d.set q (.file text.toUTF8))
  kept : ∀ bytes, d.read p = .ok bytes → Owned bytes → r = (.error (.fileExists p), d)
  refused : ¬ d.FreeAt p → (∀ bytes line, d.read p = .ok bytes → ¬ FirstLine bytes line) →
    ∃ cause, r = (.error (.refused p cause), d)

/-- A file that is there is overwritten in its place. -/
lemma outcome_overwrite {q : Place} {bytes : ByteArray} (hd : d.Sound)
    (hq : d.locate true p = .ok q) (hb : d.at? q = some (.file bytes)) :
    outcome (overwrite p text) d = (.ok (), d.set q (.file text.toUTF8)) := by
  have hfile := Disk.hasDirectory_of_file hb
  have hends := Disk.endsInStep_of_locate hd hq hfile
  have hwrite : d.write p text.toUTF8 = .ok (d.set q (.file text.toUTF8)) :=
    Disk.write_taken (Disk.find_of_locate hq) hends.not_asksForDirectory hfile
  refine Disk.outcome_bind_ok.2
    ⟨(), d, Disk.makeParent_there hd (Disk.read_iff.2 ⟨q, hq, hb⟩), ?_⟩
  exact Disk.outcome_orRefused_ok.2 (Disk.perform_change_ok.2 hwrite)

lemma safeWriting (hd : d₁.Sound) (h : outcome (makeParent p) d = (.ok (), d₁)) (text : String) :
    SafeWriting p text d₁ (outcome (safeWrite p text) d) := by
  rw [outcome_safeWrite h]
  refine ⟨fun hfree => ?_, fun q bytes hq hb hgenerated => ?_, fun bytes hread howned => ?_,
    fun hnot htext => ?_⟩
  · obtain ⟨q, hnone, hcreate, hplace⟩ := Disk.createNew_of_freeAt hfree text.toUTF8
    rw [hcreate]
    exact ⟨q, hnone, rfl, hplace⟩
  · have hread : d₁.read p = .ok bytes := Disk.read_iff.2 ⟨q, hq, hb⟩
    have hmarked : (d₁.read p).bind isGenerated = .ok true := by
      rw [hread]
      exact isGenerated_of_generated hgenerated
    rw [Disk.createNew_of_read hd hread, hmarked]
    exact outcome_overwrite hd hq hb
  · have hmarked : (d₁.read p).bind isGenerated = .ok false := by
      rw [hread]
      exact isGenerated_of_owned howned
    rw [Disk.createNew_of_read hd hread, hmarked]
  · cases hcreate : d₁.createNew p text.toUTF8 with
    | ok d' => exact absurd (Disk.freeAt_of_createNew hd hcreate) hnot
    | error r =>
      cases r with
      | occupied =>
        dsimp only
        cases hread : d₁.read p with
        | error r => exact ⟨r, rfl⟩
        | ok bytes =>
          cases hmarked : isGenerated bytes with
          | ok b =>
            obtain ⟨line, hline⟩ := exists_firstLine hmarked
            exact absurd hline (htext bytes line hread)
          | error r =>
            refine ⟨r, ?_⟩
            simp only [Except.bind, hmarked]
      | _ => exact ⟨_, rfl⟩

/-- Safe writing ends where the parent directories cannot be made. -/
lemma outcome_safeWrite_error {e : Error} (h : outcome (makeParent p) d = (.error e, d₁)) :
    outcome (safeWrite p text) d = (.error e, d₁) :=
  Disk.outcome_bind_error.2 (Or.inl h)

/-- There are no other outcomes: the text is at the path, or the disk is as it was. -/
lemma SafeWriting.cases (h : SafeWriting p text d r) :
    (r.1 = .ok () ∧ r.2.read p = .ok text.toUTF8) ∨
      (∃ bytes, d.read p = .ok bytes ∧ Owned bytes ∧ r = (.error (.fileExists p), d)) ∨
      ∃ cause, r = (.error (.refused p cause), d) := by
  have hread {q : Place} (hq : q ≠ [])
      (hplace : (d.set q (.file text.toUTF8)).locate true p = .ok q) :
      (d.set q (.file text.toUTF8)).read p = .ok text.toUTF8 :=
    Disk.read_iff.2 ⟨q, hplace, by rw [Disk.at?_set _ _ hq, if_pos rfl]⟩
  by_cases hfree : d.FreeAt p
  · obtain ⟨q, hnone, rfl, hplace⟩ := h.new hfree
    refine Or.inl ⟨rfl, hread ?_ hplace⟩
    rintro rfl
    cases hnone
  · by_cases htext : ∃ bytes line, d.read p = .ok bytes ∧ FirstLine bytes line
    · obtain ⟨bytes, line, hbytes, hline⟩ := htext
      by_cases htrim : trimEnd line.toList = marker.toList
      · obtain ⟨q, hq, hb⟩ := Disk.read_iff.1 hbytes
        have hne : q ≠ [] := by
          rintro rfl
          cases hb
        obtain rfl := h.replaced q bytes hq hb ⟨line, hline, htrim⟩
        have hkeeps : Disk.Keeps d (d.set q (.file text.toUTF8)) := by
          refine Disk.keeps_set (fun e he => ?_) hne
          rw [hb] at he
          cases he
          exact .file _ _
        exact Or.inl ⟨rfl, hread hne (hkeeps.locate hq)⟩
      · have howned : Owned bytes := ⟨line, hline, htrim⟩
        exact Or.inr (Or.inl ⟨bytes, hbytes, howned, h.kept bytes hbytes howned⟩)
    · refine Or.inr (Or.inr (h.refused hfree fun bytes line hbytes hline => htext ?_))
      exact ⟨bytes, line, hbytes, hline⟩

/-- What was written safely is there. -/
lemma safeWrite_ok (hd : d.Sound) (h : outcome (safeWrite p text) d = (.ok (), d')) :
    d'.Sound ∧ d'.read p = .ok text.toUTF8 := by
  refine ⟨(safeWrite_changes hd h).sound, ?_⟩
  rcases hparent : outcome (makeParent p) d with ⟨r₁, d₁⟩
  cases r₁ with
  | error e =>
    rw [outcome_safeWrite_error hparent] at h
    cases h
  | ok u =>
    have hd₁ : d₁.Sound := by
      have := (Disk.makeParent_adds hd p).sound
      rwa [hparent] at this
    have hwriting := safeWriting hd₁ hparent text
    rw [h] at hwriting
    rcases hwriting.cases with ⟨-, hread⟩ | ⟨_, -, -, hfail⟩ | ⟨_, hfail⟩
    · exact hread
    · cases hfail
    · cases hfail

/-- A safe writing that fails has added directories above the path, and nothing else. -/
lemma safeWrite_failed {e : Error} (hd : d.Sound)
    (h : outcome (safeWrite p text) d = (.error e, d')) : Adds p.Above d d' := by
  have hadds := Disk.makeParent_adds hd p
  rcases hparent : outcome (makeParent p) d with ⟨r₁, d₁⟩
  rw [hparent] at hadds
  cases r₁ with
  | error e₁ =>
    rw [outcome_safeWrite_error hparent] at h
    cases h
    exact hadds
  | ok u =>
    have hwriting := safeWriting hadds.sound hparent text
    rw [h] at hwriting
    rcases hwriting.cases with ⟨hok, -⟩ | ⟨_, -, -, hfail⟩ | ⟨_, hfail⟩
    · cases hok
    · cases hfail
      exact hadds
    · cases hfail
      exact hadds

/-- A file that is there is written again just if it was generated. -/
lemma safeWrite_there_iff {bytes : ByteArray} (hd : d.Sound) (h : d.read p = .ok bytes) :
    (outcome (safeWrite p text) d).1 = .ok () ↔ Generated bytes := by
  have hwriting := safeWriting hd (Disk.makeParent_there hd h) text
  constructor
  · intro hok
    rcases hwriting.cases with ⟨-, hread⟩ | ⟨_, -, -, hfail⟩ | ⟨_, hfail⟩
    · by_contra hnot
      by_cases htext : ∃ line, FirstLine bytes line
      · obtain ⟨line, hline⟩ := htext
        have howned : Owned bytes := ⟨line, hline, fun htrim => hnot ⟨line, hline, htrim⟩⟩
        rw [hwriting.kept bytes h howned] at hok
        cases hok
      · obtain ⟨cause, hfail⟩ := hwriting.refused (Disk.not_freeAt_of_read hd h)
          fun b line hb hline => htext ⟨line, Except.ok.inj (h.symm.trans hb) ▸ hline⟩
        rw [hfail] at hok
        cases hok
    · rw [hfail] at hok
      cases hok
    · rw [hfail] at hok
      cases hok
  · intro hgenerated
    obtain ⟨q, hq, hb⟩ := Disk.read_iff.1 h
    rw [hwriting.replaced q bytes hq hb hgenerated]

/-- In a directory that is there, what lies under the name decides. -/
lemma safeWrite_at {n : String} {links : ℕ} {q : Place} (hd : d.Sound)
    (h : Disk.At d p n links q) (hq : d.hasDirectory q = true) (hn : Disk.Fits n)
    (text : String) : (d.at? (q ++ [n]) = none →
      outcome (safeWrite p text) d = (.ok (), d.set (q ++ [n]) (.file text.toUTF8))) ∧
    ∀ bytes, d.at? (q ++ [n]) = some (.file bytes) →
      (Generated bytes →
        outcome (safeWrite p text) d = (.ok (), d.set (q ++ [n]) (.file text.toUTF8))) ∧
      (Owned bytes → outcome (safeWrite p text) d = (.error (.fileExists p), d)) := by
  have hparent := h.makeParent_there hq
  have hwriting := safeWriting hd hparent text
  refine ⟨fun hnone => ?_, fun bytes hb => ?_⟩
  · rw [outcome_safeWrite hparent, h.createNew_free hq hn hnone]
  · have hplace : d.locate true p = .ok (q ++ [n]) :=
      h.locate_iff.2 ⟨links, .enter hq hn hb (by simp) .done⟩
    exact ⟨hwriting.replaced _ _ hplace hb,
      hwriting.kept _ (Disk.read_iff.2 ⟨_, hplace, hb⟩)⟩

/-- **Writing safely.** Where the parent cannot be made, that is the error. Once it is made, what
is at the path decides; what can be read there was there before. Without going up, a path at which
there was nothing gets a new file. A failure has added directories above the path at most, and what
was written is written again just if its first line is the marker. -/
theorem safeWrite_outcomes (hd : d.Sound) (p : Path) (text : String) :
    (∀ e d₁, outcome (makeParent p) d = (.error e, d₁) →
      (∃ g cause, p.parent? = some g ∧ e = .refused g cause) ∧
        outcome (safeWrite p text) d = (.error e, d₁)) ∧
    (∀ d₁, outcome (makeParent p) d = (.ok (), d₁) →
      SafeWriting p text d₁ (outcome (safeWrite p text) d)) ∧
    (∀ bytes, d.read p = .ok bytes → outcome (makeParent p) d = (.ok (), d)) ∧
    (∀ d₁, p.Valid → p.EndsInStep → (∀ n ∈ p.steps.getLast?, Disk.Fits n) → ".." ∉ p.steps →
      d.hasDirectory (d.startOf p) = true → (∀ q, d.locate false p ≠ .ok q) →
      outcome (makeParent p) d = (.ok (), d₁) →
      ∃ q, d₁.at? q = none ∧
        outcome (safeWrite p text) d = (.ok (), d₁.set q (.file text.toUTF8)) ∧
        (d₁.set q (.file text.toUTF8)).locate true p = .ok q) ∧
    (∀ e d', outcome (safeWrite p text) d = (.error e, d') → Adds p.Above d d') ∧
    (∀ d', outcome (safeWrite p text) d = (.ok (), d') → d'.read p = .ok text.toUTF8 ∧
      ∀ text', (outcome (safeWrite p text') d').1 = .ok () ↔
        trimEnd (text.toList.takeWhile (· != '\n')) = marker.toList) := by
  have hsound {d₁ : Disk} (h : outcome (makeParent p) d = (.ok (), d₁)) : d₁.Sound := by
    have hadds := (Disk.makeParent_adds hd p).sound
    rwa [h] at hadds
  refine ⟨fun e d₁ h => ⟨Disk.makeParent_error h, outcome_safeWrite_error h⟩,
    fun d₁ h => safeWriting (hsound h) h text, fun bytes h => Disk.makeParent_there hd h,
    fun d₁ hv hends hfits hup hstart hnone h => ?_, fun e d' h => safeWrite_failed hd h,
    fun d' h => ?_⟩
  · obtain ⟨g, n, links, q, hg, -, -, hleads, hdir⟩ := Disk.makeParent_makes hends h
    have hmissing := Disk.makeParent_missing hd hends hup h hnone
    have hfree : d₁.FreeAt p := ⟨hv, hends, hfits, ⟨g, q, hg, hleads, hdir hstart⟩, hmissing⟩
    obtain ⟨q, hq, hr, hplace⟩ := (safeWriting (hsound h) h text).new hfree
    rw [hr] at hplace
    exact ⟨q, hq, hr, hplace⟩
  · obtain ⟨hd', hread⟩ := safeWrite_ok hd h
    exact ⟨hread, fun text' => (safeWrite_there_iff hd' hread).trans generated_text_iff⟩

/-! ### A file of the user's -/

/-- A disk with one file, which is the user's. -/
def shelf : Disk := ⟨[(["x"], .file "mine".toUTF8)], []⟩

/-- The same with a directory beside the file. -/
def shelfNew : Disk := shelf.set ["new"] .directory

lemma shelf_sound : shelf.Sound := Disk.sound_of_entries (by decide) (by decide)

lemma shelf_owned : Owned "mine".toUTF8 := by
  rw [owned_text_iff, generated_text_iff]
  decide

/-- Behind the name of the directory nothing can be found. -/
lemma shelf_missing {f : Path} {n : String} {rest : List String} (hv : f.Valid)
    (hends : f.EndsInStep) (hsteps : f.steps = "new" :: n :: rest) (hn : n ≠ "") (q : Place) :
    shelf.locate false f ≠ .ok q := by
  intro hq
  have hfind := Disk.find_of_locate hq
  rw [Disk.find_steps hv hends, hsteps, Disk.startOf_top rfl,
    Disk.follow_absent rfl (by decide) rfl] at hfind
  simp [hn] at hfind

/-- The directory is made on the way to what lies in it. -/
lemma shelf_makeParent {f g : Path} {rest : List String} {q : Place} (hg : f.parent? = some g)
    (hv : g.Valid) (hends : g.EndsInStep) (hsteps : g.steps = "new" :: rest)
    (hway : Disk.Way shelfNew Disk.linkLimit ["new"] rest Disk.linkLimit q)
    (hdir : shelfNew.hasDirectory q = true) :
    outcome (makeParent f) shelf = (.ok (), shelfNew) := by
  have hm : Disk.Makes shelf Disk.linkLimit (shelf.startOf g) g.steps shelfNew
      Disk.linkLimit q := by
    rw [hsteps, Disk.startOf_top rfl]
    exact .make rfl (Disk.Fits.isName (by decide) (by decide)) (by decide) rfl hway.makes
  unfold makeParent
  rw [hg]
  exact Disk.outcome_orRefused_ok.2 ((Disk.makeDirectories_iff hends).2 ⟨hv, _, q, hm, hdir⟩)

/-- The file is left alone, and a new one is created in a new directory. -/
theorem safeWrite_shelf : shelf.Sound ∧
    outcome (safeWrite ⟨"x"⟩ "text") shelf = (.error (.fileExists ⟨"x"⟩), shelf) ∧
    ∃ q, shelfNew.at? q = none ∧ outcome (safeWrite ⟨"new/x"⟩ "text") shelf =
      (.ok (), shelfNew.set q (.file "text".toUTF8)) := by
  obtain ⟨-, hmade, hthere, -⟩ := safeWrite_outcomes shelf_sound ⟨"x"⟩ "text"
  obtain ⟨-, -, -, hnew, -⟩ := safeWrite_outcomes shelf_sound ⟨"new/x"⟩ "text"
  have hread : shelf.read ⟨"x"⟩ = .ok "mine".toUTF8 := by
    have hends : Path.EndsInStep ⟨"x"⟩ := ⟨[], ['x'], rfl, rfl⟩
    refine Disk.read_iff.2 ⟨["x"], (Disk.locate_iff (by decide) hends).2
      ⟨Disk.linkLimit, ?_⟩, rfl⟩
    exact .enter rfl (by decide) rfl (by simp) .done
  have hends : Path.EndsInStep ⟨"new/x"⟩ := ⟨[['n', 'e', 'w']], ['x'], rfl, rfl⟩
  have hparent : outcome (makeParent ⟨"new/x"⟩) shelf = (.ok (), shelfNew) :=
    shelf_makeParent (g := ⟨"new"⟩) rfl (by decide) ⟨[], ['n', 'e', 'w'], rfl, rfl⟩ rfl .done rfl
  obtain ⟨q, hq, hr, -⟩ := hnew shelfNew (by decide) hends (by decide) (by decide) rfl
    (shelf_missing (by decide) hends rfl (by decide)) hparent
  exact ⟨shelf_sound, (hmade _ (hthere _ hread)).kept _ hread shelf_owned, q, hq, hr⟩

/-- **Behind a directory that is missing, a path can go up to a file.** Nothing is at the path, its
parent can be made and a file can have its name, but once the parent is made the user's file is
there. -/
theorem taken_behind_missing : shelf.Sound ∧
    (Path.Valid ⟨"new/../x"⟩ ∧ Path.EndsInStep ⟨"new/../x"⟩ ∧ Disk.Fits "x") ∧
    (∀ q, shelf.locate false ⟨"new/../x"⟩ ≠ .ok q) ∧
    outcome (makeParent ⟨"new/../x"⟩) shelf = (.ok (), shelfNew) ∧
    outcome (safeWrite ⟨"new/../x"⟩ "text") shelf =
      (.error (.fileExists ⟨"new/../x"⟩), shelfNew) := by
  have hends : Path.EndsInStep ⟨"new/../x"⟩ := ⟨[['n', 'e', 'w'], ['.', '.']], ['x'], rfl, rfl⟩
  have hparent : outcome (makeParent ⟨"new/../x"⟩) shelf = (.ok (), shelfNew) :=
    shelf_makeParent (g := ⟨"new/.."⟩) rfl (by decide) ⟨[['n', 'e', 'w']], ['.', '.'], rfl, rfl⟩ rfl
      (.up rfl .done) rfl
  have hsound : shelfNew.Sound := by
    have hadds := (Disk.makeParent_adds shelf_sound ⟨"new/../x"⟩).sound
    rwa [hparent] at hadds
  have hread : shelfNew.read ⟨"new/../x"⟩ = .ok "mine".toUTF8 := by
    refine Disk.read_iff.2 ⟨["x"], (Disk.locate_iff (by decide) hends).2 ⟨Disk.linkLimit, ?_⟩, rfl⟩
    have hlast : Disk.Way shelfNew Disk.linkLimit [] ["x"] Disk.linkLimit ["x"] :=
      .enter rfl (by decide) rfl (by simp) .done
    exact .enter rfl (by decide) rfl (by simp) (.up rfl hlast)
  exact ⟨shelf_sound, ⟨by decide, hends, by decide⟩,
    shelf_missing (by decide) hends rfl (by decide), hparent,
    (safeWriting hsound hparent _).kept _ hread shelf_owned⟩

end Files

end ProviderGen
