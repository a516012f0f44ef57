import ProviderGen.Proofs.Files.Grounds
import ProviderGen.Proofs.Project.ArchivePlace
import ProviderGen.Proofs.Project.Entries

/-!
Whether what is archived lies in the root. The test compares components and does not resolve them:
what stands behind the root in a path becomes the name of the entry, whatever it is. So names stay
below any directory that they are put under just if no path given goes up behind the root or, where
the root is empty, starts at the top. Apart from such paths, what is archived lies where its name
says, unless a link leads away from there, and what lies elsewhere is refused.
-/

namespace ProviderGen

/-! ### Components and steps -/

namespace Path

variable {p f root : Path} {n : String} {ns : List String} {rest front : List Component}

def stepComponent (n : String) : Component := if n = ".." then .up else .name n

/-- What a component adds to the steps. -/
def stepOf? : Component → Option String
  | .name n => some n
  | .up => some ".."
  | _ => none

/-- The step goes up or names an entry. -/
def Counts (n : String) : Prop := n = ".." ∨ IsName n

lemma components_eq (p : Path) : p.components = p.start ++ p.steps.map stepComponent := by
  rw [components, filterMap_componentOf?, ← steps_eq]
  rfl

lemma stepOf?_stepComponent (n : String) : stepOf? (stepComponent n) = some n := by
  unfold stepComponent
  split
  · rename_i h
    rw [h]
    rfl
  · rfl

lemma text_stepComponent (n : String) : (stepComponent n).text = n := by
  unfold stepComponent
  split
  · rename_i h
    rw [h]
    rfl
  · rfl

lemma top_ne_stepComponent (n : String) : Component.top ≠ stepComponent n := by
  unfold stepComponent
  split
  · simp
  · simp

lemma filterMap_stepOf? (ns : List String) : (ns.map stepComponent).filterMap stepOf? = ns := by
  have hstep : stepOf? ∘ stepComponent = some := funext stepOf?_stepComponent
  rw [List.filterMap_map, hstep, List.filterMap_some]

lemma top_notMem_map : Component.top ∉ ns.map stepComponent := by
  rw [List.mem_map]
  rintro ⟨n, -, h⟩
  exact top_ne_stepComponent n h.symm

lemma start_cases (p : Path) : p.isAbsolute = true ∧ p.start = [.top] ∨
    p.isAbsolute = false ∧ (p.start = [] ∨ p.start = [.here]) := by
  unfold start
  cases p.isAbsolute with
  | true => exact .inl ⟨rfl, rfl⟩
  | false =>
    refine .inr ⟨rfl, ?_⟩
    rw [if_neg (by simp)]
    split
    · exact .inr rfl
    · exact .inl rfl

lemma steps_eq_filterMap (p : Path) : p.steps = p.components.filterMap stepOf? := by
  rw [components_eq, List.filterMap_append, filterMap_stepOf?]
  rcases start_cases p with ⟨-, h⟩ | ⟨-, h | h⟩
  · rw [h]
    rfl
  · rw [h]
    rfl
  · rw [h]
    rfl

lemma isAbsolute_iff_top : p.isAbsolute = true ↔ .top ∈ p.components := by
  rw [components_eq, List.mem_append]
  rcases start_cases p with ⟨ha, h⟩ | ⟨ha, h | h⟩
  · simp [ha, h]
  · simp [ha, h, top_notMem_map]
  · simp [ha, h, top_notMem_map]

lemma counts_of_mem_steps (h : n ∈ p.steps) : Counts n := by
  by_cases hup : n = ".."
  · exact .inl hup
  · exact .inr (isName_of_mem_steps h hup)

lemma Counts.not_idle (h : Counts n) : isIdle n.toList = false := by
  rcases h with rfl | h
  · rfl
  · exact h.counts

lemma Counts.noSlash (h : Counts n) : '/' ∉ n.toList := by
  rcases h with rfl | h
  · decide
  · exact h.noSlash

/-- The end of a path: steps, maybe behind where a path can start. -/
lemma rest_cases (h : p.components = front ++ rest) : ∃ ns : List String, (∀ n ∈ ns, Counts n) ∧
    (rest = ns.map stepComponent ∨ rest = .here :: ns.map stepComponent ∨
      rest = .top :: ns.map stepComponent) := by
  rw [components_eq] at h
  have hcounts : ∀ n ∈ p.steps, Counts n := fun n => counts_of_mem_steps
  have htail {front : List Component} (h : p.steps.map stepComponent = front ++ rest) :
      ∃ ns : List String, (∀ n ∈ ns, Counts n) ∧ rest = ns.map stepComponent := by
    obtain ⟨before, ns, hsteps, -, rfl⟩ := List.map_eq_append_iff.1 h
    exact ⟨ns, fun n hn => hcounts n (hsteps ▸ List.mem_append_right before hn), rfl⟩
  have hwhole {c : Component} (h : c :: p.steps.map stepComponent = front ++ rest) :
      rest = c :: p.steps.map stepComponent ∨
        ∃ ns : List String, (∀ n ∈ ns, Counts n) ∧ rest = ns.map stepComponent := by
    rcases List.cons_eq_append_iff.1 h with ⟨-, h⟩ | ⟨front', -, h⟩
    · exact .inl h
    · exact .inr (htail h)
  rcases start_cases p with ⟨-, hs⟩ | ⟨-, hs | hs⟩
  · rw [hs] at h
    rcases hwhole h with h | ⟨ns, hns, h⟩
    · exact ⟨_, hcounts, .inr (.inr h)⟩
    · exact ⟨ns, hns, .inl h⟩
  · rw [hs] at h
    obtain ⟨ns, hns, h⟩ := htail h
    exact ⟨ns, hns, .inl h⟩
  · rw [hs] at h
    rcases hwhole h with h | ⟨ns, hns, h⟩
    · exact ⟨_, hcounts, .inr (.inl h)⟩
    · exact ⟨ns, hns, .inl h⟩

/-! ### Joined components -/

/-- The components with slashes between them. -/
def joined (cs : List Component) : Path := ⟨"/".intercalate (cs.map Component.text)⟩

lemma texts_steps (ns : List String) : (ns.map stepComponent).map Component.text = ns := by
  rw [List.map_map]
  exact List.map_id'' text_stepComponent ns

lemma pieces_intercalate (hne : ns ≠ []) (h : ∀ n ∈ ns, '/' ∉ n.toList) :
    pieces ⟨"/".intercalate ns⟩ = ns.map String.toList := Text.splitOn_joined rfl hne h

lemma filterMap_pieces (h : ∀ n ∈ ns, Counts n) :
    (ns.map String.toList).filterMap componentOf? = ns.map stepComponent := by
  have hfilter : ((ns.map String.toList).filter fun l => !isIdle l) = ns.map String.toList := by
    refine List.filter_eq_self.2 (List.forall_mem_map.2 fun n hn => ?_)
    rw [(h n hn).not_idle]
    rfl
  rw [filterMap_componentOf?, hfilter, List.map_map, List.map_map]
  refine List.map_congr_left fun n _ => ?_
  rw [Function.comp_apply, Function.comp_apply, String.ofList_toList]
  rfl

lemma isAbsolute_of_pieces {l : List Char} {ls : List (List Char)} (h : p.pieces = l :: ls)
    (hl : l ≠ []) : p.isAbsolute = false := by
  rw [← Bool.not_eq_true, isAbsolute_iff, h]
  rintro ⟨r, -, e⟩
  exact hl (List.cons.inj e).1

/-- Joined steps are read as they were. -/
lemma components_joined_steps (h : ∀ n ∈ ns, Counts n) :
    (joined (ns.map stepComponent)).components = ns.map stepComponent := by
  rw [joined, texts_steps]
  cases ns with
  | nil => rfl
  | cons n ns =>
    have hpieces := pieces_intercalate (List.cons_ne_nil n ns) fun m hm => (h m hm).noSlash
    have hidle := (h n List.mem_cons_self).not_idle
    simp only [isIdle, Bool.or_eq_false_iff, beq_eq_false_iff_ne] at hidle
    have hstart : start ⟨"/".intercalate (n :: ns)⟩ = [] := by
      rw [start, isAbsolute_of_pieces hpieces hidle.1, hpieces]
      simp [hidle.2]
    rw [components, hstart, hpieces, filterMap_pieces h, List.nil_append]

/-- So are steps behind a leading dot. -/
lemma components_joined_here (h : ∀ n ∈ ns, Counts n) :
    (joined (.here :: ns.map stepComponent)).components = .here :: ns.map stepComponent := by
  have hhere : Component.here.text = "." := rfl
  have hpieces : pieces ⟨"/".intercalate ("." :: ns)⟩ = ("." :: ns).map String.toList :=
    pieces_intercalate (List.cons_ne_nil _ ns)
      (List.forall_mem_cons.2 ⟨by decide, fun m hm => (h m hm).noSlash⟩)
  have hstart : start ⟨"/".intercalate ("." :: ns)⟩ = [.here] := by
    rw [start, isAbsolute_of_pieces hpieces (by decide), hpieces]
    rfl
  rw [joined, List.map_cons, texts_steps, hhere, components, hstart, hpieces, List.map_cons,
    List.filterMap_cons_none (by rfl), filterMap_pieces h, List.singleton_append]

/-- From the top, what is joined is an absolute path. -/
lemma isAbsolute_joined_top (cs : List Component) : (joined (.top :: cs)).isAbsolute = true := by
  have hhead : (joined (.top :: cs)).text.toList.head? = some '/' := by
    rw [joined, String.toList_intercalate, List.map_cons, List.map_cons]
    cases cs with
    | nil => rfl
    | cons c cs => rw [List.map_cons, List.map_cons, List.intercalate_cons_cons]; rfl
  rw [isAbsolute, hhead]
  rfl

lemma top_mem_joined_iff (h : p.components = front ++ rest) :
    .top ∈ (joined rest).components ↔ .top ∈ rest := by
  obtain ⟨ns, hns, rfl | rfl | rfl⟩ := rest_cases h
  · rw [components_joined_steps hns]
  · rw [components_joined_here hns]
  · exact iff_of_true (isAbsolute_iff_top.1 (isAbsolute_joined_top _)) List.mem_cons_self

/-- What does not start at the top is read as it was. -/
lemma components_joined (h : p.components = front ++ rest) (htop : .top ∉ rest) :
    (joined rest).components = rest := by
  obtain ⟨ns, hns, rfl | rfl | rfl⟩ := rest_cases h
  · exact components_joined_steps hns
  · exact components_joined_here hns
  · exact absurd List.mem_cons_self htop

/-! ### Paths behind a root -/

/-- Behind the root the path goes up somewhere, or starts at the top. -/
def Strays (root f : Path) : Prop :=
  ∃ rest, f.components = root.components ++ rest ∧ (.up ∈ rest ∨ .top ∈ rest)

/-- Names that are joined to a path make no difference. -/
lemma strays_foldl_iff (h : ∀ n ∈ ns, IsName n) :
    Strays root (ns.foldl (· / ·) f) ↔ Strays root f := by
  have hnames {c : Component} (hc : c ∈ ns.map Component.name) : c ≠ .up ∧ c ≠ .top := by
    obtain ⟨n, -, rfl⟩ := List.mem_map.1 hc
    simp
  unfold Strays
  rw [components_foldl h]
  constructor
  · rintro ⟨rest, hrest, hbad⟩
    rcases List.append_eq_append_iff.1 hrest with ⟨r, hr, hns⟩ | ⟨r, hf, rfl⟩
    · -- the path ends within the root, so there are names only behind it
      have hmem {c : Component} (hc : c ∈ rest) : c ≠ .up ∧ c ≠ .top :=
        hnames (hns ▸ List.mem_append_right r hc)
      rcases hbad with hbad | hbad
      · exact absurd rfl (hmem hbad).1
      · exact absurd rfl (hmem hbad).2
    · refine ⟨r, hf, hbad.imp (fun hup => ?_) fun htop => ?_⟩
      · exact (List.mem_append.1 hup).resolve_right fun hc => (hnames hc).1 rfl
      · exact (List.mem_append.1 htop).resolve_right fun hc => (hnames hc).2 rfl
  · rintro ⟨rest, hrest, hbad⟩
    refine ⟨rest ++ ns.map .name, by rw [hrest, List.append_assoc], ?_⟩
    exact hbad.imp (List.mem_append_left _) (List.mem_append_left _)

/-- A path that does not stray goes on from the root by names. -/
lemma names_of_not_strays (h : f.components = root.components ++ rest) (hs : ¬ Strays root f) :
    f.isAbsolute = root.isAbsolute ∧ f.steps = root.steps ++ rest.filterMap stepOf? ∧
      ∀ n ∈ rest.filterMap stepOf?, IsName n := by
  have hup : .up ∉ rest := fun hup => hs ⟨rest, h, .inl hup⟩
  have htop : .top ∉ rest := fun htop => hs ⟨rest, h, .inr htop⟩
  refine ⟨?_, ?_, ?_⟩
  · rw [Bool.eq_iff_iff, isAbsolute_iff_top, isAbsolute_iff_top, h, List.mem_append,
      or_iff_left htop]
  · rw [steps_eq_filterMap, h, List.filterMap_append, ← steps_eq_filterMap]
  · have hname {ns : List String} (hns : ∀ n ∈ ns, Counts n)
        (hsub : ns.map stepComponent ⊆ rest) : ∀ n ∈ ns, IsName n := by
      refine fun n hn => (hns n hn).resolve_left ?_
      rintro rfl
      exact hup (hsub (List.mem_map_of_mem hn))
    obtain ⟨ns, hns, rfl | rfl | rfl⟩ := rest_cases h
    · rw [filterMap_stepOf?]
      exact hname hns (List.Subset.refl _)
    · rw [List.filterMap_cons_none rfl, filterMap_stepOf?]
      exact hname hns (List.subset_cons_self _ _)
    · exact absurd List.mem_cons_self htop

end Path

/-! ### Places behind a root -/

namespace Disk

open ProviderGen.Path (IsName)

variable {d : Disk} {links links' : ℕ} {r q : Place} {ns : List String} {f root : Path}

/-- Along the names from a place there is a link. -/
def Passes (d : Disk) (r : Place) (ns : List String) : Prop :=
  ∃ front t, front ≠ [] ∧ front <+: ns ∧ d.at? (r ++ front) = some (.link t)

lemma Way.along (h : Way d links r ns links' q) (hns : ∀ n ∈ ns, IsName n) :
    q = r ++ ns ∨ d.Passes r ns := by
  induction h with
  | done => exact .inl (List.append_nil _).symm
  | idle _ hidle _ _ =>
    have hn := hns _ List.mem_cons_self
    exact absurd hidle (not_or.2 (counts_iff.1 hn.counts))
  | up => exact absurd rfl (hns _ List.mem_cons_self).notUp
  | @enter _ p n rest _ _ _ _ _ _ _ _ ih =>
    have hassoc (t : List String) : p ++ [n] ++ t = p ++ n :: t := by simp
    rcases ih fun m hm => hns m (List.mem_cons_of_mem n hm) with h | ⟨front, t, hne, hfront, ht⟩
    · exact .inl (h.trans (hassoc rest))
    · exact .inr ⟨n :: front, t, List.cons_ne_nil _ _, List.cons_prefix_cons.2 ⟨rfl, hfront⟩,
        hassoc front ▸ ht⟩
  | @link _ p n rest _ _ t _ _ he _ _ =>
    exact .inr ⟨[n], t, List.cons_ne_nil _ _, List.cons_prefix_cons.2 ⟨rfl, List.nil_prefix⟩, he⟩

/-- What is reached by names from a root lies there, unless a link is passed. -/
lemma exists_leads (ha : f.isAbsolute = root.isAbsolute) (hs : f.steps = root.steps ++ ns)
    (hns : ∀ n ∈ ns, IsName n) (hq : d.locate true f = .ok q) :
    ∃ r, d.Leads root r ∧ (q = r ++ ns ∨ d.Passes r ns) := by
  obtain ⟨-, links, hw⟩ := leads_of_locate hq
  rw [hs, startOf, ha, ← startOf] at hw
  obtain ⟨links', r, hroot, hbehind⟩ := hw.split
  exact ⟨r, ⟨links', hroot⟩, hbehind.along hns⟩

end Disk

namespace Archive

open ProviderGen.Path (IsName Strays joined stepOf? components_joined top_mem_joined_iff
  isAbsolute_iff_top names_of_not_strays strays_foldl_iff steps_eq_filterMap)

variable {d d' : Disk} {root f g : Path} {name : String} {e : Entry} {q : Place}
  {rest : List Path.Component}

/-! ### Names of entries -/

/-- A relative name that does not go up. -/
structure IsContained (name : String) : Prop where
  relative : Path.isAbsolute ⟨name⟩ = false
  noUp : .up ∉ Path.components ⟨name⟩

/-- What the path leads to lies where the name says, from where the root leads, unless a link is
passed on the way from there. -/
def LiesAt (d : Disk) (root f : Path) (name : String) : Prop :=
  ∃ r q, d.Leads root r ∧ d.locate true f = .ok q ∧
    (q = r ++ Path.steps ⟨name⟩ ∨ d.Passes r (Path.steps ⟨name⟩))

lemma entryName_ok_iff : entryName root f = .ok name ↔
    ∃ rest, f.components = root.components ++ rest ∧ name = (joined rest).text := by
  rw [entryName, Path.below?]
  by_cases hprefix : root.components.isPrefixOf f.components = true
  · obtain ⟨rest, hrest⟩ := List.isPrefixOf_iff_prefix.1 hprefix
    rw [if_pos hprefix, ← hrest, List.drop_left]
    simp [joined, eq_comm]
  · rw [if_neg hprefix]
    refine iff_of_false (by simp) ?_
    rintro ⟨rest, hrest, -⟩
    exact hprefix (List.isPrefixOf_iff_prefix.2 ⟨rest, hrest.symm⟩)

lemma entryName_error (h : ¬ root.components <+: f.components) :
    entryName root f = .error (.refused f .outsideRoot) := by
  rw [entryName, Path.below?, if_neg (by simpa using h)]

lemma isContained_iff (h : entryName root f = .ok name) : IsContained name ↔ ¬ Strays root f := by
  obtain ⟨rest, hrest, rfl⟩ := entryName_ok_iff.1 h
  have hstrays : Strays root f ↔ .up ∈ rest ∨ .top ∈ rest := by
    refine ⟨?_, fun hbad => ⟨rest, hrest, hbad⟩⟩
    rintro ⟨rest', hrest', hbad⟩
    rwa [List.append_cancel_left (hrest.symm.trans hrest')]
  have htop : (joined rest).isAbsolute = true ↔ .top ∈ rest :=
    isAbsolute_iff_top.trans (top_mem_joined_iff hrest)
  rw [hstrays, not_or]
  constructor
  · rintro ⟨hrelative, hup⟩
    have hnot : .top ∉ rest := fun hmem => by
      rw [← htop] at hmem
      exact absurd hmem (by simpa using hrelative)
    exact ⟨by rwa [← components_joined hrest hnot], hnot⟩
  · rintro ⟨hup, hnot⟩
    refine ⟨by rwa [← Bool.not_eq_true, htop], ?_⟩
    have hcomponents := components_joined hrest hnot
    rwa [← hcomponents] at hup

lemma steps_of_entryName (h : entryName root f = .ok name) (hs : ¬ Strays root f) :
    f.isAbsolute = root.isAbsolute ∧ f.steps = root.steps ++ Path.steps ⟨name⟩ ∧
      ∀ n ∈ Path.steps ⟨name⟩, IsName n := by
  obtain ⟨rest, hrest, rfl⟩ := entryName_ok_iff.1 h
  have hname : Path.steps (joined rest) = rest.filterMap stepOf? := by
    rw [steps_eq_filterMap, components_joined hrest fun htop => hs ⟨rest, hrest, .inr htop⟩]
  rw [show (⟨(joined rest).text⟩ : Path) = joined rest from rfl, hname]
  exact names_of_not_strays hrest hs

lemma liesAt_of_entryName (h : entryName root f = .ok name) (hs : ¬ Strays root f)
    (hq : d.locate true f = .ok q) : LiesAt d root f name := by
  obtain ⟨ha, hsteps, hnames⟩ := steps_of_entryName h hs
  obtain ⟨r, hr, hlies⟩ := Disk.exists_leads ha hsteps hnames hq
  exact ⟨r, q, hr, hq, hlies⟩

/-- What is extracted under a directory lies in it. -/
lemma IsContained.extracted (h : IsContained name) {dir : Path}
    (hq : d.locate true (dir / name) = .ok q) : LiesAt d dir (dir / name) name := by
  have hhead : name.toList.head? ≠ some '/' := by
    have hrelative := h.relative
    rwa [Path.isAbsolute, beq_eq_false_iff_ne] at hrelative
  have hnames : ∀ n ∈ Path.steps ⟨name⟩, IsName n := by
    refine fun n hn => Path.isName_of_mem_steps hn ?_
    rintro rfl
    refine h.noUp ?_
    rw [Path.components_eq]
    exact List.mem_append_right _ (List.mem_map_of_mem (f := Path.stepComponent) hn)
  obtain ⟨r, hr, hlies⟩ := Disk.exists_leads (Path.isAbsolute_join hhead) (Path.steps_join hhead)
    hnames hq
  exact ⟨r, q, hr, hq, hlies⟩

/-! ### Assembling -/

/-- The entries of the files that a path stands for. -/
def Stores (d : Disk) (root f : Path) (es : List Entry) : Prop :=
  ∃ files, StandsFor d f files ∧ List.Forall₂ (EntryOf d root) files es

lemma exists_groups {paths : List Path} {es : List Entry}
    (h : (Disk.perform (assemble root paths) d).1 = .done es) :
    ∃ groups, es = groups.flatten ∧ List.Forall₂ (Stores d root) paths groups := by
  induction paths generalizing es with
  | nil =>
    cases h
    exact ⟨[], rfl, .nil⟩
  | cons f paths ih =>
    obtain ⟨hstay, hfirst⟩ := gives_ofPath d root f
    have hrest := (gives_assemble d root paths).1
    rw [assemble] at hrest
    rw [assemble, ofAll, Disk.perform_bind, hstay] at h
    cases hfail : (Disk.perform (ofPath root f) d).1.failure with
    | some e =>
      rw [hfail] at h
      dsimp only at h
      rw [Disk.perform_pure] at h
      dsimp only at h
      rw [h] at hfail
      cases hfail
    | none =>
      obtain ⟨files, hfiles, hentries⟩ := hfirst hfail
      rw [hfail] at h
      dsimp only at h
      rw [Disk.perform_bind, hrest, Disk.perform_pure] at h
      obtain ⟨hes, hnone⟩ := Assembly.mk.inj h
      have hothers : (Disk.perform (assemble root paths) d).1 =
          .done (Disk.perform (ofAll (ofPath root) paths) d).1.entries := by
        rw [assemble, Assembly.done, ← hnone]
      obtain ⟨groups, hgroups, hall⟩ := ih hothers
      exact ⟨_ :: groups, by rw [← hes, hgroups, List.flatten_cons],
        .cons ⟨files, hfiles, hentries⟩ hall⟩

/-- A part that fails ends the matter. -/
lemma perform_ofAll_failed {α : Type} {entry : α → StateM Disk Assembly} {before after : List α}
    {x : α} {groups : List (List Entry)} {es : List Entry} {err : Error}
    (hb : List.Forall₂ (fun x es => Disk.perform (entry x) d = (.done es, d)) before groups)
    (hx : Disk.perform (entry x) d = (.failed es err, d)) :
    Disk.perform (ofAll entry (before ++ x :: after)) d =
      (.failed (groups.flatten ++ es) err, d) := by
  induction hb with
  | nil =>
    rw [List.nil_append, ofAll, Disk.perform_bind, hx]
    rfl
  | cons hy _ ih =>
    rw [List.cons_append, ofAll, Disk.perform_bind, hy]
    dsimp only [Assembly.done]
    rw [Disk.perform_bind, ih]
    dsimp only [Assembly.failed]
    rw [Disk.perform_pure, List.flatten_cons, List.append_assoc]

lemma perform_ofFile_error {err : Error} (h : entryName root f = .error err) :
    Disk.perform (ofFile root f) d = (.failed [] err, d) := by
  rw [ofFile, h]
  rfl

/-- A file that has no name fails what stands for it, behind the entries made before. -/
lemma perform_ofPath_failed {files files' : List Path} {es : List Entry} {err : Error}
    (hf : StandsFor d f (files ++ g :: files')) (h : List.Forall₂ (EntryOf d root) files es)
    (hg : entryName root g = .error err) :
    Disk.perform (ofPath root f) d = (.failed es err, d) := by
  have hfails := perform_ofFile_error (d := d) hg
  unfold StandsFor at hf
  rw [ofPath, Disk.perform_bind, Disk.perform_isDirectory]
  cases hdir : d.isDirectory f with
  | true =>
    rw [if_pos hdir] at hf
    have hall : List.Forall₂ (fun f es => Disk.perform (ofFile root f) d = (.done es, d)) files
        (es.map ([·])) :=
      List.forall₂_map_right_iff.2 (h.imp fun _ _ => perform_ofFile)
    have hfailed : Disk.perform (ofAll (ofFile root) (files ++ g :: files')) d = _ :=
      perform_ofAll_failed hall hfails
    rw [← List.flatMap_def, List.flatMap_singleton', List.append_nil] at hfailed
    dsimp only
    rw [if_pos rfl, ofTree, Disk.perform_bind, Disk.perform_walk, hf]
    exact hfailed
  | false =>
    rw [if_neg (by simp [hdir])] at hf
    obtain ⟨rfl, rfl, rfl⟩ : files = [] ∧ g = f ∧ files' = [] := by
      cases files with
      | nil => simpa using hf
      | cons a files => simp at hf
    cases h
    exact hfails

lemma perform_assemble_failed {before after : List Path} {groups : List (List Entry)}
    {files files' : List Path} {es : List Entry} {err : Error}
    (hb : List.Forall₂ (Stores d root) before groups) (hf : StandsFor d f (files ++ g :: files'))
    (h : List.Forall₂ (EntryOf d root) files es) (hg : entryName root g = .error err) :
    Disk.perform (assemble root (before ++ f :: after)) d =
      (.failed (groups.flatten ++ es) err, d) :=
  perform_ofAll_failed (hb.imp fun _ _ ⟨_, hf, he⟩ => perform_ofPath hf he)
    (perform_ofPath_failed hf h hg)

/-- What a path stands for is reached by names from there. -/
lemma StandsFor.exists_names {files : List Path} (hd : d.Sound) (hf : StandsFor d f files)
    (hg : g ∈ files) : ∃ ns : List String, (∀ n ∈ ns, IsName n) ∧ g = ns.foldl (· / ·) f := by
  by_cases hdir : d.isDirectory f = true
  · obtain ⟨q, hq, hqdir⟩ := Disk.isDirectory_iff.1 hdir
    obtain ⟨start, ls, hls, rfl⟩ := Project.standsFor_directory hd hq hqdir hf
    have hlisted : g ∈ ls.map (fun r => r.foldl (· / ·) f) →
        ∃ ns : List String, (∀ n ∈ ns, IsName n) ∧ g = ns.foldl (· / ·) f := by
      intro hmem
      obtain ⟨r, hr, rfl⟩ := List.mem_map.1 hmem
      obtain ⟨-, e, he, -⟩ := (hls.mem_iff hd).1 hr
      exact ⟨r, fun n hn => hd.isName_of_mem he hn, rfl⟩
    split at hg
    · exact hlisted hg
    · rcases List.mem_cons.1 hg with rfl | hg
      · exact ⟨[], by simp, rfl⟩
      · exact hlisted hg
  · rw [StandsFor, if_neg hdir] at hf
    subst hf
    obtain rfl := List.mem_singleton.1 hg
    exact ⟨[], by simp, rfl⟩

lemma StandsFor.strays_iff {files : List Path} (hd : d.Sound) (hf : StandsFor d f files)
    (hg : g ∈ files) : Strays root g ↔ Strays root f := by
  obtain ⟨ns, hns, rfl⟩ := hf.exists_names hd hg
  exact strays_foldl_iff hns

/-- The path leads to something that does not lie below where the root leads, nor behind a link
that does. -/
def Outside (d : Disk) (root f : Path) : Prop :=
  ∃ q, d.locate true f = .ok q ∧ ∀ r, d.Leads root r → ¬ r <+: q ∧
    ∀ ns, f.steps = root.steps ++ ns → ¬ d.Passes r ns

lemma Outside.entryName (h : Outside d root f) (hs : ¬ Strays root f) :
    entryName root f = .error (.refused f .outsideRoot) := by
  refine entryName_error ?_
  rintro ⟨rest, hrest⟩
  have hname : Archive.entryName root f = .ok (joined rest).text :=
    entryName_ok_iff.2 ⟨rest, hrest.symm, rfl⟩
  obtain ⟨q, hq, hout⟩ := h
  obtain ⟨r, q', hr, hq', hlies⟩ := liesAt_of_entryName hname hs hq
  obtain rfl := Except.ok.inj (hq.symm.trans hq')
  obtain ⟨hapart, hlinks⟩ := hout r hr
  rcases hlies with rfl | hpasses
  · exact hapart (List.prefix_append _ _)
  · exact hlinks _ (steps_of_entryName hname hs).2.1 hpasses

/-- The entry `e` of the file `g`, for which the path `f` stands. -/
structure Placed (d : Disk) (root f g : Path) (e : Entry) : Prop where
  entry : EntryOf d root g e
  contained : IsContained e.name ↔ ¬ Strays root f
  liesAt : ¬ Strays root f → LiesAt d root g e.name

lemma placed_of_entry {files : List Path} (hd : d.Sound) (hf : StandsFor d f files)
    (hg : g ∈ files) (h : EntryOf d root g e) : Placed d root f g e := by
  have hstrays : Strays root g ↔ Strays root f := hf.strays_iff hd hg
  refine ⟨h, by rw [isContained_iff h.name, hstrays], fun hs => ?_⟩
  obtain ⟨q, hq, -⟩ := Disk.read_iff.1 h.bytes
  exact liesAt_of_entryName h.name (mt hstrays.1 hs) hq

lemma Stores.placed {es : List Entry} (hd : d.Sound) (h : Stores d root f es) :
    ∃ files, StandsFor d f files ∧ List.Forall₂ (Placed d root f) files es := by
  obtain ⟨files, hf, he⟩ := h
  exact ⟨files, hf, ((List.forall₂_and_left _ _).2 ⟨fun _ hg => hg, he⟩).imp
    fun _ _ h => placed_of_entry hd hf h.1 h.2⟩

/-- **What is archived lies in the root and stays in any directory, but for paths that stray.** If
assembling succeeds, the name of an entry is relative and does not go up if and only if the path
that the file was given by does not go up behind the root or start at the top there; and then the
file lies where its name says, from where the root leads, unless a link is passed behind it. A file
whose components do not go on from those of the root is refused for lying outside, once all before
it has been stored, and so is any file that does lie outside, unless its path strays. A relative
name that does not go up lies below any directory of any disk that it is extracted to. -/
theorem assemble_contained (hd : d.Sound) (root : Path) (paths : List Path) :
    (∀ es d', Disk.perform (assemble root paths) d = (.done es, d') → d' = d ∧
      ∃ groups, es = groups.flatten ∧ List.Forall₂ (fun f es => ∃ files, StandsFor d f files ∧
        List.Forall₂ (Placed d root f) files es) paths groups) ∧
    (∀ before f after groups files g files' es, paths = before ++ f :: after →
      List.Forall₂ (Stores d root) before groups → StandsFor d f (files ++ g :: files') →
      List.Forall₂ (EntryOf d root) files es →
      ¬ root.components <+: g.components ∨ Outside d root g ∧ ¬ Strays root f →
      Disk.perform (assemble root paths) d =
        (.failed (groups.flatten ++ es) (.refused g .outsideRoot), d)) ∧
    ∀ name, IsContained name → ∀ (d' : Disk) dir q, d'.locate true (dir / name) = .ok q →
      LiesAt d' dir (dir / name) name := by
  refine ⟨fun es d' h => ?_, ?_, fun name h d' dir q hq => h.extracted hq⟩
  · have hstay := (gives_assemble d root paths).1
    rw [h] at hstay
    obtain ⟨groups, hes, hall⟩ := exists_groups (congrArg Prod.fst h)
    exact ⟨hstay, groups, hes, hall.imp fun _ _ hf => hf.placed hd⟩
  · rintro before f after groups files g files' es rfl hb hf he hout
    refine perform_assemble_failed hb hf he ?_
    rcases hout with hprefix | ⟨hout, hs⟩
    · exact entryName_error hprefix
    · exact hout.entryName (mt (hf.strays_iff hd (by simp)).1 hs)

/-- A project directory with a file in it, and a file beside it. -/
def pier : Disk := ⟨[
  (["p"], .directory),
  (["p", "a.txt"], .file "in".toUTF8),
  (["q.txt"], .file "out".toUTF8)], []⟩

lemma pier_sound : pier.Sound := Disk.sound_of_entries (by decide) (by decide)

lemma pier_locate (names : List String) (hv : f.Valid) (hnames : f.names = names)
    (hw : Disk.Way pier Disk.linkLimit [] names Disk.linkLimit q) : pier.locate true f = .ok q := by
  subst hnames
  have hway : Disk.Way pier Disk.linkLimit (pier.startOf f) f.names Disk.linkLimit q := by
    rw [Disk.startOf_top rfl]
    exact hw
  exact Disk.locate_of_way hv hway

lemma pier_stores {bytes : ByteArray} (hq : pier.locate true f = .ok q)
    (hbytes : pier.at? q = some (.file bytes)) (hname : entryName ⟨"p"⟩ f = .ok name) :
    Stores pier ⟨"p"⟩ f [⟨name, bytes⟩] := by
  have hread : pier.read f = .ok bytes := Disk.read_iff.2 ⟨q, hq, hbytes⟩
  exact ⟨[f], (standsFor_file (Disk.isFile_iff.2 ⟨_, hread⟩)).2 rfl, .cons ⟨hname, hread⟩ .nil⟩

lemma pier_inside : Stores pier ⟨"p"⟩ ⟨"p/a.txt"⟩ [⟨"a.txt", "in".toUTF8⟩] := by
  have hq : pier.locate true ⟨"p/a.txt"⟩ = .ok ["p", "a.txt"] :=
    pier_locate ["p", "a.txt"] (by decide) (by decide)
      (.enter rfl (by decide) rfl (by simp) (.enter rfl (by decide) rfl (by simp) .done))
  exact pier_stores hq rfl (by rfl)

lemma pier_direct : ¬ Strays ⟨"p"⟩ ⟨"p/a.txt"⟩ := by
  rintro ⟨rest, hrest, hbad⟩
  have hcomponents : Path.components ⟨"p/a.txt"⟩ = Path.components ⟨"p"⟩ ++ [.name "a.txt"] := by
    decide
  obtain rfl := List.append_cancel_left (hrest.symm.trans hcomponents)
  simp at hbad

/-- The file in the directory is stored under a name that stays anywhere, and the one beside it is
refused. -/
theorem assemble_contained_pier : pier.Sound ∧
    (∃ e, Disk.perform (assemble ⟨"p"⟩ [⟨"p/a.txt"⟩]) pier = (.done [e], pier) ∧
      e.name = "a.txt" ∧ IsContained e.name) ∧
    ∃ e, Disk.perform (assemble ⟨"p"⟩ [⟨"p/a.txt"⟩, ⟨"q.txt"⟩]) pier =
      (.failed [e] (.refused ⟨"q.txt"⟩ .outsideRoot), pier) := by
  have hstored : Disk.perform (assemble ⟨"p"⟩ [⟨"p/a.txt"⟩]) pier =
      (.done [⟨"a.txt", "in".toUTF8⟩], pier) := perform_assemble (.cons pier_inside .nil)
  obtain ⟨hsuccess, -, -⟩ := assemble_contained pier_sound ⟨"p"⟩ [⟨"p/a.txt"⟩]
  obtain ⟨-, hrefused, -⟩ := assemble_contained pier_sound ⟨"p"⟩ [⟨"p/a.txt"⟩, ⟨"q.txt"⟩]
  obtain ⟨-, groups, hgroups, hall⟩ := hsuccess _ _ hstored
  have hcontained : ∀ e ∈ groups.flatten, IsContained e.name := by
    rcases hall with _ | ⟨⟨files, -, hplaced⟩, ⟨⟩⟩
    rw [List.flatten_cons, List.flatten_nil, List.append_nil]
    exact ((List.forall₂_and_left _ _).1 (hplaced.flip.imp fun _ _ h =>
      ⟨h.contained.2 pier_direct, h⟩)).1
  have hq : pier.locate true ⟨"q.txt"⟩ = .ok ["q.txt"] :=
    pier_locate ["q.txt"] (by decide) (by decide) (.enter rfl (by decide) rfl (by simp) .done)
  have hbeside : StandsFor pier ⟨"q.txt"⟩ [⟨"q.txt"⟩] :=
    (standsFor_file (Disk.isFile_iff.2 ⟨_, Disk.read_iff.2 ⟨_, hq, rfl⟩⟩)).2 rfl
  refine ⟨pier_sound, ⟨_, hstored, rfl, hcontained _ (hgroups ▸ List.mem_cons_self)⟩,
    ⟨"a.txt", "in".toUTF8⟩, ?_⟩
  exact hrefused [⟨"p/a.txt"⟩] ⟨"q.txt"⟩ [] _ [] ⟨"q.txt"⟩ [] [] rfl (.cons pier_inside .nil)
    hbeside .nil (.inl (by decide))

/-- Behind the root, going up is not resolved: a file that does not lie below the place of the root
is stored, under a name that leads out of any directory. -/
theorem outside_stored : ∃ bytes,
    Disk.perform (assemble ⟨"p"⟩ [⟨"p/../q.txt"⟩]) pier = (.done [⟨"../q.txt", bytes⟩], pier) ∧
      ¬ IsContained "../q.txt" ∧ pier.locate true ⟨"p"⟩ = .ok ["p"] ∧
      pier.locate true ⟨"p/../q.txt"⟩ = .ok ["q.txt"] ∧ ¬ ["p"] <+: ["q.txt"] := by
  have hroot : pier.locate true ⟨"p"⟩ = .ok ["p"] :=
    pier_locate ["p"] (by decide) (by decide) (.enter rfl (by decide) rfl (by simp) .done)
  have hq : pier.locate true ⟨"p/../q.txt"⟩ = .ok ["q.txt"] :=
    pier_locate ["p", "..", "q.txt"] (by decide) (by decide)
      (.enter rfl (by decide) rfl (by simp)
        (.up rfl (.enter rfl (by decide) rfl (by simp) .done)))
  have hstores : Stores pier ⟨"p"⟩ ⟨"p/../q.txt"⟩ [⟨"../q.txt", "out".toUTF8⟩] :=
    pier_stores hq rfl (by rfl)
  exact ⟨_, perform_assemble (.cons hstores .nil), fun h => absurd h.noUp (by decide), hroot, hq,
    by decide⟩

end Archive

end ProviderGen
