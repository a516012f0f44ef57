import ProviderGen.Proofs.Schema.Objects

/-!
Where the walk fails. A walk that fails breaks off at a site that it cannot read, and everything
that it has discovered by then can be read. It does not break off at a site met before: such a
site could be read, and so could all that it passes on to, for that has been met as well.
-/

namespace ProviderGen.Schema

open Document (Members)

/-- The walk from a site breaks off at the site `b`, which may be that site itself. -/
inductive Breaks (definitions : Members) : List String → Graph → Site → Site → Prop where
  | unsound {opening g s} (h : ¬ s.Sound) : Breaks definitions opening g s s
  | enter {opening g k m name body b} (h : shape m = .ok (.reference name))
      (hd : definitions.lookup name = some body) (hg : .definition name ∉ g.keys)
      (ho : name ∉ opening)
      (hb : Breaks definitions (name :: opening) g ⟨.definition name, body⟩ b) :
      Breaks definitions opening g ⟨k, .record m⟩ b
  | array {opening g k m unique items b} (h : shape m = .ok (.array (some items) unique))
      (hb : Breaks definitions opening g ⟨k.child "items", items⟩ b) :
      Breaks definitions opening g ⟨k, .record m⟩ b
  | map {opening g k m pattern value b} (h : shape m = .ok (.map (some (pattern, value))))
      (hb : Breaks definitions opening g ⟨(k.child "patternProperties").child pattern, value⟩ b) :
      Breaks definitions opening g ⟨k, .record m⟩ b
  | hoist {opening g g' k m before name node after properties b} (h : shape m = .ok .object)
      (hg : k ∉ g.keys)
      (hp : m.lookup "properties" = some (.record (before ++ (name, node) :: after)))
      (hw : Walks definitions opening (g.insert ⟨k, []⟩)
        (.members (k.child "properties") (requiredNames m) before properties) g')
      (hb : Breaks definitions opening g' ⟨(k.child "properties").child name, node⟩ b) :
      Breaks definitions opening g ⟨k, .record m⟩ b

/-- Some members are walked through, and the walk from the next one breaks off at `b`. -/
def BreaksAmong (definitions : Members) (opening : List String) (g : Graph) (path : Key)
    (required : List String) (ps : Members) (b : Site) : Prop :=
  ∃ before name node after properties g', ps = before ++ (name, node) :: after ∧
    Walks definitions opening g (.members path required before properties) g' ∧
    Breaks definitions opening g' ⟨path.child name, node⟩ b

/-- Properties that cannot be found: they are no record, or the walk breaks off among them. -/
def BreaksBelow (definitions : Members) (opening : List String) (g : Graph) (k : Key)
    (m : Members) (place : Key) : Prop :=
  k ∉ g.keys ∧
    ((k = place ∧ ∃ d, m.lookup "properties" = some d ∧ ∀ ps, d ≠ .record ps) ∨
      ∃ ps b, m.lookup "properties" = some (.record ps) ∧
        BreaksAmong definitions opening (g.insert ⟨k, []⟩) (k.child "properties")
          (requiredNames m) ps b ∧ b.key = place)

variable {definitions schema : Members} {opening : List String} {g g' : Graph}
  {seen stack new : List Site} {s b : Site}

/-! ### Every failure breaks off -/

lemma error_of_bind {ε α β : Type} {x : Except ε α} {f : α → Except ε β} {e : ε}
    (h : x >>= f = .error e) : x = .error e ∨ ∃ a, x = .ok a ∧ f a = .error e := by
  cases x with
  | error e' => exact Or.inl (congrArg Except.error (Except.error.inj h))
  | ok a => exact Or.inr ⟨a, rfl, h⟩

lemma unsound_of_shape {k : Key} {m : Members} {fault : Fault} (h : shape m = .error fault) :
    ¬ Site.Sound ⟨k, .record m⟩ := by
  rintro ⟨m', sh, hm, hs, -⟩
  cases hm
  rw [h] at hs
  cases hs

lemma unsound_of_properties {k : Key} {m : Members} {d : Document} (hs : shape m = .ok .object)
    (hd : m.lookup "properties" = some d) (hno : ∀ ps, d ≠ .record ps) :
    ¬ Site.Sound ⟨k, .record m⟩ := by
  rintro ⟨m', sh, hm, hs', hr⟩
  cases hm
  obtain rfl := Except.ok.inj (hs.symm.trans hs')
  obtain ⟨ps, hps⟩ := hr rfl
  exact hno ps (Option.some.inj (hd.symm.trans hps))

lemma BreaksBelow.breaks {k place : Key} {m : Members} (hs : shape m = .ok .object)
    (h : BreaksBelow definitions opening g k m place) :
    ∃ b, Breaks definitions opening g ⟨k, .record m⟩ b ∧ b.key = place := by
  obtain ⟨hg, ⟨hk, d, hd, hno⟩ | ⟨ps, b, hp, hamong, hb⟩⟩ := h
  · exact ⟨_, .unsound (unsound_of_properties hs hd hno), hk⟩
  · obtain ⟨before, name, node, after, properties, g', rfl, hw, hbreaks⟩ := hamong
    exact ⟨b, .hoist hs hg hp hw hbreaks, hb⟩

lemma BreaksAmong.cons {path : Key} {required : List String} {ps : Members} {name : String}
    {node : Document} {t : FlatType}
    (hn : Walks definitions opening g (.node ⟨path.child name, node⟩ t) g')
    (h : BreaksAmong definitions opening g' path required ps b) :
    BreaksAmong definitions opening g path required ((name, node) :: ps) b := by
  obtain ⟨before, name', node', after, properties, g'', rfl, hw, hb⟩ := h
  exact ⟨(name, node) :: before, name', node', after, _, g'', rfl, .cons hn hw, hb⟩

/-- What breaks off where each of the three functions of the walk fails. -/
theorem walk_breaks (definitions : Members) :
    (∀ opening k node g, ∀ e, typeAt definitions opening k node g = .error e →
      ∃ b, Breaks definitions opening g ⟨k, node⟩ b ∧ b.key = e.place) ∧
    (∀ opening k m g, ∀ e, hoist definitions opening k m g = .error e →
      BreaksBelow definitions opening g k m e.place) ∧
    (∀ opening path required ps g, ∀ e,
      propertiesAt definitions opening path required ps g = .error e →
      ∃ b, BreaksAmong definitions opening g path required ps b ∧ b.key = e.place) := by
  apply typeAt.mutual_induct definitions
  -- a record, by its shape
  · intro opening k g m fault hs e he
    rw [typeAt_record, hs] at he
    obtain rfl := Except.error.inj he
    exact ⟨_, .unsound (unsound_of_shape hs), rfl⟩
  · intro opening k g m t hs e he
    rw [typeAt_record, hs] at he
    cases he
  · intro opening k g m name hs hd e he
    simp only [typeAt_record, hs, hd] at he
    cases he
  · intro opening k g m name hs body hd hg e he
    rw [Graph.contains_iff] at hg
    simp only [typeAt_record, hs, hd, if_pos hg] at he
    cases he
  · intro opening k g m name hs body hd hg ho e he
    rw [Graph.contains_iff] at hg
    simp only [typeAt_record, hs, hd, if_neg hg, if_pos ho] at he
    cases he
  · intro opening k g m name hs body hd hg ho ih e he
    rw [Graph.contains_iff] at hg
    simp only [typeAt_record, hs, hd, if_neg hg, if_neg ho] at he
    obtain ⟨b, hb, hk⟩ := ih e he
    exact ⟨b, .enter hs hd hg ho hb, hk⟩
  · intro opening k g m unique hs e he
    rw [typeAt_record, hs] at he
    cases he
  · intro opening k g m items unique hs ih e he
    rw [typeAt_record, hs] at he
    dsimp only at he
    rcases error_of_bind he with he | ⟨_, _, he⟩
    · obtain ⟨b, hb, hk⟩ := ih e he
      exact ⟨b, .array hs hb, hk⟩
    · cases he
  · intro opening k g m hs ih e he
    rw [typeAt_record, hs] at he
    dsimp only at he
    rcases error_of_bind he with he | ⟨_, _, he⟩
    · exact (ih e he).breaks hs
    · cases he
  · intro opening k g m hs e he
    rw [typeAt_record, hs] at he
    cases he
  · intro opening k g m pattern value hs ih e he
    rw [typeAt_record, hs] at he
    dsimp only at he
    rcases error_of_bind he with he | ⟨_, _, he⟩
    · obtain ⟨b, hb, hk⟩ := ih e he
      exact ⟨b, .map hs hb, hk⟩
    · cases he
  -- a node that is no record
  · intro opening k node g hn e he
    unfold typeAt at he
    split at he
    · exact absurd rfl (hn _)
    · obtain rfl := Except.error.inj he
      refine ⟨_, .unsound ?_, rfl⟩
      rintro ⟨m, -, hm, -⟩
      exact hn m hm
  -- an object: found before, without properties, with some, with what are none
  · intro opening k m g hg e he
    rw [Graph.contains_iff] at hg
    rw [hoist_eq, if_pos hg] at he
    cases he
  · intro opening k m g hg hp e he
    rw [Graph.contains_iff] at hg
    rw [hoist_eq, if_neg hg, hp] at he
    cases he
  · intro opening k m g hg ps hp ih e he
    rw [Graph.contains_iff] at hg
    rw [hoist_eq, if_neg hg, hp] at he
    dsimp only at he
    rcases error_of_bind he with he | ⟨_, _, he⟩
    · obtain ⟨b, hb, hk⟩ := ih e he
      exact ⟨hg, Or.inr ⟨ps, b, hp, hb, hk⟩⟩
    · cases he
  · intro opening k m g hg d hd hp e he
    rw [Graph.contains_iff] at hg
    have herr : hoist definitions opening k m g = .error ⟨k, .propertiesNotRecord⟩ := by
      rw [hoist_eq, if_neg hg, hp]
      cases d with
      | record ps => exact absurd rfl (hd ps)
      | _ => rfl
    obtain rfl := Except.error.inj (herr.symm.trans he)
    exact ⟨hg, Or.inl ⟨rfl, d, hp, hd⟩⟩
  -- its properties, one after the other
  · intro opening path required g e he
    unfold propertiesAt at he
    cases he
  · intro opening path required g name node r ihn ihr e he
    unfold propertiesAt at he
    rcases error_of_bind he with he | ⟨⟨t, g'⟩, ht, he⟩
    · obtain ⟨b, hb, hk⟩ := ihn e he
      exact ⟨b, ⟨[], name, node, r, [], g, rfl, .nil, hb⟩, hk⟩
    · have hw := (walk_result definitions).1 opening (path.child name) node g
      rw [ht] at hw
      rcases error_of_bind he with he | ⟨_, _, he⟩
      · obtain ⟨b, hb, hk⟩ := ihr g' e he
        exact ⟨b, hb.cons hw, hk⟩
      · cases he

/-! ### Where it breaks off -/

lemma Breaks.not_sound (h : Breaks definitions opening g s b) : ¬ b.Sound := by
  induction h with
  | unsound h => exact h
  | enter _ _ _ _ _ ih => exact ih
  | array _ _ ih => exact ih
  | map _ _ ih => exact ih
  | hoist _ _ _ _ _ ih => exact ih

/-- All that has been met can be read, and it passes on to what has been met or is ahead. -/
structure Explored (definitions : Members) (ahead seen : List Site) : Prop where
  sound : ∀ u ∈ seen, u.Sound
  onward : ∀ u ∈ seen, ∀ v, Passes definitions u v → v ∈ ahead ++ seen

lemma Explored.toward (h : Explored definitions [] seen) (s : Site) :
    Explored definitions [s] seen :=
  ⟨h.sound, fun u hu v hv => List.mem_append_right _ (h.onward u hu v hv)⟩

lemma Explored.of_mem (h : Explored definitions [s] seen) (hs : s ∈ seen) :
    Explored definitions [] seen := by
  refine ⟨h.sound, fun u hu v hv => ?_⟩
  rcases List.mem_cons.1 (h.onward u hu v hv) with rfl | hv
  · exact hs
  · exact hv

lemma Explored.pass (h : Explored definitions [s] seen) (hs : s.Sound)
    (hp : Passes definitions s b) : Explored definitions [b] (s :: seen) := by
  refine ⟨List.forall_mem_cons.2 ⟨hs, h.sound⟩, List.forall_mem_cons.2 ⟨?_, ?_⟩⟩
  · intro v hv
    obtain rfl := leads_unique hp.1 hp.2 hv.2
    simp
  · intro u hu v hv
    exact List.mem_cons_of_mem _ (h.onward u hu v hv)

lemma Explored.object (h : Explored definitions [s] seen) (hs : s.Sound)
    (ho : s.isObject = true) : Explored definitions [] (s :: seen) := by
  refine ⟨List.forall_mem_cons.2 ⟨hs, h.sound⟩, List.forall_mem_cons.2 ⟨?_, h.onward⟩⟩
  intro v hv
  rw [hv.1] at ho
  cases ho

lemma Explored.after (h : Explored (definitionsOf schema) [] seen)
    (hd : Discovers schema g g' stack seen new) :
    Explored (definitionsOf schema) [] (new.reverse ++ seen) := by
  have hclosed := (hd.order [] [] .done).closed.2
  refine ⟨fun u hu => ?_, fun u hu v hv => ?_⟩
  · rcases List.mem_append.1 hu with hu | hu
    · exact hd.sound u (List.mem_reverse.1 hu)
    · exact h.sound u hu
  · simp only [List.append_nil, List.nil_append, List.mem_append, List.mem_reverse] at hu hclosed ⊢
    rcases hu with hu | hu
    · exact (hclosed u hu v hv.2).symm
    · exact Or.inr (h.onward u hu v hv)

/-- Nothing breaks off at a site that has been met, if nothing is ahead of what has been met. -/
lemma Explored.not_breaks (h : Explored (definitionsOf schema) [] seen)
    (hb : Breaks (definitionsOf schema) opening g s b) (hs : s ∈ seen)
    (hset : Settled schema g s) : False := by
  induction hb with
  | unsound hu => exact hu (h.sound _ hs)
  | @enter _ _ k _ _ _ _ hsh hd hg ho hb ih =>
    have hp := passes_reference k hsh hd
    exact ih (h.onward _ hs _ hp) (hp.settled.1 hset)
  | @array _ _ k _ _ _ _ hsh hb ih =>
    have hp := passes_items (definitionsOf schema) k hsh
    exact ih (h.onward _ hs _ hp) (hp.settled.1 hset)
  | @map _ _ k _ _ _ _ hsh hb ih =>
    have hp := passes_pattern (definitionsOf schema) k hsh
    exact ih (h.onward _ hs _ hp) (hp.settled.1 hset)
  | hoist hsh hg hp hw hb ih => exact hg (hset _ ⟨.refl, isObject_of_shape hsh⟩)

lemma Breaks.not_mem {t : FlatType} (hb : Breaks (definitionsOf schema) opening g s b)
    (hr : (Task.node s t).Ready schema opening seen g)
    (h : Explored (definitionsOf schema) [s] seen) : s ∉ seen := fun hs =>
  (h.of_mem hs).not_breaks hb hs (hr.settled_of_mem hs)

/-- In depth-first order from the stack, sites that can be read come first and then `b`. -/
def Meets (schema : Members) (seen stack : List Site) (b : Site) : Prop :=
  ∃ before pending, (∀ u ∈ before, u.Sound) ∧ (∀ u ∈ pending, Located schema u) ∧
    ∀ rest order, DepthFirst (leads (definitionsOf schema)) (b :: (before.reverse ++ seen))
      (pending ++ rest) order →
      DepthFirst (leads (definitionsOf schema)) seen (stack ++ rest) (before ++ b :: order)

lemma Meets.later {sites : List Site} (h : Meets schema seen stack b)
    (hl : ∀ u ∈ sites, Located schema u) : Meets schema seen (stack ++ sites) b := by
  obtain ⟨before, pending, hsound, hloc, horder⟩ := h
  refine ⟨before, pending ++ sites, hsound, List.forall_mem_append.2 ⟨hloc, hl⟩, ?_⟩
  intro rest order ho
  rw [List.append_assoc] at ho ⊢
  exact horder _ _ ho

lemma Meets.visit (hn : s ∉ seen) (hs : s.Sound)
    (h : Meets schema (s :: seen) (leads (definitionsOf schema) s) b) :
    Meets schema seen [s] b := by
  obtain ⟨before, pending, hsound, hloc, horder⟩ := h
  refine ⟨s :: before, pending, List.forall_mem_cons.2 ⟨hs, hsound⟩, hloc, ?_⟩
  intro rest order ho
  exact .visit hn (horder rest order (by simpa using ho))

lemma Discovers.meets {sites : List Site} (hd : Discovers schema g g' sites seen new)
    (h : Meets schema (new.reverse ++ seen) stack b) : Meets schema seen (sites ++ stack) b := by
  obtain ⟨before, pending, hsound, hloc, horder⟩ := h
  refine ⟨new ++ before, pending, List.forall_mem_append.2 ⟨hd.sound, hsound⟩, hloc, ?_⟩
  intro rest order ho
  rw [List.append_assoc, List.append_assoc]
  exact hd.order _ _ (horder rest order (by simpa using ho))

/-- Where the walk from a site that has been prepared for breaks off. -/
def Task.MeetsAt (schema : Members) (opening : List String) (g : Graph) (s b : Site) : Prop :=
  ∀ seen, Met schema seen g → Located schema s →
    (Task.node s .any).Ready schema opening seen g → Explored (definitionsOf schema) [s] seen →
    Located schema b ∧ Meets schema seen [s] b

/-- The walk breaks off behind a site that is no object and has a single way on. -/
lemma Task.MeetsAt.pass {k : Key} {m : Members} {sh : Shape} {opening' : List String} {c : Site}
    (hsch : (Document.record schema).Distinct) (hm : Task.MeetsAt schema opening' g c b)
    (hs : shape m = .ok sh) (ho : sh.isObject = false)
    (hl : leads (definitionsOf schema) ⟨k, .record m⟩ = [c])
    (hmet : Met schema seen g) (hloc : Located schema ⟨k, .record m⟩)
    (hr : (Task.node c .any).Ready schema opening' (⟨k, .record m⟩ :: seen) g)
    (hex : Explored (definitionsOf schema) [⟨k, .record m⟩] seen)
    (hn : ⟨k, .record m⟩ ∉ seen) :
    Located schema b ∧ Meets schema seen [⟨k, .record m⟩] b := by
  have hsound : Site.Sound ⟨k, .record m⟩ := sound_of_shape hs ho
  have hp := passes_of_leads hs ho hl
  obtain ⟨hb, hmeets⟩ := hm _ (hmet.visit hloc hp.1) (hloc.of_leads hsch hp.2) hr
    (hex.pass hsound hp)
  exact ⟨hb, .visit hn hsound (hl ▸ hmeets)⟩

/-- The walk breaks off at one of several members, with those in front of it walked through. -/
lemma Task.MeetsAt.among {path : Key} {required : List String} {before after : Members}
    {name : String} {node : Document} {properties : List Property}
    (hsch : (Document.record schema).Distinct)
    (hm : Task.MeetsAt schema opening g' ⟨path.child name, node⟩ b)
    (hw : Walks (definitionsOf schema) opening g (.members path required before properties) g')
    (hmet : Met schema seen g)
    (hl : ∀ s ∈ memberSites path (before ++ (name, node) :: after), Located schema s)
    (hr : (Task.members path required before properties).Ready schema opening seen g)
    (hex : Explored (definitionsOf schema) [] seen) :
    Located schema b ∧
      Meets schema seen (memberSites path (before ++ (name, node) :: after)) b := by
  have hsplit : memberSites path (before ++ (name, node) :: after) =
      memberSites path before ++ ([⟨path.child name, node⟩] ++ memberSites path after) := by
    simp [memberSites]
  rw [hsplit, List.forall_mem_append, List.forall_mem_append] at hl
  obtain ⟨new, hnew⟩ := hw.discovered hsch seen hmet hl.1 hr
  obtain ⟨hb, hmeets⟩ := hm _ (hmet.after hnew) (hl.2.1 _ (by simp))
    ⟨fun u hu => Or.inl (hnew.settled u hu),
      fun other ho d hd => List.mem_cons_of_mem _ (List.mem_append_right _ (hr.2 other ho d hd))⟩
    ((hex.after hnew).toward _)
  rw [hsplit]
  exact ⟨hb, hnew.meets (hmeets.later hl.2.2)⟩

/-- **The walk breaks off at the first site in depth-first order that it cannot read.** -/
theorem Breaks.meets (hsch : (Document.record schema).Distinct)
    (h : Breaks (definitionsOf schema) opening g s b) :
    Task.MeetsAt schema opening g s b := by
  induction h with
  | @unsound opening g s hu =>
    intro seen hmet hl hr hex
    have hn : s ∉ seen := fun hs => hu (hex.sound s hs)
    refine ⟨hl, [], leads (definitionsOf schema) s, by simp, ?_, ?_⟩
    · exact fun u hu => hl.of_leads hsch hu
    · exact fun rest order ho => .visit hn ho
  | enter hs hd hg ho hb ih =>
    intro seen hmet hl hr hex
    exact ih.pass hsch hs rfl (leads_reference hs hd) hmet hl (hr.enter hs hd) hex
      ((Breaks.enter hs hd hg ho hb).not_mem hr hex)
  | @array _ _ k _ _ _ _ hs hb ih =>
    intro seen hmet hl hr hex
    have hp := passes_items (definitionsOf schema) k hs
    exact ih.pass hsch hs rfl (leads_items hs) hmet hl (hr.pass hp) hex
      ((Breaks.array hs hb).not_mem hr hex)
  | @map _ _ k _ _ _ _ hs hb ih =>
    intro seen hmet hl hr hex
    have hp := passes_pattern (definitionsOf schema) k hs
    exact ih.pass hsch hs rfl (leads_pattern hs) hmet hl (hr.pass hp) hex
      ((Breaks.map hs hb).not_mem hr hex)
  | @hoist opening g g' k m before name node after properties b hs hg hp hw hb ih =>
    intro seen hmet hl hr hex
    have ho : Site.isObject ⟨k, .record m⟩ = true := isObject_of_shape hs
    have hsound : Site.Sound ⟨k, .record m⟩ := ⟨m, _, rfl, hs, fun _ => ⟨_, hp⟩⟩
    have hn := (Breaks.hoist hs hg hp hw hb).not_mem hr hex
    have hlocs : ∀ u ∈ memberSites (k.child "properties") (before ++ (name, node) :: after),
        Located schema u := by
      rw [← leads_object (definitionsOf schema) k hs hp]
      exact fun u hu => hl.of_leads hsch hu
    obtain ⟨hlb, hmeets⟩ := ih.among hsch hw (hmet.visitObject hl ho) hlocs (hr.hoist ho)
      (hex.object hsound ho)
    refine ⟨hlb, .visit hn hsound ?_⟩
    rw [leads_object (definitionsOf schema) k hs hp]
    exact hmeets

/-! ### Where a schema is refused -/

/-- A schema has only finitely many sites at true places. -/
lemma finite_located (schema : Members) : {s | Located schema s}.Finite := by
  refine Set.Finite.of_injOn (f := fun s : Site => s.key.segments) ?_ ?_
    (Document.record schema).finite_ways
  · intro s hs
    simp [hs.2]
  · intro a ha b hb hab
    exact ha.eq hb (congrArg Key.mk hab)

/-- Every schema has its depth-first order, whether it is refused or not. -/
lemma exists_order (seen : List Site) (hsch : (Document.record schema).Distinct)
    (hl : ∀ s ∈ stack, Located schema s) :
    ∃ order, DepthFirst (leads (definitionsOf schema)) seen stack order :=
  DepthFirst.exists_order (finite_located schema) (fun _ ha _ hb => ha.of_leads hsch hb) seen
    stack hl

lemma Meets.exists_order (hsch : (Document.record schema).Distinct)
    (h : Meets schema seen stack b) :
    ∃ before after, (∀ u ∈ before, u.Sound) ∧
      DepthFirst (leads (definitionsOf schema)) seen stack (before ++ b :: after) := by
  obtain ⟨before, pending, hsound, hl, horder⟩ := h
  obtain ⟨after, ho⟩ := Schema.exists_order (b :: (before.reverse ++ seen)) hsch hl
  refine ⟨before, after, hsound, ?_⟩
  simpa using horder [] after (by simpa using ho)

/-- The properties of the root are no record, or some site that they lead to cannot be read. -/
theorem refused_of_document (hsch : (Document.record schema).Distinct) {e : Defect}
    (he : Graph.ofDocument (.record schema) = .error e) :
    (e.place = .root ∧ ∃ d, schema.lookup "properties" = some d ∧ ∀ ps, d ≠ .record ps) ∨
    (∃ ps, schema.lookup "properties" = some (.record ps)) ∧
      ∃ before b after, b.key = e.place ∧ Located schema b ∧ ¬ b.Sound ∧ (∀ u ∈ before, u.Sound) ∧
        DepthFirst (leads (definitionsOf schema)) [] (propertySites .root schema)
          (before ++ b :: after) := by
  have hbelow := (walk_breaks (definitionsOf schema)).2.1 [] .root schema .empty e he
  obtain ⟨-, ⟨hk, hno⟩ | ⟨ps, b, hp, hamong, hb⟩⟩ := hbelow
  · exact Or.inl ⟨hk.symm, hno⟩
  · have hl := located_root hsch hp
    rw [propertySites_of_lookup hp]
    obtain ⟨before, name, node, after, properties, g', rfl, hw, hbreaks⟩ := hamong
    obtain ⟨hlb, hmeets⟩ := (hbreaks.meets hsch).among hsch hw met_reserved hl
      ⟨by simp, by simp⟩ ⟨by simp, by simp⟩
    obtain ⟨first, rest, hsound, ho⟩ := hmeets.exists_order hsch
    exact Or.inr ⟨⟨_, hp⟩, first, b, rest, hb, hlb, hbreaks.not_sound, hsound, ho⟩

end ProviderGen.Schema
