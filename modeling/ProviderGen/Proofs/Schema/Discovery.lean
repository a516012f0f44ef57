import ProviderGen.Proofs.DepthFirst
import ProviderGen.Proofs.Schema.Visit

/-!
The walk discovers objects in depth-first order. It does not remember every site: it cuts itself
short only at objects that are in the graph and at definitions that are open. A site met before
is walked again, but to no effect, for the object that it finds is in the graph by then; and while
that object is still being looked for, the way on leads through the site itself and goes round.
-/

namespace ProviderGen.Schema

open Document (Members)
open Relation (TransGen)

variable {schema : Members} {opening : List String} {g g' : Graph} {seen : List Site}

/-- What has been met, and the graph so far. -/
structure Met (schema : Members) (seen : List Site) (g : Graph) : Prop where
  located : ∀ s ∈ seen, Located schema s
  keys : ∀ k, k ∈ g.keys ↔ k = .root ∨ ∃ s ∈ seen, s.isObject = true ∧ s.key = k

/-- The object that a site finds, if any, is in the graph. -/
def Settled (schema : Members) (g : Graph) (s : Site) : Prop :=
  ∀ o, Finds (definitionsOf schema) s o → o.key ∈ g.keys

/-- All that has been met is settled, but for sites whose way on leads to the present one. -/
def Task.Ready (schema : Members) (opening : List String) (seen : List Site) (g : Graph) :
    Task → Prop
  | .node s _ =>
    (∀ u ∈ seen, Settled schema g u ∨ TransGen (Passes (definitionsOf schema)) u s) ∧
    ∀ name ∈ opening, ∀ d, (definitionsOf schema).lookup name = some d →
      ⟨.definition name, d⟩ ∈ s :: seen
  | .members .. =>
    (∀ u ∈ seen, Settled schema g u) ∧
    ∀ name ∈ opening, ∀ d, (definitionsOf schema).lookup name = some d →
      ⟨.definition name, d⟩ ∈ seen

/-- From the stack `sites` the sites `new` are discovered, and the graph grows by the objects
among them. -/
structure Discovers (schema : Members) (g g' : Graph) (sites seen new : List Site) : Prop where
  keys : g'.keys = g.keys ++ (new.filter Site.isObject).map Site.key
  order : ∀ rest order, DepthFirst (leads (definitionsOf schema)) (new.reverse ++ seen) rest order →
    DepthFirst (leads (definitionsOf schema)) seen (sites ++ rest) (new ++ order)
  located : ∀ s ∈ new, Located schema s
  sound : ∀ s ∈ new, s.Sound
  settled : ∀ s ∈ new.reverse ++ seen, Settled schema g' s

lemma Settled.mono {s : Site} (h : Settled schema g s) (hk : ∀ k ∈ g.keys, k ∈ g'.keys) :
    Settled schema g' s := fun o ho => hk _ (h o ho)

/-- An object met before is in the graph, and an object in the graph has been met. -/
lemma Met.mem_keys_iff {s : Site} (h : Met schema seen g) (hs : Located schema s)
    (ho : s.isObject = true) : s.key ∈ g.keys ↔ s ∈ seen := by
  rw [h.keys]
  refine ⟨?_, ?_⟩
  · rintro (hr | ⟨u, hu, -, hk⟩)
    · exact absurd hr hs.1
    · rwa [hs.eq (h.located u hu) hk.symm]
  · intro hm
    exact Or.inr ⟨s, hm, ho, rfl⟩

lemma Met.after {sites new : List Site} (h : Met schema seen g)
    (hd : Discovers schema g g' sites seen new) : Met schema (new.reverse ++ seen) g' := by
  refine ⟨?_, ?_⟩
  · intro s hs
    rcases List.mem_append.1 hs with hs | hs
    · exact hd.located s (List.mem_reverse.1 hs)
    · exact h.located s hs
  · intro k
    rw [hd.keys, List.mem_append, h.keys]
    simp only [List.mem_map, List.mem_filter, List.mem_append, List.mem_reverse]
    refine ⟨?_, ?_⟩
    · rintro ((hr | ⟨s, hs, ho, hk⟩) | ⟨s, ⟨hs, ho⟩, hk⟩)
      · exact Or.inl hr
      · exact Or.inr ⟨s, Or.inr hs, ho, hk⟩
      · exact Or.inr ⟨s, Or.inl hs, ho, hk⟩
    · rintro (hr | ⟨s, hs | hs, ho, hk⟩)
      · exact Or.inl (Or.inl hr)
      · exact Or.inr ⟨s, ⟨hs, ho⟩, hk⟩
      · exact Or.inl (Or.inr ⟨s, hs, ho, hk⟩)

/-! ### One step -/

/-- Nothing to do. -/
lemma discovers_nil (hs : ∀ s ∈ seen, Settled schema g s) :
    Discovers schema g g [] seen [] := by
  refine ⟨by simp, ?_, by simp, by simp, by simpa using hs⟩
  intro rest order h
  simpa using h

lemma discovers_again {s : Site} (hm : s ∈ seen) (hs : ∀ s ∈ seen, Settled schema g s) :
    Discovers schema g g [s] seen [] := by
  refine ⟨by simp, ?_, by simp, by simp, by simpa using hs⟩
  intro rest order h
  exact .skip hm (by simpa using h)

lemma Discovers.append {g₁ : Graph} {as bs new new' : List Site}
    (h : Discovers schema g g₁ as seen new)
    (h' : Discovers schema g₁ g' bs (new.reverse ++ seen) new') :
    Discovers schema g g' (as ++ bs) seen (new ++ new') := by
  refine ⟨?_, ?_, ?_, ?_, ?_⟩
  · rw [h'.keys, h.keys]
    simp
  · intro rest order ho
    rw [List.append_assoc, List.append_assoc]
    refine h.order _ _ (h'.order _ _ ?_)
    simpa using ho
  · intro s hs
    rcases List.mem_append.1 hs with hs | hs
    · exact h.located s hs
    · exact h'.located s hs
  · intro s hs
    rcases List.mem_append.1 hs with hs | hs
    · exact h.sound s hs
    · exact h'.sound s hs
  · simpa using h'.settled

/-- A site that is no object is discovered, and then what it leads to. -/
lemma Discovers.visit {s : Site} {new : List Site} (hn : s ∉ seen) (hl : Located schema s)
    (hs : s.Sound) (ho : s.isObject = false)
    (h : Discovers schema g g' (leads (definitionsOf schema) s) (s :: seen) new) :
    Discovers schema g g' [s] seen (s :: new) := by
  refine ⟨?_, ?_, ?_, ?_, ?_⟩
  · rw [h.keys, List.filter_cons_of_neg (by simp [ho])]
  · intro rest order hr
    exact .visit hn (h.order rest order (by simpa using hr))
  · exact List.forall_mem_cons.2 ⟨hl, h.located⟩
  · exact List.forall_mem_cons.2 ⟨hs, h.sound⟩
  · simpa using h.settled

/-- An object is discovered, and then its properties; they find their graph with a place for it. -/
lemma Discovers.visitObject {s : Site} {properties : List Property} {new : List Site}
    (hn : s ∉ seen) (hl : Located schema s) (hs : s.Sound) (ho : s.isObject = true)
    (hk : s.key ∉ g.keys)
    (h : Discovers schema (g.insert ⟨s.key, []⟩) g' (leads (definitionsOf schema) s)
      (s :: seen) new) :
    Discovers schema g (g'.insert ⟨s.key, properties⟩) [s] seen (s :: new) := by
  have hg : (g.insert ⟨s.key, []⟩).keys = g.keys ++ [s.key] := by
    rw [Graph.keys_insert, if_neg hk]
  have hk' : s.key ∈ g'.keys := by
    rw [h.keys, hg]
    simp
  have hg' : (g'.insert ⟨s.key, properties⟩).keys = g'.keys := by
    rw [Graph.keys_insert, if_pos hk']
  refine ⟨?_, ?_, ?_, ?_, ?_⟩
  · rw [hg', h.keys, hg, List.filter_cons_of_pos ho]
    simp
  · intro rest order hr
    exact .visit hn (h.order rest order (by simpa using hr))
  · exact List.forall_mem_cons.2 ⟨hl, h.located⟩
  · exact List.forall_mem_cons.2 ⟨hs, h.sound⟩
  · intro u hu
    have := h.settled u (by simpa using hu)
    exact this.mono (by simp [hg'])

lemma Passes.settled {a b : Site} (h : Passes (definitionsOf schema) a b) :
    Settled schema g a ↔ Settled schema g b := by
  unfold Settled
  simp only [h.finds_iff]

/-- A walk from a settled site is to no effect. -/
lemma Walks.idle {task : Task} (h : Walks (definitionsOf schema) opening g task g') :
    ∀ s t, task = .node s t → Settled schema g s → g' = g := by
  induction h with
  | @enter _ _ _ k _ _ _ _ hs hd hg ho hw ih =>
    rintro _ _ ⟨⟩ hset
    have hp := passes_reference k hs hd
    exact ih _ _ rfl (hp.settled.1 hset)
  | @array _ _ _ k _ _ _ _ hs hw ih =>
    rintro _ _ ⟨⟩ hset
    have hp := passes_items (definitionsOf schema) k hs
    exact ih _ _ rfl (hp.settled.1 hset)
  | @map _ _ _ k _ _ _ _ hs hw ih =>
    rintro _ _ ⟨⟩ hset
    have hp := passes_pattern (definitionsOf schema) k hs
    exact ih _ _ rfl (hp.settled.1 hset)
  | hoist hs hg hp hw ih =>
    rintro _ _ ⟨⟩ hset
    exact absurd (hset _ ⟨.refl, isObject_of_shape hs⟩) hg
  | nil => rintro _ _ ⟨⟩
  | cons => rintro _ _ ⟨⟩
  | _ =>
    intros
    rfl

/-- At a site met before, the walk is ready only if the site is settled. -/
lemma Task.Ready.settled_of_mem {s : Site} {t : FlatType}
    (h : (Task.node s t).Ready schema opening seen g) (hs : s ∈ seen) : Settled schema g s := by
  rcases h.1 s hs with hset | hround
  · exact hset
  · intro o ho
    exact absurd ho (not_finds_of_round hround)

/-- Once the present site is settled, all that has been met is. -/
lemma Task.Ready.settled {s : Site} {t : FlatType}
    (h : (Task.node s t).Ready schema opening seen g) (hs : Settled schema g s) :
    ∀ u ∈ s :: seen, Settled schema g u := by
  rw [List.forall_mem_cons]
  refine ⟨hs, fun u hu => ?_⟩
  rcases h.1 u hu with hset | hahead
  · exact hset
  · intro o ho
    exact hs o ((finds_iff_of_transGen hahead).1 ho)

/-- The walk is ready to go on where the present site leads. -/
lemma Task.Ready.pass {s b : Site} {t u : FlatType}
    (h : (Task.node s t).Ready schema opening seen g)
    (hp : Passes (definitionsOf schema) s b) :
    (Task.node b u).Ready schema opening (s :: seen) g := by
  refine ⟨?_, fun name hn d hd => List.mem_cons_of_mem _ (h.2 name hn d hd)⟩
  rw [List.forall_mem_cons]
  refine ⟨Or.inr (.single hp), fun u hu => ?_⟩
  rcases h.1 u hu with hset | hahead
  · exact Or.inl hset
  · exact Or.inr (hahead.tail hp)

/-- The walk is ready for a definition, which is then open. -/
lemma Task.Ready.enter {k : Key} {m : Members} {name : String} {body : Document} {t u : FlatType}
    (h : (Task.node ⟨k, .record m⟩ t).Ready schema opening seen g)
    (hs : shape m = .ok (.reference name)) (hd : (definitionsOf schema).lookup name = some body) :
    (Task.node ⟨.definition name, body⟩ u).Ready schema (name :: opening)
      (⟨k, .record m⟩ :: seen) g := by
  have h' := h.pass (u := u) (passes_reference k hs hd)
  refine ⟨h'.1, List.forall_mem_cons.2 ⟨?_, h'.2⟩⟩
  intro d hd'
  obtain rfl : body = d := by simpa [hd] using hd'
  exact List.mem_cons_self

/-- The walk is ready for the properties of an object once that has its place in the graph. -/
lemma Task.Ready.hoist {s : Site} {t : FlatType} {path : Key} {required : List String}
    {ps : Members} {properties : List Property}
    (h : (Task.node s t).Ready schema opening seen g) (ho : s.isObject = true) :
    (Task.members path required ps properties).Ready schema opening (s :: seen)
      (g.insert ⟨s.key, []⟩) := by
  have hself : Settled schema (g.insert ⟨s.key, []⟩) s := by
    intro o hf
    obtain rfl := (finds_iff_eq ho).1 hf
    exact Graph.mem_keys_insert.2 (Or.inl rfl)
  refine ⟨List.forall_mem_cons.2 ⟨hself, fun u hu => ?_⟩, h.2⟩
  rcases h.1 u hu with hset | hahead
  · exact hset.mono fun k hk => Graph.mem_keys_insert.2 (Or.inr hk)
  · exact fun o hf => hself o ((finds_iff_of_transGen hahead).1 hf)

/-! ### The whole walk -/

/-- A part of the walk discovers some sites; a single site must not have been met before. -/
def Task.Discovered (schema : Members) (opening : List String) (g g' : Graph) : Task → Prop
  | .node s t => ∀ seen, Met schema seen g → Located schema s →
    (Task.node s t).Ready schema opening seen g → s ∉ seen →
    ∃ new, Discovers schema g g' [s] seen new
  | .members path required ps properties => ∀ seen, Met schema seen g →
    (∀ s ∈ memberSites path ps, Located schema s) →
    (Task.members path required ps properties).Ready schema opening seen g →
    ∃ new, Discovers schema g g' (memberSites path ps) seen new

/-- Whether the site has been met or not. -/
lemma Task.Discovered.node {s : Site} {t : FlatType}
    (hd : (Task.node s t).Discovered schema opening g g')
    (h : Walks (definitionsOf schema) opening g (.node s t) g')
    (hm : Met schema seen g) (hl : Located schema s)
    (hr : (Task.node s t).Ready schema opening seen g) :
    ∃ new, Discovers schema g g' [s] seen new := by
  by_cases hs : s ∈ seen
  · have hset := hr.settled_of_mem hs
    obtain rfl := h.idle s t rfl hset
    exact ⟨[], discovers_again hs fun u hu => hr.settled hset u (List.mem_cons_of_mem _ hu)⟩
  · exact hd seen hm hl hr hs

/-- A site that is no object is met. -/
lemma Met.visit {s : Site} (hm : Met schema seen g) (hl : Located schema s)
    (ho : s.isObject = false) : Met schema (s :: seen) g := by
  refine ⟨List.forall_mem_cons.2 ⟨hl, hm.located⟩, fun k => ?_⟩
  rw [hm.keys]
  simp [ho]

/-- An object is met, and has its place in the graph. -/
lemma Met.visitObject {s : Site} (hm : Met schema seen g) (hl : Located schema s)
    (ho : s.isObject = true) : Met schema (s :: seen) (g.insert ⟨s.key, []⟩) := by
  refine ⟨List.forall_mem_cons.2 ⟨hl, hm.located⟩, fun k => ?_⟩
  rw [Graph.mem_keys_insert, hm.keys]
  refine ⟨?_, ?_⟩
  · rintro (rfl | hr | ⟨u, hu, hou, hku⟩)
    · exact Or.inr ⟨s, by simp, ho, rfl⟩
    · exact Or.inl hr
    · exact Or.inr ⟨u, List.mem_cons_of_mem _ hu, hou, hku⟩
  · rintro (hr | ⟨u, hu, hou, hku⟩)
    · exact Or.inr (Or.inl hr)
    · rcases List.mem_cons.1 hu with rfl | hu
      · exact Or.inl hku.symm
      · exact Or.inr (Or.inr ⟨u, hu, hou, hku⟩)

/-- The walk ends at a site that leads nowhere. -/
lemma Task.Ready.stop {k : Key} {m : Members} {sh : Shape} {t : FlatType}
    (hr : (Task.node ⟨k, .record m⟩ t).Ready schema opening seen g) (hs : shape m = .ok sh)
    (ho : sh.isObject = false) (hl : leads (definitionsOf schema) ⟨k, .record m⟩ = [])
    (hloc : Located schema ⟨k, .record m⟩) (hn : ⟨k, .record m⟩ ∉ seen) :
    Discovers schema g g [⟨k, .record m⟩] seen [⟨k, .record m⟩] := by
  have hobj : Site.isObject ⟨k, .record m⟩ = false := by rw [isObject_of_shape hs, ho]
  have hset : Settled schema g ⟨k, .record m⟩ := fun o hf =>
    absurd hf (not_finds_of_leads_nil hobj hl)
  refine .visit hn hloc (sound_of_shape hs ho) hobj ?_
  rw [hl]
  exact discovers_nil (hr.settled hset)

/-- The walk ends at a reference to a definition that has been met. -/
lemma Task.Ready.cut {k : Key} {m : Members} {name : String} {d : Document} {t : FlatType}
    (hr : (Task.node ⟨k, .record m⟩ t).Ready schema opening seen g)
    (hs : shape m = .ok (.reference name)) (hd : (definitionsOf schema).lookup name = some d)
    (hm : ⟨.definition name, d⟩ ∈ Site.mk k (.record m) :: seen)
    (hloc : Located schema ⟨k, .record m⟩) (hn : ⟨k, .record m⟩ ∉ seen) :
    Discovers schema g g [⟨k, .record m⟩] seen [⟨k, .record m⟩] := by
  have hp := passes_reference k hs hd
  have hset : Settled schema g ⟨k, .record m⟩ :=
    hp.settled.2 ((hr.pass (u := t) hp).settled_of_mem hm)
  refine .visit hn hloc (sound_of_shape hs rfl) hp.1 ?_
  rw [leads_reference hs hd]
  exact discovers_again hm (hr.settled hset)

/-- The walk goes on from a site that is no object. -/
lemma Task.Discovered.pass {k : Key} {m : Members} {sh : Shape} {b : Site} {t : FlatType}
    (hd : (Task.node b t).Discovered schema opening g g')
    (hw : Walks (definitionsOf schema) opening g (.node b t) g')
    (hs : shape m = .ok sh) (ho : sh.isObject = false)
    (hl : leads (definitionsOf schema) ⟨k, .record m⟩ = [b])
    (hsch : (Document.record schema).Distinct)
    (hm : Met schema seen g) (hloc : Located schema ⟨k, .record m⟩)
    (hr : (Task.node b t).Ready schema opening (⟨k, .record m⟩ :: seen) g)
    (hn : ⟨k, .record m⟩ ∉ seen) :
    ∃ new, Discovers schema g g' [⟨k, .record m⟩] seen new := by
  have hp := passes_of_leads hs ho hl
  obtain ⟨new, hnew⟩ := hd.node hw (hm.visit hloc hp.1) (hloc.of_leads hsch hp.2) hr
  refine ⟨⟨k, .record m⟩ :: new, .visit hn hloc (sound_of_shape hs ho) hp.1 ?_⟩
  rw [hl]
  exact hnew

/-- **The walk discovers what it is to visit** in depth-first order. -/
theorem Walks.discovered (hsch : (Document.record schema).Distinct) {task : Task}
    (h : Walks (definitionsOf schema) opening g task g') :
    task.Discovered schema opening g g' := by
  induction h with
  | leaf hs =>
    intro seen hm hl hr hn
    exact ⟨_, hr.stop hs rfl (by simp [leads_of_shape hs, Shape.sites]) hl hn⟩
  | absent hs hd =>
    intro seen hm hl hr hn
    exact ⟨_, hr.stop hs rfl (by simp [leads_of_shape hs, Shape.sites, hd]) hl hn⟩
  | arrayOfAny hs =>
    intro seen hm hl hr hn
    exact ⟨_, hr.stop hs rfl (by simp [leads_of_shape hs, Shape.sites]) hl hn⟩
  | mapOfAny hs =>
    intro seen hm hl hr hn
    exact ⟨_, hr.stop hs rfl (by simp [leads_of_shape hs, Shape.sites]) hl hn⟩
  | known hs hd hg =>
    intro seen hm hl hr hn
    have hloc := located_definition hd
    rcases (hm.keys _).1 hg with hroot | ⟨u, hu, ho, hk⟩
    · exact absurd hroot hloc.1
    · obtain rfl := hloc.eq (hm.located u hu) hk.symm
      exact ⟨_, hr.cut hs hd (List.mem_cons_of_mem _ hu) hl hn⟩
  | «open» hs hd hg ho =>
    intro seen hm hl hr hn
    exact ⟨_, hr.cut hs hd (hr.2 _ ho _ hd) hl hn⟩
  | @enter opening _ _ k m name body t hs hd hg ho hw ih =>
    intro seen hm hl hr hn
    exact ih.pass hw hs rfl (leads_reference hs hd) hsch hm hl (hr.enter hs hd) hn
  | @array _ _ _ k m _ items _ hs hw ih =>
    intro seen hm hl hr hn
    have hp := passes_items (definitionsOf schema) k hs
    exact ih.pass hw hs rfl (leads_items hs) hsch hm hl (hr.pass hp) hn
  | @map _ _ _ k m pattern value _ hs hw ih =>
    intro seen hm hl hr hn
    have hp := passes_pattern (definitionsOf schema) k hs
    exact ih.pass hw hs rfl (leads_pattern hs) hsch hm hl (hr.pass hp) hn
  | again hs hg =>
    intro seen hm hl hr hn
    exact absurd ((hm.mem_keys_iff hl (isObject_of_shape hs)).1 hg) hn
  | @hoist opening g g' k m ps properties hs hg hp hw ih =>
    intro seen hm hl hr hn
    have ho : Site.isObject ⟨k, .record m⟩ = true := isObject_of_shape hs
    have hl' := leads_object (definitionsOf schema) k hs hp
    have hlocs : ∀ s ∈ memberSites (k.child "properties") ps, Located schema s := by
      intro s hs'
      exact hl.of_leads hsch (hl' ▸ hs')
    obtain ⟨new, hnew⟩ := ih _ (hm.visitObject hl ho) hlocs (hr.hoist ho)
    refine ⟨⟨k, .record m⟩ :: new, .visitObject hn hl ⟨m, _, rfl, hs, fun _ => ⟨ps, hp⟩⟩ ho hg ?_⟩
    rw [hl']
    exact hnew
  | nil =>
    intro seen hm hl hr
    exact ⟨[], discovers_nil hr.1⟩
  | @cons opening g g' g'' path required name node ps t properties hn hr ihn ihr =>
    intro seen hm hl hr'
    have hl := List.forall_mem_cons.1 hl
    obtain ⟨new, hnew⟩ := ihn.node hn hm hl.1
      ⟨fun u hu => Or.inl (hr'.1 u hu), fun _ h _ hd => List.mem_cons_of_mem _ (hr'.2 _ h _ hd)⟩
    obtain ⟨new', hnew'⟩ := ihr _ (hm.after hnew) hl.2
      ⟨hnew.settled, fun _ h _ hd => List.mem_append_right _ (hr'.2 _ h _ hd)⟩
    exact ⟨_, hnew.append hnew'⟩

end ProviderGen.Schema
