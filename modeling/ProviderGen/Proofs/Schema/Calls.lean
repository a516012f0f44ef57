import ProviderGen.Proofs.Schema.Visit
import Mathlib.Data.Finset.Card
import Mathlib.Data.List.Chain

/-!
The walk, one call at a time. A machine makes and ends the calls of the walk: it keeps those that
wait for another to end, and in one set the definitions that are open, to which a name is added
when the body of its definition is entered and from which it is taken when the body is left. The
machine gives the answers of the walk, from any point of it, so it comes to an end; and how deep
its calls can go is read off the calls that wait, which change by one with each step.
-/

namespace ProviderGen

/-- A document that is a proper part of another. -/
inductive Document.Inside : Document → Document → Prop where
  | member {name : String} {d : Document} {ms : Document.Members} (h : (name, d) ∈ ms) :
      Inside d (.record ms)
  | trans {a b c : Document} (h : Inside a b) (h' : Inside b c) : Inside a c

lemma Document.Inside.sizeOf_lt {d d' : Document} (h : d.Inside d') : sizeOf d < sizeOf d' := by
  induction h with
  | member h =>
    have := Members.sizeOf_lt_of_mem h
    simp only [record.sizeOf_spec]
    omega
  | trans _ _ ih ih' => exact ih.trans ih'

namespace Schema

open Document (Members Inside)

/-! ### The machine -/

/-- A call that waits for the one it made, with the node that it is about. The call at a reference
has entered the body of a definition; the call at an object waits for the type of one property. -/
inductive Call where
  | entered (node : Document) (name : String)
  | items (node : Document) (unique : Bool)
  | pattern (node : Document)
  | property (key : Key) (members : Members) (name : String) (rest : Members)
      (found : List Property)

inductive Control where
  | type (path : Key) (node : Document)
  | object (key : Key) (members : Members)
  | properties (key : Key) (members : Members) (rest : Members) (found : List Property)
  | answer (type : FlatType)
  | failed (defect : Defect)

structure Machine where
  control : Control
  waiting : List Call
  resolving : Finset String
  graph : Graph

namespace Machine

def answer (s : Machine) (t : FlatType) : Machine := { s with control := .answer t }

def fail (s : Machine) (e : Defect) : Machine := { s with control := .failed e }

/-- Calls for the type of a node. -/
def call (s : Machine) (c : Call) (path : Key) (node : Document) : Machine :=
  { s with control := .type path node, waiting := c :: s.waiting }

/-- Enters the body of a definition. -/
def enter (s : Machine) (node : Document) (name : String) (body : Document) : Machine :=
  { s.call (.entered node name) (.definition name) body with
    resolving := insert name s.resolving }

def atReference (s : Machine) (definitions : Members) (node : Document) (name : String) :
    Machine :=
  match definitions.lookup name with
  | none => s.answer (.object (.definition name))
  | some body =>
    if .definition name ∈ s.graph.keys then s.answer (.object (.definition name))
    else if name ∈ s.resolving then s.answer .any
    else s.enter node name body

def atType (s : Machine) (definitions : Members) (path : Key) : Document → Machine
  | .record m =>
    match shape m with
    | .error fault => s.fail ⟨path, fault⟩
    | .ok (.leaf t) => s.answer t
    | .ok (.reference name) => s.atReference definitions (.record m) name
    | .ok (.array none unique) => s.answer (collection unique .any)
    | .ok (.array (some items) unique) =>
      s.call (.items (.record m) unique) (path.child "items") items
    | .ok .object => { s with control := .object path m }
    | .ok (.map none) => s.answer (.map .any)
    | .ok (.map (some (pattern, value))) =>
      s.call (.pattern (.record m)) ((path.child "patternProperties").child pattern) value
  | _ => s.fail ⟨path, .nodeNotRecord⟩

/-- An object that is new gets its place in the graph before its properties are looked at. -/
def atObject (s : Machine) (key : Key) (m : Members) : Machine :=
  if key ∈ s.graph.keys then s.answer (.object key)
  else
    let s := { s with graph := s.graph.insert ⟨key, []⟩ }
    match m.lookup "properties" with
    | none => s.answer (.object key)
    | some (.record ps) => { s with control := .properties key m ps [] }
    | some _ => s.fail ⟨key, .propertiesNotRecord⟩

def atProperties (s : Machine) (key : Key) (m : Members) (found : List Property) :
    Members → Machine
  | [] => { s with graph := s.graph.insert ⟨key, found⟩ }.answer (.object key)
  | (name, node) :: rest =>
    s.call (.property key m name rest found) ((key.child "properties").child name) node

end Machine

/-- How a call goes on when the one it waits for ends with a type. -/
def Call.resume (t : FlatType) : Call → Control
  | entered _ _ => .answer t
  | items _ unique => .answer (collection unique t)
  | pattern _ => .answer (.map t)
  | property key m name rest found =>
    .properties key m rest (found ++ [⟨name, t, (requiredNames m).contains name⟩])

/-- The definitions that are open when what the call waits for has ended, well or not. -/
def Call.left (resolving : Finset String) : Call → Finset String
  | entered _ name => resolving.erase name
  | _ => resolving

/-- One step; a machine that has ended has none. -/
def Machine.step (definitions : Members) (s : Machine) : Option Machine :=
  match s.control, s.waiting with
  | .type path node, _ => some (s.atType definitions path node)
  | .object key m, _ => some (s.atObject key m)
  | .properties key m rest found, _ => some (s.atProperties key m found rest)
  | .answer _, [] => none
  | .failed _, [] => none
  | .answer t, c :: r =>
    some { s with control := c.resume t, waiting := r, resolving := c.left s.resolving }
  | .failed _, c :: r => some { s with waiting := r, resolving := c.left s.resolving }

def Machine.Runs (definitions : Members) : Machine → Machine → Prop :=
  Relation.ReflTransGen fun s s' => s.step definitions = some s'

/-! ### The answers of the machine -/

variable {definitions : Members} {s s' : Machine} {waiting : List Call} {R : Finset String}
  {r : Except Defect (FlatType × Graph)} {g : Graph} {opening : List String}

/-- From here the machine ends the current call with the answer given, and those that wait as well
as the open definitions are as given. -/
def Returns (definitions : Members) (s : Machine) (waiting : List Call) (R : Finset String) :
    Except Defect (FlatType × Graph) → Prop
  | .ok (t, g) => s.Runs definitions ⟨.answer t, waiting, R, g⟩
  | .error e => ∃ g, s.Runs definitions ⟨.failed e, waiting, R, g⟩

lemma Returns.head (h : s.step definitions = some s')
    (hr : Returns definitions s' waiting R r) : Returns definitions s waiting R r := by
  cases r with
  | ok p => exact .head h hr
  | error e =>
    obtain ⟨g, hr⟩ := hr
    exact ⟨g, .head h hr⟩

/-- What a call makes of an answer, the call answers. -/
lemma Returns.resume {c : Call} {f : FlatType × Graph → Except Defect (FlatType × Graph)}
    (h : Returns definitions s (c :: waiting) R r)
    (hf : ∀ t g, r = .ok (t, g) → Returns definitions ⟨c.resume t, waiting, c.left R, g⟩
      waiting (c.left R) (f (t, g))) : Returns definitions s waiting (c.left R) (r >>= f) := by
  cases r with
  | ok p =>
    have hnext := hf p.1 p.2 rfl
    cases hp : f p with
    | ok q =>
      rw [hp] at hnext
      simp only [bind, Except.bind, hp]
      exact .trans h (.head rfl hnext)
    | error e =>
      rw [hp] at hnext
      obtain ⟨g, hnext⟩ := hnext
      simp only [bind, Except.bind, hp]
      exact ⟨g, .trans h (.head rfl hnext)⟩
  | error e =>
    obtain ⟨g, h⟩ := h
    exact ⟨g, h.tail rfl⟩

lemma returns_answer (t : FlatType) :
    Returns definitions ⟨.answer t, waiting, R, g⟩ waiting R (.ok (t, g)) := .refl

lemma returns_failed (e : Defect) :
    Returns definitions ⟨.failed e, waiting, R, g⟩ waiting R (.error e) := ⟨g, .refl⟩

/-- The machine answers each call as the walk does, whatever waits for it. -/
lemma returns_walk (definitions : Members) :
    (∀ opening path node g, ∀ waiting,
      Returns definitions ⟨.type path node, waiting, opening.toFinset, g⟩ waiting opening.toFinset
        (typeAt definitions opening path node g)) ∧
    (∀ opening key m g, ∀ waiting,
      Returns definitions ⟨.object key m, waiting, opening.toFinset, g⟩ waiting opening.toFinset
        ((hoist definitions opening key m g).map fun g => (.object key, g))) ∧
    (∀ opening path required ps g, ∀ key m found waiting, path = key.child "properties" →
      required = requiredNames m →
      Returns definitions ⟨.properties key m ps found, waiting, opening.toFinset, g⟩ waiting
        opening.toFinset ((propertiesAt definitions opening path required ps g).map
          fun p => (.object key, p.2.insert ⟨key, found ++ p.1⟩))) := by
  apply typeAt.mutual_induct definitions
  · intro opening k g m fault hs waiting
    refine .head rfl ?_
    simp only [typeAt_record, Machine.atType, hs]
    exact returns_failed _
  · intro opening k g m t hs waiting
    refine .head rfl ?_
    simp only [typeAt_record, Machine.atType, hs]
    exact returns_answer t
  · intro opening k g m name hs hd waiting
    refine .head rfl ?_
    simp only [typeAt_record, Machine.atType, Machine.atReference, hs, hd]
    exact returns_answer _
  · intro opening k g m name hs body hd hg waiting
    rw [Graph.contains_iff] at hg
    refine .head rfl ?_
    simp only [typeAt_record, Machine.atType, Machine.atReference, hs, hd, if_pos hg]
    exact returns_answer _
  · intro opening k g m name hs body hd hg ho waiting
    rw [Graph.contains_iff] at hg
    have hR : name ∈ opening.toFinset := List.mem_toFinset.2 ho
    refine .head rfl ?_
    simp only [typeAt_record, Machine.atType, Machine.atReference, hs, hd, if_neg hg, if_pos ho,
      if_pos hR]
    exact returns_answer _
  · intro opening k g m name hs body hd hg ho ih waiting
    rw [Graph.contains_iff] at hg
    have hR : name ∉ opening.toFinset := fun h => ho (List.mem_toFinset.1 h)
    have hclose : (Call.entered (.record m) name).left (name :: opening).toFinset =
        opening.toFinset := by
      rw [Call.left, List.toFinset_cons, Finset.erase_insert hR]
    have hreturn := (ih (.entered (.record m) name :: waiting)).resume
      (f := pure) fun t g _ => returns_answer t
    rw [hclose, bind_pure] at hreturn
    refine .head rfl ?_
    simp only [typeAt_record, Machine.atType, Machine.atReference, hs, hd, if_neg hg, if_neg ho,
      if_neg hR, Machine.enter, Machine.call, ← List.toFinset_cons]
    exact hreturn
  · intro opening k g m unique hs waiting
    refine .head rfl ?_
    simp only [typeAt_record, Machine.atType, hs]
    exact returns_answer _
  · intro opening k g m items unique hs ih waiting
    refine .head rfl ?_
    simp only [typeAt_record, Machine.atType, hs]
    exact (ih (.items (.record m) unique :: waiting)).resume fun t g _ => returns_answer _
  · intro opening k g m hs ih waiting
    have hreturn := ih waiting
    refine .head rfl ?_
    simp only [typeAt_record, Machine.atType, hs]
    cases hr : hoist definitions opening k m g with
    | ok g' =>
      rw [hr] at hreturn
      exact hreturn
    | error e =>
      rw [hr] at hreturn
      exact hreturn
  · intro opening k g m hs waiting
    refine .head rfl ?_
    simp only [typeAt_record, Machine.atType, hs]
    exact returns_answer _
  · intro opening k g m pattern value hs ih waiting
    refine .head rfl ?_
    simp only [typeAt_record, Machine.atType, hs]
    exact (ih (.pattern (.record m) :: waiting)).resume fun t g _ => returns_answer _
  · intro opening k node g hn waiting
    refine .head rfl ?_
    unfold typeAt
    cases node with
    | record m => exact absurd rfl (hn m)
    | _ => exact returns_failed _
  · intro opening k m g hg waiting
    rw [Graph.contains_iff] at hg
    refine .head rfl ?_
    rw [hoist_eq, Machine.atObject, if_pos hg, if_pos hg]
    exact returns_answer _
  · intro opening k m g hg hp waiting
    rw [Graph.contains_iff] at hg
    refine .head rfl ?_
    rw [hoist_eq, Machine.atObject, if_neg hg, if_neg hg]
    simp only [hp]
    exact returns_answer _
  · intro opening k m g hg ps hp ih waiting
    rw [Graph.contains_iff] at hg
    have hreturn := ih k m [] waiting rfl rfl
    refine .head rfl ?_
    rw [hoist_eq, Machine.atObject, if_neg hg, if_neg hg]
    simp only [hp]
    cases hr : propertiesAt definitions opening (k.child "properties") (requiredNames m) ps
        (g.insert ⟨k, []⟩) with
    | ok q =>
      rw [hr] at hreturn
      exact hreturn
    | error e =>
      rw [hr] at hreturn
      exact hreturn
  · intro opening k m g hg d hd hp waiting
    rw [Graph.contains_iff] at hg
    refine .head rfl ?_
    rw [hoist_eq, Machine.atObject, if_neg hg, if_neg hg]
    simp only [hp]
    cases d with
    | record ps => exact absurd rfl (hd ps)
    | _ => exact returns_failed _
  · intro opening path required g key m found waiting hpath hrequired
    refine .head rfl ?_
    unfold propertiesAt
    simp only [Machine.atProperties, Except.map, List.append_nil]
    exact returns_answer _
  · intro opening path required g name node r ihn ihr key m found waiting hpath hrequired
    subst hpath hrequired
    refine .head rfl ?_
    unfold propertiesAt
    have hreturn := (ihn (.property key m name r found :: waiting)).resume
      (f := fun p => ((propertiesAt definitions opening (key.child "properties")
        (requiredNames m) r p.2).map fun q => (FlatType.object key, q.2.insert
          ⟨key, found ++ ⟨name, p.1, (requiredNames m).contains name⟩ :: q.1⟩)))
      fun t g _ => by
        have hrest := ihr g key m (found ++ [⟨name, t, (requiredNames m).contains name⟩]) waiting
          rfl rfl
        simp only [List.append_assoc, List.singleton_append] at hrest
        exact hrest
    cases hn : typeAt definitions opening ((key.child "properties").child name) node g with
    | error e =>
      rw [hn] at hreturn
      exact hreturn
    | ok p =>
      rw [hn] at hreturn
      cases hr : propertiesAt definitions opening (key.child "properties") (requiredNames m) r
          p.2 with
      | error e =>
        simp only [bind, Except.bind, hr] at hreturn ⊢
        exact hreturn
      | ok q =>
        simp only [bind, Except.bind, hr] at hreturn ⊢
        exact hreturn

/-! ### What one step does -/

/-- The node that a call is about. -/
def Call.node : Call → Document
  | entered node _ | items node _ | pattern node => node
  | property _ m _ _ _ => .record m

/-- The definition whose body a call has entered. -/
def Call.entry? : Call → Option String
  | entered _ name => some name
  | _ => none

/-- The node that the current call is about, unless it has ended. -/
def Control.node? : Control → Option Document
  | type _ node => some node
  | object _ m | properties _ m _ _ => some (.record m)
  | answer _ | failed _ => none

/-- All that is still to be looked at is a part of the object. -/
def Parts (m rest : Members) : Prop := ∀ p ∈ rest, Inside p.2 (.record m)

def Control.Parts : Control → Prop
  | properties _ m rest _ => Schema.Parts m rest
  | _ => True

def Call.Parts : Call → Prop
  | property _ m _ rest _ => Schema.Parts m rest
  | _ => True

structure Machine.Parts (s : Machine) : Prop where
  control : s.control.Parts
  waiting : ∀ c ∈ s.waiting, c.Parts

/-- The four things that a step can do: it goes on in the current call, calls for a part of its
node, enters a definition that is not open, or goes back to the call that waits. -/
inductive Move (definitions : Members) (s s' : Machine) : Prop where
  | stay (waiting : s'.waiting = s.waiting) (resolving : s'.resolving = s.resolving)
      (node : ∀ node ∈ s'.control.node?, node ∈ s.control.node?)
  | call (c : Call) (node : Document) (waiting : s'.waiting = c :: s.waiting)
      (resolving : s'.resolving = s.resolving) (caller : c.node ∈ s.control.node?)
      (entry : c.entry? = none) (control : s'.control.node? = some node)
      (inside : Inside node c.node)
  | enter (node body : Document) (name : String)
      (waiting : s'.waiting = .entered node name :: s.waiting)
      (resolving : s'.resolving = insert name s.resolving) (caller : node ∈ s.control.node?)
      (control : s'.control.node? = some body) (found : definitions.lookup name = some body)
      (fresh : name ∉ s.resolving)
  | back (c : Call) (waiting : s.waiting = c :: s'.waiting)
      (resolving : s'.resolving = c.left s.resolving) (ended : s.control.node? = none)
      (node : ∀ node ∈ s'.control.node?, node = c.node)

/-- A step that ends the current call, or goes on with its node. -/
lemma move_stay {control : Control} {g : Graph} (hd : s.Parts)
    (hn : ∀ node ∈ control.node?, node ∈ s.control.node?) (hc : control.Parts) :
    Move definitions s ⟨control, s.waiting, s.resolving, g⟩ ∧
      (⟨control, s.waiting, s.resolving, g⟩ : Machine).Parts :=
  ⟨.stay rfl rfl hn, hc, hd.waiting⟩

lemma move_idle {control : Control} {g : Graph} (hd : s.Parts) (hn : control.node? = none)
    (hc : control.Parts) : Move definitions s ⟨control, s.waiting, s.resolving, g⟩ ∧
      (⟨control, s.waiting, s.resolving, g⟩ : Machine).Parts :=
  move_stay hd (by simp [hn]) hc

lemma move_call {c : Call} {path : Key} {node : Document} (hd : s.Parts)
    (hcaller : c.node ∈ s.control.node?) (hentry : c.entry? = none) (hc : c.Parts)
    (hin : Inside node c.node) :
    Move definitions s (s.call c path node) ∧ (s.call c path node).Parts :=
  ⟨.call c node rfl rfl hcaller hentry rfl hin, trivial,
    List.forall_mem_cons.2 ⟨hc, hd.waiting⟩⟩

lemma inside_of_lookup {name : String} {d : Document} {m : Members} (h : m.lookup name = some d) :
    Inside d (.record m) := .member (Members.mem_of_lookup h)

lemma inside_items {m : Members} {d : Document} {unique : Bool}
    (h : shape m = .ok (.array (some d) unique)) : Inside d (.record m) :=
  inside_of_lookup (shapeOfType_items (shape_eq_shapeOfType h (by simp)))

lemma inside_pattern {m : Members} {pattern : String} {d : Document}
    (h : shape m = .ok (.map (some (pattern, d)))) : Inside d (.record m) := by
  have hp := shapeOfType_map (shape_eq_shapeOfType h (by simp))
  unfold firstPattern? at hp
  split at hp
  · rename_i ps hps
    exact .trans (.member (List.mem_of_head? hp)) (inside_of_lookup hps)
  · cases hp

lemma parts_properties {m ps : Members} (h : m.lookup "properties" = some (.record ps)) :
    Parts m ps :=
  fun _ hp => .trans (.member hp) (inside_of_lookup h)

lemma move_atReference {node : Document} {name : String} (hd : s.Parts)
    (hn : s.control.node? = some node) :
    Move definitions s (s.atReference definitions node name) ∧
      (s.atReference definitions node name).Parts := by
  unfold Machine.atReference
  split
  · exact move_idle hd rfl trivial
  · rename_i body hbody
    split
    · exact move_idle hd rfl trivial
    · split
      · exact move_idle hd rfl trivial
      · rename_i hfresh
        exact ⟨.enter node body name rfl rfl hn rfl hbody hfresh, trivial,
          List.forall_mem_cons.2 ⟨trivial, hd.waiting⟩⟩

lemma move_atType {path : Key} {node : Document} (hd : s.Parts)
    (hn : s.control.node? = some node) :
    Move definitions s (s.atType definitions path node) ∧
      (s.atType definitions path node).Parts := by
  unfold Machine.atType
  split
  · split
    · exact move_idle hd rfl trivial
    · exact move_idle hd rfl trivial
    · exact move_atReference hd hn
    · exact move_idle hd rfl trivial
    · rename_i hs
      exact move_call hd hn rfl trivial (inside_items hs)
    · refine move_stay hd (fun node hnode => ?_) trivial
      rw [hn]
      exact hnode
    · exact move_idle hd rfl trivial
    · rename_i hs
      exact move_call hd hn rfl trivial (inside_pattern hs)
  · exact move_idle hd rfl trivial

lemma move_atObject {key : Key} {m : Members} (hd : s.Parts)
    (hn : s.control.node? = some (.record m)) :
    Move definitions s (s.atObject key m) ∧ (s.atObject key m).Parts := by
  unfold Machine.atObject
  split
  · exact move_idle hd rfl trivial
  · dsimp only
    split
    · exact move_idle hd rfl trivial
    · rename_i ps hps
      refine move_stay hd (fun node hnode => ?_) (parts_properties hps)
      rw [hn]
      exact hnode
    · exact move_idle hd rfl trivial

lemma move_atProperties {key : Key} {m rest : Members} {found : List Property} (hd : s.Parts)
    (hn : s.control.node? = some (.record m)) (hrest : Parts m rest) :
    Move definitions s (s.atProperties key m found rest) ∧
      (s.atProperties key m found rest).Parts := by
  cases rest with
  | nil => exact move_idle hd rfl trivial
  | cons p r =>
    obtain ⟨hp, hr⟩ := List.forall_mem_cons.1 hrest
    exact move_call (c := .property key m p.1 r found) hd hn rfl hr hp

/-- Every step is one of the four. -/
lemma move_of_step (h : s.step definitions = some s') (hd : s.Parts) :
    Move definitions s s' ∧ s'.Parts := by
  obtain ⟨control, waiting, resolving, graph⟩ := s
  cases control with
  | type path node =>
    obtain rfl := Option.some.inj h
    exact move_atType hd rfl
  | object key m =>
    obtain rfl := Option.some.inj h
    exact move_atObject hd rfl
  | properties key m rest found =>
    obtain rfl := Option.some.inj h
    exact move_atProperties hd rfl hd.control
  | answer t =>
    cases waiting with
    | nil => cases h
    | cons c r =>
      obtain rfl := Option.some.inj h
      obtain ⟨hc, hr⟩ := List.forall_mem_cons.1 hd.waiting
      refine ⟨.back c rfl rfl rfl ?_, ?_, hr⟩
      · cases c <;> simp [Call.resume, Control.node?, Call.node]
      · cases c <;> exact hc
  | failed e =>
    cases waiting with
    | nil => cases h
    | cons c r =>
      obtain rfl := Option.some.inj h
      exact ⟨.back c rfl rfl rfl nofun, trivial, (List.forall_mem_cons.1 hd.waiting).2⟩

/-! ### The calls that wait -/

/-- The definitions whose bodies are entered and not left, the innermost first. -/
def Machine.opened (s : Machine) : List String := s.waiting.filterMap Call.entry?

/-- A call that enters a definition makes a call for its body, any other for a part of its node. -/
def Below (definitions : Members) (node : Document) (c : Call) : Prop :=
  match c.entry? with
  | some name => definitions.lookup name = some node
  | none => Inside node c.node

/-- The open definitions are those that waiting calls have entered, each of them once; and all
calls, the current one too, are about what the call before it has called for. -/
structure Machine.Nested (definitions : Members) (s : Machine) : Prop where
  resolving : s.resolving = s.opened.toFinset
  nodup : s.opened.Nodup
  found : ∀ name ∈ s.opened, ∃ body, definitions.lookup name = some body
  calls : s.waiting.IsChain fun inner outer => Below definitions inner.node outer
  current : ∀ node ∈ s.control.node?, ∀ c ∈ s.waiting.head?, Below definitions node c

lemma opened_cons {c : Call} (h : s'.waiting = c :: s.waiting) :
    s'.opened = c.entry?.toList ++ s.opened := by
  rw [Machine.opened, h, List.filterMap_cons]
  cases c.entry? <;> rfl

lemma Machine.Nested.call {c : Call} {node : Document} (hs : s.Nested definitions)
    (hwaiting : s'.waiting = c :: s.waiting) (hcaller : c.node ∈ s.control.node?)
    (hcontrol : s'.control.node? = some node) (hbelow : Below definitions node c) :
    (s'.waiting.IsChain fun inner outer => Below definitions inner.node outer) ∧
      ∀ node ∈ s'.control.node?, ∀ c ∈ s'.waiting.head?, Below definitions node c := by
  rw [hwaiting, hcontrol]
  refine ⟨List.isChain_cons.2 ⟨hs.current _ hcaller, hs.calls⟩, ?_⟩
  simp only [List.head?_cons, Option.mem_some_iff]
  rintro _ rfl _ rfl
  exact hbelow

lemma Move.nested (h : Move definitions s s') (hs : s.Nested definitions) :
    s'.Nested definitions := by
  cases h with
  | stay waiting resolving node =>
    have hopened : s'.opened = s.opened := by rw [Machine.opened, waiting, Machine.opened]
    refine ⟨?_, ?_, ?_, ?_, fun n hn c hc => ?_⟩
    · rw [resolving, hopened, hs.resolving]
    · rw [hopened]
      exact hs.nodup
    · rw [hopened]
      exact hs.found
    · rw [waiting]
      exact hs.calls
    · rw [waiting] at hc
      exact hs.current n (node n hn) c hc
  | call c node waiting resolving caller entry control inside =>
    have hopened : s'.opened = s.opened := by rw [opened_cons waiting, entry]; rfl
    have hbelow : Below definitions node c := by rwa [Below, entry]
    obtain ⟨hcalls, hcurrent⟩ := hs.call waiting caller control hbelow
    refine ⟨?_, ?_, ?_, hcalls, hcurrent⟩
    · rw [resolving, hopened, hs.resolving]
    · rw [hopened]
      exact hs.nodup
    · rw [hopened]
      exact hs.found
  | enter node body name waiting resolving caller control found fresh =>
    have hopened : s'.opened = name :: s.opened := opened_cons waiting
    obtain ⟨hcalls, hcurrent⟩ := hs.call waiting caller control found
    rw [hs.resolving, List.mem_toFinset] at fresh
    refine ⟨?_, ?_, ?_, hcalls, hcurrent⟩
    · rw [resolving, hopened, List.toFinset_cons, hs.resolving]
    · rw [hopened]
      exact List.nodup_cons.2 ⟨fresh, hs.nodup⟩
    · rw [hopened]
      exact List.forall_mem_cons.2 ⟨⟨body, found⟩, hs.found⟩
  | back c waiting resolving ended node =>
    have hopened := opened_cons waiting
    have hnodup := hs.nodup
    have hfound := hs.found
    have hcalls := hs.calls
    rw [waiting, List.isChain_cons] at hcalls
    rw [hopened] at hnodup hfound
    refine ⟨?_, (List.nodup_append.1 hnodup).2.1,
      fun n hn => hfound n (List.mem_append_right _ hn), hcalls.2, fun n hn o ho => ?_⟩
    · rw [resolving, hs.resolving, hopened]
      cases c with
      | entered node name =>
        have hfresh : name ∉ s'.opened := (List.nodup_cons.1 hnodup).1
        rw [Call.left, Call.entry?, Option.toList_some, List.singleton_append,
          List.toFinset_cons, Finset.erase_insert (by simpa using hfresh)]
      | _ => rfl
    · rw [node n hn]
      exact hcalls.1 o ho

lemma Machine.Nested.runs (h : s.Runs definitions s') (hd : s.Parts)
    (hs : s.Nested definitions) : s'.Parts ∧ s'.Nested definitions := by
  induction h with
  | refl => exact ⟨hd, hs⟩
  | tail _ hstep ih =>
    obtain ⟨hd, hs⟩ := ih
    obtain ⟨hmove, hd'⟩ := move_of_step hstep hd
    exact ⟨hd', hmove.nested hs⟩

/-- There are no more open bodies than definitions. -/
lemma Machine.Nested.length_opened_le (hs : s.Nested definitions) :
    s.opened.length ≤ definitions.length := by
  have hsub : s.opened ⊆ definitions.map Prod.fst := by
    intro name hname
    obtain ⟨body, hbody⟩ := hs.found name hname
    exact List.mem_map_of_mem (Members.mem_of_lookup hbody)
  simpa using (List.subperm_of_subset hs.nodup hsub).length_le

/-- Between two entries nodes get smaller. -/
lemma Machine.Nested.sizeOf_lt (hs : s.Nested definitions) {inner outer : Call}
    (h : [inner, outer] <:+: s.waiting) (he : outer.entry? = none) :
    sizeOf inner.node < sizeOf outer.node := by
  have hpair := hs.calls.infix h
  have hbelow : Below definitions inner.node outer := List.isChain_pair.1 hpair
  rw [Below, he] at hbelow
  exact hbelow.sizeOf_lt

lemma Move.entered (h : Move definitions s s') {node : Document} {name : String}
    (hw : s'.waiting = .entered node name :: s.waiting) :
    name ∉ s.resolving ∧ s'.resolving = insert name s.resolving ∧
      ∃ body, definitions.lookup name = some body ∧ s'.control.node? = some body := by
  cases h with
  | stay waiting =>
    rw [waiting] at hw
    exact absurd hw.symm (List.cons_ne_self _ _)
  | call c node waiting resolving caller entry =>
    obtain ⟨rfl, -⟩ := List.cons.inj (hw.symm.trans waiting)
    cases entry
  | enter node body name waiting resolving caller control found fresh =>
    obtain ⟨e, -⟩ := List.cons.inj (hw.symm.trans waiting)
    cases e
    exact ⟨fresh, resolving, body, found, control⟩
  | back c waiting =>
    rw [waiting] at hw
    have := congrArg List.length hw
    simp only [List.length_cons] at this
    omega

/-! ### Whole walks -/

/-- The definitions that are looked up when a document is walked. -/
def bodies : Document → Members
  | .record schema => definitionsOf schema
  | _ => []

/-- The machine before its first step. -/
def Machine.start : Document → Machine
  | .record schema => ⟨.object .root schema, [], ∅, .empty⟩
  | _ => ⟨.failed ⟨.root, .rootNotRecord⟩, [], ∅, .empty⟩

open Machine (start)

/-- The machine has ended, and nothing waits or is open. -/
structure Machine.Ended (s : Machine) (r : Except Defect Graph) : Prop where
  waiting : s.waiting = []
  resolving : s.resolving = ∅
  outcome : match r with
    | .ok g => s.control = .answer (.object .root) ∧ s.graph = g
    | .error e => s.control = .failed e

lemma Machine.Ended.step {r : Except Defect Graph} (h : s.Ended r) :
    s.step definitions = none := by
  obtain ⟨hw, -, ho⟩ := h
  obtain ⟨control, waiting, resolving, graph⟩ := s
  subst hw
  cases r with
  | ok g =>
    obtain ⟨rfl, -⟩ := ho
    rfl
  | error e =>
    obtain rfl := ho
    rfl

lemma exists_end (schema : Document) :
    ∃ s, (start schema).Runs (bodies schema) s ∧ s.Ended (Graph.ofDocument schema) := by
  cases schema with
  | record schema =>
    have hreturn := (returns_walk (definitionsOf schema)).2.1 [] .root schema .empty []
    rw [Graph.ofDocument]
    cases hr : hoist (definitionsOf schema) [] .root schema .empty with
    | ok g =>
      rw [hr] at hreturn
      exact ⟨_, hreturn, rfl, rfl, rfl, rfl⟩
    | error e =>
      rw [hr] at hreturn
      obtain ⟨g, hreturn⟩ := hreturn
      exact ⟨_, hreturn, rfl, rfl, rfl⟩
  | _ => exact ⟨_, .refl, rfl, rfl, rfl⟩

lemma nested_start (schema : Document) :
    (start schema).Parts ∧ (start schema).Nested (bodies schema) := by
  cases schema with
  | _ => exact ⟨⟨trivial, nofun⟩, rfl, List.nodup_nil, nofun, .nil, nofun⟩

/-- Every step is the only one, so that whatever is reached leads on to the end. -/
lemma Machine.Runs.to_end (h : s.Runs definitions s') {last : Machine}
    (hlast : s.Runs definitions last) (hend : last.step definitions = none) :
    s'.Runs definitions last := by
  have hunique : Relator.RightUnique fun s s' : Machine => s.step definitions = some s' :=
    fun _ _ _ hb hc => Option.some.inj (hb.symm.trans hc)
  rcases Relation.ReflTransGen.total_of_right_unique hunique h hlast with h | h
  · exact h
  · rcases Relation.ReflTransGen.cases_head h with rfl | ⟨next, hnext, -⟩
    · exact .refl
    · rw [hend] at hnext
      cases hnext

/-- **The walk ends on every document.** However definitions refer to each other, every run of the
machine leads to the same end, with the outcome of the walk, no call that waits and no definition
that is open. Until then the open definitions are those whose bodies are entered and not left, so
that there are no more of them than definitions; a body is entered only with a name that is not
open yet and is that of a definition; and from one entry to the next, each call is about a smaller
node than the one before it. -/
theorem walk_ends (schema : Document) :
    ∃ last, (start schema).Runs (bodies schema) last ∧ last.step (bodies schema) = none ∧
      last.Ended (Graph.ofDocument schema) ∧
      ∀ s, (start schema).Runs (bodies schema) s → s.Runs (bodies schema) last ∧
        s.Nested (bodies schema) ∧ s.opened.length ≤ (bodies schema).length ∧
        (∀ inner outer, [inner, outer] <:+: s.waiting → outer.entry? = none →
          sizeOf inner.node < sizeOf outer.node) ∧
        ∀ s' node name, s.step (bodies schema) = some s' →
          s'.waiting = .entered node name :: s.waiting →
          name ∉ s.resolving ∧ s'.resolving = insert name s.resolving ∧
            ∃ body, (bodies schema).lookup name = some body ∧ s'.control.node? = some body := by
  obtain ⟨last, hlast, hended⟩ := exists_end schema
  refine ⟨last, hlast, hended.step, hended, fun s hs => ?_⟩
  obtain ⟨hparts, hnested⟩ := nested_start schema
  obtain ⟨hparts, hnested⟩ := hnested.runs hs hparts
  refine ⟨hs.to_end hlast hended.step, hnested, hnested.length_opened_le,
    fun inner outer h he => hnested.sizeOf_lt h he, fun s' node name hstep hwaiting => ?_⟩
  exact (move_of_step hstep hparts).1.entered hwaiting

/-- Two definitions that are nothing but each other, one of them in a list. -/
def tangle : Members :=
  [("definitions", .record [("Chain", .record [("$ref", .text "#/definitions/Links")]),
     ("Links", .record [("type", .text "array"),
       ("items", .record [("$ref", .text "#/definitions/Chain")])])]),
   ("properties", .record [("chain", .record [("$ref", .text "#/definitions/Chain")])])]

theorem walk_ends_tangle :
    ∃ last g, (start (.record tangle)).Runs (definitionsOf tangle) last ∧ last.Ended (.ok g) ∧
      g.objects = [⟨.root, [⟨"chain", .list .any, false⟩]⟩] ∧
      ∃ s, (start (.record tangle)).Runs (definitionsOf tangle) s ∧
        s.Runs (definitionsOf tangle) last ∧ s.Nested (definitionsOf tangle) ∧
        s.opened = ["Links", "Chain"] := by
  have hg : Graph.ofDocument (.record tangle) = .ok _ :=
    ofDocument_record.2 (Or.inr ⟨_, _, _, rfl, .cons (.enter rfl rfl (by decide) (by decide)
      (.enter rfl rfl (by decide) (by decide) (.array rfl (.open rfl rfl (by decide)
        (by decide))))) .nil, rfl⟩)
  obtain ⟨last, hlast, -, hended, hall⟩ := walk_ends (.record tangle)
  have hrun : (start (.record tangle)).Runs (definitionsOf tangle) _ :=
    .head rfl (.head rfl (.head rfl (.single rfl)))
  obtain ⟨hto, hnested, -⟩ := hall _ hrun
  rw [hg] at hended
  exact ⟨last, _, hlast, hended, rfl, _, hrun, hto, hnested, rfl⟩

end Schema

end ProviderGen
