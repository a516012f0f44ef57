import ProviderGen.Project.Generate
import ProviderGen.Project.Pack
import ProviderGen.Project.Scaffold
import ProviderGen.Proofs.Project.Saved

/-!
What a project remembers through any use of it. Requests come one after the other, each may fail,
and the files may be anything each time. All that ever changes are the runtime, the entrypoint and
the chosen package, and a package is chosen only if it is accepted; so there is a package at any
time, the last one that was chosen, or else the derived one.
-/

namespace ProviderGen.Project

open Java (Package)

/-- What may be asked of a project: a call that only has it remember something, or a phase that
uses the files. -/
inductive Request where
  | call (c : Call)
  | save
  | init
  | generate
  | pack (archive : Path)

/-- A request and how it ended. -/
abbrev Answered := Request × Except Error Unit

/-- The answer to a call. -/
def answer (p : Project) : Call → Except Error Unit
  | .package chosen => (p.withPackage chosen).map fun _ => ()
  | .runtime _ => .ok ()
  | .entrypoint _ => .ok ()

-- the files are in some state; what they answer, and what becomes of them, may be anything
variable {W : Type} [Files (StateM W)]

/-- The answer to a request while the files are in the state `w`, and the project afterwards. -/
def serve (p : Project) (w : W) : Request → Except Error Unit × Project
  | .call c => (p.answer c, p.after c)
  | .save => ((StateT.run (m := Id) (p.save : ExceptT Error (StateM W) Unit).run w).1, p)
  | .init => (StateT.run (m := Id) (p.init : StateM W _) w).1
  | .generate =>
    ((StateT.run (m := Id) (p.generate : ExceptT Error (StateM W) _).run w).1.map fun _ => (), p)
  | .pack archive =>
    ((StateT.run (m := Id) (p.pack archive : ExceptT Error (StateM W) Unit).run w).1, p)

/-- Requests one after the other, each with the state that it finds the files in: their answers,
and the project at the end. -/
def serveAll (p : Project) : List (Request × W) → List Answered × Project
  | [] => ([], p)
  | (a, w) :: rest =>
    let (r, q) := p.serve w a
    let (answers, q) := q.serveAll rest
    ((a, r) :: answers, q)

/-- The package chosen by a request, if it succeeded. -/
def chosen? : Answered → Option String
  | (.call (.package value), .ok _) => some value
  | _ => none

/-- The package that was chosen last, choices that were refused apart. -/
def lastChosen? (answers : List Answered) : Option String := (answers.filterMap chosen?).getLast?

variable {p p₀ q : Project} {a : Request} {answers answers' : List Answered}
  {r : Except Error Unit} {root : Path} {typeName : String}

/-- The project `q` is what requests with these answers make of `p`. -/
structure Remembers (p : Project) (answers : List Answered) (q : Project) : Prop where
  root : q.root = p.root
  typeName : q.typeName = p.typeName
  package : q.settings.package = (lastChosen? answers).or p.settings.package
  accepted : ∀ value, lastChosen? answers = some value → ∃ k, readPackage value = .ok k

lemma Remembers.refl (p : Project) : Remembers p [] p :=
  ⟨rfl, rfl, rfl, fun _ h => by cases h⟩

lemma Remembers.trans {q' : Project} (h : Remembers p answers q)
    (h' : Remembers q answers' q') : Remembers p (answers ++ answers') q' := by
  have hlast : lastChosen? (answers ++ answers') =
      (lastChosen? answers').or (lastChosen? answers) := by
    rw [lastChosen?, List.filterMap_append, List.getLast?_append]
    rfl
  refine ⟨h'.root.trans h.root, h'.typeName.trans h.typeName, ?_, fun value hv => ?_⟩
  · rw [h'.package, h.package, hlast, Option.or_assoc]
  · rw [hlast] at hv
    rcases Option.or_eq_some_iff.1 hv with hv | ⟨-, hv⟩
    · exact h'.accepted value hv
    · exact h.accepted value hv

/-- A request by which no package is chosen keeps it as it is. -/
lemma remembers_of_none (hroot : q.root = p.root) (hname : q.typeName = p.typeName)
    (hpackage : q.settings.package = p.settings.package) (h : chosen? (a, r) = none) :
    Remembers p [(a, r)] q := by
  have hlast : lastChosen? [(a, r)] = none := by simp [lastChosen?, h]
  exact ⟨hroot, hname, by rw [hlast, hpackage, Option.none_or], by simp [hlast]⟩

lemma remembers_call (p : Project) (c : Call) :
    Remembers p [(.call c, p.answer c)] (p.after c) := by
  cases c with
  | runtime value => exact remembers_of_none rfl rfl rfl rfl
  | entrypoint value => exact remembers_of_none rfl rfl rfl rfl
  | package chosen =>
    simp only [answer, after]
    cases h : p.withPackage chosen with
    | error e => exact remembers_of_none rfl rfl rfl rfl
    | ok q =>
      obtain ⟨hread, rfl⟩ := withPackage_ok.1 h
      refine ⟨rfl, rfl, rfl, fun value hv => ?_⟩
      obtain rfl : chosen = value := Option.some.inj hv
      exact hread

lemma remembers_declared (p : Project) : Remembers p [(.init, r)] p.declared := by
  unfold declared
  split
  · exact remembers_of_none rfl rfl rfl rfl
  · exact remembers_of_none rfl rfl rfl rfl

/-- What one request does to a project. -/
lemma remembers_serve (p : Project) (w : W) (a : Request) :
    Remembers p [(a, (p.serve w a).1)] (p.serve w a).2 := by
  cases a with
  | call c => exact remembers_call p c
  | save => exact remembers_of_none rfl rfl rfl rfl
  | init => exact remembers_declared p
  | generate => exact remembers_of_none rfl rfl rfl rfl
  | pack archive => exact remembers_of_none rfl rfl rfl rfl

lemma remembers_serveAll (p : Project) (requests : List (Request × W)) :
    Remembers p (p.serveAll requests).1 (p.serveAll requests).2 := by
  induction requests generalizing p with
  | nil => exact .refl p
  | cons request rest ih => exact (remembers_serve p request.2 request.1).trans (ih _)

/-- A project with a type name, after requests with these answers. -/
structure Settled (typeName : String) (answers : List Answered) (p : Project) : Prop where
  name : p.typeName = typeName
  segments : TypeName.read typeName = .ok p.segments
  chosen : p.settings.package = lastChosen? answers
  accepted : ∀ value, p.settings.package = some value → ∃ k, readPackage value = .ok k
  package : ∃ k, p.package = .ok k ∧
    match lastChosen? answers with
    | some value => readPackage value = .ok k
    | none => k = Package.derive p.segments

lemma Remembers.settled (h : Remembers p₀ answers p)
    (hnew : Project.new root typeName = .ok p₀) : Settled typeName answers p := by
  obtain ⟨-, hsettings, -⟩ := new_ok hnew
  have hname : p.typeName = typeName := by
    rw [h.typeName, Project.typeName, hsettings]
    rfl
  have hchosen : p.settings.package = lastChosen? answers := by
    rw [h.package, hsettings]
    exact Option.or_none
  refine ⟨hname, ?_, hchosen, fun value hv => h.accepted value (hchosen ▸ hv), ?_⟩
  · rw [← hname, TypeName.read, Project.typeName, p.segments_eq]
    rfl
  · unfold Project.package
    rw [hchosen]
    cases hlast : lastChosen? answers with
    | none => exact ⟨_, rfl, rfl⟩
    | some value =>
      obtain ⟨k, hk⟩ := h.accepted value hlast
      exact ⟨k, hk, hk⟩

/-- A package that is not accepted is not remembered. -/
lemma call_refused_iff {value : String} {e : Error} :
    (p.answer (.package value), p.after (.package value)) = (.error e, q) ↔
      readPackage value = .error e ∧ q = p := by
  rw [Prod.mk.injEq, answer, after, withPackage]
  cases readPackage value with
  | error e' => simp [bind, Except.bind, Except.map, eq_comm]
  | ok k => simp [bind, Except.bind, Except.map]

/-- **A project knows its type and its package at any time.** After any requests to a new project,
whatever they find of files and however they end, it has the root and the type name that it was
made with and the segments of this name, and the package in its settings is the one that was
chosen last, which is accepted, or there is none and the package is derived. A choice that is
refused leaves the project as it was. The scaffold sets the runtime and the entrypoint of the
package, even if it fails over a file, and changes nothing else. -/
theorem session_settled (hnew : Project.new root typeName = .ok p₀)
    (requests : List (Request × W)) (hserve : p₀.serveAll requests = (answers, p)) :
    p.root = root ∧ Settled typeName answers p ∧
      (∀ w value e q, p.serve (W := W) w (.call (.package value)) = (.error e, q) ↔
        readPackage value = .error e ∧ q = p) ∧
      ∀ w r q, p.serve (W := W) w .init = (r, q) →
        ∃ k, p.package = .ok k ∧ q.package = .ok k ∧ q.root = p.root ∧
          q.settings = { p.settings with
            runtime := some "java8"
            entrypoint := some (k.dotted ++ ".HandlerWrapper::handleRequest") } := by
  have h : Remembers p₀ answers p := by
    have := remembers_serveAll p₀ requests
    rwa [hserve] at this
  have hsettled := h.settled hnew
  refine ⟨h.root.trans (new_ok hnew).1, hsettled, fun w value e q => call_refused_iff,
    fun w r q hq => ?_⟩
  obtain ⟨k, hk, -⟩ := hsettled.package
  have hdeclared : p.declared =
      (p.withRuntime Layout.runtime).withEntrypoint (Layout.entrypoint k) := by
    rw [declared, hk]
  obtain rfl : p.declared = q := congrArg Prod.snd hq
  rw [hdeclared]
  exact ⟨k, hk, hk, rfl, rfl⟩

/-- A package is chosen, another is refused, and a scaffold fails over a file that is in its way. -/
def harbourSession : List (Request × Disk) := [
  (.call (.package "org.meadow"), meadow),
  (.call (.package "class"), meadow),
  (.init, ⟨[(["p"], .file .empty)], []⟩),
  (.call (.runtime "java11"), meadow),
  (.pack ⟨"meadow.zip"⟩, meadow)]

theorem session_settled_harbour : Project.new ⟨"p"⟩ "Acme::Meadow" = .ok meadowProject ∧
    ∃ answers p, meadowProject.serveAll harbourSession = (answers, p) ∧
      lastChosen? answers = some "org.meadow" ∧ p.segments = ["Acme", "Meadow"] ∧
      p.package = .ok ⟨["org", "meadow"]⟩ := by
  have hnew : Project.new ⟨"p"⟩ "Acme::Meadow" = .ok meadowProject := rfl
  have hmeadow : readPackage "org.meadow" = .ok ⟨["org", "meadow"]⟩ := by rfl
  obtain ⟨e, hclass⟩ : ∃ e, readPackage "class" = .error e := ⟨_, rfl⟩
  have hchosen : meadowProject.answer (.package "org.meadow") = .ok () := by
    rw [answer, withPackage, hmeadow]
    rfl
  have hrefused (p : Project) : p.answer (.package "class") = .error e := by
    rw [answer, withPackage, hclass]
    rfl
  have hlast : lastChosen? (meadowProject.serveAll harbourSession).1 = some "org.meadow" := by
    simp only [harbourSession, serveAll, serve, hchosen, hrefused, lastChosen?,
      List.filterMap_cons, List.filterMap_nil, chosen?, List.getLast?_singleton]
  have hname : TypeName.read "Acme::Meadow" = .ok ["Acme", "Meadow"] := by rfl
  rcases hserve : meadowProject.serveAll harbourSession with ⟨answers, p⟩
  rw [hserve] at hlast
  obtain ⟨-, hsettled, -⟩ := session_settled hnew harbourSession hserve
  obtain ⟨k, hk, hread⟩ := hsettled.package
  dsimp only at hlast
  rw [hlast] at hread
  obtain rfl := Except.ok.inj (hread.symm.trans hmeadow)
  exact ⟨hnew, answers, p, rfl, hlast, Except.ok.inj (hsettled.segments.symm.trans hname), hk⟩

end ProviderGen.Project
