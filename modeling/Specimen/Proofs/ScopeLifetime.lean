/-
How long a kept value lives.  A run is a sequence of operations on one session;
what it evaluates, and where files begin, is told as a sequence of events.  The
values that are kept behind one event are the ones kept before the next, so a
value lives from the first evaluation that succeeds to the end of the run, or to
the next beginning of a file if it is local.
-/
import Specimen.Proofs.Resolving

namespace Specimen

namespace Memory

def SameValues (m m' : Memory) : Prop :=
  ∀ scope function, m.find? scope function = m'.find? scope function

theorem SameValues.refl (m : Memory) : m.SameValues m :=
  fun _ _ => rfl

theorem SameValues.trans {m m' m'' : Memory} (hfirst : m.SameValues m')
    (hnext : m'.SameValues m'') : m.SameValues m'' :=
  fun scope function => (hfirst scope function).trans (hnext scope function)

theorem SameValues.file (m : Memory) (file : Option FileContext) :
    m.SameValues { m with file } := by
  intro scope function
  cases scope <;> rfl

theorem SameValues.forget {m m' : Memory} (hsame : m.SameValues m') :
    m.forget.SameValues m'.forget := by
  intro scope function
  cases scope with
  | file => rfl
  | run => simpa using hsame .run function

end Memory

variable [Regex.Package]

/-- What happens in a run: a file begins, or a placeholder is evaluated. -/
inductive Event where
  | fileBegins
  | evaluated (e : Evaluation)

/-- All values that a function has under the scope are equal. -/
def Event.Agree (scope : Scope) (events : List Event) : Prop :=
  ∀ e e', .evaluated e ∈ events → .evaluated e' ∈ events →
    e.call.scope = some scope → e'.call.scope = some scope →
      e.call.function = e'.call.function →
        ∀ value value', e.result = .ok value → e'.result = .ok value' →
          value = value'

namespace Template

/-- The evaluations that placeholders need, from left to right, up to the first
one that fails. -/
def evaluations (files : Files) : List Placeholder → Session → List Evaluation
  | [], _ => []
  | p :: placeholders, s =>
    let e : Evaluation := ⟨p.toCall, files, s⟩
    match e.result with
    | .ok _ => e :: evaluations files placeholders e.after
    | .error _ => [e]

/-- The evaluations of a template; none if it cannot be read. -/
def evaluationsOf (files : Files) (template : String) (s : Session) :
    List Evaluation :=
  match parse template with
  | .error _ => []
  | .ok t => evaluations files t.placeholders s

/-- The values of all evaluations, or the first failure. -/
def values : List Evaluation → Except TemplateError (List String)
  | [] => .ok []
  | e :: es => e.result.bind fun value => (values es).map (value :: ·)

def stateBehind : Session → List Evaluation → Session
  | s, [] => s
  | _, e :: es => stateBehind e.after es

def filled (rest : List Char) :
    List (List Char × Placeholder) → List String → List Char
  | (before, _) :: parts, value :: values =>
    before ++ value.toList ++ filled rest parts values
  | _, _ => rest

section Chain

variable {files : Files} {p : Placeholder} {s : Session}

theorem evaluations_cons_of_ok {value : String}
    (hresult : Evaluation.result ⟨p.toCall, files, s⟩ = .ok value)
    (placeholders : List Placeholder) :
    evaluations files (p :: placeholders) s =
      ⟨p.toCall, files, s⟩ ::
        evaluations files placeholders
          (Evaluation.after ⟨p.toCall, files, s⟩) := by
  simp only [evaluations, hresult]

theorem evaluations_cons_of_error {error : TemplateError}
    (hresult : Evaluation.result ⟨p.toCall, files, s⟩ = .error error)
    (placeholders : List Placeholder) :
    evaluations files (p :: placeholders) s = [⟨p.toCall, files, s⟩] := by
  simp only [evaluations, hresult]

end Chain

/-- Expanding a template comes down to the evaluations of its placeholders. -/
theorem outcome_expandParts (files : Files) (rest : List Char)
    (parts : List (List Char × Placeholder)) (s : Session) :
    outcome (expandParts files rest parts) s =
      let es := evaluations files (parts.map (·.2)) s
      ((values es).map (filled rest parts), stateBehind s es) := by
  induction parts generalizing s with
  | nil => rfl
  | cons part parts ih =>
      obtain ⟨before, p⟩ := part
      have heval : outcome (p.toCall.resolve files) s =
          (Evaluation.result ⟨p.toCall, files, s⟩,
            Evaluation.after ⟨p.toCall, files, s⟩) := rfl
      rw [expandParts, List.map_cons]
      cases hresult : Evaluation.result ⟨p.toCall, files, s⟩ with
      | error error =>
          rw [hresult] at heval
          rw [outcome_bind_of_error heval, evaluations_cons_of_error hresult]
          simp only [values, hresult]
          rfl
      | ok value =>
          rw [hresult] at heval
          rw [outcome_bind_of_ok heval, evaluations_cons_of_ok hresult]
          simp only [values, hresult, stateBehind]
          rw [outcome_bind_pure, ih]
          dsimp only
          cases values (evaluations files (parts.map (·.2))
            (Evaluation.after ⟨p.toCall, files, s⟩)) <;> rfl

/-- The text of a template is made of the values that its placeholders are
evaluated to, and the state is the one behind the last evaluation. -/
theorem outcome_expand (files : Files) (template : String) (s : Session) :
    outcome (expand files template) s =
      match parse template with
      | .error e => (.error (.malformed e), s)
      | .ok t =>
        let es := evaluations files t.placeholders s
        ((values es).map fun found =>
          String.ofList (filled t.rest t.parts found), stateBehind s es) := by
  unfold expand
  cases parse template with
  | error e => rfl
  | ok t =>
      change outcome (expandParts files t.rest t.parts >>= fun text =>
        pure (String.ofList text)) s = _
      rw [outcome_bind_pure, outcome_expandParts]
      dsimp only [placeholders]
      cases values (evaluations files (t.parts.map (·.2)) s) <;> rfl

end Template

/-- An operation of a run on its session, with the files there are.  Between
those on templates others may draw from the stream, or exchange it, and warn. -/
inductive Operation where
  | expand (files : Files) (template : String)
  | ruled (files : Files) (rules : List Rule) (name : String)
  | begin (files : Files) (fileName rootElement : String) (settings : Settings)
  | meanwhile (stream : Stream) (warnings : List Warning)

namespace Operation

/-- The state that the operation leaves, whether it succeeds or fails. -/
def leaves : Operation → Session → Session
  | expand files template, s => (outcome (Template.expand files template) s).2
  | ruled files rules name, s =>
    (outcome (Settings.ruledValue files rules name) s).2
  | begin files fileName rootElement settings, s =>
    (outcome (Session.begin files fileName rootElement settings) s).2
  | meanwhile stream warnings, s => { s with stream, warnings }

/-- The state in which a file begins whose name is taken apart. -/
def fileContextSet (s : Session)
    (fileName rootElement sourceExtracted : String) : Session :=
  { s with memory := { s.memory.forget with
      file := some
        { sourceFilename := fileName, rootElement, sourceExtracted } } }

theorem leaves_ruled (files : Files) (rules : List Rule) (name : String)
    (s : Session) :
    (ruled files rules name).leaves s =
      match Settings.templateFor? rules name with
      | none => s
      | some template => (expand files template).leaves s := by
  simp only [leaves, Settings.ruledValue]
  cases Settings.templateFor? rules name with
  | none => rfl
  | some template => rw [outcome_bind_pure]

/-- The name of the output file is made when the context is in place; it is put
there last. -/
theorem leaves_begin (files : Files) (fileName rootElement : String)
    (settings : Settings) (s : Session) :
    (begin files fileName rootElement settings).leaves s =
      match Session.extract settings.sourceFilename fileName with
      | .error _ => { s with memory := s.memory.forget }
      | .ok sourceExtracted =>
        let file : FileContext :=
          { sourceFilename := fileName, rootElement, sourceExtracted }
        let made := outcome (Template.expand files settings.outputFilename)
          (fileContextSet s fileName rootElement sourceExtracted)
        match made.1 with
        | .error _ => made.2
        | .ok output =>
          { made.2 with memory := { made.2.memory with
              file := some { file with outputFilename := some output } } } := by
  simp only [leaves, Session.begin, outcome_modify_bind]
  cases hextract : Session.extract settings.sourceFilename fileName with
  | error e => rfl
  | ok sourceExtracted =>
      rw [outcome_bind_of_ok (outcome_lift _ _), outcome_modify_bind]
      change (outcome (_ >>= _)
        (fileContextSet s fileName rootElement sourceExtracted)).2 = _
      rcases hmade : outcome (Template.expand files settings.outputFilename)
          (fileContextSet s fileName rootElement sourceExtracted) with
        ⟨given, state⟩
      cases given with
      | error e =>
          rw [outcome_bind_of_error hmade]
          simp only [hmade]
      | ok output =>
          rw [outcome_bind_of_ok hmade, outcome_modify]
          simp only [hmade]

def events : Operation → Session → List Event
  | expand files template, s =>
    (Template.evaluationsOf files template s).map .evaluated
  | ruled files rules name, s =>
    match Settings.templateFor? rules name with
    | none => []
    | some template => (Template.evaluationsOf files template s).map .evaluated
  | begin files fileName rootElement settings, s =>
    .fileBegins ::
      match Session.extract settings.sourceFilename fileName with
      | .error _ => []
      | .ok sourceExtracted =>
        (Template.evaluationsOf files settings.outputFilename
          (fileContextSet s fileName rootElement sourceExtracted)).map
            .evaluated
  | meanwhile _ _, _ => []

/-- What happens in a run of operations, one after the other. -/
def eventsOf : List Operation → Session → List Event
  | [], _ => []
  | operation :: operations, s =>
    operation.events s ++ eventsOf operations (operation.leaves s)

end Operation

/-- The values that are kept behind each event are those before the next one,
from one memory to another. -/
inductive Linked : Memory → List Event → Memory → Prop
  | nil {m m' : Memory} (hsame : m.SameValues m') : Linked m [] m'
  | evaluated {m m' : Memory} {e : Evaluation} {events : List Event}
      (hsame : m.SameValues e.before.memory)
      (hrest : Linked e.after.memory events m') :
      Linked m (.evaluated e :: events) m'
  | fileBegins {m m' : Memory} {events : List Event}
      (hrest : Linked m.forget events m') :
      Linked m (.fileBegins :: events) m'

namespace Linked

variable {m m' m'' : Memory} {events events' : List Event}

theorem of_sameValues (hsame : m.SameValues m')
    (hlinked : Linked m' events m'') :
    Linked m events m'' := by
  induction hlinked generalizing m with
  | nil hsame' => exact .nil (hsame.trans hsame')
  | evaluated hsame' hrest ih => exact .evaluated (hsame.trans hsame') hrest
  | fileBegins hrest ih => exact .fileBegins (ih hsame.forget)

theorem append (hfirst : Linked m events m') (hnext : Linked m' events' m'') :
    Linked m (events ++ events') m'' := by
  induction hfirst with
  | nil hsame => exact hnext.of_sameValues hsame
  | evaluated hsame hrest ih => exact .evaluated hsame (ih hnext)
  | fileBegins hrest ih => exact .fileBegins (ih hnext)

theorem to_sameValues (hlinked : Linked m events m')
    (hsame : m'.SameValues m'') :
    Linked m events m'' := by
  simpa using hlinked.append (.nil hsame)

/-- Behind the first events there is a memory from which the others go on. -/
theorem exists_of_append (hlinked : Linked m (events ++ events') m'') :
    ∃ m', Linked m events m' ∧ Linked m' events' m'' := by
  induction events generalizing m with
  | nil => exact ⟨m, .nil (.refl m), hlinked⟩
  | cons event events ih =>
      cases hlinked with
      | evaluated hsame hrest =>
          obtain ⟨m', hfirst, hnext⟩ := ih hrest
          exact ⟨m', .evaluated hsame hfirst, hnext⟩
      | fileBegins hrest =>
          obtain ⟨m', hfirst, hnext⟩ := ih hrest
          exact ⟨m', .fileBegins hfirst, hnext⟩

/-- A value that is kept is there at every later evaluation, until a file begins
if it is local. -/
theorem find?_before {scope : Scope} {function value : String}
    (hlinked : Linked m events m')
    (hlasts : scope = .file → .fileBegins ∉ events)
    (hfind : m.find? scope function = some value) :
    ∀ e, .evaluated e ∈ events →
      e.before.memory.find? scope function = some value := by
  induction hlinked with
  | nil hsame => simp
  | @evaluated m m' first events hsame hrest ih =>
      have hfirst : first.before.memory.find? scope function = some value := by
        rw [← hsame, hfind]
      intro e he
      rcases List.mem_cons.mp he with heq | he
      · obtain rfl : e = first := Event.evaluated.inj heq
        exact hfirst
      · refine ih ?_ (Evaluation.find?_after_of_find? hfirst) e he
        exact fun hscope hmem => hlasts hscope (List.mem_cons_of_mem _ hmem)
  | fileBegins hrest ih =>
      cases scope with
      | file => exact absurd List.mem_cons_self (hlasts rfl)
      | run =>
          intro e he
          refine ih (by simp) ?_ e
            ((List.mem_cons.mp he).resolve_left (by simp))
          simpa using hfind

/-- Without an evaluation that succeeds nothing comes to be kept. -/
theorem find?_eq_none {scope : Scope} {function : String}
    (hlinked : Linked m events m')
    (hfind : m.find? scope function = none)
    (hnothing : ∀ e, .evaluated e ∈ events → e.call.scope = some scope →
      e.call.function = function → ∀ value, e.result ≠ .ok value) :
    m'.find? scope function = none := by
  induction hlinked with
  | nil hsame => rw [← hsame, hfind]
  | @evaluated m m' e events hsame hrest ih =>
      apply ih
      · exact Evaluation.find?_after_eq_none (by rw [← hsame, hfind])
          (hnothing e List.mem_cons_self)
      · exact fun e he => hnothing e (List.mem_cons_of_mem _ he)
  | fileBegins hrest ih =>
      apply ih
      · cases scope with
        | file => rfl
        | run => simpa using hfind
      · exact fun e he => hnothing e (List.mem_cons_of_mem _ he)

/-- All values that a function has under one scope are equal, as long as they
live. -/
theorem agree {scope : Scope} (hlinked : Linked m events m')
    (hlasts : scope = .file → .fileBegins ∉ events) :
    Event.Agree scope events := by
  induction hlinked with
  | nil hsame => simp [Event.Agree]
  | @evaluated m m' first events hsame hrest ih =>
      have hlater : scope = .file → .fileBegins ∉ events :=
        fun hscope hmem => hlasts hscope (List.mem_cons_of_mem _ hmem)
      have hfirst : ∀ e, .evaluated e ∈ events → first.call.scope = some scope →
          e.call.scope = some scope → first.call.function = e.call.function →
            ∀ value, first.result = .ok value → e.result = .ok value := by
        intro e he hscope hscope' hfunction value hresult
        have hkept := Evaluation.find?_after_of_ok hscope hresult
        have hfind := hrest.find?_before hlater hkept e he
        rw [hfunction] at hfind
        exact Evaluation.result_of_find? hscope' hfind
      intro e e' he he' hscope hscope' hfunction value value' hvalue hvalue'
      rcases List.mem_cons.mp he with heq | hmem <;>
        rcases List.mem_cons.mp he' with heq' | hmem'
      · obtain rfl : e = first := Event.evaluated.inj heq
        obtain rfl : e' = e := Event.evaluated.inj heq'
        exact Except.ok.inj (hvalue.symm.trans hvalue')
      · obtain rfl : e = first := Event.evaluated.inj heq
        have hsame := hfirst e' hmem' hscope hscope' hfunction value hvalue
        exact Except.ok.inj (hsame.symm.trans hvalue')
      · obtain rfl : e' = first := Event.evaluated.inj heq'
        have hsame := hfirst e hmem hscope' hscope hfunction.symm value' hvalue'
        exact Except.ok.inj (hvalue.symm.trans hsame)
      · exact ih hlater e e' hmem hmem' hscope hscope' hfunction value value'
          hvalue hvalue'
  | fileBegins hrest ih =>
      cases scope with
      | file => exact absurd List.mem_cons_self (hlasts rfl)
      | run =>
          intro e e' he he'
          exact ih (by simp) e e' ((List.mem_cons.mp he).resolve_left (by simp))
            ((List.mem_cons.mp he').resolve_left (by simp))

theorem evaluations (files : Files) (placeholders : List Placeholder)
    (s : Session) :
    Linked s.memory ((Template.evaluations files placeholders s).map .evaluated)
      (Template.stateBehind s
        (Template.evaluations files placeholders s)).memory := by
  induction placeholders generalizing s with
  | nil => exact .nil (.refl s.memory)
  | cons p placeholders ih =>
      cases hresult : Evaluation.result ⟨p.toCall, files, s⟩ with
      | error error =>
          rw [Template.evaluations_cons_of_error hresult]
          exact .evaluated (.refl s.memory) (.nil (.refl _))
      | ok value =>
          rw [Template.evaluations_cons_of_ok hresult]
          exact .evaluated (.refl s.memory) (ih _)

theorem evaluationsOf (files : Files) (template : String) (s : Session) :
    Linked s.memory ((Template.evaluationsOf files template s).map .evaluated)
      (outcome (Template.expand files template) s).2.memory := by
  rw [Template.outcome_expand]
  unfold Template.evaluationsOf
  cases Template.parse template with
  | error e => exact .nil (.refl s.memory)
  | ok t => exact Linked.evaluations files t.placeholders s

end Linked

namespace Operation

/-- One operation leads from what is kept before it to what is kept behind. -/
theorem linked (operation : Operation) (s : Session) :
    Linked s.memory (operation.events s) (operation.leaves s).memory := by
  cases operation with
  | expand files template => exact .evaluationsOf files template s
  | ruled files rules name =>
      rw [leaves_ruled]
      simp only [events]
      cases Settings.templateFor? rules name with
      | none => exact .nil (.refl s.memory)
      | some template => exact .evaluationsOf files template s
  | begin files fileName rootElement settings =>
      rw [leaves_begin]
      refine .fileBegins ?_
      cases Session.extract settings.sourceFilename fileName with
      | error e => exact .nil (.refl _)
      | ok sourceExtracted =>
          have hmade := Linked.evaluationsOf files settings.outputFilename
            (fileContextSet s fileName rootElement sourceExtracted)
          have hmade := hmade.of_sameValues
            (Memory.SameValues.file s.memory.forget _)
          dsimp only
          split
          · exact hmade
          · exact hmade.to_sameValues (.file _ _)
  | meanwhile stream warnings => exact .nil (.refl s.memory)

theorem linked_eventsOf (operations : List Operation) (s : Session) :
    ∃ m, Linked s.memory (eventsOf operations s) m := by
  induction operations generalizing s with
  | nil => exact ⟨s.memory, .nil (.refl s.memory)⟩
  | cons operation operations ih =>
      obtain ⟨m, hrest⟩ := ih (operation.leaves s)
      exact ⟨m, (operation.linked s).append hrest⟩

end Operation

/-- What the scopes promise about the events of a run. -/
structure ScopesKept (events : List Event) : Prop where
  /-- The values of a function for the whole run are equal. -/
  run_agrees : Event.Agree .run events
  /-- The values of a function for a file are equal until the next file. -/
  file_agrees : ∀ front segment back, events = front ++ segment ++ back →
    .fileBegins ∉ segment → Event.Agree .file segment
  /-- The first value of a function for a file is a new one. -/
  file_fresh : ∀ front between e back,
    events = front ++ .fileBegins :: (between ++ .evaluated e :: back) →
      e.call.scope = some .file →
        (∀ e', .evaluated e' ∈ between → e'.call.scope = some .file →
          e'.call.function = e.call.function → ∀ value, e'.result ≠ .ok value) →
            e.kept? = none ∧ e.result = e.fresh.1 ∧
              e.after.stream = e.fresh.2.stream
  /-- Each evaluation touches what is kept only as its scope says. -/
  confined : ∀ e, .evaluated e ∈ events → e.Confined

/-- The lifetimes of scopes hold in every run, whatever its operations are,
whether they succeed or fail, and whatever streams they draw from. -/
theorem scopes_kept (operations : List Operation) (s : Session) :
    ScopesKept (Operation.eventsOf operations s) := by
  obtain ⟨m, hlinked⟩ := Operation.linked_eventsOf operations s
  generalize Operation.eventsOf operations s = events at hlinked
  refine ⟨hlinked.agree (by simp), ?_, ?_, fun e _ => e.confined⟩
  · rintro front segment back rfl hsegment
    obtain ⟨behind, hfront, -⟩ := hlinked.exists_of_append
    obtain ⟨before, -, hmiddle⟩ := hfront.exists_of_append
    exact hmiddle.agree fun _ => hsegment
  · rintro front between e back rfl hscope hnothing
    obtain ⟨before, -, hrest⟩ := hlinked.exists_of_append
    cases hrest with
    | fileBegins hrest =>
        obtain ⟨here, hbetween, hrest⟩ := hrest.exists_of_append
        cases hrest with
        | evaluated hsame _ =>
            have hnone := hbetween.find?_eq_none rfl hnothing
            have hkept : e.kept? = none := by
              rw [hsame] at hnone
              simp only [Evaluation.kept?, hscope, Option.bind_some, hnone]
            obtain ⟨hresult, hafter⟩ := Evaluation.outcome_of_not_kept hkept
            exact ⟨hkept, hresult, by rw [hafter]⟩

end Specimen
