/-
What evaluating one placeholder does to a run.  A value that is kept is given
back and nothing moves; otherwise the function is called once, and its value is
kept under the scope that asks for it.  A placeholder looks at the values of its
own scope only, and changes no others.
-/
import Specimen.Proofs.Steps
import Specimen.Template.Expansion

namespace Specimen

namespace Memory

@[simp] theorem find?_keep_self (m : Memory) (scope : Scope)
    (function value : String) :
    (m.keep scope function value).find? scope function = some value := by
  cases scope <;> simp [keep, find?]

theorem find?_keep_of_ne {m : Memory} {scope scope' : Scope}
    {function function' value : String}
    (hne : ¬ (scope' = scope ∧ function' = function)) :
    (m.keep scope' function' value).find? scope function =
      m.find? scope function := by
  by_cases hscope : scope' = scope
  · subst hscope
    have hfunction : (function == function') = false := by
      rw [beq_eq_false_iff_ne]
      rintro rfl
      exact hne ⟨rfl, rfl⟩
    cases scope' <;> simp [keep, find?, List.lookup_cons, hfunction]
  · cases scope <;> cases scope' <;> first | rfl | exact absurd rfl hscope

@[simp] theorem find?_file_forget (m : Memory) (function : String) :
    m.forget.find? .file function = none := rfl

@[simp] theorem find?_run_forget (m : Memory) (function : String) :
    m.forget.find? .run function = m.find? .run function := rfl

end Memory

/-- A placeholder that is evaluated, with the files there are and the state of
the run before. -/
structure Evaluation where
  call : Call
  files : Files
  before : Session

namespace Evaluation

variable [Regex.Package]

def result (e : Evaluation) : Except TemplateError String :=
  (outcome (e.call.resolve e.files) e.before).1

def after (e : Evaluation) : Session :=
  (outcome (e.call.resolve e.files) e.before).2

/-- What a call of the function gives, whatever is kept. -/
def fresh (e : Evaluation) : Except TemplateError String × Session :=
  outcome (e.call.perform e.files) e.before

/-- The value kept for the call, if its scope keeps one. -/
def kept? (e : Evaluation) : Option String :=
  e.call.scope.bind fun scope => e.before.memory.find? scope e.call.function

/-- What is kept behind the evaluation: a new value, if there is one, under the
scope that asks for it. -/
def kept (e : Evaluation) : Memory :=
  match e.call.scope, e.fresh.1 with
  | some scope, .ok value => e.before.memory.keep scope e.call.function value
  | _, _ => e.before.memory

/-- A function sees the context of the file and the stream, and moves the stream
alone. -/
theorem fresh_eq (e : Evaluation) :
    e.fresh =
      match Function.ofName? e.call.function with
      | none => (.error (.unknownFunction e.call.function), e.before)
      | some function =>
        let drawn := outcome
          (function.value e.call.function e.call.argument e.files
          e.before.memory.file) e.before.stream
        (drawn.1, { e.before with stream := drawn.2 }) := by
  unfold fresh Call.perform
  cases Function.ofName? e.call.function <;> rfl

theorem memory_fresh (e : Evaluation) : e.fresh.2.memory = e.before.memory := by
  rw [fresh_eq]
  cases Function.ofName? e.call.function <;> rfl

theorem fresh_congr (e : Evaluation) {memory : Memory}
    (hfile : memory.file = e.before.memory.file) :
    fresh { e with before := { e.before with memory } } =
      (e.fresh.1, { e.fresh.2 with memory }) := by
  rw [fresh_eq, fresh_eq]
  cases Function.ofName? e.call.function with
  | none => rfl
  | some function =>
      simp only [hfile]

variable {e : Evaluation}

theorem outcome_resolve_unscoped (hscope : e.call.scope = none) :
    outcome (e.call.resolve e.files) e.before = e.fresh := by
  simp only [Call.resolve, hscope]
  rfl

/-- A kept value is given back, and nothing moves. -/
theorem outcome_of_kept {value : String} (hkept : e.kept? = some value) :
    e.result = .ok value ∧ e.after = e.before := by
  obtain ⟨scope, hscope, hfind⟩ := Option.bind_eq_some_iff.mp hkept
  have hresolve : outcome (e.call.resolve e.files) e.before =
      (.ok value, e.before) := by
    simp only [Call.resolve, hscope]
    rw [outcome_get_bind, hfind, outcome_pure]
  simp only [result, after, hresolve, and_self]

/-- Without a kept value the function is called. -/
theorem outcome_of_not_kept (hkept : e.kept? = none) :
    e.result = e.fresh.1 ∧ e.after = { e.fresh.2 with memory := e.kept } := by
  cases hscope : e.call.scope with
  | none =>
      have hmemory : e.kept = e.fresh.2.memory := by
        simp only [kept, hscope, memory_fresh]
      rw [result, after, outcome_resolve_unscoped hscope, hmemory]
      exact ⟨rfl, rfl⟩
  | some scope =>
      have hfind : e.before.memory.find? scope e.call.function = none := by
        simpa [kept?, hscope] using hkept
      rcases hfresh : e.fresh with ⟨given, state⟩
      have hmemory : state.memory = e.before.memory := by
        simpa [hfresh] using e.memory_fresh
      cases given with
      | error error =>
          have hkeeps : e.kept = state.memory := by
            simp only [kept, hscope, hfresh, hmemory]
          simp only [result, after, Call.resolve, hscope, outcome_get_bind,
            hfind]
          rw [outcome_bind_of_error hfresh, hkeeps]
          exact ⟨rfl, rfl⟩
      | ok value =>
          have hkeeps : e.kept =
              state.memory.keep scope e.call.function value := by
            simp only [kept, hscope, hfresh, hmemory]
          simp only [result, after, Call.resolve, hscope, outcome_get_bind,
            hfind]
          rw [outcome_bind_of_ok hfresh,
            outcome_bind_of_ok (outcome_modify _ _),
            outcome_pure, hkeeps]
          exact ⟨rfl, rfl⟩

/-- The value that is kept for a function and a scope changes at most by an
evaluation of that function under that scope, which then gives the value. -/
theorem find?_after (e : Evaluation) (scope : Scope) (function : String) :
    e.after.memory.find? scope function =
      if e.call.scope = some scope ∧ e.call.function = function then
        e.result.toOption.or (e.before.memory.find? scope function)
      else e.before.memory.find? scope function := by
  cases hkept : e.kept? with
  | some value =>
      obtain ⟨hresult, hafter⟩ := outcome_of_kept hkept
      rw [hafter, hresult]
      split
      · rename_i hsame
        obtain ⟨hscope, rfl⟩ := hsame
        change _ = some value
        simpa [kept?, hscope] using hkept
      · rfl
  | none =>
      obtain ⟨hresult, hafter⟩ := outcome_of_not_kept hkept
      rw [hafter, hresult]
      simp only [kept]
      split
      · rename_i scope' value hscope hvalue
        simp only [hscope, hvalue, Option.some.injEq]
        split
        · rename_i hsame
          obtain ⟨rfl, rfl⟩ := hsame
          rw [Memory.find?_keep_self]
          rfl
        · rename_i hdifferent
          exact Memory.find?_keep_of_ne hdifferent
      · rename_i hnothing
        split
        · rename_i hsame
          obtain ⟨hscope, rfl⟩ := hsame
          cases hvalue : e.fresh.1 with
          | error error => rfl
          | ok value => exact absurd hvalue (hnothing scope value hscope)
        · rfl

section Lookup

variable {scope : Scope} {value : String}

theorem result_of_find? (hscope : e.call.scope = some scope)
    (hfind : e.before.memory.find? scope e.call.function = some value) :
    e.result = .ok value := by
  refine (outcome_of_kept ?_).1
  simp only [kept?, hscope, Option.bind_some, hfind]

theorem find?_after_of_ok (hscope : e.call.scope = some scope)
    (hresult : e.result = .ok value) :
    e.after.memory.find? scope e.call.function = some value := by
  rw [find?_after, if_pos ⟨hscope, rfl⟩, hresult]
  rfl

/-- A value that is kept stays as it is. -/
theorem find?_after_of_find? {function : String}
    (hfind : e.before.memory.find? scope function = some value) :
    e.after.memory.find? scope function = some value := by
  by_cases hsame : e.call.scope = some scope ∧ e.call.function = function
  · obtain ⟨hscope, rfl⟩ := hsame
    exact find?_after_of_ok hscope (result_of_find? hscope hfind)
  · rw [find?_after, if_neg hsame, hfind]

/-- Only an evaluation that succeeds adds a value. -/
theorem find?_after_eq_none {function : String}
    (hfind : e.before.memory.find? scope function = none)
    (hnothing : e.call.scope = some scope → e.call.function = function →
      ∀ value, e.result ≠ .ok value) :
    e.after.memory.find? scope function = none := by
  rw [find?_after, hfind]
  split
  · rename_i hsame
    cases hresult : e.result with
    | error error => rfl
    | ok value => exact absurd hresult (hnothing hsame.1 hsame.2 value)
  · rfl

end Lookup

/-- The same evaluation with other things kept. -/
def under (e : Evaluation) (memory : Memory) : Evaluation :=
  { e with before := { e.before with memory } }

/-- An evaluation touches what is kept only as its scope says. -/
structure Confined (e : Evaluation) : Prop where
  answered : ∀ value, e.kept? = some value → e.result = .ok value ∧
    e.after = e.before
  failed : ∀ error, e.result = .error error → e.after.memory = e.before.memory
  unscoped : e.call.scope = none → e.after.memory = e.before.memory ∧
    ∀ memory, memory.file = e.before.memory.file →
      (e.under memory).result = e.result ∧
      (e.under memory).after.stream = e.after.stream
  apart : ∀ scope, e.call.scope = some scope →
    (∀ other, other ≠ scope → ∀ function,
      e.after.memory.find? other function =
        e.before.memory.find? other function) ∧
    ∀ memory, memory.file = e.before.memory.file →
      memory.find? scope e.call.function =
        e.before.memory.find? scope e.call.function →
        (e.under memory).result = e.result ∧
        (e.under memory).after.stream = e.after.stream

theorem kept?_eq_none_of_failed {error : TemplateError}
    (hfailed : e.result = .error error) :
    e.kept? = none := by
  cases hkept : e.kept? with
  | none => rfl
  | some value =>
      rw [(outcome_of_kept hkept).1] at hfailed
      simp at hfailed

theorem memory_of_failed {error : TemplateError}
    (hfailed : e.result = .error error) :
    e.after.memory = e.before.memory := by
  obtain ⟨hresult, hafter⟩ :=
    outcome_of_not_kept (kept?_eq_none_of_failed hfailed)
  rw [hresult] at hfailed
  rw [hafter]
  simp only [kept, hfailed]
  split <;> simp_all

theorem memory_of_unscoped (hscope : e.call.scope = none) :
    e.after.memory = e.before.memory := by
  rw [after, outcome_resolve_unscoped hscope, memory_fresh]

/-- What is kept matters to an evaluation only through the value kept for it. -/
theorem under_congr {memory : Memory}
    (hfile : memory.file = e.before.memory.file)
    (hkept : (e.under memory).kept? = e.kept?) :
    (e.under memory).result = e.result ∧
    (e.under memory).after.stream = e.after.stream := by
  cases hvalue : e.kept? with
  | some value =>
      obtain ⟨hresult, hafter⟩ := outcome_of_kept hvalue
      obtain ⟨hresult', hafter'⟩ := outcome_of_kept (hkept.trans hvalue)
      rw [hresult, hafter, hresult', hafter']
      exact ⟨rfl, rfl⟩
  | none =>
      obtain ⟨hresult, hafter⟩ := outcome_of_not_kept hvalue
      obtain ⟨hresult', hafter'⟩ := outcome_of_not_kept (hkept.trans hvalue)
      have hfresh : (e.under memory).fresh =
          (e.fresh.1, { e.fresh.2 with memory }) :=
        e.fresh_congr hfile
      rw [hresult, hafter, hresult', hafter', hfresh]
      exact ⟨rfl, rfl⟩

theorem confined (e : Evaluation) : e.Confined where
  answered value hkept := outcome_of_kept hkept
  failed error hfailed := memory_of_failed hfailed
  unscoped hscope := by
    refine ⟨memory_of_unscoped hscope, ?_⟩
    intro memory hfile
    apply under_congr hfile
    simp [kept?, under, hscope]
  apart scope hscope := by
    constructor
    · intro other hother function
      rw [find?_after, if_neg]
      rintro ⟨hsame, -⟩
      rw [hscope] at hsame
      exact hother (Option.some.inj hsame).symm
    · intro memory hfile hfind
      apply under_congr hfile
      simp [kept?, under, hscope, hfind]

end Evaluation

end Specimen
