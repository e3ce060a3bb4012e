/-
Nothing leaks from one file into the next.  Two sessions that agree in what
lasts for a run, the stream and the values kept for all files, may differ in
everything that belongs to the file they have worked on; behind the beginning of
the next file they agree altogether, whether that beginning succeeds or fails,
and from then on they answer every request alike.
-/
import Specimen.Proofs.ScopeLifetime
import Specimen.Proofs.TwoRuns
import Specimen.Sampling

namespace Specimen

namespace Session

/-- Two sessions agree in what lasts for the run; behind the warnings that they
had given before they have given the same ones. -/
structure SameRun (earlier earlier' : List Warning) (s t : Session) : Prop where
  seed : s.seed = t.seed
  stream : s.stream = t.stream
  values : ∀ function,
    s.memory.find? .run function = t.memory.find? .run function
  warnings : ∃ given, s.warnings = earlier ++ given ∧
    t.warnings = earlier' ++ given

/-- Two sessions agree in everything but the warnings that they had given
before. -/
structure Alike (earlier earlier' : List Warning) (s t : Session) : Prop where
  seed : s.seed = t.seed
  stream : s.stream = t.stream
  values : s.memory.SameValues t.memory
  file : s.memory.file = t.memory.file
  warnings : ∃ given, s.warnings = earlier ++ given ∧
    t.warnings = earlier' ++ given

variable {earlier earlier' : List Warning} {s t : Session}

theorem Alike.sameRun (halike : Alike earlier earlier' s t) :
    SameRun earlier earlier' s t :=
  ⟨halike.seed, halike.stream, halike.values .run, halike.warnings⟩

theorem exists_warn (hwarnings : ∃ given, s.warnings = earlier ++ given ∧
      t.warnings = earlier' ++ given) (w : Warning) :
    ∃ given, (s.warn w).warnings = earlier ++ given ∧
      (t.warn w).warnings = earlier' ++ given := by
  obtain ⟨given, hs, ht⟩ := hwarnings
  exact ⟨given ++ [w], by simp [warn, hs], by simp [warn, ht]⟩

/-- To forget what belongs to a file is to forget all difference. -/
theorem SameRun.forget (hsame : SameRun earlier earlier' s t) :
    Alike earlier earlier' { s with memory := s.memory.forget }
      { t with memory := t.memory.forget } where
  seed := hsame.seed
  stream := hsame.stream
  values scope function := by
    cases scope with
    | file => rfl
    | run => simpa using hsame.values function
  file := rfl
  warnings := hsame.warnings

theorem Alike.withFile (halike : Alike earlier earlier' s t)
    (file : Option FileContext) :
    Alike earlier earlier' { s with memory := { s.memory with file } }
      { t with memory := { t.memory with file } } where
  seed := halike.seed
  stream := halike.stream
  values scope function := by
    cases scope with
    | file => exact halike.values .file function
    | run => exact halike.values .run function
  file := rfl
  warnings := halike.warnings

theorem Alike.keep (halike : Alike earlier earlier' s t) (scope : Scope)
    (function value : String) :
    Alike earlier earlier'
      { s with memory := s.memory.keep scope function value }
      { t with memory := t.memory.keep scope function value } where
  seed := halike.seed
  stream := halike.stream
  values other name := by
    by_cases hsame : scope = other ∧ function = name
    · obtain ⟨rfl, rfl⟩ := hsame
      dsimp only
      rw [Memory.find?_keep_self, Memory.find?_keep_self]
    · dsimp only
      rw [Memory.find?_keep_of_ne hsame, Memory.find?_keep_of_ne hsame]
      exact halike.values other name
  file := by
    cases scope <;> exact halike.file
  warnings := halike.warnings

end Session

open Session (Alike SameRun)

variable {earlier earlier' : List Warning}

namespace Step

variable {ε α : Type}

theorem inStep_draw (d : Draw α) :
    InStep (ε := ε) (Alike earlier earlier') (Alike earlier earlier')
      (draw d) (draw d) := by
  intro s t halike
  simp only [outcome, draw, ← halike.stream]
  exact ⟨rfl, halike.seed, rfl, halike.values, halike.file, halike.warnings⟩

theorem inStep_attempt (d : ExceptT ε Draw α) :
    InStep (Alike earlier earlier') (Alike earlier earlier')
      (attempt d) (attempt d) := by
  intro s t halike
  simp only [outcome, attempt, ← halike.stream]
  exact ⟨rfl, halike.seed, rfl, halike.values, halike.file, halike.warnings⟩

theorem inStep_warn (w : Warning) :
    InStep (ε := ε) (Alike earlier earlier') (Alike earlier earlier')
      (warn w) (warn w) :=
  fun _ _ halike =>
    ⟨rfl, halike.seed, halike.stream, halike.values, halike.file,
    Session.exists_warn halike.warnings w⟩

theorem inStep_warn_sameRun (w : Warning) :
    InStep (ε := ε) (SameRun earlier earlier') (SameRun earlier earlier')
      (warn w) (warn w) :=
  fun _ _ hsame => ⟨rfl, hsame.seed, hsame.stream, hsame.values,
    Session.exists_warn hsame.warnings w⟩

theorem inStep_forM_warn (ws : List Warning) :
    InStep (ε := ε) (Alike earlier earlier') (Alike earlier earlier')
      (ws.forM warn) (ws.forM warn) := by
  induction ws with
  | nil => exact .of_pure ()
  | cons w ws ih => exact (inStep_warn w).bind fun _ => ih

theorem inStep_mapError {S T : Session → Session → Prop} {ε' : Type}
    {first second : Step ε α} (wrap : ε → ε')
    (hstep : InStep S T first second) :
    InStep S T (first.mapError wrap) (second.mapError wrap) := by
  intro s t hbefore
  obtain ⟨hresult, hafter⟩ := hstep s t hbefore
  exact ⟨congrArg (Except.mapError wrap) hresult, hafter⟩

theorem inStep_ofExcept {S : Session → Session → Prop}
    (result : Except ε α) : InStep S S (ofExcept result) (ofExcept result) :=
  fun _ _ hbefore => ⟨rfl, hbefore⟩

end Step

namespace Value

theorem inStep_temporal (kind : Kind) (node : String) (facets : Facets) :
    InStep (Alike earlier earlier') (Alike earlier earlier')
      (temporal kind node facets) (temporal kind node facets) := by
  unfold temporal
  split
  · exact .of_throw _
  · apply (Step.inStep_draw _).bind
    intro value
    split
    · exact .of_pure _
    · exact .of_throw _

theorem inStep_ofKind (type : SimpleType) (node : String) (numbers : Bounds) :
    InStep (Alike earlier earlier') (Alike earlier earlier')
      (ofKind type node numbers) (ofKind type node numbers) := by
  unfold ofKind
  dsimp only
  split
  case h_10 => exact (Step.inStep_draw _).bind fun bytes => .of_pure _
  case h_11 => exact (Step.inStep_draw _).bind fun bytes => .of_pure _
  all_goals first
    | exact Step.inStep_draw _
    | exact inStep_temporal _ node type.facets

end Value

namespace Sampling

theorem inStep_findRoot
    (hwarn : ∀ w, InStep (ε := RootError) related related (Step.warn w)
      (Step.warn w)) (model : Model) :
    InStep related related model.findRoot model.findRoot := by
  unfold Model.findRoot
  apply (InStep.of_except model.root).bind
  rintro ⟨root, others⟩
  dsimp only
  split
  · exact (hwarn _).bind fun _ => .of_pure root
  · exact .of_pure root

end Sampling

section Runs

variable [Regex.Package]

section Requests

variable (files : Files)

theorem Call.inStep_perform (call : Call) :
    InStep (Alike earlier earlier') (Alike earlier earlier')
      (call.perform files) (call.perform files) := by
  unfold perform
  split
  · exact .of_throw _
  · apply InStep.get_bind
    intro s t halike
    rw [halike.file]
    exact Step.inStep_attempt _

/-- A placeholder looks up the value kept for it, and nothing else of what is
kept. -/
theorem Call.inStep_resolve (call : Call) :
    InStep (Alike earlier earlier') (Alike earlier earlier')
      (call.resolve files) (call.resolve files) := by
  unfold resolve
  split
  · exact call.inStep_perform files
  · rename_i scope hscope
    apply InStep.get_bind
    intro s t halike
    rw [halike.values scope call.function]
    split
    · exact .of_pure _
    · apply (call.inStep_perform files).bind
      intro value
      have hkeep := InStep.of_modify (ε := TemplateError)
        (fun s t (halike : Alike earlier earlier' s t) =>
          halike.keep scope call.function value)
      exact hkeep.bind fun _ => .of_pure value

theorem Template.inStep_expandParts (rest : List Char)
    (parts : List (List Char × Placeholder)) :
    InStep (Alike earlier earlier') (Alike earlier earlier')
      (expandParts files rest parts) (expandParts files rest parts) := by
  induction parts with
  | nil => exact .of_pure rest
  | cons part parts ih =>
      obtain ⟨before, placeholder⟩ := part
      rw [expandParts]
      apply (placeholder.toCall.inStep_resolve files).bind
      intro value
      exact ih.bind fun tail => .of_pure _

theorem Template.inStep_expand (template : String) :
    InStep (Alike earlier earlier') (Alike earlier earlier')
      (expand files template) (expand files template) := by
  unfold expand
  split
  · exact .of_throw _
  · exact (inStep_expandParts files _ _).bind fun text => .of_pure _

theorem Settings.inStep_ruledValue (rules : List Rule) (name : String) :
    InStep (Alike earlier earlier') (Alike earlier earlier')
      (ruledValue files rules name) (ruledValue files rules name) := by
  unfold ruledValue
  split
  · exact .of_pure none
  · exact (Template.inStep_expand files _).bind fun text => .of_pure _

/-- The beginning of a file makes alike whatever was the same for the run, also
where it fails. -/
theorem Session.inStep_begin (fileName rootElement : String)
    (settings : Settings) :
    InStep (SameRun earlier earlier') (Alike earlier earlier')
      (Session.begin files fileName rootElement settings)
      (Session.begin files fileName rootElement settings) := by
  have hforget := InStep.of_modify (ε := TemplateError)
    (fun s t (hsame : SameRun earlier earlier' s t) => hsame.forget)
  have hplace (file : FileContext) := InStep.of_modify (ε := TemplateError)
    (fun s t (halike : Alike earlier earlier' s t) =>
      halike.withFile (some file))
  unfold Session.begin
  apply hforget.bind
  intro _
  apply (InStep.of_except (extract settings.sourceFilename fileName)).bind
  intro sourceExtracted
  apply (hplace _).bind
  intro _
  apply (Template.inStep_expand files settings.outputFilename).bind
  intro output
  exact hplace _

namespace Value

theorem inStep_ofPattern (node : String) (facets : Facets) :
    InStep (Alike earlier earlier') (Alike earlier earlier')
      (ofPattern node facets) (ofPattern node facets) := by
  unfold ofPattern
  apply (Step.inStep_draw _).bind
  intro pattern
  apply (Step.inStep_attempt _).bind
  intro drawn
  exact (Step.inStep_forM_warn _).bind fun _ => .of_pure _

theorem inStep_ofType (type : SimpleType) (node : String)
    (settings : Settings) :
    InStep (Alike earlier earlier') (Alike earlier earlier')
      (ofType type node settings files) (ofType type node settings files) := by
  unfold ofType
  apply ((Settings.inStep_ruledValue files settings.rules node).adapt _).bind
  intro ruled
  split
  · exact .of_pure _
  · apply (Step.inStep_draw _).bind
    intro chosen
    split
    · exact .of_pure _
    · split
      · exact inStep_ofKind type node settings.numbers
      · exact inStep_ofPattern node type.facets

theorem inStep_ofType? (type : Option SimpleType) (node : String)
    (settings : Settings) :
    InStep (Alike earlier earlier') (Alike earlier earlier')
      (ofType? type node settings files)
      (ofType? type node settings files) := by
  unfold ofType?
  split
  · exact .of_pure none
  · exact (inStep_ofType files _ node settings).bind fun text => .of_pure _

end Value

end Requests

theorem Generation.inStep_document (source : Source) (root : ElementDecl) :
    InStep (Alike earlier earlier') (Alike earlier earlier')
      (document source root) (document source root) := by
  intro s t halike
  have helement :
      InStep (SameProgress (Alike earlier earlier'))
        (SameProgress (Alike earlier earlier'))
        (element source (remembering source.model) depthLimit root)
        (element source (remembering source.model) depthLimit root) := by
    apply inStep_element rfl rfl
    · exact fun d => inStep_ofStep (Step.inStep_draw d)
    · rfl
    · exact fun id node => (inStep_resolve _ id node).bind fun type =>
        inStep_ofStep (Value.inStep_ofType? source.files type node
          source.settings)
  obtain ⟨hresult, hafter, -⟩ := helement ⟨s, []⟩ ⟨t, []⟩ ⟨halike, rfl⟩
  exact ⟨hresult, hafter⟩

namespace Sampling

theorem inStep_document (files : Files) (model : Model) (root : ElementDecl)
    (fileName : String) (settings : Settings) :
    InStep (SameRun earlier earlier') (Alike earlier earlier')
      (document files model root fileName settings)
      (document files model root fileName settings) := by
  unfold document
  apply (Step.inStep_mapError _
    (Session.inStep_begin files fileName root.name settings)).bind
  intro _
  apply (Step.inStep_mapError _ (Generation.inStep_document _ root)).bind
  intro document
  exact Step.inStep_ofExcept _

section Samples

variable {related : Session → Session → Prop}

/-- A sample of a file depends on the files before it only through what lasts
for the run.  Until it begins, and where it does not begin at all, the sessions
agree as far as they did before. -/
theorem inStep_ofFile
    (hrun : ∀ s t, related s t → SameRun earlier earlier' s t)
    (halike : ∀ s t, Alike earlier earlier' s t → related s t)
    (hwarn : ∀ w, InStep (ε := RootError) related related (Step.warn w)
      (Step.warn w)) (files : Files) (path : String) (profile : Profile) :
    InStep related related
      (ofFile files path profile) (ofFile files path profile) := by
  unfold ofFile
  split
  · exact .of_throw _
  · rename_i fileName _
    apply (Step.inStep_ofExcept _).bind
    intro settings
    apply (Step.inStep_ofExcept _).bind
    intro text
    apply (Step.inStep_ofExcept _).bind
    intro model
    apply (Step.inStep_mapError _ (inStep_findRoot hwarn model)).bind
    intro root
    have hdocument : InStep related (Alike earlier earlier') _ _ :=
      fun s t hrelated =>
        inStep_document files model root fileName settings s t
          (hrun s t hrelated)
    refine hdocument.bind_of_le ?_ halike
    intro xml
    apply InStep.get_bind
    intro s t hafter
    have hname : s.outputFilename? = t.outputFilename? := by
      unfold Session.outputFilename?
      rw [hafter.file]
    rw [hname]
    exact (InStep.of_pure _).mono halike

theorem inStep_ofFile_sameRun (files : Files) (path : String)
    (profile : Profile) :
    InStep (SameRun earlier earlier') (SameRun earlier earlier')
      (ofFile files path profile) (ofFile files path profile) :=
  inStep_ofFile (fun _ _ hsame => hsame) (fun _ _ halike => halike.sameRun)
    Step.inStep_warn_sameRun files path profile

theorem inStep_ofFile_alike (files : Files) (path : String)
    (profile : Profile) :
    InStep (Alike earlier earlier') (Alike earlier earlier')
      (ofFile files path profile) (ofFile files path profile) :=
  inStep_ofFile (fun _ _ halike => halike.sameRun) (fun _ _ halike => halike)
    Step.inStep_warn files path profile

end Samples

end Sampling

/-- What a session can be asked for. -/
inductive Request where
  | text (files : Files) (template : String)
  | ruled (files : Files) (rules : List Rule) (name : String)
  | value (files : Files) (type : Option SimpleType) (node : String)
    (settings : Settings)
  | begin (files : Files) (fileName rootElement : String) (settings : Settings)
  | fileContext
  | seed
  | document (source : Generation.Source) (root : ElementDecl)
  | sample (files : Files) (path : String) (profile : Profile)

inductive Answer where
  | text (result : Except TemplateError String)
  | ruled (result : Except TemplateError (Option String))
  | value (result : Except ValueError (Option String))
  | begun (result : Except TemplateError Unit)
  | fileContext (file : Option FileContext)
  | seed (seed : UInt64)
  | document (result : Except GenerationError Node)
  | sample (result : Except SamplingError (String × String))

namespace Request

/-- The answer to a request, and the state that it leaves. -/
def answer : Request → Session → Answer × Session
  | text files template, s =>
    (outcome (Template.expand files template) s).map .text id
  | ruled files rules name, s =>
    (outcome (Settings.ruledValue files rules name) s).map .ruled id
  | value files type node settings, s =>
    (outcome (Value.ofType? type node settings files) s).map .value id
  | begin files fileName rootElement settings, s =>
    (outcome (Session.begin files fileName rootElement settings) s).map
      .begun id
  | fileContext, s => (.fileContext s.memory.file, s)
  | seed, s => (.seed s.seed, s)
  | document source root, s =>
    (outcome (Generation.document source root) s).map .document id
  | sample files path profile, s =>
    (outcome (Sampling.ofFile files path profile) s).map .sample id

/-- The answers to requests, one after the other, and the state at the end. -/
def answers : List Request → Session → List Answer × Session
  | [], s => ([], s)
  | request :: requests, s =>
    let (first, s) := request.answer s
    let (others, s) := answers requests s
    (first :: others, s)

/-- Sessions that are alike give the same answer and stay alike. -/
theorem answer_alike (request : Request) {s t : Session}
    (halike : Alike earlier earlier' s t) :
    (request.answer s).1 = (request.answer t).1 ∧
      Alike earlier earlier' (request.answer s).2 (request.answer t).2 := by
  cases request with
  | text files template =>
      obtain ⟨hresult, hafter⟩ :=
        Template.inStep_expand files template s t halike
      exact ⟨congrArg Answer.text hresult, hafter⟩
  | ruled files rules name =>
      obtain ⟨hresult, hafter⟩ :=
        Settings.inStep_ruledValue files rules name s t halike
      exact ⟨congrArg Answer.ruled hresult, hafter⟩
  | value files type node settings =>
      obtain ⟨hresult, hafter⟩ :=
        Value.inStep_ofType? files type node settings s t halike
      exact ⟨congrArg Answer.value hresult, hafter⟩
  | begin files fileName rootElement settings =>
      obtain ⟨hresult, hafter⟩ :=
        Session.inStep_begin files fileName rootElement settings s t
          halike.sameRun
      exact ⟨congrArg Answer.begun hresult, hafter⟩
  | fileContext => exact ⟨congrArg Answer.fileContext halike.file, halike⟩
  | seed => exact ⟨congrArg Answer.seed halike.seed, halike⟩
  | document source root =>
      obtain ⟨hresult, hafter⟩ :=
        Generation.inStep_document source root s t halike
      exact ⟨congrArg Answer.document hresult, hafter⟩
  | sample files path profile =>
      obtain ⟨hresult, hafter⟩ :=
        Sampling.inStep_ofFile_alike files path profile s t halike
      exact ⟨congrArg Answer.sample hresult, hafter⟩

theorem answers_alike (requests : List Request) {s t : Session}
    (halike : Alike earlier earlier' s t) :
    (answers requests s).1 = (answers requests t).1 ∧
      Alike earlier earlier' (answers requests s).2
        (answers requests t).2 := by
  induction requests generalizing s t with
  | nil => exact ⟨rfl, halike⟩
  | cons request requests ih =>
      obtain ⟨hfirst, hmid⟩ := request.answer_alike halike
      obtain ⟨hothers, hafter⟩ := ih hmid
      simp only [answers]
      exact ⟨by rw [hfirst, hothers], hafter⟩

end Request

/-- The beginning of a file gives the same in two sessions that agree in what
lasts for the run, whatever they have kept for the files before it, and leaves
them so that all later requests are answered alike.  Samples of whole files
depend on the files before them only through what lasts for the run. -/
theorem file_begins_afresh {s t : Session}
    (hsame : SameRun s.warnings t.warnings s t) :
    (∀ files fileName rootElement settings,
      let begun (s : Session) :=
        outcome (Session.begin files fileName rootElement settings) s
      (begun s).1 = (begun t).1 ∧
      Alike s.warnings t.warnings (begun s).2 (begun t).2 ∧
      ∀ requests,
        (Request.answers requests (begun s).2).1 =
          (Request.answers requests (begun t).2).1 ∧
        Alike s.warnings t.warnings
          (Request.answers requests (begun s).2).2
          (Request.answers requests (begun t).2).2) ∧
    ∀ files path profile,
      let sampled (s : Session) :=
        outcome (Sampling.ofFile files path profile) s
      (sampled s).1 = (sampled t).1 ∧
      SameRun s.warnings t.warnings (sampled s).2 (sampled t).2 := by
  refine ⟨fun files fileName rootElement settings => ?_,
    fun files path profile => ?_⟩
  · obtain ⟨hresult, halike⟩ :=
      Session.inStep_begin files fileName rootElement settings s t hsame
    exact ⟨hresult, halike, fun requests =>
      Request.answers_alike requests halike⟩
  · exact Sampling.inStep_ofFile_sameRun files path profile s t hsame

end Runs

namespace IsolationWitness

/-- A session that has worked on a file: it has kept a value for that file and
one for the run, and it knows the names of the file. -/
def worked (fileName value outputFilename : String) : Session where
  seed := 7
  stream := Stream.ofSeed 7
  memory :=
    { fileValues := [("uuid", value)]
      runValues := [("country", "Chile")]
      file := some ⟨fileName, "note", "", some outputFilename⟩ }
  warnings := [.severalRoots fileName []]

/-- A placeholder for a value that is kept for the file. -/
def kept : String := "\x7b\x7b uuid | local \x7d\x7d"

/-- Two sessions have different values for their files.  Behind the beginning of
the next file they give one and the same. -/
theorem worked_begins_afresh :
    let s := worked "a.xsd" "first" "a.xml"
    let t := worked "b.xsd" "second" "b.xml"
    let settings : Settings := { outputFilename := kept }
    let begun (s : Session) :=
      outcome (Session.begin {} "c.xsd" "list" settings) s
    let requests : List Request := [.text {} kept, .fileContext]
    SameRun s.warnings t.warnings s t ∧
      (outcome (Template.expand {} kept) s).1.toOption = some "first" ∧
      (outcome (Template.expand {} kept) t).1.toOption = some "second" ∧
      (begun s).1 = (begun t).1 ∧
      (Request.answers requests (begun s).2).1 =
        (Request.answers requests (begun t).2).1 := by
  intro s t settings begun requests
  have hsame : SameRun s.warnings t.warnings s t :=
    ⟨rfl, rfl, fun _ => rfl, [], rfl, rfl⟩
  obtain ⟨hbegun, -, hanswers⟩ :=
    (file_begins_afresh hsame).1 {} "c.xsd" "list" settings
  exact ⟨hsame, by decide +kernel, by decide +kernel, hbegun,
    (hanswers requests).1⟩

end IsolationWitness

end Specimen
