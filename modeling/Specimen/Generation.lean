/-
Generating a document from a content model: element by element, with random
numbers of occurrences and random choices, down to a fixed depth. Simple types
are resolved once for a document and remembered.
-/
import Specimen.Document.Node
import Specimen.Schema.Model
import Specimen.Value.Node

namespace Specimen

variable [Regex.Package]

/-- Why no document is generated. -/
inductive GenerationError where
  | nestedTooDeep (element : String)
  | chain (error : ChainError)
  | value (error : ValueError)
deriving Repr, DecidableEq

namespace Generation

def depthLimit : Nat := 64

end Generation

namespace GenerationError

def message : GenerationError → String
  | nestedTooDeep element =>
    "Element '" ++ element ++ "' is nested more than " ++
      toString Generation.depthLimit ++ " levels deep"
  | chain error => error.message
  | value error => error.message

end GenerationError

namespace Generation

/-- What a document is generated from. -/
structure Source where
  model : Model
  settings : Settings
  files : Files

/-- The state of the run and what is remembered for the document. -/
structure Progress (σ : Type) where
  session : Session
  remembered : σ

abbrev Work (σ : Type) := ExceptT GenerationError (StateM (Progress σ))

/-- A way to find the simple type with a number for a node. -/
abbrev Resolver (σ : Type) :=
  TypeId → String → σ → Except ChainError (Option SimpleType) × σ

/-- Resolve anew for every node. -/
def afresh (m : Model) : Resolver Unit :=
  fun id node memo => (m.resolve id node, memo)

/-- The simple types found so far. -/
abbrev Found := List (TypeId × Option SimpleType)

/-- Resolve each type once and remember what it gave. Failures are not
remembered. -/
def remembering (m : Model) : Resolver Found := fun id node found =>
  match found.lookup id with
  | some type => (.ok type, found)
  | none =>
    match m.resolve id node with
    | .ok type => (.ok type, (id, type) :: found)
    | .error e => (.error e, found)

/-- Take a step of the run. -/
def Work.ofStep {σ ε α : Type} (wrap : ε → GenerationError) (step : Step ε α) :
    Work σ α := fun p =>
  let (result, session) := step p.session
  (result.mapError wrap, { p with session })

def Work.draw {σ α : Type} (d : Draw α) : Work σ α :=
  Work.ofStep (ε := Empty) Empty.elim (Step.draw d)

def Work.resolve {σ : Type} (resolver : Resolver σ) (id : TypeId)
    (node : String) : Work σ (Option SimpleType) := fun p =>
  let (result, remembered) := resolver id node p.remembered
  (result.mapError GenerationError.chain, { p with remembered })

/-- How often something occurs. The settings bound what the schema leaves open,
but never below the least number. What occurs exactly once draws nothing. -/
def occurrences {σ : Type} (settings : Settings)
    (occurs : Occurs) : Work σ Nat :=
  let most := max (occurs.most.getD settings.occurrenceCap) occurs.least
  if occurs.least = 1 ∧ most = 1 then return 1
  else Work.draw (Draw.count occurs.least most)

/-- The value of a node with the type of a number; complex types have none. -/
def valueOf {σ : Type} (source : Source) (resolver : Resolver σ) (id : TypeId)
    (node : String) : Work σ (Option String) := do
  let type ← Work.resolve resolver id node
  Work.ofStep GenerationError.value
    (Value.ofType? type node source.settings source.files)

/-- An attribute is present: always, never, or by chance. -/
def isIncluded {σ : Type} (settings : Settings) : Usage → Work σ Bool
  | .required => return true
  | .prohibited => return false
  | .optional => return (← Work.draw Draw.probability) ≤ settings.inclusion

/-- The attributes of an element, in the order of their declarations. -/
def attributes {σ : Type} (source : Source) (resolver : Resolver σ) :
    List AttributeDecl → Work σ (List (String × String))
  | [] => return []
  | decl :: rest => do
    if ← isIncluded source.settings decl.usage then
      let value ← valueOf source resolver decl.type decl.name
      let others ← attributes source resolver rest
      return (value.map fun text => (decl.name, text)).toList ++ others
    else attributes source resolver rest

/-- The results of `n` runs of a step, one behind the other. -/
def repeated {σ α : Type} (step : Work σ (List α)) : Nat → Work σ (List α)
  | 0 => return []
  | n + 1 => do
    let first ← step
    return first ++ (← repeated step n)

section Content

variable {σ : Type} (settings : Settings) (child : ElementDecl → Work σ Node)

mutual

def particle : Particle → Work σ (List Node)
  | .element decl => do
    let n ← occurrences settings decl.occurs
    repeated (return [← child decl]) n
  | .group g => group g
  | .any _ => return []

/-- The elements of a group: in every repetition all children in order, or one
of them. -/
def group : GroupOf Particle → Work σ (List Node)
  | ⟨order, occurs, children⟩ => do
    let n ← occurrences settings occurs
    match order with
    | .choice =>
      if children.isEmpty then return []
      else
        repeated (do
          let i ← Work.draw (Draw.index children.length)
          particleAt children i) n
    | _ => repeated (particles children) n

def particles : List Particle → Work σ (List Node)
  | [] => return []
  | p :: rest => do
    let first ← particle p
    return first ++ (← particles rest)

def particleAt : List Particle → Nat → Work σ (List Node)
  | [], _ => return []
  | p :: _, 0 => particle p
  | _ :: rest, i + 1 => particleAt rest i

end

end Content

/-- One element, with at most `levels` levels of elements, itself included. -/
def element {σ : Type} (source : Source) (resolver : Resolver σ) :
    (levels : Nat) → ElementDecl → Work σ Node
  | 0, decl => throw (.nestedTooDeep decl.name)
  | levels + 1, decl =>
    match source.model.get decl.type with
    | .builtin .anyType => return { name := decl.name }
    | .complex type => do
      let attributes ← attributes source resolver type.attributes
      let children ← match type.content with
        | none => pure []
        | some content =>
          group source.settings (element source resolver levels) content
      return { name := decl.name, attributes, children }
    | _ => do
      let text ← valueOf source resolver decl.type decl.name
      return { name := decl.name, text }

/-- The document below a root, generated in a run. -/
def document (source : Source) (root : ElementDecl) :
    Step GenerationError Node := fun session =>
  let (result, progress) :=
    element source (remembering source.model) depthLimit root ⟨session, []⟩
  (result, progress.session)

end Generation

end Specimen
