/-
What the rules for values can change.  A document depends on the list of rules
only through the template that each name declared in the model gets from it: the
first rule about the name decides, one without template or with an empty one
leaves the name alone, and to look for the rule draws nothing and leaves no
trace in the run.
-/
import Specimen.Proofs.Congruence
import Specimen.Proofs.Steps

namespace Specimen

mutual

/-- The elements that stand in a part of a content model, in document order. -/
def Particle.decls : Particle → List ElementDecl
  | .element decl => [decl]
  | .group g => GroupOf.decls g
  | .any _ => []

def GroupOf.decls : GroupOf Particle → List ElementDecl
  | ⟨_, _, children⟩ => Particle.declsOfAll children

def Particle.declsOfAll : List Particle → List ElementDecl
  | [] => []
  | p :: rest => p.decls ++ Particle.declsOfAll rest

end

/-- The names that the definition of a type declares: those of the attributes,
and of the elements in the content. -/
def TypeDef.names : TypeDef → List String
  | .complex type =>
    type.attributes.map AttributeDecl.name ++
      ((type.content.map GroupOf.decls).getD []).map ElementDecl.name
  | _ => []

/-- The names of all elements and attributes that a model declares. -/
def Model.names (m : Model) : List String :=
  m.elements.map ElementDecl.name ++ m.types.flatMap TypeDef.names

theorem Particle.mem_declsOfAll {ps : List Particle} {decl : ElementDecl} :
    decl ∈ Particle.declsOfAll ps ↔ ∃ p ∈ ps, decl ∈ p.decls := by
  induction ps with
  | nil => simp [Particle.declsOfAll]
  | cons p ps ih => simp [Particle.declsOfAll, ih]

theorem Particle.Holds.mem_decls {p : Particle} {decl : ElementDecl}
    (hholds : p.Holds decl) : decl ∈ p.decls := by
  induction hholds with
  | element decl => exact List.mem_singleton.mpr rfl
  | group hp _ ih =>
      rw [Particle.decls, GroupOf.decls]
      exact Particle.mem_declsOfAll.mpr ⟨_, hp, ih⟩

namespace Model

variable {m : Model}

/-- A number that stands for a complex type has a definition. -/
theorem mem_types_of_get {id : TypeId} {type : ComplexType}
    (hget : m.get id = .complex type) : .complex type ∈ m.types := by
  rw [get] at hget
  cases hfound : m.types[id]? with
  | none =>
      rw [hfound] at hget
      cases hget
  | some d =>
      rw [hfound] at hget
      cases hget
      exact List.mem_of_getElem? hfound

theorem mem_names_of_type {d : TypeDef} {name : String} (hd : d ∈ m.types)
    (hname : name ∈ d.names) : name ∈ m.names :=
  List.mem_append_right _ (List.mem_flatMap_of_mem hd hname)

theorem Contains.mem_names {parent decl : ElementDecl}
    (hcontains : m.Contains parent decl) : decl.name ∈ m.names := by
  obtain ⟨htype, hcontent, hholds⟩ := hcontains
  refine mem_names_of_type (mem_types_of_get htype) (List.mem_append_right _ ?_)
  rw [hcontent]
  exact List.mem_map_of_mem hholds.mem_decls

/-- The nodes whose values belong to an element have its name, or one that the
model declares. -/
theorem Valued.mem_names {decl : ElementDecl} {id : TypeId} {node : String}
    (hvalued : m.Valued decl id node) : node ∈ decl.name :: m.names := by
  cases hvalued with
  | text => exact List.mem_cons_self
  | attr htype ha =>
      exact List.mem_cons_of_mem _ (mem_names_of_type (mem_types_of_get htype)
        (List.mem_append_left _ (List.mem_map_of_mem ha)))

end Model

namespace Settings

variable {rules rules' : List Rule} {node : String}

/-- Rules that are not about the name, or give it nothing, are as good as none.
-/
theorem templateFor?_eq_none
    (hrules : ∀ rule ∈ rules, rule.template = none ∨ rule.template = some "" ∨
      rule.appliesTo node = false) : templateFor? rules node = none := by
  rw [templateFor?]
  cases hfind : rules.find? (·.appliesTo node) with
  | none => rfl
  | some rule =>
      have happlies : rule.appliesTo node = true := by
        simpa using List.find?_some hfind
      rcases hrules rule (List.mem_of_find?_eq_some hfind) with
        hnone | hempty | hmiss
      · simp [hnone]
      · simp [hempty]
      · rw [hmiss] at happlies
        cases happlies

end Settings

namespace Value

/-- The value of a node depends on the rules only through its template. -/
theorem ofType?_congr_rules [Regex.Package] {rules rules' : List Rule}
    {node : String} (htemplate : Settings.templateFor? rules node =
      Settings.templateFor? rules' node)
    (type : Option SimpleType) (settings : Settings) (files : Files) :
    ofType? type node { settings with rules := rules } files =
      ofType? type node { settings with rules := rules' } files := by
  cases type with
  | none => rfl
  | some type =>
      simp only [ofType?, ofType, Settings.ruledValue, htemplate]

end Value

namespace Generation

/-- The source with these rules in place of its own. -/
def Source.ruled (source : Source) (rules : List Rule) : Source :=
  { source with settings := { source.settings with rules } }

variable {source : Source} {rules rules' : List Rule} {root : ElementDecl}

@[simp] theorem Source.model_ruled (source : Source) (rules : List Rule) :
    (source.ruled rules).model = source.model := rfl

/-- Below the root all names are declared by the model. -/
theorem corresponding_ruled [Regex.Package]
    (htemplates : ∀ name ∈ root.name :: source.model.names,
      Settings.templateFor? rules name = Settings.templateFor? rules' name) :
    Corresponding (fun _ first second => first = second)
      (source.ruled rules) (source.ruled rules')
      (remembering source.model) (remembering source.model)
      (·.name ∈ root.name :: source.model.names) where
  cap := rfl
  inclusion := rfl
  contains _ _ _ hcontains := List.mem_cons_of_mem _ hcontains.mem_names
  get _ _ := rfl
  value decl id node hdecl hvalued := by
    have hnode : node ∈ root.name :: source.model.names := by
      rcases List.mem_cons.mp hvalued.mem_names with rfl | hnode
      · exact hdecl
      · exact List.mem_cons_of_mem _ hnode
    simp only [valueOf, Source.ruled,
      Value.ofType?_congr_rules (htemplates node hnode)]

theorem document_ruled [Regex.Package]
    (htemplates : ∀ name ∈ root.name :: source.model.names,
      Settings.templateFor? rules name = Settings.templateFor? rules' name) :
    document (source.ruled rules) root =
      document (source.ruled rules') root := by
  have helement :
      element (source.ruled rules) (remembering source.model) depthLimit root =
        element (source.ruled rules') (remembering source.model) depthLimit
          root :=
    congruent_eq.element (fun _ => rfl) (corresponding_ruled htemplates)
      depthLimit List.mem_cons_self
  funext session
  simp only [document, Source.model_ruled, helement]

/-- If two lists of rules give every name that the model declares the same
template, if any, then the documents are the same, and so are the runs behind
them.  Rules that give nothing, and rules about none of the names, might as well
not be there.  The types are meant to have numbers of the model, as they do
where the model is closed. -/
theorem document_rules [Regex.Package] (source : Source)
    (rules rules' : List Rule) (root : ElementDecl) (session : Session) :
    ((∀ name ∈ root.name :: source.model.names,
        Settings.templateFor? rules name = Settings.templateFor? rules' name) →
      outcome (document (source.ruled rules) root) session =
        outcome (document (source.ruled rules') root) session) ∧
    ((∀ rule ∈ rules, rule.template = none ∨ rule.template = some "" ∨
        ∀ name ∈ root.name :: source.model.names,
          rule.appliesTo name = false) →
      outcome (document (source.ruled rules) root) session =
        outcome (document (source.ruled []) root) session) := by
  refine ⟨fun htemplates => by rw [document_ruled htemplates], fun hidle => ?_⟩
  have htemplates (name : String)
      (hname : name ∈ root.name :: source.model.names) :
      Settings.templateFor? rules name = Settings.templateFor? [] name := by
    refine Settings.templateFor?_eq_none fun rule hrule => ?_
    rcases hidle rule hrule with hnone | hempty | hmiss
    · exact .inl hnone
    · exact .inr (.inl hempty)
    · exact .inr (.inr (hmiss name hname))
  rw [document_ruled htemplates]

namespace RulesWitness

/-- Books with a title or a number, and a language that may be left out. -/
def library : Source where
  model :=
    { types :=
        [.complex
          { attributes := [⟨"lang", 1, .optional⟩]
            content := some ⟨.choice, {},
              [.element ⟨"title", 1, {}⟩, .element ⟨"isbn", 1, {}⟩]⟩ },
          .builtin .string]
      elements := [⟨"book", 0, {}⟩] }
  settings := {}
  files := {}

/-- A rule for the names that a text stands in. -/
def about (text : String) (template : Option String) : Rule :=
  ⟨text, .text text.toList, template⟩

/-- The second list repeats the first one with more rules around and between its
rules: about no name, with an empty template, and shadowed by the one before. -/
theorem library_alike :
    let few := [about "isbn" (some "978"), about "a" none]
    let many := [about "x" (some "unknown"), about "isbn" (some "978"),
      about "lang" (some ""), about "sb" (some "other")]
    (∀ name ∈ "book" :: library.model.names,
      Settings.templateFor? few name = Settings.templateFor? many name) ∧
    outcome (document (library.ruled few) ⟨"book", 0, {}⟩) (.ofSeed 7) =
      outcome (document (library.ruled many) ⟨"book", 0, {}⟩) (.ofSeed 7) ∧
    outcome (document (library.ruled [about "x" (some "y"), about "o" none])
        ⟨"book", 0, {}⟩) (.ofSeed 7) =
      outcome (document (library.ruled []) ⟨"book", 0, {}⟩) (.ofSeed 7) := by
  intro few many
  have htemplates : ∀ name ∈ "book" :: library.model.names,
      Settings.templateFor? few name = Settings.templateFor? many name := by
    decide
  exact ⟨htemplates,
    (document_rules library few many ⟨"book", 0, {}⟩ (.ofSeed 7)).1 htemplates,
    (document_rules library [about "x" (some "y"), about "o" none] []
      ⟨"book", 0, {}⟩ (.ofSeed 7)).2 (by decide)⟩

end RulesWitness

end Generation

end Specimen
