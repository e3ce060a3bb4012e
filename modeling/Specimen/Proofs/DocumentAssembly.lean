/-
Generated documents can be written.  Elements are put together before they are
written: first the attributes, then the text, then the children one by one.
Text is refused where there is content already, and a child is refused beside
text.  No generated element has both, so nothing is refused; and the printer
refuses exactly what could not be put together.
-/
import Specimen.Proofs.BracePairs
import Specimen.Proofs.Conformance
import Specimen.Proofs.WrittenTags
import Specimen.Sampling

namespace Specimen

/-- A way to put elements together and to write the result.  Text and children
may be refused, and writing may fail. -/
structure Assembly (ε : Type) where
  Element : Type
  start : String → Element
  addAttribute : Element → String → String → Element
  addText : Element → String → Except ε Element
  addChild : Element → Element → Except ε Element
  write : Element → Except ε String

namespace Assembly

variable {ε : Type} (a : Assembly ε)

def addAttributes (e : a.Element) (attributes : List (String × String)) :
    a.Element :=
  attributes.foldl (fun e (name, value) => a.addAttribute e name value) e

/-- Text is added if there is any. -/
def addText? (e : a.Element) : Option String → Except ε a.Element
  | none => .ok e
  | some text => a.addText e text

mutual

/-- Put a tree together: the attributes, the text, and then every child, which
is put together before it is added. -/
def build : Node → Except ε a.Element
  | ⟨name, attributes, text, children⟩ => do
    let e ← a.addText? (a.addAttributes (a.start name) attributes) text
    buildInto e children

/-- Add some trees to an element, one behind the other. -/
def buildInto (e : a.Element) : List Node → Except ε a.Element
  | [] => return e
  | child :: rest => do
    let inner ← build child
    let e ← a.addChild e inner
    buildInto e rest

end

/-- Put a document together and write it. -/
def output (root : Node) : Except ε String := do
  a.write (← a.build root)

/-- Text is refused only where there is content already, a child only beside
text, and writing does not fail. -/
structure Lawful (hasText hasChild : a.Element → Prop) : Prop where
  start_text : ∀ name, ¬ hasText (a.start name)
  start_child : ∀ name, ¬ hasChild (a.start name)
  attribute_text : ∀ e name value,
    hasText (a.addAttribute e name value) ↔ hasText e
  attribute_child : ∀ e name value,
    hasChild (a.addAttribute e name value) ↔ hasChild e
  text : ∀ e s, ¬ hasText e → ¬ hasChild e → ∃ e', a.addText e s = .ok e'
  child : ∀ e inner, ¬ hasText e →
    ∃ e', a.addChild e inner = .ok e' ∧ ¬ hasText e'
  write : ∀ e, ∃ text, a.write e = .ok text

variable {a} {hasText hasChild : a.Element → Prop}

theorem Lawful.attributes (ha : a.Lawful hasText hasChild) (e : a.Element)
    (attributes : List (String × String)) :
    (hasText (a.addAttributes e attributes) ↔ hasText e) ∧
      (hasChild (a.addAttributes e attributes) ↔ hasChild e) := by
  induction attributes generalizing e with
  | nil => exact ⟨Iff.rfl, Iff.rfl⟩
  | cons entry rest ih =>
      obtain ⟨htext, hchild⟩ := ih (a.addAttribute e entry.1 entry.2)
      exact ⟨htext.trans (ha.attribute_text e entry.1 entry.2),
        hchild.trans (ha.attribute_child e entry.1 entry.2)⟩

mutual

/-- A tree without mixed content is put together. -/
theorem Lawful.exists_build (ha : a.Lawful hasText hasChild) :
    ∀ n : Node, Node.Unmixed n.nodes → ∃ e, a.build n = .ok e
  | ⟨name, attributes, text, children⟩, hunmixed => by
    obtain ⟨hself, hinner⟩ := Node.forall_nodes_iff.mp hunmixed
    obtain ⟨htext, hchild⟩ := ha.attributes (a.start name) attributes
    have hnoText := htext.not.mpr (ha.start_text name)
    have hnoChild := hchild.not.mpr (ha.start_child name)
    rw [build]
    cases text with
    | none =>
        obtain ⟨e, he, -⟩ := ha.exists_buildInto children hinner _ hnoText
        exact ⟨e, he⟩
    | some text =>
        obtain rfl : children = [] := hself.resolve_left nofun
        obtain ⟨e, he⟩ := ha.text _ text hnoText hnoChild
        exact ⟨e, by rw [addText?, he]; rfl⟩

theorem Lawful.exists_buildInto (ha : a.Lawful hasText hasChild) :
    ∀ nodes : List Node, Node.Unmixed (Node.nodesOf nodes) →
      ∀ e, ¬ hasText e → ∃ e', a.buildInto e nodes = .ok e' ∧ ¬ hasText e'
  | [], _, e, hnoText => ⟨e, rfl, hnoText⟩
  | n :: rest, hunmixed, e, hnoText => by
    obtain ⟨hfirst, hrest⟩ := Node.forall_nodesOf_cons_iff.mp hunmixed
    obtain ⟨inner, hbuild⟩ := ha.exists_build n hfirst
    obtain ⟨e₁, hadd, hnoText₁⟩ := ha.child e inner hnoText
    obtain ⟨e₂, hinto, hnoText₂⟩ := ha.exists_buildInto rest hrest e₁ hnoText₁
    refine ⟨e₂, ?_, hnoText₂⟩
    rw [buildInto, hbuild]
    change (a.addChild e inner >>= fun e => a.buildInto e rest) = _
    rw [hadd]
    exact hinto

end

/-- A tree without mixed content is put together and written. -/
theorem Lawful.exists_output (ha : a.Lawful hasText hasChild) {root : Node}
    (hunmixed : Node.Unmixed root.nodes) :
    ∃ text, a.output root = .ok text := by
  obtain ⟨e, hbuild⟩ := ha.exists_build root hunmixed
  obtain ⟨text, hwrite⟩ := ha.write e
  refine ⟨text, ?_⟩
  rw [output, hbuild]
  exact hwrite

/-- Why trees refuse an addition. -/
inductive Refusal where
  | textBesideContent
  | childBesideText
deriving Repr, DecidableEq

/-- Trees are put together as they are and written as they are printed. -/
abbrev ofNodes : Assembly Refusal where
  Element := Node
  start name := { name }
  addAttribute n name value :=
    { n with attributes := n.attributes ++ [(name, value)] }
  addText n text :=
    if n.text.isSome || !n.children.isEmpty then .error .textBesideContent
    else .ok { n with text := some text }
  addChild n inner :=
    if n.text.isSome then .error .childBesideText
    else .ok { n with children := n.children ++ [inner] }
  write n := .ok (Printer.header ++ String.ofList (n.written 0))

theorem lawful_ofNodes :
    ofNodes.Lawful (fun n : Node => n.text.isSome)
      (fun n : Node => n.children ≠ []) where
  start_text _ := nofun
  start_child _ h := h rfl
  attribute_text _ _ _ := Iff.rfl
  attribute_child _ _ _ := Iff.rfl
  text n s htext hchild := by
    have hempty : n.children = [] := not_not.mp hchild
    exact ⟨_, if_neg (by simp [htext, hempty])⟩
  child n inner htext :=
    ⟨_, if_neg (by simpa using htext), by simpa using htext⟩
  write _ := ⟨_, rfl⟩

theorem addAttributes_ofNodes (n : Node) (list : List (String × String)) :
    ofNodes.addAttributes n list =
      ({ n with attributes := n.attributes ++ list } : Node) := by
  induction list generalizing n with
  | nil =>
      obtain ⟨name, attributes, text, children⟩ := n
      rw [addAttributes, List.foldl_nil, List.append_nil]
  | cons entry rest ih =>
      rw [addAttributes, List.foldl_cons]
      refine (ih _).trans ?_
      simp

mutual

/-- What is put together of a tree is the tree. -/
theorem build_ofNodes : ∀ n m : Node, ofNodes.build n = .ok m →
    m = n ∧ Node.Unmixed n.nodes
  | ⟨name, attributes, text, children⟩, m, hbuild => by
    obtain ⟨e, htext, hinto⟩ := bind_eq_ok_iff.mp hbuild
    obtain ⟨hm, hself, hinner⟩ := buildInto_ofNodes children e m hinto
    rw [addAttributes_ofNodes] at htext
    cases text with
    | none =>
        obtain rfl := Except.ok.inj htext
        exact ⟨by simpa using hm, Node.forall_nodes_iff.mpr ⟨.inl rfl, hinner⟩⟩
    | some text =>
        obtain rfl := Except.ok.inj htext
        obtain rfl : children = [] := hself.resolve_right nofun
        exact ⟨by simpa using hm, Node.forall_nodes_iff.mpr ⟨.inr rfl, hinner⟩⟩

theorem buildInto_ofNodes : ∀ (nodes : List Node) (e m : Node),
    ofNodes.buildInto e nodes = .ok m →
      m = { e with children := e.children ++ nodes } ∧
        (nodes = [] ∨ e.text = none) ∧ Node.Unmixed (Node.nodesOf nodes)
  | [], e, m, hbuild => by
    obtain ⟨name, attributes, text, children⟩ := e
    obtain rfl := Except.ok.inj hbuild
    exact ⟨by rw [List.append_nil], .inl rfl, nofun⟩
  | n :: rest, e, m, hbuild => by
    obtain ⟨inner, hinner, hbuild⟩ := bind_eq_ok_iff.mp hbuild
    obtain ⟨e₁, hadd, hbuild⟩ := bind_eq_ok_iff.mp hbuild
    obtain ⟨rfl, hfirst⟩ := build_ofNodes n inner hinner
    by_cases htext : e.text.isSome
    · have hrefused : ofNodes.addChild e inner = .error .childBesideText :=
        if_pos htext
      rw [hrefused] at hadd
      cases hadd
    · have hadded : ofNodes.addChild e inner =
          .ok { e with children := e.children ++ [inner] } := if_neg htext
      obtain rfl := Except.ok.inj (hadded.symm.trans hadd)
      obtain ⟨hm, -, hrest⟩ := buildInto_ofNodes rest _ m hbuild
      exact ⟨by simpa using hm, .inr (by simpa using htext),
        Node.forall_nodesOf_cons_iff.mpr ⟨hfirst, hrest⟩⟩

end

end Assembly

mutual

/-- Only trees without mixed content are written. -/
theorem Printer.unmixed_of_element :
    ∀ (level : Nat) (n : Node) (out : List Char),
    Printer.element level n = .ok out → Node.Unmixed n.nodes
  | level, ⟨name, attributes, some text, first :: rest⟩, out, hout =>
      nomatch hout
  | level, ⟨name, attributes, some text, []⟩, out, _ =>
    Node.forall_nodes_iff.mpr ⟨.inr rfl, nofun⟩
  | level, ⟨name, attributes, none, []⟩, out, _ =>
    Node.forall_nodes_iff.mpr ⟨.inl rfl, nofun⟩
  | level, ⟨name, attributes, none, first :: rest⟩, out, hout => by
    obtain ⟨inner, hinner, -⟩ := bind_eq_ok_iff.mp hout
    exact Node.forall_nodes_iff.mpr ⟨.inl rfl,
      Printer.unmixed_of_elements (level + 1) (first :: rest) inner hinner⟩

theorem Printer.unmixed_of_elements :
    ∀ (level : Nat) (nodes : List Node) (out : List Char),
      Printer.elements level nodes = .ok out →
        Node.Unmixed (Node.nodesOf nodes)
  | _, [], _, _ => nofun
  | level, n :: rest, out, hout => by
    obtain ⟨first, hfirst, hout⟩ := bind_eq_ok_iff.mp hout
    obtain ⟨others, hothers, -⟩ := bind_eq_ok_iff.mp hout
    exact Node.forall_nodesOf_cons_iff.mpr
      ⟨Printer.unmixed_of_element level n first hfirst,
        Printer.unmixed_of_elements level rest others hothers⟩

end

theorem Node.print_eq_ok {root : Node} (hunmixed : Node.Unmixed root.nodes) :
    root.print = .ok (Printer.header ++ String.ofList (root.written 0)) := by
  rw [Node.print, Printer.element_eq_ok 0 root hunmixed]
  rfl

theorem Node.unmixed_of_print {root : Node} {text : String}
    (hprint : root.print = .ok text) : Node.Unmixed root.nodes := by
  obtain ⟨out, hout, -⟩ := bind_eq_ok_iff.mp hprint
  exact Printer.unmixed_of_element 0 root out hout

theorem Assembly.output_ofNodes {root : Node}
    (hunmixed : Node.Unmixed root.nodes) :
    ofNodes.output root =
      .ok (Printer.header ++ String.ofList (root.written 0)) := by
  obtain ⟨e, hbuild⟩ := lawful_ofNodes.exists_build root hunmixed
  obtain ⟨rfl, -⟩ := build_ofNodes root e hbuild
  rw [output, hbuild]
  rfl

/-- The printer prints what is put together, and refuses what cannot be. -/
theorem Node.print_eq_ok_iff {root : Node} {text : String} :
    root.print = .ok text ↔ Assembly.ofNodes.output root = .ok text := by
  constructor
  · intro hprint
    have hunmixed := Node.unmixed_of_print hprint
    rw [Node.print_eq_ok hunmixed, Except.ok.injEq] at hprint
    rw [Assembly.output_ofNodes hunmixed, hprint]
  · intro houtput
    obtain ⟨e, hbuild, -⟩ := bind_eq_ok_iff.mp houtput
    obtain ⟨-, hunmixed⟩ := Assembly.build_ofNodes root e hbuild
    rw [Assembly.output_ofNodes hunmixed, Except.ok.injEq] at houtput
    rw [Node.print_eq_ok hunmixed, houtput]

section Conformance

variable {m : Model} {cap : Nat}

mutual

/-- An element that conforms to its declaration has no text beside children, and
neither has any element inside. -/
theorem Conforms.unmixed : ∀ {n : Node} {decl : ElementDecl},
    Conforms m cap decl n → Node.Unmixed n.nodes
  | ⟨_, _, _, children⟩, _, hconforms => by
    refine Node.forall_nodes_iff.mpr ?_
    cases hconforms with
    | empty => exact ⟨.inl rfl, nofun⟩
    | text => exact ⟨.inr rfl, nofun⟩
    | complex _ _ _ hchildren =>
        exact ⟨.inl rfl, Conforms.unmixed_children hchildren⟩

theorem Conforms.unmixed_children :
    ∀ {children : List Node} {word : List ElementDecl},
      List.Forall₂ (Conforms m cap) word children →
        Node.Unmixed (Node.nodesOf children)
  | [], _, _ => nofun
  | _ :: _, _, .cons hfirst hrest =>
    Node.forall_nodesOf_cons_iff.mpr
      ⟨hfirst.unmixed, Conforms.unmixed_children hrest⟩

end

end Conformance

namespace Generation

theorem unmixed_of_document [Regex.Package] {source : Source}
    {root : ElementDecl} {session : Session} {node : Node}
    (hdocument : (outcome (document source root) session).1 = .ok node) :
    Node.Unmixed node.nodes := by
  rcases hrun : outcome (element source (remembering source.model) depthLimit
    root) ⟨session, []⟩ with ⟨result, progress⟩
  have hresult : result = .ok node := by
    rw [← hdocument]
    simp only [outcome, document] at hrun ⊢
    rw [hrun]
  subst hresult
  exact (yields_element (remembering_faithful source.model) depthLimit root
    ⟨session, []⟩ node progress (Found.sound_nil source.model) hrun).1.unmixed

end Generation

theorem eq_ok_of_mapError {α ε ε' : Type} {wrap : ε → ε'} {result : Except ε α}
    {a : α} (hok : result.mapError wrap = .ok a) : result = .ok a := by
  cases result with
  | ok b => exact congrArg Except.ok (Except.ok.inj hok)
  | error e => cases hok

/-- The step never fails with an error of printing. -/
def Printable {α : Type} (step : Step SamplingError α) : Prop :=
  ∀ s e, (outcome step s).1 ≠ .error (.printing e)

namespace Printable

variable {α β ε : Type}

theorem bind {first : Step SamplingError α} {next : α → Step SamplingError β}
    (hfirst : Printable first)
    (hnext : ∀ s a t, outcome first s = (.ok a, t) → Printable (next a)) :
    Printable (first >>= next) := by
  intro s e herror
  rcases hrun : outcome first s with ⟨result, t⟩
  cases result with
  | ok a =>
      rw [outcome_bind_of_ok hrun] at herror
      exact hnext s a t hrun t e herror
  | error e' =>
      rw [outcome_bind_of_error hrun, Except.error.injEq] at herror
      exact hfirst s e (by rw [hrun, herror])

theorem of_except {result : Except SamplingError α}
    (hresult : ∀ e, result ≠ .error (.printing e)) :
    Printable (Step.ofExcept result) :=
  fun _ e => hresult e

theorem mapError_ne {wrap : ε → SamplingError}
    (hwrap : ∀ e e', wrap e ≠ .printing e') (result : Except ε α)
    (e : PrintError) : result.mapError wrap ≠ .error (.printing e) := by
  cases result with
  | ok a => exact nofun
  | error e' => exact fun h => hwrap e' e (Except.error.inj h)

theorem of_mapError {wrap : ε → SamplingError}
    (hwrap : ∀ e e', wrap e ≠ .printing e') (step : Step ε α) :
    Printable (step.mapError wrap) :=
  fun s e => mapError_ne hwrap (outcome step s).1 e

end Printable

namespace Sampling

variable {files : Files}

theorem printable_ofModelText (text : String) :
    Printable (Step.ofExcept (Model.ofText text)) := by
  refine .of_except fun e => ?_
  rw [Model.ofText]
  split
  · exact nofun
  · exact Printable.mapError_ne nofun _ e

theorem printable_document [Regex.Package] (model : Model) (root : ElementDecl)
    (fileName : String) (settings : Settings) :
    Printable (document files model root fileName settings) := by
  rw [document]
  refine (Printable.of_mapError nofun _).bind fun _ _ _ _ => ?_
  refine (Printable.of_mapError nofun _).bind fun s node t hrun => ?_
  have hdocument := eq_ok_of_mapError (congrArg Prod.fst hrun)
  rw [Node.print_eq_ok (Generation.unmixed_of_document hdocument)]
  exact .of_except nofun

theorem printable_ofText [Regex.Package] (text : String) (settings : Settings) :
    Printable (ofText files text settings) := by
  rw [ofText]
  refine (printable_ofModelText text).bind fun _ model _ _ => ?_
  refine (Printable.of_mapError nofun _).bind fun _ root _ _ => ?_
  exact printable_document model root defaultFileName settings

theorem printable_ofFile [Regex.Package] (path : String) (profile : Profile) :
    Printable (ofFile files path profile) := by
  have hsettings : ∀ e e', SamplingError.settings e ≠ .printing e' := by simp
  have hunreadable : ∀ e e', SamplingError.unreadable e ≠ .printing e' := by
    simp
  have hroot : ∀ e e', SamplingError.root e ≠ .printing e' := by simp
  rw [ofFile]
  split
  · intro _ _ herror
    cases herror
  · rename_i fileName _
    refine (Printable.of_except (Printable.mapError_ne hsettings _)).bind
      fun _ settings _ _ => ?_
    refine (Printable.of_except (Printable.mapError_ne hunreadable _)).bind
      fun _ text _ _ => ?_
    refine (printable_ofModelText text).bind fun _ model _ _ => ?_
    refine (Printable.of_mapError hroot _).bind fun _ root _ _ => ?_
    refine (printable_document model root fileName settings).bind
      fun _ xml _ _ => ?_
    intro _ _ herror
    cases herror

/-- A document that is generated is written, by the printer and however elements
are put together, as long as they are refused only text beside content and
children beside text.  No sample fails for want of a written form. -/
theorem documents_written [Regex.Package] :
    (∀ (source : Generation.Source) (root : ElementDecl) (session : Session)
      (node : Node),
      (outcome (Generation.document source root) session).1 = .ok node →
        (∃ text, node.print = .ok text) ∧
          ∀ (ε : Type) (a : Assembly ε) (hasText hasChild : a.Element → Prop),
            a.Lawful hasText hasChild → ∃ text, a.output node = .ok text) ∧
      (∀ (files : Files) (text : String) (settings : Settings),
        Printable (ofText files text settings)) ∧
      ∀ (files : Files) (path : String) (profile : Profile),
        Printable (ofFile files path profile) := by
  refine ⟨fun source root session node hdocument => ?_,
    fun files text settings => printable_ofText text settings,
    fun files path profile => printable_ofFile path profile⟩
  have hunmixed := Generation.unmixed_of_document hdocument
  exact ⟨⟨_, Node.print_eq_ok hunmixed⟩,
    fun _ _ _ _ ha => ha.exists_output hunmixed⟩

namespace AssemblyWitness

open Generation.ConformanceWitness (grove)

/-- A tree with a leaf and a tree inside is written. -/
theorem grove_written : ∃ node text,
    (outcome (Generation.document grove { name := "tree", type := 0 })
      (Session.ofSeed 5)).1 = .ok node ∧
    node.children.map (·.name) = ["leaf", "tree"] ∧
    node.print = .ok text ∧ Assembly.ofNodes.output node = .ok text := by
  have hchildren : (outcome (Generation.document grove
      { name := "tree", type := 0 }) (Session.ofSeed 5)).1.map
        (fun node => node.children.map (·.name)) = .ok ["leaf", "tree"] := by
    decide +kernel
  generalize hdocument : (outcome (Generation.document grove
      { name := "tree", type := 0 }) (Session.ofSeed 5)).1 = result at hchildren
  obtain ⟨node, rfl, hnames⟩ := map_eq_ok_iff.mp hchildren
  obtain ⟨⟨text, hprint⟩, hassembly⟩ :=
    documents_written.1 grove _ _ node hdocument
  obtain ⟨other, houtput⟩ :=
    hassembly _ Assembly.ofNodes _ _ Assembly.lawful_ofNodes
  obtain rfl : text = other :=
    Except.ok.inj (hprint.symm.trans (Node.print_eq_ok_iff.mpr houtput))
  exact ⟨node, text, rfl, hnames, hprint, houtput⟩

end AssemblyWitness

end Sampling

end Specimen
