/-
What is written for documents.  Trees without mixed content are written as their
lines one after the other, and every tag that is written is read as what it
stands for: the escaped values of its attributes come back, and no bracket
stands inside it.
-/
import Specimen.Document.Printer
import Specimen.Proofs.DocumentReader

namespace Specimen

open Markup.Token (isSpace decode)

mutual

/-- An element and all elements inside it. -/
def Node.nodes : Node → List Node
  | ⟨name, attributes, text, children⟩ =>
    ⟨name, attributes, text, children⟩ :: Node.nodesOf children

def Node.nodesOf : List Node → List Node
  | [] => []
  | n :: rest => n.nodes ++ Node.nodesOf rest

end

mutual

/-- The lines of an element at a level, if it has no text beside children. -/
def Node.written (level : Nat) : Node → List Char
  | ⟨name, attributes, text, children⟩ =>
    let indent := List.replicate level '\t'
    let start := indent ++ '<' :: name.toList ++ Printer.attributes attributes
    match text, children with
    | some text, _ =>
      start ++ '>' :: text.toList ++ Printer.endTag name ++ ['\n']
    | none, [] => start ++ [' ', '/', '>', '\n']
    | none, children =>
      start ++ ['>', '\n'] ++ Node.writtens (level + 1) children ++ indent ++
        Printer.endTag name ++ ['\n']

def Node.writtens (level : Nat) : List Node → List Char
  | [] => []
  | n :: rest => n.written level ++ Node.writtens level rest

end

/-- No element has a text beside children. -/
def Node.Unmixed (nodes : List Node) : Prop :=
  ∀ n ∈ nodes, n.text = none ∨ n.children = []

instance (nodes : List Node) : Decidable (Node.Unmixed nodes) :=
  inferInstanceAs (Decidable (∀ n ∈ nodes, n.text = none ∨ n.children = []))

/-- All elements and attributes have names of XML. -/
def Node.Named (nodes : List Node) : Prop :=
  ∀ n ∈ nodes, Reading.IsName n.name.toList ∧
    ∀ a ∈ n.attributes, Reading.IsName a.1.toList

instance (nodes : List Node) : Decidable (Node.Named nodes) :=
  inferInstanceAs (Decidable (∀ n ∈ nodes, Reading.IsName n.name.toList ∧
    ∀ a ∈ n.attributes, Reading.IsName a.1.toList))

/-- No text has a tag in it. -/
def Node.Untagged (nodes : List Node) : Prop :=
  ∀ n ∈ nodes, ∀ text ∈ n.text, '<' ∉ text.toList

section Nodes

variable {p : Node → Prop}

theorem Node.forall_nodes_iff {name : String}
    {attributes : List (String × String)} {text : Option String}
    {children : List Node} :
    (∀ n ∈ Node.nodes ⟨name, attributes, text, children⟩, p n) ↔
      p ⟨name, attributes, text, children⟩ ∧
        ∀ n ∈ Node.nodesOf children, p n := by
  rw [Node.nodes, List.forall_mem_cons]

theorem Node.forall_nodesOf_cons_iff {n : Node} {rest : List Node} :
    (∀ m ∈ Node.nodesOf (n :: rest), p m) ↔
      (∀ m ∈ n.nodes, p m) ∧ ∀ m ∈ Node.nodesOf rest, p m := by
  rw [Node.nodesOf, List.forall_mem_append]

end Nodes

mutual

/-- A tree without mixed content is written. -/
theorem Printer.element_eq_ok (level : Nat) :
    ∀ n : Node, Node.Unmixed n.nodes →
      Printer.element level n = .ok (n.written level)
  | ⟨name, attributes, text, children⟩, hunmixed => by
    obtain ⟨hself, hinner⟩ := Node.forall_nodes_iff.mp hunmixed
    have hchildren := Printer.elements_eq_ok (level + 1) children hinner
    cases text with
    | some text =>
        obtain rfl : children = [] := hself.resolve_left nofun
        rfl
    | none =>
        cases children with
        | nil => rfl
        | cons first rest =>
            rw [Printer.element, hchildren]
            · rfl
            · exact nofun

theorem Printer.elements_eq_ok (level : Nat) :
    ∀ nodes : List Node, Node.Unmixed (Node.nodesOf nodes) →
      Printer.elements level nodes = .ok (Node.writtens level nodes)
  | [], _ => rfl
  | n :: rest, hunmixed => by
    obtain ⟨hfirst, hrest⟩ := Node.forall_nodesOf_cons_iff.mp hunmixed
    rw [Printer.elements, Printer.element_eq_ok level n hfirst,
      Printer.elements_eq_ok level rest hrest]
    rfl

end

namespace Printer

theorem decode_reference (name : List Char) (hname : ';' ∉ name)
    (before s : List Char) :
    decode (some before) (name ++ ';' :: s) =
      (Markup.Token.referenced? (before.reverse ++ name)).bind fun c =>
        (decode none s).map (c :: ·) := by
  induction name generalizing before with
  | nil =>
      rw [List.nil_append, decode, if_pos rfl, List.append_nil]
      cases Markup.Token.referenced? before.reverse with
      | none => rfl
      | some c =>
          cases decode none s with
          | none => rfl
          | some text => rfl
  | cons c rest ih =>
      have hc : c ≠ ';' := fun h => hname (h ▸ List.mem_cons_self)
      rw [List.cons_append, decode, if_neg hc,
        ih (fun h => hname (List.mem_cons_of_mem _ h)), List.reverse_cons,
        List.append_assoc, List.singleton_append]

theorem decode_escape_append (c : Char) (s : List Char) :
    decode none (escape c ++ s) = (decode none s).map (c :: ·) := by
  unfold escape
  split
  · exact decode_reference ['a', 'm', 'p'] (by decide) [] s
  · exact decode_reference ['q', 'u', 'o', 't'] (by decide) [] s
  · exact decode_reference ['a', 'p', 'o', 's'] (by decide) [] s
  · exact decode_reference ['l', 't'] (by decide) [] s
  · exact decode_reference ['g', 't'] (by decide) [] s
  · rename_i hc _ _ _ _
    rw [List.singleton_append, decode, if_neg hc]

/-- The reader understands an escaped value. -/
theorem decode_escaped (s : List Char) :
    decode none (s.flatMap escape) = some s := by
  induction s with
  | nil => rfl
  | cons c rest ih =>
      rw [List.flatMap_cons, decode_escape_append, ih]
      rfl

theorem all_escape (c : Char) :
    (escape c).all fun d => ['<', '>', '"'].contains d == false := by
  unfold escape
  split
  · rfl
  · rfl
  · rfl
  · rfl
  · rfl
  · rename_i hquote _ hopen hclose
    simpa using ⟨hopen, hclose, hquote⟩

/-- The characters that end a value or a tag are escaped. -/
theorem not_mem_escaped {d : Char} (hd : d ∈ ['<', '>', '"']) (s : List Char) :
    d ∉ s.flatMap escape := by
  rw [List.mem_flatMap]
  rintro ⟨c, -, hc⟩
  have hsafe := List.all_eq_true.mp (all_escape c) d hc
  rw [List.contains_iff_mem.mpr hd] at hsafe
  exact nomatch hsafe

end Printer

namespace Reading

open Printer (attributes escape)

theorem Tag.Awaits.run_attribute {tag : Tag} {head : Head}
    (hawaits : tag.Awaits head) {name value : String}
    (hname : IsName name.toList) :
    tag.run (attributes [(name, value)]) =
      some (.behind { head with
        attributes := (name, value) :: head.attributes }) := by
  obtain ⟨first, rest, hsplit, hfirst, hrest⟩ := hname
  have hlabel : (Tag.labelling head [first]).run rest =
      some (.labelling head (rest.reverse ++ [first])) :=
    Tag.run_keeping (Tag.labelling head)
      (fun c hc kept => by rw [Tag.next, if_pos (hrest c hc)]) _
  have hvalue : (Tag.valued head (rest.reverse ++ [first]) '"' []).run
      (value.toList.flatMap escape) =
      some (.valued head (rest.reverse ++ [first]) '"'
        ((value.toList.flatMap escape).reverse ++ [])) := by
    refine Tag.run_keeping (Tag.valued head (rest.reverse ++ [first]) '"')
      (fun c hc kept => ?_) _
    have hquote : c ≠ '"' := by
      rintro rfl
      exact Printer.not_mem_escaped (by decide) _ hc
    rw [Tag.next, if_neg hquote]
  have hbehind : (Tag.valued head (rest.reverse ++ [first]) '"'
      ((value.toList.flatMap escape).reverse ++ [])).next '"' =
      some (.behind { head with
        attributes := (name, value) :: head.attributes }) := by
    rw [Tag.next, if_pos rfl, List.append_nil, List.reverse_reverse,
      Printer.decode_escaped, Option.map_some, Head.push, List.reverse_append,
      List.reverse_reverse, List.reverse_singleton, List.singleton_append,
      ← hsplit, String.ofList_toList, String.ofList_toList]
  have hchar := isNameChar_of_isNameStart hfirst
  have hnamed : (Tag.between head).next first =
      some (.labelling head [first]) := by
    rw [Tag.next, isSpace_of_isNameChar hchar, if_neg Bool.false_ne_true,
      if_neg (ne_of_isNameChar hchar (by decide)), if_pos hfirst]
  have hequals : (Tag.labelling head (rest.reverse ++ [first])).next '=' =
      some (.assigned head (rest.reverse ++ [first])) := by
    rw [Tag.next, isNameChar_eq_false (by decide)]
    rfl
  have hopening : (Tag.assigned head (rest.reverse ++ [first])).next '"' =
      some (.valued head (rest.reverse ++ [first]) '"' []) := rfl
  have hwritten : attributes [(name, value)] = ' ' :: first :: (rest ++
      '=' :: '"' :: (value.toList.flatMap escape ++ ['"'])) := by
    simp [attributes, hsplit]
  rw [hwritten, Tag.run_cons, hawaits.space, Option.bind_some, Tag.run_cons,
    hnamed, Option.bind_some, Tag.run_append, hlabel, Option.bind_some,
    Tag.run_cons, hequals, Option.bind_some, Tag.run_cons, hopening,
    Option.bind_some, Tag.run_append, hvalue, Option.bind_some, Tag.run_cons,
    hbehind]
  rfl

/-- The attributes of a start tag are read as they were written. -/
theorem Tag.Awaits.run_attributes {tag : Tag} {head : Head}
    (hawaits : tag.Awaits head) {list : List (String × String)}
    (hnames : ∀ a ∈ list, IsName a.1.toList) :
    ∃ behind, tag.run (attributes list) = some behind ∧ behind.Awaits
      { head with attributes := list.reverse ++ head.attributes } := by
  induction list generalizing tag head with
  | nil => exact ⟨tag, rfl, hawaits⟩
  | cons first rest ih =>
      obtain ⟨hfirst, hrest⟩ := List.forall_mem_cons.mp hnames
      obtain ⟨behind, hrun, hbehind⟩ := ih (Tag.awaits_behind
        { head with attributes := first :: head.attributes }) hrest
      refine ⟨behind, ?_, by simpa using hbehind⟩
      have hsplit : attributes (first :: rest) =
          attributes [(first.1, first.2)] ++ attributes rest := by
        simp [attributes]
      rw [hsplit, Tag.run_append, hawaits.run_attribute hfirst,
        Option.bind_some, hrun]

theorem IsName.ne_brackets {name : List Char} (hname : IsName name) {c : Char}
    (hc : c ∈ name) : c ≠ '<' ∧ c ≠ '>' :=
  ⟨ne_of_isNameChar (hname.isNameChar c hc) (by decide),
    ne_of_isNameChar (hname.isNameChar c hc) (by decide)⟩

section Heads

variable {name : String} (hname : IsName name.toList)
  {list : List (String × String)} (hnames : ∀ a ∈ list, IsName a.1.toList)

include hname hnames

/-- No bracket stands in a start tag. -/
theorem ne_brackets_of_mem_head :
    ∀ c ∈ name.toList ++ attributes list, c ≠ '<' ∧ c ≠ '>' := by
  refine List.forall_mem_append.mpr ⟨fun c hc => hname.ne_brackets hc, ?_⟩
  intro c hc
  obtain ⟨⟨label, value⟩, hmem, hc⟩ := List.mem_flatMap.mp hc
  simp only [List.mem_append, List.mem_cons, List.not_mem_nil, or_false] at hc
  obtain ((rfl | hc) | rfl | rfl | hc) | rfl := hc
  · decide
  · exact (hnames _ hmem).ne_brackets hc
  · decide
  · decide
  · constructor
    · rintro rfl
      exact Printer.not_mem_escaped (by decide) _ hc
    · rintro rfl
      exact Printer.not_mem_escaped (by decide) _ hc
  · decide

theorem Tag.run_head : ∃ tag, Tag.opened.run (name.toList ++ attributes list) =
    some tag ∧ tag.Awaits ⟨name.toList.reverse, list.reverse⟩ := by
  obtain ⟨tag, hrun, hawaits⟩ :=
    (awaits_naming name.toList.reverse).run_attributes hnames
  rw [List.append_nil] at hawaits
  refine ⟨tag, ?_, hawaits⟩
  have hnamed : opened.run name.toList = some (naming name.toList.reverse) := by
    obtain ⟨first, rest, hsplit, hfirst, hrest⟩ := hname
    have hslash := ne_of_isNameChar (d := '/')
      (isNameChar_of_isNameStart hfirst) (by decide)
    have hletters : (naming [first]).run rest =
        some (naming (rest.reverse ++ [first])) :=
      run_keeping naming
        (fun c hc kept => by rw [next, if_pos (hrest c hc)]) _
    rw [hsplit, run_cons, next, if_neg hslash, if_pos hfirst, Option.bind_some,
      hletters, List.reverse_cons]
  rw [run_append, hnamed, Option.bind_some, hrun]

end Heads

namespace State

variable {opened : List Frame} {root : Option Node}

theorem run_cons (s : State) (c : Char) (text : List Char) :
    s.run (c :: text) = (s.step c).bind (run · text) := List.foldlM_cons

theorem run_append (s : State) (first second : List Char) :
    s.run (first ++ second) = (s.run first).bind (run · second) :=
  List.foldlM_append

/-- Inside a tag, where no bracket stands, the tag alone is read. -/
theorem run_tag {text : List Char} (htext : ∀ c ∈ text, c ≠ '<' ∧ c ≠ '>')
    (tag : Tag) :
    State.run ⟨some tag, opened, root⟩ text =
      (tag.run text).map fun tag => ⟨some tag, opened, root⟩ := by
  induction text generalizing tag with
  | nil => rfl
  | cons c rest ih =>
      obtain ⟨⟨hless, hgreater⟩, hrest⟩ := List.forall_mem_cons.mp htext
      rw [run_cons, Tag.run_cons]
      dsimp only [step]
      rw [if_neg hless, if_neg (fun h => hgreater h.1)]
      cases tag.next c with
      | none => rfl
      | some next => exact ih hrest next

/-- A tag between its brackets. -/
theorem run_brackets {inside : List Char}
    (hinside : ∀ c ∈ inside, c ≠ '<' ∧ c ≠ '>') {tag : Tag}
    (htag : Tag.opened.run inside = some tag) {piece : Piece}
    (hpiece : tag.piece? = some piece) (text : List Char) :
    State.run ⟨none, opened, root⟩ ('<' :: (inside ++ '>' :: text)) =
      (State.take ⟨none, opened, root⟩ piece).bind (run · text) := by
  have hopening : State.step ⟨none, opened, root⟩ '<' =
      some ⟨some .opened, opened, root⟩ := rfl
  have hclosing : State.step ⟨some tag, opened, root⟩ '>' =
      State.take ⟨none, opened, root⟩ piece := by
    dsimp only [step]
    rw [if_neg (by decide), if_pos ⟨rfl, Tag.isQuoted_eq_false hpiece⟩, hpiece,
      Option.bind_some]
  rw [run_cons, hopening, Option.bind_some, run_append, run_tag hinside, htag,
    Option.map_some, Option.bind_some, run_cons, hclosing]

section Tags

variable {name : String} (hname : IsName name.toList)

include hname

theorem run_endTag {frame : Frame}
    (hframe : frame.head.name = name.toList.reverse) (text : List Char) :
    State.run ⟨none, frame :: opened, root⟩ (Printer.endTag name ++ text) =
      (frame.node?.bind (State.add ⟨none, opened, root⟩)).bind
        (run · text) := by
  have htag : Tag.opened.run ('/' :: name.toList) =
      some (.ending (name.toList.reverse ++ [])) := by
    refine Tag.run_keeping Tag.ending (fun c hc kept => ?_) []
    rw [Tag.next, if_pos (hname.isNameChar c hc)]
  have hinside : ∀ c ∈ '/' :: name.toList, c ≠ '<' ∧ c ≠ '>' :=
    List.forall_mem_cons.mpr ⟨by decide, fun c hc => hname.ne_brackets hc⟩
  have hwritten : Printer.endTag name ++ text =
      '<' :: ('/' :: name.toList ++ '>' :: text) := by
    simp [Printer.endTag]
  rw [hwritten, run_brackets hinside htag rfl, take]
  dsimp only
  rw [List.append_nil, if_pos hframe]

variable {list : List (String × String)}
  (hnames : ∀ a ∈ list, IsName a.1.toList)

include hnames

theorem run_start (hroom : (opened.isEmpty && root.isSome) = false)
    (text : List Char) :
    State.run ⟨none, opened, root⟩
        ('<' :: name.toList ++ attributes list ++ '>' :: text) =
      State.run ⟨none,
        { head := ⟨name.toList.reverse, list.reverse⟩ } :: opened,
        root⟩ text := by
  obtain ⟨tag, htag, hawaits⟩ := Tag.run_head hname hnames
  rw [List.cons_append, List.cons_append,
    run_brackets (ne_brackets_of_mem_head hname hnames) htag
      hawaits.piece, take,
    if_neg (by rw [hroom]; exact nofun)]
  rfl

theorem run_whole (text : List Char) :
    State.run ⟨none, opened, root⟩
        ('<' :: name.toList ++ attributes list ++ ' ' :: '/' :: '>' :: text) =
      (State.add ⟨none, opened, root⟩ ⟨name, list, none, []⟩).bind
        (run · text) := by
  obtain ⟨tag, htag, hawaits⟩ := Tag.run_head hname hnames
  have hclosing : Tag.opened.run
      (name.toList ++ attributes list ++ [' ', '/']) =
      some (.closing ⟨name.toList.reverse, list.reverse⟩) := by
    rw [Tag.run_append, htag, Option.bind_some, Tag.run_cons, hawaits.space]
    rfl
  have hinside : ∀ c ∈ name.toList ++ attributes list ++ [' ', '/'],
      c ≠ '<' ∧ c ≠ '>' :=
    List.forall_mem_append.mpr ⟨ne_brackets_of_mem_head hname hnames,
      by simp⟩
  have hnode : Head.node ⟨name.toList.reverse, list.reverse⟩ none [] =
      ⟨name, list, none, []⟩ := by
    simp [Head.node]
  have hwritten : '<' :: name.toList ++ attributes list ++
      ' ' :: '/' :: '>' :: text =
        '<' :: (name.toList ++ attributes list ++ [' ', '/'] ++
          '>' :: text) := by
    simp
  rw [hwritten, run_brackets hinside hclosing rfl, take, hnode]

end Tags

end State

/-- The declaration is not read. -/
theorem read_header (text : List Char) :
    read (Printer.header ++ String.ofList text) =
      (State.run {} ('\n' :: text)).bind State.document? := by
  have hbehind : behindDeclaration (Printer.header.toList ++ text) =
      some ('\n' :: text) := rfl
  rw [read, String.toList_append, String.toList_ofList, hbehind]
  rfl

end Reading

end Specimen
