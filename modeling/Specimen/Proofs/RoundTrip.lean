/-
Documents are read back as they were written, unless a text has markup in it.
What is written for an element is followed through the reader.  For the converse
the tags are counted: an angle bracket in a text would make the tree that is
read back greater than the one that was written.
-/
import Specimen.Proofs.TagCount

namespace Specimen

open Markup.Token (isSpace decode)

mutual

/-- The tree without empty texts. -/
def Node.normal : Node → Node
  | ⟨name, attributes, text, children⟩ =>
    ⟨name, attributes, text.filter (· ≠ ""), Node.normals children⟩

def Node.normals : List Node → List Node
  | [] => []
  | n :: rest => n.normal :: Node.normals rest

end

mutual

/-- The tree with its texts as a reader understands them, if it does. -/
def Node.decoded : Node → Option Node
  | ⟨name, attributes, text, children⟩ => do
    let text ← Reading.decodeText (text.getD "").toList
    return ⟨name, attributes, text, ← Node.decodeds children⟩

def Node.decodeds : List Node → Option (List Node)
  | [] => some []
  | n :: rest => do
    return (← n.decoded) :: (← Node.decodeds rest)

end

namespace Reading

open Printer (attributes)

namespace State

variable {opened : List Frame} {root : Option Node}

/-- Text without tags goes to the innermost open element. -/
theorem run_text {text : List Char} (htext : '<' ∉ text) (frame : Frame) :
    State.run ⟨none, frame :: opened, root⟩ text =
      some ⟨none, { frame with text := text.reverse ++ frame.text } :: opened,
        root⟩ := by
  induction text generalizing frame with
  | nil => rfl
  | cons c rest ih =>
      have hc : c ≠ '<' := fun h => htext (h ▸ List.mem_cons_self)
      have hstep : State.step ⟨none, frame :: opened, root⟩ c =
          some ⟨none, { frame with text := c :: frame.text } :: opened,
            root⟩ := by
        dsimp only [step]
        rw [if_neg hc]
        rfl
      rw [run_cons, hstep, Option.bind_some,
        ih (fun h => htext (List.mem_cons_of_mem _ h)), List.reverse_cons,
        List.append_assoc, List.singleton_append]

/-- An open element with nothing but text. -/
theorem node?_text (name : String) (list : List (String × String))
    (text : List Char) :
    Frame.node? ⟨⟨name.toList.reverse, list.reverse⟩, text.reverse, []⟩ =
      (decodeText text).map (⟨name, list, ·, []⟩) := by
  have hnode : (Head.node ⟨name.toList.reverse, list.reverse⟩ · []) =
      (⟨name, list, ·, []⟩) := by
    funext text
    simp [Head.node]
  rw [Frame.node?, List.reverse_reverse, hnode]

/-- An open element with nothing but white space beside its children. -/
theorem node?_children (name : String) (list : List (String × String))
    {blank : List Char} (hblank : blank.all isSpace) {children : List Node}
    (hchildren : children ≠ []) :
    Frame.node? ⟨⟨name.toList.reverse, list.reverse⟩, blank,
      children.reverse⟩ = some ⟨name, list, none, children⟩ := by
  unfold Frame.node?
  split
  · rename_i hnil
    exact absurd (List.reverse_eq_nil_iff.mp hnil) hchildren
  · rw [if_pos hblank]
    simp [Head.node]

/-- White space is kept as text of the innermost open element. -/
def pad (blank : List Char) : List Frame → List Frame
  | [] => []
  | frame :: outer => { frame with text := blank ++ frame.text } :: outer

theorem run_blank {blank : List Char} (hblank : blank.all isSpace) :
    State.run ⟨none, opened, root⟩ blank =
      some ⟨none, pad blank.reverse opened, root⟩ := by
  have hless : '<' ∉ blank := fun h => nomatch List.all_eq_true.mp hblank _ h
  cases opened with
  | cons frame outer => exact run_text hless frame
  | nil =>
      induction blank with
      | nil => rfl
      | cons c rest ih =>
          obtain ⟨hc, hrest⟩ := Bool.and_eq_true_iff.mp hblank
          have hne : c ≠ '<' := fun h => hless (h ▸ List.mem_cons_self)
          have hstep : State.step ⟨none, [], root⟩ c =
              some ⟨none, [], root⟩ := by
            dsimp only [step]
            rw [if_neg hne, letter, if_pos hc]
          rw [run_cons, hstep, Option.bind_some,
            ih hrest (fun h => hless (List.mem_cons_of_mem _ h))]
          rfl

theorem run_tabs (level : Nat) (text : List Char) :
    State.run ⟨none, opened, root⟩ (List.replicate level '\t' ++ text) =
      State.run ⟨none, pad (List.replicate level '\t') opened, root⟩ text := by
  have hblank : (List.replicate level '\t').all isSpace := by
    rw [List.all_replicate]
    split <;> rfl
  rw [run_append, run_blank hblank, Option.bind_some, List.reverse_replicate]

section Elements

variable {name : String} (hname : IsName name.toList)
  {list : List (String × String)} (hnames : ∀ a ∈ list, IsName a.1.toList)
  (hroom : (opened.isEmpty && root.isSome) = false)

include hname hnames hroom

theorem run_textElement {text : List Char} (htext : '<' ∉ text)
    (rest : List Char) :
    State.run ⟨none, opened, root⟩ ('<' :: name.toList ++ attributes list ++
        '>' :: (text ++ (Printer.endTag name ++ rest))) =
      (((decodeText text).map (⟨name, list, ·, []⟩)).bind
        (add ⟨none, opened, root⟩)).bind (run · rest) := by
  have hframe := node?_text name list text
  rw [run_start hname hnames hroom, run_append, run_text htext,
    Option.bind_some, run_endTag hname rfl]
  dsimp only
  rw [List.append_nil, hframe]

/-- An element around others that are read as `read`. -/
theorem run_outerElement (level : Nat) {inner blank : List Char}
    (hblank : blank.all isSpace) {read : Option (List Node)}
    (hread : read ≠ some [])
    (hinner : ∀ frame outer,
      State.run ⟨none, frame :: outer, root⟩ inner = read.map fun nodes =>
        ⟨none, { frame with
          text := blank ++ frame.text
          children := nodes.reverse ++ frame.children } :: outer, root⟩)
    (rest : List Char) :
    State.run ⟨none, opened, root⟩ ('<' :: name.toList ++ attributes list ++
        '>' :: (['\n'] ++ (inner ++ (List.replicate level '\t' ++
          (Printer.endTag name ++ rest))))) =
      ((read.map (⟨name, list, none, ·⟩)).bind
        (add ⟨none, opened, root⟩)).bind (run · rest) := by
  rw [run_start hname hnames hroom, run_append, run_blank rfl,
    Option.bind_some, run_append, pad, hinner]
  cases read with
  | none => rfl
  | some nodes =>
      have hspace : (List.replicate level '\t' ++ (blank ++ ['\n'])).all
          isSpace := by
        rw [List.all_append, List.all_append, hblank, List.all_replicate]
        split <;> rfl
      have hnodes : nodes ≠ [] := fun h => hread (congrArg some h)
      have hframe := node?_children name list hspace hnodes
      rw [Option.map_some, Option.bind_some, run_tabs, pad,
        run_endTag hname rfl]
      dsimp only
      rw [List.append_nil, List.append_nil, List.reverse_singleton, hframe]
      rfl

end Elements

end State

end Reading

theorem Node.decodeds_cons_ne (first : Node) (rest : List Node) :
    Node.decodeds (first :: rest) ≠ some [] := by
  rw [Node.decodeds]
  cases first.decoded with
  | none => exact nofun
  | some n =>
      cases Node.decodeds rest with
      | none => exact nofun
      | some nodes => exact nofun

namespace Reading

open State

mutual

/-- What is written for an element is read as the element with its texts
decoded, and so is what is written for several of them. -/
theorem run_written (level : Nat) (opened : List Frame) (root : Option Node)
    (hroom : (opened.isEmpty && root.isSome) = false) :
    ∀ n : Node, Node.Named n.nodes → Node.Unmixed n.nodes →
      Node.Untagged n.nodes →
      State.run ⟨none, opened, root⟩ (n.written level) =
        (n.decoded.bind
          (add ⟨none, pad (List.replicate level '\t') opened, root⟩)).bind
          (State.run · ['\n'])
  | ⟨name, list, text, children⟩, hnamed, hunmixed, huntagged => by
    obtain ⟨⟨hname, hnames⟩, hinner⟩ := Node.forall_nodes_iff.mp hnamed
    obtain ⟨hmixed, hunmixed⟩ := Node.forall_nodes_iff.mp hunmixed
    obtain ⟨htext, hplain⟩ := Node.forall_nodes_iff.mp huntagged
    obtain ⟨blank, hblank, hchildren⟩ :=
      run_writtens (level + 1) children hinner hunmixed hplain
    have hpadded : ((pad (List.replicate level '\t') opened).isEmpty &&
        root.isSome) = false := by
      cases opened with
      | nil => exact hroom
      | cons frame outer => rfl
    cases text with
    | some text =>
        obtain rfl : children = [] := hmixed.resolve_left nofun
        have hwritten : Node.written level ⟨name, list, some text, []⟩ =
            List.replicate level '\t' ++ ('<' :: name.toList ++
              Printer.attributes list ++ '>' :: (text.toList ++
                (Printer.endTag name ++ ['\n']))) := by
          simp [Node.written]
        rw [hwritten, run_tabs,
          run_textElement hname hnames hpadded (htext text rfl), Node.decoded,
          Option.getD_some]
        cases decodeText text.toList with
        | none => rfl
        | some read => rfl
    | none =>
        cases children with
        | nil =>
            have hwritten : Node.written level ⟨name, list, none, []⟩ =
                List.replicate level '\t' ++ ('<' :: name.toList ++
                  Printer.attributes list ++ ' ' :: '/' :: '>' :: ['\n']) := by
              simp [Node.written]
            rw [hwritten, run_tabs, run_whole hname hnames]
            rfl
        | cons first rest =>
            have hwritten : Node.written level
                ⟨name, list, none, first :: rest⟩ =
                List.replicate level '\t' ++ ('<' :: name.toList ++
                  Printer.attributes list ++ '>' :: (['\n'] ++
                    (Node.writtens (level + 1) (first :: rest) ++
                      (List.replicate level '\t' ++
                        (Printer.endTag name ++ ['\n']))))) := by
              simp [Node.written]
            rw [hwritten, run_tabs, run_outerElement hname hnames hpadded level
              hblank (Node.decodeds_cons_ne first rest)
              (fun frame outer => hchildren frame outer root), Node.decoded]
            cases Node.decodeds (first :: rest) with
            | none => rfl
            | some read => rfl

theorem run_writtens (level : Nat) :
    ∀ nodes : List Node, Node.Named (Node.nodesOf nodes) →
      Node.Unmixed (Node.nodesOf nodes) → Node.Untagged (Node.nodesOf nodes) →
      ∃ blank : List Char, blank.all isSpace ∧ ∀ frame outer root,
        State.run ⟨none, frame :: outer, root⟩ (Node.writtens level nodes) =
          (Node.decodeds nodes).map fun read =>
            ⟨none, { frame with
              text := blank ++ frame.text
              children := read.reverse ++ frame.children } :: outer, root⟩
  | [], _, _, _ => ⟨[], rfl, fun _ _ _ => rfl⟩
  | n :: rest, hnamed, hunmixed, huntagged => by
    obtain ⟨hnamedFirst, hnamedRest⟩ :=
      Node.forall_nodesOf_cons_iff.mp hnamed
    obtain ⟨hunmixedFirst, hunmixedRest⟩ :=
      Node.forall_nodesOf_cons_iff.mp hunmixed
    obtain ⟨huntaggedFirst, huntaggedRest⟩ :=
      Node.forall_nodesOf_cons_iff.mp huntagged
    obtain ⟨blank, hblank, hrun⟩ :=
      run_writtens level rest hnamedRest hunmixedRest huntaggedRest
    refine ⟨blank ++ '\n' :: List.replicate level '\t', ?_, ?_⟩
    · rw [List.all_append, hblank, List.all_cons, List.all_replicate]
      split <;> rfl
    · intro frame outer root
      have hfirst := run_written level (frame :: outer) root rfl n
        hnamedFirst hunmixedFirst huntaggedFirst
      rw [Node.writtens, State.run_append, hfirst, Node.decodeds]
      cases n.decoded with
      | none => rfl
      | some first =>
          rw [Option.bind_some, pad, add, Option.bind_some,
            run_blank rfl, Option.bind_some, pad, hrun]
          cases Node.decodeds rest with
          | none => rfl
          | some read => simp

end

end Reading

/-- No text has a reference in it. -/
def Node.Unreferring (nodes : List Node) : Prop :=
  ∀ n ∈ nodes, ∀ text ∈ n.text, '&' ∉ text.toList

theorem length_le_of_decode {s text : List Char} {name : Option (List Char)}
    (hdecode : decode name s = some text) : text.length ≤ s.length := by
  induction s generalizing name text with
  | nil =>
      cases name with
      | none =>
          cases hdecode
          exact Nat.le_refl _
      | some name => exact nomatch hdecode
  | cons c rest ih =>
      rw [List.length_cons]
      cases name with
      | none =>
          rw [decode] at hdecode
          split at hdecode
          · exact Nat.le_succ_of_le (ih hdecode)
          · obtain ⟨tail, htail, rfl⟩ := Option.map_eq_some_iff.mp hdecode
            exact Nat.succ_le_succ (ih htail)
      | some name =>
          rw [decode] at hdecode
          split at hdecode
          · obtain ⟨_, -, hrest⟩ := Option.bind_eq_some_iff.mp hdecode
            obtain ⟨tail, htail, hresult⟩ := Option.bind_eq_some_iff.mp hrest
            cases hresult
            exact Nat.succ_le_succ (ih htail)
          · exact Nat.le_succ_of_le (ih hdecode)

/-- Only text without references stands for itself. -/
theorem decode_eq_self_iff (s : List Char) :
    decode none s = some s ↔ '&' ∉ s := by
  induction s with
  | nil => simp [decode]
  | cons c rest ih =>
      rw [decode, List.mem_cons, not_or]
      split
      · rename_i hc
        constructor
        · intro hdecode
          have hlength := length_le_of_decode hdecode
          exact absurd hlength (Nat.not_succ_le_self _)
        · exact fun h => absurd hc.symm h.1
      · rename_i hc
        rw [← ih]
        simp [Ne.symm hc]

theorem Reading.decodeText_eq_iff (text : Option String) :
    Reading.decodeText (text.getD "").toList = some (text.filter (· ≠ "")) ↔
      ∀ given ∈ text, '&' ∉ given.toList := by
  cases text with
  | none => exact iff_of_true rfl nofun
  | some given =>
      rw [Option.getD_some, decodeText]
      constructor
      · rintro hread _ ⟨⟩
        obtain ⟨read, hdecode, hsame⟩ := Option.map_eq_some_iff.mp hread
        by_cases hempty : given = ""
        · rw [hempty]
          exact List.not_mem_nil
        · have hfilter : (some given).filter (· ≠ "") = some given := by
            simp [hempty]
          rw [hfilter, Option.filter_eq_some_iff, Option.some.injEq] at hsame
          rw [← hsame.1, String.toList_ofList] at hdecode ⊢
          exact (decode_eq_self_iff read).mp hdecode
      · intro hplain
        rw [(decode_eq_self_iff _).mpr (hplain given rfl), Option.map_some,
          String.ofList_toList]

mutual

theorem Node.decoded_eq_iff :
    ∀ n : Node, n.decoded = some n.normal ↔ Node.Unreferring n.nodes
  | ⟨name, list, text, children⟩ => by
    have hchildren := Node.decodeds_eq_iff children
    have htext := Reading.decodeText_eq_iff text
    rw [Node.Unreferring, Node.forall_nodes_iff, ← htext]
    change _ ↔ _ ∧ Node.Unreferring (Node.nodesOf children)
    rw [← hchildren, Node.decoded, Node.normal]
    cases Reading.decodeText (text.getD "").toList with
    | none => simp
    | some read =>
        cases Node.decodeds children with
        | none => simp
        | some reads => simp

theorem Node.decodeds_eq_iff :
    ∀ nodes : List Node, Node.decodeds nodes = some (Node.normals nodes) ↔
      Node.Unreferring (Node.nodesOf nodes)
  | [] => iff_of_true rfl nofun
  | n :: rest => by
    have hfirst := Node.decoded_eq_iff n
    have hrest := Node.decodeds_eq_iff rest
    rw [Node.Unreferring, Node.forall_nodesOf_cons_iff]
    change _ ↔ Node.Unreferring n.nodes ∧ Node.Unreferring (Node.nodesOf rest)
    rw [← hfirst, ← hrest, Node.decodeds, Node.normals]
    cases n.decoded with
    | none => simp
    | some read =>
        cases Node.decodeds rest with
        | none => simp
        | some reads => simp

end

mutual

theorem Node.length_nodes_normal :
    ∀ n : Node, n.normal.nodes.length = n.nodes.length
  | ⟨name, list, text, children⟩ => by
    rw [Node.normal, Node.nodes, Node.nodes, List.length_cons,
      List.length_cons, Node.length_nodesOf_normals children]

theorem Node.length_nodesOf_normals : ∀ nodes : List Node,
    (Node.nodesOf (Node.normals nodes)).length = (Node.nodesOf nodes).length
  | [] => rfl
  | n :: rest => by
    rw [Node.normals, Node.nodesOf, Node.nodesOf, List.length_append,
      List.length_append, Node.length_nodes_normal n,
      Node.length_nodesOf_normals rest]

end

/-- A document without tags in its texts is read back with its texts decoded. -/
theorem Reading.read_untagged {n : Node} (hnamed : Node.Named n.nodes)
    (hunmixed : Node.Unmixed n.nodes) (huntagged : Node.Untagged n.nodes) :
    read (Printer.header ++ String.ofList (n.written 0)) = n.decoded := by
  have hstart : State.step {} '\n' = some {} := rfl
  rw [read_header, State.run_cons, hstart, Option.bind_some,
    run_written 0 [] none rfl n hnamed hunmixed huntagged]
  cases n.decoded with
  | none => rfl
  | some read => rfl

/-- Every tree of elements is written, and read back as it was exactly if none
of its texts begins a tag or a reference. -/
theorem Node.print_read_iff (n : Node) (hnamed : Node.Named n.nodes)
    (hunmixed : Node.Unmixed n.nodes) :
    ∃ text, n.print = .ok text ∧ (Reading.read text = some n.normal ↔
      ∀ m ∈ n.nodes, ∀ given ∈ m.text,
        '<' ∉ given.toList ∧ '&' ∉ given.toList) := by
  refine ⟨Printer.header ++ String.ofList (n.written 0), ?_, ?_, ?_⟩
  · rw [Node.print, Printer.element_eq_ok 0 n hunmixed]
    rfl
  · intro hread
    have huntagged := Reading.untagged_of_read hnamed hunmixed hread
      (Nat.le_of_eq (Node.length_nodes_normal n))
    rw [Reading.read_untagged hnamed hunmixed huntagged, Node.decoded_eq_iff]
      at hread
    exact fun m hm given hgiven => ⟨huntagged m hm given hgiven,
      hread m hm given hgiven⟩
  · intro hplain
    rw [Reading.read_untagged hnamed hunmixed
      (fun m hm given hgiven => (hplain m hm given hgiven).1),
      Node.decoded_eq_iff]
    exact fun m hm given hgiven => (hplain m hm given hgiven).2

namespace Node.RoundTripWitness

/-- All five characters of markup in an attribute, and those in texts that do
not begin anything. -/
def shelf : Node where
  name := "shelf"
  attributes := [("note", "<\"a\" & 'b'>"), ("key", "")]
  children :=
    [{ name := "book", text := some "1 > 0, \"it's\"\n" },
      { name := "book", text := some "" },
      { name := "row", attributes := [("n", "&amp;")],
        children := [{ name := "book" }] }]

theorem shelf_read : Node.Named shelf.nodes ∧ Node.Unmixed shelf.nodes ∧
    ∃ text, shelf.print = .ok text ∧ Reading.read text = some shelf.normal := by
  have hnamed : Node.Named shelf.nodes := by decide
  have hunmixed : Node.Unmixed shelf.nodes := by decide
  obtain ⟨text, hprint, hread⟩ := print_read_iff shelf hnamed hunmixed
  exact ⟨hnamed, hunmixed, text, hprint, hread.mpr (by decide)⟩

def bracket : Node := { name := "A", text := some "<" }

theorem bracket_not_read : Node.Named bracket.nodes ∧
    Node.Unmixed bracket.nodes ∧ ∃ text, bracket.print = .ok text ∧
      Reading.read text = none :=
  ⟨by decide, by decide, _, rfl, rfl⟩

end Node.RoundTripWitness

end Specimen
