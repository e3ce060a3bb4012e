/-
Tags are counted while a document is read.  Every tag adds to a weight of what
has been read, and behind the last one the weight is twice the number of
elements.  So what is read back from a written tree has as many elements more as
the texts of the tree have tags in them.
-/
import Mathlib.Algebra.GroupWithZero.Nat
import Specimen.Proofs.WrittenTags

namespace Specimen

open Markup.Token (isSpace)

theorem Node.nodesOf_eq (nodes : List Node) :
    Node.nodesOf nodes = nodes.flatMap Node.nodes := by
  induction nodes with
  | nil => rfl
  | cons n rest ih => rw [Node.nodesOf, ih, List.flatMap_cons]

theorem Node.length_nodesOf_reverse (nodes : List Node) :
    (Node.nodesOf nodes.reverse).length = (Node.nodesOf nodes).length := by
  rw [Node.nodesOf_eq, Node.nodesOf_eq, List.length_flatMap,
    List.length_flatMap, List.map_reverse, List.sum_reverse]

/-- The number of tags that begin in the texts of some elements. -/
def Node.textTags (nodes : List Node) : Nat :=
  (nodes.map fun n => (n.text.getD "").toList.count '<').sum

theorem Node.textTags_append (first second : List Node) :
    Node.textTags (first ++ second) =
      Node.textTags first + Node.textTags second := by
  rw [Node.textTags, List.map_append, List.sum_append]
  rfl

namespace Reading

/-- An open element has begun, and the ones inside it are finished. -/
def Frame.weight (frame : Frame) : Nat :=
  2 * (Node.nodesOf frame.children).length + 1

namespace State

/-- One for the beginning and one for the end of each element, and one for the
open tag. -/
def weight (s : State) : Nat :=
  (if s.tag.isSome then 1 else 0) + (s.opened.map Frame.weight).sum +
    2 * (Node.nodesOf s.root.toList).length

theorem weight_add {s s' : State} {n : Node} (hadd : s.add n = some s') :
    s'.weight = s.weight + 2 * n.nodes.length := by
  obtain ⟨tag, opened, root⟩ := s
  cases opened with
  | cons frame outer =>
      cases hadd
      simp only [weight, Frame.weight, Node.nodesOf, List.map_cons,
        List.sum_cons, List.length_append]
      omega
  | nil =>
      cases root with
      | some root => cases hadd
      | none =>
          cases hadd
          simp [weight, Node.nodesOf]

theorem length_nodes_of_node? {frame : Frame} {n : Node}
    (hnode : frame.node? = some n) :
    n.nodes.length = (Node.nodesOf frame.children).length + 1 := by
  unfold Frame.node? at hnode
  split at hnode
  · rename_i hchildren
    obtain ⟨text, -, rfl⟩ := Option.map_eq_some_iff.mp hnode
    rw [hchildren]
    rfl
  · split at hnode
    · cases hnode
      rw [Head.node, Node.nodes, List.length_cons, Node.length_nodesOf_reverse]
    · cases hnode

theorem weight_take {s s' : State} (htag : s.tag = none) {piece : Piece}
    (htake : s.take piece = some s') : s.weight + 1 ≤ s'.weight := by
  cases piece with
  | start head =>
      dsimp only [take] at htake
      split at htake
      · cases htake
      · cases htake
        simp only [weight, Frame.weight, Node.nodesOf, List.map_cons,
          List.sum_cons, List.length_nil]
        omega
  | whole head =>
      have hadd := weight_add htake
      have hnodes : (head.node none []).nodes.length = 1 := rfl
      omega
  | finish name =>
      obtain ⟨tag, opened, root⟩ := s
      cases opened with
      | nil => cases htake
      | cons frame outer =>
          dsimp only [take] at htake
          split at htake
          · obtain ⟨n, hnode, hadd⟩ := Option.bind_eq_some_iff.mp htake
            rw [weight_add hadd, length_nodes_of_node? hnode]
            simp only [weight, Frame.weight, List.map_cons, List.sum_cons]
            omega
          · cases htake

/-- A bracket that begins a tag adds one to the weight, and no other character
takes anything away. -/
theorem weight_step {s s' : State} {c : Char} (hstep : s.step c = some s') :
    s.weight + [c].count '<' ≤ s'.weight := by
  obtain ⟨tag, opened, root⟩ := s
  cases tag with
  | none =>
      dsimp only [step] at hstep
      split at hstep
      · rename_i hc
        cases hstep
        simp only [hc, weight, List.count_singleton_self, Option.isSome_some,
          Option.isSome_none, if_true, Bool.false_eq_true, if_false]
        omega
      · rename_i hc
        have hsame : s'.weight = State.weight ⟨none, opened, root⟩ := by
          cases opened with
          | nil =>
              dsimp only [letter] at hstep
              split at hstep
              · cases hstep
                rfl
              · exact nomatch hstep
          | cons frame outer =>
              cases hstep
              rfl
        simp [hsame, hc]
  | some tag =>
      have hopen : State.weight ⟨some tag, opened, root⟩ =
          State.weight ⟨none, opened, root⟩ + 1 := by
        simp only [weight, Option.isSome_some, Option.isSome_none, if_true,
          Bool.false_eq_true, if_false]
        omega
      dsimp only [step] at hstep
      split at hstep
      · exact nomatch hstep
      · rename_i hc
        have hcount : [c].count '<' = 0 := by simp [hc]
        split at hstep
        · obtain ⟨piece, -, htake⟩ := Option.bind_eq_some_iff.mp hstep
          have hmore := weight_take rfl htake
          omega
        · obtain ⟨next, -, rfl⟩ := Option.map_eq_some_iff.mp hstep
          rw [hcount]
          exact Nat.le_refl _

theorem weight_run {s s' : State} {text : List Char}
    (hrun : s.run text = some s') :
    s.weight + text.count '<' ≤ s'.weight := by
  induction text generalizing s with
  | nil =>
      cases hrun
      exact Nat.le_refl _
  | cons c rest ih =>
      rw [run_cons] at hrun
      obtain ⟨next, hstep, hrest⟩ := Option.bind_eq_some_iff.mp hrun
      have hfirst := weight_step hstep
      have hlast := ih hrest
      rw [← List.singleton_append, List.count_append]
      omega

theorem tag_of_step {s s' : State} (hstep : s.step '<' = some s') :
    s.tag = none := by
  obtain ⟨tag, opened, root⟩ := s
  cases tag with
  | none => rfl
  | some tag =>
      dsimp only [step] at hstep
      rw [if_pos rfl] at hstep
      exact nomatch hstep

end State

open State

/-- The tag of an empty element both begins and ends it. -/
theorem weight_emptyElement (level : Nat) {name : String}
    (hname : IsName name.toList) {list : List (String × String)}
    (hnames : ∀ a ∈ list, IsName a.1.toList) {s s' : State}
    (hrun : s.run (Node.written level ⟨name, list, none, []⟩) = some s') :
    s.weight + 2 ≤ s'.weight := by
  have hwritten : Node.written level ⟨name, list, none, []⟩ =
      List.replicate level '\t' ++ ('<' :: name.toList ++
        Printer.attributes list ++ ' ' :: '/' :: '>' :: ['\n']) := by
    simp [Node.written]
  rw [hwritten, State.run_append] at hrun
  obtain ⟨next, htabs, htag⟩ := Option.bind_eq_some_iff.mp hrun
  obtain ⟨tag, opened, root⟩ := next
  obtain rfl : tag = none := by
    rw [List.cons_append, List.cons_append, State.run_cons] at htag
    obtain ⟨_, hstep, -⟩ := Option.bind_eq_some_iff.mp htag
    exact tag_of_step hstep
  rw [run_whole hname hnames] at htag
  obtain ⟨added, hadd, hend⟩ := Option.bind_eq_some_iff.mp htag
  have hfirst := weight_run htabs
  have hadded : added.weight = State.weight ⟨none, opened, root⟩ + 2 * 1 :=
    weight_add hadd
  have hlast := weight_run hend
  omega

/-- An element with a text holds the tags around it and those that the text
seems to have. -/
theorem weight_textElement (level : Nat) {name text : String}
    {list : List (String × String)} {s s' : State}
    (hrun : s.run (Node.written level ⟨name, list, some text, []⟩) = some s') :
    s.weight + 2 + text.toList.count '<' ≤ s'.weight := by
  have hcount : 2 + text.toList.count '<' ≤
      (Node.written level ⟨name, list, some text, []⟩).count '<' := by
    simp [Node.written, Printer.endTag, List.count_append]
    omega
  have hweight := weight_run hrun
  omega

/-- An element with elements inside has its own tags around theirs. -/
theorem weight_outerElement (level : Nat) {name : String}
    {list : List (String × String)} {first : Node} {rest : List Node} {n : Nat}
    (hchildren : ∀ s s' : State,
      s.run (Node.writtens (level + 1) (first :: rest)) = some s' →
        s.weight + n ≤ s'.weight) {s s' : State}
    (hrun : s.run (Node.written level ⟨name, list, none, first :: rest⟩) =
      some s') : s.weight + 2 + n ≤ s'.weight := by
  have hwritten : Node.written level ⟨name, list, none, first :: rest⟩ =
      (List.replicate level '\t' ++ '<' :: name.toList ++
        Printer.attributes list ++ ['>', '\n']) ++
        (Node.writtens (level + 1) (first :: rest) ++
          (List.replicate level '\t' ++ Printer.endTag name ++ ['\n'])) := by
    simp [Node.written]
  rw [hwritten, State.run_append] at hrun
  obtain ⟨inside, hstart, hrun⟩ := Option.bind_eq_some_iff.mp hrun
  rw [State.run_append] at hrun
  obtain ⟨behind, hmiddle, hend⟩ := Option.bind_eq_some_iff.mp hrun
  have hfirst := weight_run hstart
  have hbetween := hchildren inside behind hmiddle
  have hlast := weight_run hend
  have hstartTag : 0 < (List.replicate level '\t' ++ '<' :: name.toList ++
      Printer.attributes list ++ ['>', '\n']).count '<' :=
    List.count_pos_iff.mpr (by simp)
  have hendTag : 0 < (List.replicate level '\t' ++ Printer.endTag name ++
      ['\n']).count '<' :=
    List.count_pos_iff.mpr (by simp [Printer.endTag])
  omega

mutual

/-- What is written for an element, and for several of them, adds to the weight
what these elements and the tags in their texts weigh. -/
theorem weight_written (level : Nat) :
    ∀ n : Node, Node.Named n.nodes → Node.Unmixed n.nodes →
      ∀ s s' : State, s.run (n.written level) = some s' →
        s.weight + 2 * n.nodes.length + Node.textTags n.nodes ≤ s'.weight
  | ⟨name, list, text, children⟩, hnamed, hunmixed => by
    intro s s' hrun
    obtain ⟨⟨hname, hnames⟩, hinner⟩ := Node.forall_nodes_iff.mp hnamed
    obtain ⟨hmixed, hunmixed⟩ := Node.forall_nodes_iff.mp hunmixed
    have hchildren := weight_writtens (level + 1) children hinner hunmixed
    cases text with
    | some text =>
        obtain rfl : children = [] := hmixed.resolve_left nofun
        have hweight := weight_textElement level hrun
        have hnodes : Node.nodes ⟨name, list, some text, []⟩ =
            [⟨name, list, some text, []⟩] := rfl
        simp only [hnodes, Node.textTags, List.map_cons, List.map_nil,
          List.sum_cons, List.sum_nil, Option.getD_some, List.length_singleton]
        omega
    | none =>
        cases children with
        | nil =>
            exact weight_emptyElement level hname hnames hrun
        | cons first rest =>
            have hweight := weight_outerElement level
              (fun s s' hrun => Nat.add_assoc _ _ _ ▸ hchildren s s' hrun) hrun
            have htags : Node.textTags (Node.nodes ⟨name, list, none,
                first :: rest⟩) =
                  Node.textTags (Node.nodesOf (first :: rest)) :=
              Nat.zero_add _
            rw [htags, Node.nodes, List.length_cons]
            omega

theorem weight_writtens (level : Nat) :
    ∀ nodes : List Node, Node.Named (Node.nodesOf nodes) →
      Node.Unmixed (Node.nodesOf nodes) →
      ∀ s s' : State, s.run (Node.writtens level nodes) = some s' →
        s.weight + 2 * (Node.nodesOf nodes).length +
          Node.textTags (Node.nodesOf nodes) ≤ s'.weight
  | [], _, _ => by
    intro s s' hrun
    cases hrun
    exact Nat.le_refl _
  | n :: rest, hnamed, hunmixed => by
    intro s s' hrun
    obtain ⟨hnamedFirst, hnamedRest⟩ :=
      Node.forall_nodesOf_cons_iff.mp hnamed
    obtain ⟨hunmixedFirst, hunmixedRest⟩ :=
      Node.forall_nodesOf_cons_iff.mp hunmixed
    rw [Node.writtens, State.run_append] at hrun
    obtain ⟨next, hfirst, hlast⟩ := Option.bind_eq_some_iff.mp hrun
    have hweight := weight_written level n hnamedFirst hunmixedFirst s next
      hfirst
    have hweights := weight_writtens level rest hnamedRest hunmixedRest next s'
      hlast
    rw [Node.nodesOf, List.length_append, Node.textTags_append]
    omega

end

/-- If no element more is read back than was written, no text has a tag. -/
theorem untagged_of_read {n m : Node} (hnamed : Node.Named n.nodes)
    (hunmixed : Node.Unmixed n.nodes)
    (hread : read (Printer.header ++ String.ofList (n.written 0)) = some m)
    (hsize : m.nodes.length ≤ n.nodes.length) : Node.Untagged n.nodes := by
  rw [read_header] at hread
  obtain ⟨s, hrun, hdocument⟩ := Option.bind_eq_some_iff.mp hread
  have hstart : State.step {} '\n' = some {} := rfl
  rw [State.run_cons, hstart, Option.bind_some] at hrun
  have hwritten := weight_written 0 n hnamed hunmixed {} s hrun
  have hweight : s.weight = 2 * m.nodes.length := by
    obtain ⟨tag, opened, root⟩ := s
    unfold State.document? at hdocument
    split at hdocument
    · rename_i hclosed
      dsimp only at hclosed hdocument
      rw [Bool.and_eq_true, Option.isNone_iff_eq_none, List.isEmpty_iff]
        at hclosed
      obtain ⟨rfl, rfl⟩ := hclosed
      subst hdocument
      simp [State.weight, Node.nodesOf]
    · exact nomatch hdocument
  have hnone : Node.textTags n.nodes = 0 := by omega
  intro inner hinner text htext
  have hcount := List.sum_eq_zero_iff_forall_eq_nat.mp hnone _
    (List.mem_map_of_mem hinner)
  rw [htext] at hcount
  exact List.count_eq_zero.mp hcount

end Reading

end Specimen
