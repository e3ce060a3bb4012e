/-
The patterns that are read from texts.  Their sets are made of ranges of
characters and their repetitions have the two counts in order, whatever is open
while they are read.
-/
import Specimen.Proofs.CharacterSets
import Specimen.Proofs.PatternLanguage
import Specimen.Regex.Reader

namespace Specimen.Regex

namespace Pattern

/-- Sets hold nothing but characters, and no repetition has its counts in the
wrong order. -/
def Proper : Pattern → Prop
  | .empty => True
  | .text _ => True
  | .chars set => set.Valid
  | .look _ => True
  | .repeated least most _ body => (∀ m ∈ most, least ≤ m) ∧ body.Proper
  | .group _ body => body.Proper
  | .sequence first second => first.Proper ∧ second.Proper
  | .choice first second => first.Proper ∧ second.Proper

variable {p q : Pattern} {ps : List Pattern}

theorem proper_ofItems_iff : (ofItems ps).Proper ↔ ∀ p ∈ ps, p.Proper := by
  fun_induction ofItems ps with
  | case1 => simp [Proper]
  | case2 p => simp
  | case3 p rest hrest ih => rw [Proper, ih, List.forall_mem_cons]

theorem proper_ofBranches_iff :
    (ofBranches ps).Proper ↔ ∀ p ∈ ps, p.Proper := by
  fun_induction ofBranches ps with
  | case1 => simpa [Proper] using CharSet.valid_empty
  | case2 p => simp
  | case3 p rest hrest ih => rw [Proper, ih, List.forall_mem_cons]

theorem Proper.of_mem_items (hp : p.Proper) : ∀ q ∈ p.items, q.Proper := by
  induction p with
  | empty => simp [items]
  | sequence first second hfirst hsecond =>
      exact List.forall_mem_append.mpr ⟨hfirst hp.1, hsecond hp.2⟩
  | _ => simpa [items] using hp

theorem Proper.of_mem_branches (hp : p.Proper) :
    ∀ q ∈ p.branches, q.Proper := by
  induction p with
  | choice first second hfirst hsecond =>
      exact List.forall_mem_append.mpr ⟨hfirst hp.1, hsecond hp.2⟩
  | _ => simpa [branches] using hp

end Pattern

open CharSet (valid_ofRanges valid_empty)

namespace Escape

variable {flags : Flags} {negated : Bool} {set : CharSet} {item : Item}
  {size : Nat} {s rest : List Char} {c : Char}

/-- A set that an escape stands for holds nothing but characters. -/
def Item.Valid : Item → Prop
  | .set s => s.Valid
  | _ => True

theorem valid_of_classOf? (hset : classOf? flags c = some set) : set.Valid := by
  unfold classOf? at hset
  split at hset <;> split at hset <;> cases hset <;> exact valid_ofRanges _

theorem valid_foldCase (hset : set.Valid) : (flags.foldCase set).Valid := by
  unfold Flags.foldCase
  split
  · exact valid_ofRanges _
  · exact hset

theorem valid_of_propertyOf? [Package] {name : List Char}
    (hset : propertyOf? name = some set) : set.Valid := by
  obtain ⟨ranges, -, rfl⟩ := Option.map_eq_some_iff.mp hset
  exact valid_ofRanges ranges

theorem valid_of_propertyItem? [Package] {name : List Char}
    (hitem : propertyItem? flags negated name = some item) : item.Valid := by
  simp only [propertyItem?] at hitem
  split at hitem
  · cases hitem
  obtain ⟨found, hfound, rfl⟩ := Option.map_eq_some_iff.mp hitem
  simp only [Item.Valid]
  split
  · exact valid_ofRanges _
  · exact valid_foldCase (valid_of_propertyOf? hfound)

theorem valid_of_readProperty [Package]
    (hread : readProperty flags negated s = some (item, rest)) :
    item.Valid := by
  obtain ⟨found, -, hread⟩ := Option.bind_eq_some_iff.mp hread
  obtain ⟨item, hitem, ⟨⟩⟩ := Option.map_eq_some_iff.mp hread
  exact valid_of_propertyItem? hitem

theorem valid_of_readHex (hread : readHex flags size s = some (item, rest)) :
    item.Valid := by
  have hfound (behind : List Char) {code : Option Char}
      (hitem : (code.bind fun c => some (Item.char c, behind)) =
        some (item, rest)) : item.Valid := by
    obtain ⟨c, -, hitem⟩ := Option.bind_eq_some_iff.mp hitem
    cases hitem
    trivial
  simp only [readHex, Option.bind_eq_bind] at hread
  split at hread
  · obtain ⟨_, -, hread⟩ := Option.bind_eq_some_iff.mp hread
    exact hfound _ hread
  · split at hread
    · cases hread
    · exact hfound _ hread

theorem valid_of_read [Package] (hread : read flags s = some (item, rest)) :
    item.Valid := by
  unfold read at hread
  split at hread
  · cases hread
  split at hread
  · cases hread
    exact valid_of_classOf? ‹_›
  split at hread
  · cases hread
    trivial
  split at hread
  all_goals first
    | exact valid_of_readHex hread
    | exact valid_of_readProperty hread
    | (cases hread <;> trivial)

end Escape

namespace ClassReader

variable {flags : Flags} {negated : Bool} {set items : CharSet}
  {stack : List Frame} {s rest : List Char} {fuel : Nat}

theorem valid_of_close? {closed : CharSet} (hset : set.Valid)
    (hclose : close? flags negated set = some closed) : closed.Valid := by
  simp only [close?] at hclose
  split at hclose
  · split at hclose
    · cases hclose
      exact valid_ofRanges _
    · cases hclose
      exact Escape.valid_foldCase hset
  · split at hclose
    · cases hclose
    · cases hclose
      exact valid_ofRanges _

theorem valid_applyOperation (hset : set.Valid) :
    (applyOperation flags set stack).1.Valid := by
  unfold applyOperation
  split
  · split <;> exact valid_ofRanges _
  · exact hset

theorem valid_readStart : (readStart flags s).2.1.Valid := by
  simp only [readStart]
  split
  all_goals
    generalize leadingHyphens _ _ _ _ = hyphens
    obtain ⟨_ | _, s⟩ := hyphens
    · rw [if_neg (by simp)]
      split
      · exact valid_ofRanges _
      · exact valid_empty
    · exact valid_ofRanges _

theorem valid_of_readOn [Package] (hitems : items.Valid)
    (hread : readOn flags fuel stack items s = some (set, rest)) :
    set.Valid := by
  fun_induction readOn flags fuel stack items s with
  | case1 | case2 | case6 => cases hread
  | case3 _ _ _ _ _ _ _ _ _ ih => exact ih (valid_ofRanges _) hread
  | case4 _ _ _ _ inside _ _ _ _ _ hstart ih =>
      have hvalid := @valid_readStart flags inside
      rw [hstart] at hvalid
      exact ih hvalid hread
  | case5 _ stack items _ _ _ _ _ _ _ happlied ih =>
      have hvalid := @valid_applyOperation flags items stack hitems
      rw [happlied] at hvalid
      obtain ⟨closed, hclosed, hread⟩ := Option.bind_eq_some_iff.mp hread
      split at hread
      · cases hread
        exact valid_of_close? hvalid hclosed
      · exact ih closed (valid_ofRanges _) hread
  | case7 _ _ _ _ _ _ _ _ _ ih => exact ih valid_empty hread
  | case8 _ _ _ _ _ _ _ _ _ ih => exact ih valid_empty hread
  | case9 _ _ _ _ _ _ _ _ _ ih => exact ih valid_empty hread
  | case10 _ _ _ _ _ _ _ _ _ _ ih =>
      obtain ⟨⟨found, behind⟩, -, hread⟩ := Option.bind_eq_some_iff.mp hread
      exact ih found behind (valid_ofRanges _) hread

theorem valid_of_read [Package]
    (hread : read flags s = some (set, rest)) : set.Valid :=
  valid_of_readOn valid_readStart hread

end ClassReader

namespace Reader

/-- The branches and items that were read so far are proper. -/
structure Holds (branches : List Pattern) (items : List (Option Pattern)) :
    Prop where
  branches : ∀ p ∈ branches, p.Proper
  items : ∀ item ∈ items, ∀ p ∈ item, p.Proper

/-- Everything that is open holds proper patterns only. -/
structure State.Proper (s : State) : Prop where
  inner : Holds s.branches s.items
  stack : ∀ frame ∈ s.stack, Holds frame.branches frame.items

variable {s t : State} {flags : Flags} {text rest : List Char} {c : Char}
  {p : Pattern} {branches : List Pattern} {items : List (Option Pattern)}
  {least : Nat} {most : Option Nat} {greedy : Bool}

theorem Holds.cons (hholds : Holds branches items) {item : Option Pattern}
    (hitem : ∀ p ∈ item, p.Proper) : Holds branches (item :: items) :=
  ⟨hholds.branches, List.forall_mem_cons.mpr ⟨hitem, hholds.items⟩⟩

namespace State.Proper

theorem branch (hs : s.Proper) : s.branch.Proper := by
  refine Pattern.proper_ofItems_iff.mpr fun p hp => ?_
  obtain ⟨item, hitem, hfound⟩ := List.mem_filterMap.mp hp
  exact hs.inner.items item (List.mem_reverse.mp hitem) p hfound

theorem content (hs : s.Proper) : s.content.Proper := by
  refine Pattern.proper_ofBranches_iff.mpr fun p hp => ?_
  rcases List.mem_cons.mp (List.mem_reverse.mp hp) with rfl | hp
  · exact hs.branch
  · exact hs.inner.branches p hp

theorem push (hs : s.Proper) (hp : p.Proper) : (s.push p).Proper :=
  ⟨hs.inner.cons (by simpa using hp), hs.stack⟩

theorem nextBranch (hs : s.Proper) : s.nextBranch.Proper :=
  ⟨⟨List.forall_mem_cons.mpr ⟨hs.branch, hs.inner.branches⟩, by
    simp [State.nextBranch]⟩, hs.stack⟩

theorem enter (hs : s.Proper) (capture : Option Capture) (inner : Flags) :
    (s.enter capture inner).Proper :=
  ⟨⟨by simp [State.enter], by simp [State.enter]⟩,
    List.forall_mem_cons.mpr ⟨hs.inner, hs.stack⟩⟩

theorem leave? (hs : s.Proper) (hleave : s.leave? = some t) : t.Proper := by
  unfold State.leave? at hleave
  split at hleave
  · cases hleave
  · rename_i frame stack heq
    cases hleave
    have hstack := hs.stack
    rw [heq] at hstack
    obtain ⟨hframe, hothers⟩ := List.forall_mem_cons.mp hstack
    exact ⟨hframe.cons (by simpa [Pattern.Proper] using hs.content), hothers⟩

theorem repeatLast? (hs : s.Proper) (hmost : ∀ m ∈ most, least ≤ m)
    (hrepeat : (s.repeatLast? least most greedy).map (·, text) =
      some (t, rest)) : t.Proper := by
  unfold State.repeatLast? at hrepeat
  split at hrepeat
  · rename_i p items heq
    cases hrepeat
    have hitems := hs.inner.items
    rw [heq] at hitems
    obtain ⟨hp, hothers⟩ := List.forall_mem_cons.mp hitems
    have hholds : Holds s.branches items := ⟨hs.inner.branches, hothers⟩
    refine ⟨hholds.cons ?_, hs.stack⟩
    simpa [Pattern.Proper] using ⟨hmost, hp p rfl⟩
  · cases hrepeat

end State.Proper

theorem proper_literal (flags : Flags) (c : Char) :
    (literal flags c).Proper := by
  simp only [literal]
  split
  · split
    · split
      · trivial
      · exact valid_ofRanges _
    · split
      · trivial
      · exact valid_ofRanges _
  · trivial

theorem proper_of_anyChar? (hany : anyChar? flags = some p) : p.Proper := by
  unfold anyChar? at hany
  split at hany
  · cases hany
  split at hany
  · cases hany
    exact valid_ofRanges _
  split at hany <;> cases hany <;> exact valid_ofRanges _

theorem proper_of_readEscape [Package]
    (hread : readEscape flags text = some (p, rest)) :
    p.Proper := by
  obtain ⟨⟨item, behind⟩, hitem, hread⟩ := Option.bind_eq_some_iff.mp hread
  have hvalid := Escape.valid_of_read hitem
  cases item with
  | char c =>
      cases hread
      exact proper_literal flags c
  | set set =>
      cases hread
      exact hvalid
  | place mark =>
      have hlook : ∃ condition, p = .look condition := by
        simp only [Option.pure_def, Option.bind_eq_bind] at hread
        split at hread
        case h_6 =>
          obtain ⟨_, -, hread⟩ := Option.bind_eq_some_iff.mp hread
          cases hread
          exact ⟨_, rfl⟩
        all_goals
          cases hread
          exact ⟨_, rfl⟩
      obtain ⟨condition, rfl⟩ := hlook
      trivial

theorem le_of_readCounts (hread : readCounts text = some (least, most, rest)) :
    ∀ m ∈ most, least ≤ m := by
  obtain ⟨⟨n, behind⟩, -, hread⟩ := Option.bind_eq_some_iff.mp hread
  simp only at hread
  split at hread
  · cases hread
    simp
  · split at hread
    · cases hread
      simp
    · obtain ⟨⟨m, behind⟩, -, hread⟩ := Option.bind_eq_some_iff.mp hread
      simp only at hread
      split at hread
      · split at hread
        · cases hread
          simpa
        · cases hread
      · cases hread
  · cases hread

theorem State.Proper.enterNamed (hs : s.Proper)
    (hread : Reader.enterNamed s text = some (t, rest)) : t.Proper := by
  obtain ⟨⟨name, behind⟩, -, hread⟩ := Option.bind_eq_some_iff.mp hread
  simp only at hread
  split at hread
  · cases hread
  · cases hread
    refine State.Proper.enter ?_ _ _
    exact ⟨hs.inner, hs.stack⟩

theorem State.Proper.readGroup (hs : s.Proper)
    (hread : Reader.readGroup s text = some (t, rest)) : t.Proper := by
  unfold Reader.readGroup at hread
  split at hread
  case h_5 | h_6 => exact hs.enterNamed hread
  case h_7 =>
    split at hread
    · cases hread
    · split at hread
      · cases hread
      · cases hread
        exact ⟨hs.inner.cons (by simp), hs.stack⟩
    · cases hread
      exact hs.enter none _
  case h_8 =>
    cases hread
    refine State.Proper.enter ?_ _ _
    exact ⟨hs.inner, hs.stack⟩
  all_goals cases hread

/-- Every construct that is read keeps what is open proper. -/
theorem State.Proper.step [Package] (hs : s.Proper)
    (hstep : Reader.step s c text = some (t, rest)) : t.Proper := by
  simp only [Reader.step] at hstep
  split at hstep
  · exact hs.readGroup hstep
  · obtain ⟨u, hleave, hstep⟩ := Option.map_eq_some_iff.mp hstep
    cases hstep
    exact hs.leave? hleave
  · cases hstep
    exact hs.nextBranch
  · obtain ⟨⟨set, behind⟩, hclass, hstep⟩ := Option.map_eq_some_iff.mp hstep
    cases hstep
    exact hs.push (ClassReader.valid_of_read hclass)
  · exact hs.repeatLast? (by simp) hstep
  · exact hs.repeatLast? (by simp) hstep
  · exact hs.repeatLast? (by simp) hstep
  · obtain ⟨counts, hcounts, hstep⟩ := Option.bind_eq_some_iff.mp hstep
    exact hs.repeatLast? (le_of_readCounts hcounts) hstep
  · obtain ⟨p, hany, hstep⟩ := Option.map_eq_some_iff.mp hstep
    cases hstep
    exact hs.push (proper_of_anyChar? hany)
  · cases hstep
    exact hs.push trivial
  · cases hstep
    exact hs.push trivial
  · obtain ⟨⟨p, behind⟩, hescape, hstep⟩ := Option.map_eq_some_iff.mp hstep
    cases hstep
    exact hs.push (proper_of_readEscape hescape)
  · cases hstep
    exact hs.push (proper_literal _ _)

theorem State.Proper.readOn [Package] {fuel : Nat} (hs : s.Proper)
    (hread : Reader.readOn fuel s text = some p) : p.Proper := by
  fun_induction Reader.readOn fuel s text with
  | case1 =>
      cases hread
      exact hs.content
  | case2 | case3 | case4 => cases hread
  | case5 _ _ _ _ _ _ _ _ hstep ih => exact ih (hs.step hstep) hread

end Reader

namespace Pattern

variable [Package] {caseless : Bool} {text : String} {p : Pattern}

theorem parse_of_read (hread : read caseless text = some p) :
    parse caseless text = some p := by
  unfold read at hread
  split at hread
  · exact hread
  · cases hread

theorem read_of_compile (hcompile : compile caseless text = some p) :
    read caseless text = some p := by
  unfold compile at hcompile
  split at hcompile
  · exact hcompile
  · cases hcompile

/-- A pattern that is read is proper. -/
theorem proper_of_read (hread : read caseless text = some p) : p.Proper :=
  Reader.State.Proper.readOn ⟨⟨by simp, by simp⟩, by simp⟩
    (parse_of_read hread)

theorem proper_of_compile (hcompile : compile caseless text = some p) :
    p.Proper :=
  proper_of_read (read_of_compile hcompile)

end Pattern

end Specimen.Regex
