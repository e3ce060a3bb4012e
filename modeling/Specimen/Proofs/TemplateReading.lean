/-
Reading back a template that was written piece by piece.  Reading finds the
placeholders as they were written, with their positions in bytes, whatever the
arguments contain, unless an argument has a bar outside quotes: such a bar
counts as the one before a scope although parentheses stand around it, and the
template is refused.
-/
import Specimen.Proofs.ArgumentText
import Specimen.Proofs.BracePairs
import Specimen.Proofs.Trimming

namespace Specimen

/-- A placeholder as one writes it. -/
structure WrittenCall where
  function : List Char
  argument : Option (List Char) := none
  scope : Option Scope := none

namespace WrittenCall

/-- The function, with the argument between parentheses if there is one. -/
def head (w : WrittenCall) : List Char :=
  w.function ++ w.argument.elim [] fun argument => '(' :: (argument ++ [')'])

/-- The scope behind its bar, if there is one. -/
def tail (w : WrittenCall) : List Char :=
  w.scope.elim [] fun scope => ' ' :: '|' :: ' ' :: scope.name.toList

def inner (w : WrittenCall) : List Char :=
  [' '] ++ (w.head ++ w.tail) ++ [' ']

def call (w : WrittenCall) : Call where
  function := String.ofList w.function
  argument := w.argument.map fun argument => String.ofList (Text.trim argument)
  scope := w.scope

/-- The function has a name that nothing in the grammar cuts, the argument
balances, and the braces close behind the call only. -/
structure WellFormed (w : WrittenCall) : Prop where
  named : w.function ≠ []
  plain : ∀ c ∈ w.function, Text.isBlank c = false ∧
    c ∉ ['\'', '"', '(', ')', '|']
  balanced : ∀ argument ∈ w.argument, Balanced argument
  closed : ¬ HasPair '}' w.inner

/-- The argument has a bar outside quotes. -/
def Barred (w : WrittenCall) : Prop :=
  ∃ argument ∈ w.argument, HasBareBar argument

end WrittenCall

/-- Literal text, or a placeholder. -/
inductive Piece where
  | literal (text : List Char)
  | placeholder (written : WrittenCall)

namespace Piece

def text : Piece → List Char
  | literal text => text
  | placeholder w => '{' :: '{' :: (w.inner ++ ['}', '}'])

/-- A placeholder can be read back, and literal text does not run into one. -/
def WellFormed : Piece → Prop
  | literal text => ¬ HasPair '{' (text ++ ['{'])
  | placeholder w => w.WellFormed

/-- The piece is a placeholder with a bar outside quotes in its argument. -/
def Barred : Piece → Prop
  | literal _ => False
  | placeholder w => w.Barred

@[simp] theorem wellFormed_literal (text : List Char) :
    (literal text).WellFormed ↔ ¬ HasPair '{' (text ++ ['{']) := Iff.rfl

@[simp] theorem wellFormed_placeholder (w : WrittenCall) :
    (placeholder w).WellFormed ↔ w.WellFormed := Iff.rfl

@[simp] theorem not_barred_literal (text : List Char) :
    ¬ (literal text).Barred := id

@[simp] theorem barred_placeholder (w : WrittenCall) :
    (placeholder w).Barred ↔ w.Barred := Iff.rfl

def written (pieces : List Piece) : List Char :=
  pieces.flatMap text

/-- The placeholders among the pieces, the first piece at the given byte. -/
def placeholdersFrom (position : Nat) : List Piece → List Placeholder
  | [] => []
  | literal text :: pieces =>
    placeholdersFrom (position + Text.byteLength text) pieces
  | placeholder w :: pieces =>
    let stop := Template.behindBraces position w.inner
    ⟨w.call, position, stop⟩ :: placeholdersFrom stop pieces

end Piece

namespace WrittenCall

open Nesting Call

variable {w : WrittenCall}

theorem WellFormed.bare_function (hw : w.WellFormed) :
    unquoted? none w.function = some w.function := by
  apply unquoted?_eq_self
  intro c hc
  have hmarks := (hw.plain c hc).2
  simp only [List.mem_cons, not_or] at hmarks
  exact ⟨hmarks.1, hmarks.2.1⟩

theorem WellFormed.not_mem_function (hw : w.WellFormed) {c : Char}
    (hmark : c ∈ ['\'', '"', '(', ')', '|']) : c ∉ w.function := by
  intro hmem
  exact (hw.plain c hmem).2 hmark

theorem WellFormed.balanced_function (hw : w.WellFormed) :
    Balanced w.function :=
  balanced_of_bare hw.bare_function (hw.not_mem_function (by simp))
    (hw.not_mem_function (by simp))

/-- The reader of scopes goes on through the function. -/
theorem WellFormed.passes_function (hw : w.WellFormed) :
    Passes {} {} w.function :=
  passes_of_unquoted hw.bare_function (hw.not_mem_function (by simp))
    (run?_of_balanced hw.balanced_function 0)

/-- Without a bar outside quotes it goes on through the argument too. -/
theorem WellFormed.passes_head (hw : w.WellFormed) (hbar : ¬ w.Barred) :
    Passes {} {} w.head := by
  unfold head
  cases hargument : w.argument with
  | none => simpa using hw.passes_function
  | some argument =>
      obtain ⟨bare, hbare, -⟩ := hw.balanced argument hargument
      have hmem : '|' ∉ bare := by
        intro hmem
        exact hbar ⟨argument, hargument, bare, hbare, hmem⟩
      have hpass : Passes ⟨1, none, false⟩ ⟨1, none, false⟩ argument :=
        passes_of_unquoted hbare hmem
          (run?_of_balanced (hw.balanced argument hargument) 1)
      refine hw.passes_function.append (.cons (by simp) rfl ?_)
      exact hpass.append (.cons (by simp) rfl .nil)

theorem WellFormed.not_blank_of_head (hw : w.WellFormed) (rest : List Char) :
    ∀ c ∈ (w.head ++ rest).head?, Text.isBlank c = false := by
  obtain ⟨first, others, hfunction⟩ := List.exists_cons_of_ne_nil hw.named
  intro c hc
  obtain rfl : first = c := by simpa [head, hfunction] using hc
  exact (hw.plain first (by simp [hfunction])).1

theorem WellFormed.not_blank_of_last (hw : w.WellFormed) :
    ∀ c ∈ w.head.getLast?, Text.isBlank c = false := by
  intro c hc
  unfold head at hc
  cases hargument : w.argument with
  | none =>
      refine (hw.plain c (List.mem_of_getLast? ?_)).1
      simpa [hargument] using hc
  | some argument =>
      have hlast : w.function ++ '(' :: (argument ++ [')']) =
          w.function ++ '(' :: argument ++ [')'] := by simp
      rw [hargument, Option.elim_some, hlast, List.getLast?_concat] at hc
      obtain rfl : ')' = c := Option.some.inj hc
      decide

theorem WellFormed.solid_head (hw : w.WellFormed) : Text.Solid w.head :=
  ⟨by simpa using hw.not_blank_of_head [], hw.not_blank_of_last⟩

theorem WellFormed.solid_text (hw : w.WellFormed) :
    Text.Solid (w.head ++ w.tail) := by
  refine ⟨hw.not_blank_of_head w.tail, ?_⟩
  unfold tail
  cases w.scope with
  | none => simpa using hw.not_blank_of_last
  | some scope =>
      cases scope <;> simp [Scope.name, List.getLast?_append] <;> decide

theorem WellFormed.trim_inner (hw : w.WellFormed) :
    Text.trim w.inner = w.head ++ w.tail :=
  Text.trim_eq Text.blank_space hw.solid_text Text.blank_space

theorem WellFormed.trim_inner_ne_nil (hw : w.WellFormed) :
    Text.trim w.inner ≠ [] := by
  rw [hw.trim_inner]
  simp [head, hw.named]

/-- The function and the argument are found in the text of the head. -/
theorem WellFormed.readFunction (hw : w.WellFormed) {back : List Char}
    (hback : Text.Blank back) (opening position : Nat) :
    Call.readFunction opening position (w.head ++ back) =
      .ok (w.call.function, w.call.argument) := by
  have htrim : Text.trim (w.head ++ back) = w.head :=
    Text.trim_eq Text.blank_nil hw.solid_head hback
  have hnonempty : w.head.isEmpty = false := by
    simp [head, hw.named]
  have hname : ∀ c ∈ w.function, isNameChar c = true := by
    intro c hc
    obtain ⟨hblank, hmarks⟩ := hw.plain c hc
    simp only [List.mem_cons, not_or] at hmarks
    simp [isNameChar, hblank, hmarks]
  simp only [Call.readFunction, htrim, hnonempty]
  unfold head
  rw [List.takeWhile_append_of_pos hname, List.dropWhile_append_of_pos hname]
  cases hargument : w.argument with
  | none => simp [Text.trimStart, call, hargument]
  | some argument =>
      have hstart : isNameChar '(' = false := by decide
      have hopening : Text.isBlank '(' = false := by decide
      have hsplit : splitArgument {} (argument ++ [')']) =
          some (argument, []) := by
        rw [splitArgument_append
          (run?_of_balanced (hw.balanced argument hargument) 0)]
        simp [splitArgument]
      simp [Text.trimStart, hstart, hopening, hsplit, call, hargument,
        Text.trim_eq_nil_iff.mpr Text.blank_nil]

theorem readScope_name (position : Nat) (scope : Scope) :
    Call.readScope (some (position, ' ' :: scope.name.toList)) =
      .ok (some scope) := by
  have htrim : Text.trim (' ' :: scope.name.toList) = scope.name.toList := by
    cases scope <;> decide
  simp only [Call.readScope, htrim, String.ofList_toList]
  cases scope <;> rfl

/-- The text before the bar of the scope is split off; text without a bar is
kept. -/
theorem WellFormed.splitScope (hw : w.WellFormed) (hbar : ¬ w.Barred)
    (opening position : Nat) :
    ∃ back scope, Text.Blank back ∧
      Call.splitScope opening position {} (w.head ++ w.tail) =
        .ok (w.head ++ back, scope) ∧ Call.readScope scope = .ok w.scope := by
  unfold tail
  cases hscope : w.scope with
  | none =>
      refine ⟨[], none, Text.blank_nil, ?_, rfl⟩
      rw [hw.passes_head hbar]
      simp [Call.splitScope, openFault?, Except.map]
  | some scope =>
      refine ⟨[' '], some (position + Text.byteLength (w.head ++ [' ']) + 1,
        ' ' :: scope.name.toList), Text.blank_space, ?_, ?_⟩
      · have hspace : Passes {} {} [' '] := .cons (by simp) rfl .nil
        have hpass := (hw.passes_head hbar).append hspace
        rw [Option.elim_some, List.append_cons, hpass]
        simp [Call.splitScope, openFault?, Except.map]
      · exact readScope_name _ scope

/-- What stands between the braces is read as it was meant. -/
theorem WellFormed.read (hw : w.WellFormed) (hbar : ¬ w.Barred)
    (opening : Nat) :
    Call.read opening w.inner = .ok w.call := by
  obtain ⟨back, scope, hback, hsplit, hscope⟩ := hw.splitScope hbar opening
    (opening + 2 + Text.indent w.inner)
  rw [read_eq_bind hw.trim_inner_ne_nil, hw.trim_inner, hsplit]
  simp only [Except.bind]
  rw [hw.readFunction hback, hscope]
  rfl

/-- A bar outside quotes in the argument is taken for the one before a scope. -/
theorem WellFormed.read_of_barred (hw : w.WellFormed) (hbar : w.Barred)
    (opening : Nat) :
    Call.read opening w.inner =
      .error ⟨opening, .missingClosingParenthesis⟩ := by
  obtain ⟨argument, hargument, hbar⟩ := hbar
  have hargument : w.argument = some argument := hargument
  have hsplit : Call.splitScope opening (opening + 2 + Text.indent w.inner) {}
      (w.head ++ w.tail) = .error ⟨opening, .missingClosingParenthesis⟩ := by
    have hopens : Passes {} ⟨1, none, false⟩ (w.function ++ ['(']) :=
      hw.passes_function.append (.cons (by simp) rfl .nil)
    have htext : w.head ++ w.tail =
        w.function ++ ['('] ++ (argument ++ (')' :: w.tail)) := by
      simp [head, hargument]
    rw [htext, hopens, splitScope_of_hasBareBar
      (hw.balanced argument hargument) hbar]
    rfl
  rw [read_eq_bind hw.trim_inner_ne_nil, hw.trim_inner, hsplit]
  rfl

/-- The braces behind the call are the ones that close it. -/
theorem WellFormed.not_hasPair_inner (hw : w.WellFormed) :
    ¬ HasPair '}' (w.inner ++ ['}']) :=
  HasPair.not_append_singleton (by decide) hw.closed

end WrittenCall

namespace Piece

open WrittenCall

theorem written_cons (piece : Piece) (pieces : List Piece) :
    written (piece :: pieces) = piece.text ++ written pieces := rfl

/-- Reading a placeholder behind literal text. -/
theorem readFrom_placeholder {w : WrittenCall} (hw : w.WellFormed)
    {literal : List Char}
    (hliteral : ¬ HasPair '{' (literal ++ ['{'])) (position : Nat)
    (pieces : List Piece) :
    Template.readFrom position (literal ++ written (placeholder w :: pieces)) =
      (Call.read (position + Text.byteLength literal) w.inner).bind fun call =>
        (Template.readFrom
          (Template.behindBraces (position + Text.byteLength literal) w.inner)
          (written pieces)).map fun template =>
            ⟨(literal, ⟨call, position + Text.byteLength literal,
              Template.behindBraces (position + Text.byteLength literal)
                w.inner⟩) :: template.parts, template.rest⟩ := by
  have htext : literal ++ written (placeholder w :: pieces) =
      literal ++ '{' :: '{' :: (w.inner ++ '}' :: '}' :: written pieces) := by
    simp [written_cons, text]
  rw [htext, Template.readFrom_placeholder hliteral hw.not_hasPair_inner]

/-- Without bars outside quotes the placeholders are read back, whatever literal
text comes before. -/
theorem readFrom_written {pieces : List Piece}
    (hformed : ∀ piece ∈ pieces, piece.WellFormed)
    (hbar : ∀ piece ∈ pieces, ¬ piece.Barred) {literal : List Char}
    (hliteral : ¬ HasPair '{' (literal ++ ['{'])) (position : Nat) :
    (Template.readFrom position (literal ++ written pieces)).map
      Template.placeholders =
      .ok (placeholdersFrom (position + Text.byteLength literal) pieces) := by
  induction pieces generalizing literal position with
  | nil =>
      have hnone : ¬ HasPair '{' (literal ++ written []) := by
        simpa [written] using HasPair.not_of_append hliteral
      rw [Template.readFrom_literal hnone]
      rfl
  | cons piece pieces ih =>
      obtain ⟨hfirst, hrest⟩ := List.forall_mem_cons.mp hformed
      obtain ⟨hfirstBar, hrestBar⟩ := List.forall_mem_cons.mp hbar
      cases piece with
      | literal text =>
          have htogether := ih hrest hrestBar
            (HasPair.not_append hliteral hfirst) position
          rw [written_cons, ← List.append_assoc]
          rw [Text.byteLength_append, ← Nat.add_assoc] at htogether
          exact htogether
      | placeholder w =>
          have hnil : ¬ HasPair '{' ([] ++ ['{']) := HasPair.not_singleton
          have hbehind := ih hrest hrestBar hnil
            (Template.behindBraces (position + Text.byteLength literal) w.inner)
          rw [List.nil_append, Text.byteLength_nil, Nat.add_zero] at hbehind
          obtain ⟨template, hread, hfound⟩ := map_eq_ok_iff.mp hbehind
          rw [readFrom_placeholder hfirst hliteral, hfirst.read hfirstBar]
          simp only [Except.bind, hread, Except.map]
          simp only [Template.placeholders, List.map_cons, placeholdersFrom]
          rw [← hfound]
          rfl

/-- The first bar outside quotes in an argument is the fault that is found. -/
theorem readFrom_written_of_barred {front back : List Piece} {w : WrittenCall}
    (hformed : ∀ piece ∈ front ++ placeholder w :: back, piece.WellFormed)
    (hfront : ∀ piece ∈ front, ¬ piece.Barred) (hbar : w.Barred)
    {literal : List Char}
    (hliteral : ¬ HasPair '{' (literal ++ ['{'])) (position : Nat) :
    Template.readFrom position
      (literal ++ written (front ++ placeholder w :: back)) =
      .error ⟨position + Text.byteLength literal +
        Text.byteLength (written front), .missingClosingParenthesis⟩ := by
  induction front generalizing literal position with
  | nil =>
      have hw : w.WellFormed := hformed (placeholder w) (by simp)
      rw [List.nil_append, readFrom_placeholder hw hliteral,
        hw.read_of_barred hbar]
      rfl
  | cons piece front ih =>
      obtain ⟨hfirst, hrest⟩ := List.forall_mem_cons.mp hformed
      obtain ⟨hfirstBar, hfrontBar⟩ := List.forall_mem_cons.mp hfront
      rw [List.cons_append]
      cases piece with
      | literal text =>
          have htogether := ih hrest hfrontBar
            (HasPair.not_append hliteral hfirst) position
          rw [written_cons, ← List.append_assoc, written_cons,
            Text.byteLength_append,
            ← Nat.add_assoc]
          rw [Text.byteLength_append, ← Nat.add_assoc] at htogether
          exact htogether
      | placeholder w' =>
          have hnil : ¬ HasPair '{' ([] ++ ['{']) := HasPair.not_singleton
          have hbehind := ih hrest hfrontBar hnil
            (Template.behindBraces (position + Text.byteLength literal)
              w'.inner)
          rw [List.nil_append, Text.byteLength_nil, Nat.add_zero] at hbehind
          rw [readFrom_placeholder hfirst hliteral, hfirst.read hfirstBar]
          simp only [Except.bind, hbehind, Except.map]
          rw [written_cons, Text.byteLength_append, text,
            Template.behindBraces_eq, Nat.add_assoc]

theorem exists_first_barred {pieces : List Piece}
    (hbarred : ¬ ∀ piece ∈ pieces, ¬ piece.Barred) :
    ∃ front w back, pieces = front ++ placeholder w :: back ∧
      (∀ piece ∈ front, ¬ piece.Barred) ∧ w.Barred := by
  induction pieces with
  | nil => simp at hbarred
  | cons piece pieces ih =>
      by_cases hfirst : piece.Barred
      · cases piece with
        | literal text => exact (not_barred_literal text hfirst).elim
        | placeholder w => exact ⟨[], w, pieces, rfl, by simp, hfirst⟩
      · rw [List.forall_mem_cons, and_iff_right hfirst] at hbarred
        obtain ⟨front, w, back, rfl, hfront, hbar⟩ := ih hbarred
        exact ⟨piece :: front, w, back, rfl,
          List.forall_mem_cons.mpr ⟨hfirst, hfront⟩, hbar⟩

end Piece

namespace Template

open Piece

/-- The reader of templates and what was written.  It finds the placeholders
that were written exactly when no argument has a bar outside quotes; otherwise
it refuses the template at the first placeholder that has one. -/
theorem parse_written {pieces : List Piece}
    (hformed : ∀ piece ∈ pieces, piece.WellFormed) :
    ((parse (String.ofList (written pieces))).map placeholders =
        .ok (placeholdersFrom 0 pieces) ↔ ∀ piece ∈ pieces, ¬ piece.Barred) ∧
      ∀ front w back, pieces = front ++ placeholder w :: back →
        (∀ piece ∈ front, ¬ piece.Barred) → w.Barred →
          parse (String.ofList (written pieces)) =
            .error ⟨String.ofList (written pieces),
              Text.byteLength (written front),
              .missingClosingParenthesis⟩ := by
  have hnil : ¬ HasPair '{' ([] ++ ['{']) := HasPair.not_singleton
  have hrefused : ∀ front w back, pieces = front ++ placeholder w :: back →
      (∀ piece ∈ front, ¬ piece.Barred) → w.Barred →
        parse (String.ofList (written pieces)) =
          .error ⟨String.ofList (written pieces),
            Text.byteLength (written front),
            .missingClosingParenthesis⟩ := by
    rintro front w back rfl hfront hbar
    have hread := readFrom_written_of_barred hformed hfront hbar hnil 0
    simp only [List.nil_append, Text.byteLength_nil, Nat.zero_add] at hread
    simp [parse, hread]
  refine ⟨⟨?_, ?_⟩, hrefused⟩
  · intro hparse
    by_contra hbarred
    obtain ⟨front, w, back, hpieces, hfront, hbar⟩ :=
      exists_first_barred hbarred
    rw [hrefused front w back hpieces hfront hbar] at hparse
    simp [Except.map] at hparse
  · intro hbar
    have hread := readFrom_written hformed hbar hnil 0
    simp only [List.nil_append, Text.byteLength_nil, Nat.add_zero] at hread
    obtain ⟨template, hread, hfound⟩ := map_eq_ok_iff.mp hread
    simp [parse, hread, Except.map, hfound]

namespace WrittenWitness

/-- A placeholder with a bar in quotes, and with parentheses. -/
def quotedBar : WrittenCall where
  function := "any".toList
  argument := some "'x|y', (z)".toList
  scope := some .run

/-- A placeholder with a bar between the parentheses only. -/
def bareBar : WrittenCall where
  function := "f".toList
  argument := some "a|b".toList

theorem quotedBar_wellFormed : quotedBar.WellFormed where
  named := by decide
  plain := by
    intro c hc
    have hname : c = 'a' ∨ c = 'n' ∨ c = 'y' := by simpa [quotedBar] using hc
    rcases hname with rfl | rfl | rfl <;> decide
  balanced := by
    intro argument hargument
    obtain rfl : "'x|y', (z)".toList = argument := Option.some.inj hargument
    exact Nesting.balanced_of_run? (by decide)
  closed := by decide

theorem bareBar_wellFormed : bareBar.WellFormed where
  named := by decide
  plain := by
    intro c hc
    obtain rfl : c = 'f' := by simpa [bareBar] using hc
    decide
  balanced := by
    intro argument hargument
    obtain rfl : "a|b".toList = argument := Option.some.inj hargument
    exact Nesting.balanced_of_run? (by decide)
  closed := by decide

theorem quotedBar_not_barred : ¬ quotedBar.Barred := by
  rintro ⟨argument, hargument, bare, hbare, hbar⟩
  obtain rfl : "'x|y', (z)".toList = argument := Option.some.inj hargument
  obtain rfl : ", (z)".toList = bare := Option.some.inj hbare
  simp at hbar

theorem bareBar_barred : bareBar.Barred :=
  ⟨"a|b".toList, rfl, "a|b".toList, by decide, by decide⟩

theorem bars_read :
    (parse "id-\x7b\x7b any('x|y', (z)) | global \x7d\x7d").map placeholders =
        .ok [⟨⟨"any", some "'x|y', (z)", some .run⟩, 3, 33⟩] ∧
      parse "id-\x7b\x7b f(a|b) \x7d\x7d" =
        .error ⟨"id-\x7b\x7b f(a|b) \x7d\x7d", 3,
          .missingClosingParenthesis⟩ := by
  have hliteral : ¬ HasPair '{' ("id-".toList ++ ['{']) := by
    decide
  constructor
  · have hformed : ∀ piece ∈ [literal "id-".toList, placeholder quotedBar],
        piece.WellFormed := by
      simpa using ⟨hliteral, quotedBar_wellFormed⟩
    have hbar : ∀ piece ∈ [literal "id-".toList, placeholder quotedBar],
        ¬ piece.Barred := by
      simpa using quotedBar_not_barred
    exact (parse_written hformed).1.mpr hbar
  · have hformed : ∀ piece ∈ [literal "id-".toList, placeholder bareBar],
        piece.WellFormed := by
      simpa using ⟨hliteral, bareBar_wellFormed⟩
    exact (parse_written hformed).2 [literal "id-".toList] bareBar [] rfl
      (by simp) bareBar_barred

/-- Not every template that is written by the rules is read back. -/
theorem bar_between_parentheses_refused :
    ¬ ∀ pieces : List Piece, (∀ piece ∈ pieces, piece.WellFormed) →
      (parse (String.ofList (written pieces))).map placeholders =
        .ok (placeholdersFrom 0 pieces) := by
  intro hall
  have hread := hall [placeholder bareBar] (by simpa using bareBar_wellFormed)
  have hrefused : parse (String.ofList (written [placeholder bareBar])) =
      .error ⟨"\x7b\x7b f(a|b) \x7d\x7d", 0, .missingClosingParenthesis⟩ := by
    decide +kernel
  rw [hrefused] at hread
  simp [Except.map] at hread

end WrittenWitness

end Template

end Specimen
