/-
Where the faults of templates show.  A template that is malformed begins with
well-formed placeholders, and behind them stands one that never ends or one that
cannot be read.  The fault shows at its braces or between them: at the character
that does not belong there, or behind the bar of a scope that is none.
-/
import Specimen.Proofs.ArgumentLists

namespace Specimen

theorem bind_eq_error_iff {ε α β : Type} {x : Except ε α} {f : α → Except ε β}
    {e : ε} :
    x.bind f = .error e ↔ x = .error e ∨ ∃ a, x = .ok a ∧ f a = .error e := by
  cases x <;> simp [Except.bind]

theorem map_eq_error_iff {ε α β : Type} {x : Except ε α} {f : α → β} {e : ε} :
    x.map f = .error e ↔ x = .error e := by
  cases x <;> simp [Except.map]

namespace Text

/-- A character of the text begins at the byte, or the text ends there. -/
def IsBoundary (position : Nat) (text : List Char) : Prop :=
  ∃ front back, text = front ++ back ∧ byteLength front = position

theorem IsBoundary.le {position : Nat} {text : List Char}
    (hboundary : IsBoundary position text) : position ≤ byteLength text := by
  obtain ⟨front, back, rfl, rfl⟩ := hboundary
  rw [byteLength_append]
  exact Nat.le_add_right _ _

theorem trim_append_of_blank (text : List Char) {back : List Char}
    (hback : Blank back) : trim (text ++ back) = trim text := by
  obtain ⟨lead, trail, hlead, htrail, htext, hsolid⟩ := exists_eq_trim text
  have htrim := trim_eq hlead hsolid (htrail.append hback)
  rwa [← List.append_assoc, ← htext] at htrim

theorem indent_of_blank_append {lead text : List Char} (hlead : Blank lead)
    (hhead : ∀ c ∈ text.head?, isBlank c = false) :
    indent (lead ++ text) = byteLength lead := by
  have hstop : text.takeWhile isBlank = [] := by
    cases text with
    | nil => rfl
    | cons c text => simp [hhead c rfl]
  rw [indent, List.takeWhile_append_of_pos hlead, hstop, List.append_nil]

theorem indent_of_blank {text : List Char} (htext : Blank text) :
    indent text = byteLength text := by
  rw [indent, List.takeWhile_eq_self_iff.mpr htext]

/-- The first character that is no blank. -/
theorem exists_of_trim_ne_nil {text : List Char} (htext : trim text ≠ []) :
    ∃ gap c back, text = gap ++ c :: back ∧ Blank gap ∧ isBlank c = false ∧
      indent text = byteLength gap := by
  obtain ⟨gap, hgap, heq, hhead⟩ := exists_eq_trimStart text
  have hindent : indent text = byteLength gap := by
    rw [heq]
    exact indent_of_blank_append hgap hhead
  cases hrest : trimStart text with
  | nil =>
      rw [hrest, List.append_nil] at heq
      exact absurd (trim_eq_nil_iff.mpr (heq ▸ hgap)) htext
  | cons c back =>
      rw [hrest] at heq hhead
      exact ⟨gap, c, back, heq, hgap, hhead c rfl, hindent⟩

end Text

/-- The byte of the template behind the first part of a placeholder, the opening
braces of which are at the given byte. -/
def insideBraces (opening : Nat) (front : List Char) : Nat :=
  opening + 2 + Text.byteLength front

/-- This is open at the end of the text, or at a bar before that. -/
def LeavesOpen (text : List Char) (s : Nesting) : Prop :=
  ∃ front back, text = front ++ back ∧ Nesting.run? {} front = some s ∧
    (Text.Blank back ∨ s.quote = none ∧ back.head? = some '|')

/-- A parenthesis opens arguments, and none behind it closes them. -/
def NeverCloses (text : List Char) : Prop :=
  ∃ front inside back, text = front ++ '(' :: inside ++ back ∧
    ∀ raw behind, inside = raw ++ ')' :: behind → ¬ Balanced raw

/-- The fault is found between these braces, the opening ones of which are at
the given byte, and it shows at the other byte. -/
def Fault.ShowsIn (opening : Nat) (inner : List Char) (position : Nat) :
    Fault → Prop
  | emptyPlaceholder => Text.Blank inner ∧ position = opening + 2
  | missingFunction =>
    ∃ lead back, inner = lead ++ '|' :: back ∧ Text.Blank lead ∧
      position = insideBraces opening lead
  | textAfterFunction name =>
    ∃ lead gap c back, inner = lead ++ name.toList ++ gap ++ c :: back ∧
      Text.Blank lead ∧ (∀ d ∈ name.toList, Call.isNameChar d) ∧
      Text.Blank gap ∧ gap ≠ [] ∧ Text.isBlank c = false ∧ c ≠ '(' ∧
      position = insideBraces opening (lead ++ name.toList ++ gap)
  | textAfterArguments =>
    ∃ front raw gap c back,
      inner = front ++ '(' :: raw ++ ')' :: gap ++ c :: back ∧
      '(' ∉ front ∧ Balanced raw ∧ Text.Blank gap ∧
      Text.isBlank c = false ∧
      position = insideBraces opening (front ++ '(' :: raw ++ ')' :: gap)
  | missingClosingParenthesis =>
    ((∃ s, LeavesOpen inner s ∧ s.depth ≠ 0) ∨ NeverCloses inner) ∧
      position = opening
  | unexpectedClosingParenthesis =>
    ∃ front back, inner = front ++ ')' :: back ∧ Balanced front ∧
      position = insideBraces opening front
  | unterminatedQuote =>
    (∃ s, LeavesOpen inner s ∧ s.quote ≠ none) ∧ position = opening
  | missingClosingBraces => False
  | emptyScope =>
    ∃ front back, inner = front ++ '|' :: back ∧ Text.Blank back ∧
      position = insideBraces opening (front ++ ['|'])
  | unknownScope name =>
    ∃ front back, inner = front ++ '|' :: back ∧
      Text.trim back = name.toList ∧ Scope.ofName? name = none ∧
      position = insideBraces opening (front ++ ['|'])

namespace Call

open Nesting

/-- Splitting fails at a parenthesis that closes nothing, or where something is
open at the bar or at the end. -/
theorem cases_of_splitScope {opening position : Nat} {s : Nesting}
    {text : List Char} {e : Located}
    (hsplit : splitScope opening position s text = .error e) :
    (∃ front back t, text = front ++ ')' :: back ∧ s.run? front = some t ∧
      t.step ')' = none ∧ e = ⟨position + Text.byteLength front,
        .unexpectedClosingParenthesis⟩) ∨
      ∃ front back t fault, text = front ++ back ∧ s.run? front = some t ∧
        (back = [] ∨ t.quote = none ∧ back.head? = some '|') ∧
        t.openFault? = some fault ∧ e = ⟨opening, fault⟩ := by
  induction text generalizing position s with
  | nil =>
      rw [splitScope] at hsplit
      split at hsplit
      · rename_i fault hopen
        cases hsplit
        exact .inr ⟨[], [], s, fault, rfl, rfl, .inl rfl, hopen, rfl⟩
      · cases hsplit
  | cons c text ih =>
      rw [splitScope] at hsplit
      split at hsplit
      · rename_i hbar
        split at hsplit
        · rename_i fault hopen
          cases hsplit
          refine .inr ⟨[], c :: text, s, fault, rfl, rfl, .inr ?_, hopen, rfl⟩
          exact ⟨hbar.1, congrArg some hbar.2⟩
        · cases hsplit
      · split at hsplit
        · rename_i hstep
          cases hsplit
          obtain ⟨-, rfl, -⟩ := step_eq_none_iff.mp hstep
          exact .inl ⟨[], text, s, rfl, rfl, hstep, rfl⟩
        · rename_i u hstep
          cases hrest : splitScope opening (position + c.utf8Size) u text with
          | ok found => simp [hrest] at hsplit
          | error located =>
              rw [hrest] at hsplit
              cases hsplit
              rcases ih hrest with ⟨front, back, t, rfl, hrun, hclose, rfl⟩ |
                ⟨front, back, t, fault, rfl, hrun, hfound⟩
              · refine .inl ⟨c :: front, back, t, rfl, ?_, hclose, ?_⟩
                · rw [run?_cons, hstep]
                  exact hrun
                · rw [Text.byteLength_cons, Nat.add_assoc]
              · refine .inr ⟨c :: front, back, t, fault, rfl, ?_, hfound⟩
                rw [run?_cons, hstep]
                exact hrun

theorem position_of_splitScope {opening position start : Nat} {s : Nesting}
    {text call word : List Char}
    (hsplit : splitScope opening position s text =
      .ok (call, some (start, word))) :
    start = position + Text.byteLength (call ++ ['|']) := by
  induction text generalizing position s call with
  | nil =>
      rw [splitScope] at hsplit
      split at hsplit <;> cases hsplit
  | cons c text ih =>
      rw [splitScope] at hsplit
      split at hsplit
      · split at hsplit
        · cases hsplit
        · cases hsplit
          rfl
      · split at hsplit
        · cases hsplit
        · rename_i u hstep
          cases hrest : splitScope opening (position + c.utf8Size) u text with
          | error e => simp [hrest] at hsplit
          | ok found =>
              obtain ⟨front, scope⟩ := found
              rw [hrest] at hsplit
              cases hsplit
              rw [ih hrest, List.cons_append, Text.byteLength_cons]
              exact Nat.add_assoc _ _ _

section ShowsIn

variable {opening : Nat} {lead text trail : List Char} {e : Located}

theorem run?_of_blank_append (hlead : Text.Blank lead) (front : List Char) :
    run? {} (lead ++ front) = run? {} front := by
  rw [run?_append, run?_of_balanced (balanced_of_blank hlead) 0]
  rfl

theorem insideBraces_append (front back : List Char) :
    insideBraces opening (front ++ back) =
      insideBraces opening front + Text.byteLength back := by
  rw [insideBraces, insideBraces, Text.byteLength_append]
  exact (Nat.add_assoc _ _ _).symm

theorem showsIn_of_splitScope (hlead : Text.Blank lead)
    (htrail : Text.Blank trail)
    (hsplit : splitScope opening (insideBraces opening lead) {} text =
      .error e) :
    e.fault.ShowsIn opening (lead ++ text ++ trail) e.position := by
  rcases cases_of_splitScope hsplit with
    ⟨front, back, t, rfl, hrun, hclose, rfl⟩ |
    ⟨front, back, t, fault, rfl, hrun, hend, hopen, rfl⟩
  · refine ⟨lead ++ front, back ++ trail, by simp, ?_, ?_⟩
    · obtain ⟨hquote, -, hdepth⟩ := step_eq_none_iff.mp hclose
      have hescaped := (marked_of_run? marked_start hrun).tidy hquote
      cases t
      cases hquote
      cases hdepth
      cases hescaped
      exact balanced_of_run? ((run?_of_blank_append hlead front).trans hrun)
    · exact (insideBraces_append lead front).symm
  · have hleaves : LeavesOpen (lead ++ (front ++ back) ++ trail) t := by
      refine ⟨lead ++ front, back ++ trail, by simp,
        (run?_of_blank_append hlead front).trans hrun, ?_⟩
      rcases hend with rfl | ⟨hquote, hbar⟩
      · exact .inl htrail
      · refine .inr ⟨hquote, ?_⟩
        rw [List.head?_append, hbar]
        rfl
    unfold openFault? at hopen
    split_ifs at hopen with hdepth hquote
    · cases hopen
      exact ⟨.inl ⟨t, hleaves, hdepth⟩, rfl⟩
    · cases hopen
      exact ⟨⟨t, hleaves, Option.isSome_iff_ne_none.mp hquote⟩, rfl⟩

/-- The parenthesis that is not found is not there. -/
theorem not_balanced_of_splitArgument {inside : List Char}
    (hsplit : splitArgument {} inside = none) (raw behind : List Char)
    (hinside : inside = raw ++ ')' :: behind) : ¬ Balanced raw := by
  intro hbalanced
  rw [hinside, splitArgument_append (run?_of_balanced hbalanced 0)] at hsplit
  simp [splitArgument] at hsplit

/-- Where the text behind a function name begins. -/
theorem exists_name_split (htext : Text.trim text ≠ []) :
    let name := (Text.trim text).takeWhile isNameChar
    let remainder := (Text.trim text).dropWhile isNameChar
    ∃ front gap back, Text.Blank front ∧ Text.Blank gap ∧
      text = front ++ name ++ gap ++ (Text.trimStart remainder ++ back) ∧
      Text.indent text + Text.byteLength name + Text.indent remainder =
        Text.byteLength (front ++ name ++ gap) ∧
      ∀ c ∈ (Text.trimStart remainder).head?, Text.isBlank c = false ∧
        (gap = [] → c = '(') := by
  intro name remainder
  obtain ⟨front, back, hfront, -, heq, hsolid⟩ := Text.exists_eq_trim text
  obtain ⟨gap, hgap, hremainder, hhead⟩ := Text.exists_eq_trimStart remainder
  have htrim : Text.trim text = name ++ remainder :=
    List.takeWhile_append_dropWhile.symm
  have hindent : Text.indent text = Text.byteLength front := by
    rw [heq, List.append_assoc]
    refine Text.indent_of_blank_append hfront ?_
    rw [List.head?_append_of_ne_nil _ htext]
    exact hsolid.1
  have hgapIndent : Text.indent remainder = Text.byteLength gap := by
    rw [hremainder]
    exact Text.indent_of_blank_append hgap hhead
  refine ⟨front, gap, back, hfront, hgap, ?_, ?_, fun c hc => ⟨hhead c hc, ?_⟩⟩
  · rw [htrim, hremainder] at heq
    simpa using heq
  · rw [hindent, hgapIndent, Text.byteLength_append, Text.byteLength_append]
  · rintro rfl
    have hstop := List.head?_dropWhile_not isNameChar (Text.trim text)
    rw [show (Text.trim text).dropWhile isNameChar = Text.trimStart remainder
      from hremainder, Option.mem_def.mp hc] at hstop
    simpa [isNameChar, hhead c hc] using hstop

theorem not_mem_of_blank (hlead : Text.Blank lead) : '(' ∉ lead :=
  fun hmem => ne_marks_of_isBlank (hlead '(' hmem) (by simp)

/-- What stands behind the arguments does not belong there. -/
theorem showsIn_of_behind {front raw behind : List Char} (hfront : '(' ∉ front)
    (hraw : Balanced raw) (hbehind : Text.trim behind ≠ [])
    (rest : List Char) :
    Fault.textAfterArguments.ShowsIn opening
      (front ++ '(' :: raw ++ ')' :: (behind ++ rest))
      (insideBraces opening front + 1 + Text.byteLength raw + 1 +
        Text.indent behind) := by
  obtain ⟨gap, c, after, rfl, hgap, hc, hindent⟩ :=
    Text.exists_of_trim_ne_nil hbehind
  have hmarks : '('.utf8Size = 1 ∧ ')'.utf8Size = 1 := by decide
  refine ⟨front, raw, gap, c, after ++ rest, by simp, hfront, hraw, hgap, hc,
    ?_⟩
  simp only [insideBraces, Text.byteLength_append, Text.byteLength_cons, hmarks,
    hindent]
  omega

/-- A blank function is missing in front of a bar only, since what stands
between the braces does not end with a blank. -/
theorem showsIn_of_readFunction {rest : List Char} (hlead : Text.Blank lead)
    (hread : readFunction opening (insideBraces opening lead) text = .error e)
    (hbar : Text.Blank text → ∃ back, rest = '|' :: back) :
    e.fault.ShowsIn opening (lead ++ text ++ rest) e.position := by
  simp only [readFunction] at hread
  split at hread
  · rename_i hempty
    cases hread
    have hblank : Text.Blank text :=
      Text.trim_eq_nil_iff.mp (List.isEmpty_iff.mp hempty)
    obtain ⟨back, rfl⟩ := hbar hblank
    refine ⟨lead ++ text, back, rfl, hlead.append hblank, ?_⟩
    rw [insideBraces_append, Text.indent_of_blank hblank]
  · rename_i hnonempty
    obtain ⟨front, gap, back, hfront, hgap, htext, hstart, hhead⟩ :=
      exists_name_split (by simpa using hnonempty)
    have hname : ∀ d ∈ (Text.trim text).takeWhile isNameChar, isNameChar d :=
      fun d hd => List.mem_takeWhile_imp hd
    generalize (Text.trim text).takeWhile isNameChar = name at *
    generalize (Text.trim text).dropWhile isNameChar = remainder at *
    rw [Nat.add_assoc, Nat.add_assoc, ← Nat.add_assoc (Text.indent text),
      hstart, ← insideBraces_append] at hread
    split at hread
    · cases hread
    · rename_i c inside hrest
      obtain ⟨hc, hgapless⟩ := hhead c (by rw [hrest]; rfl)
      rw [hrest] at htext
      split at hread
      · rename_i hopen
        cases hread
        refine ⟨lead ++ front, gap, c, inside ++ back ++ rest, ?_,
          hlead.append hfront, ?_, hgap, ?_, hc, hopen, ?_⟩
        · simp [htext]
        · simpa using hname
        · exact fun hnil => hopen (hgapless hnil)
        · simp
      · rename_i hopen
        obtain rfl : c = '(' := not_not.mp hopen
        split at hread
        · rename_i hsplit
          cases hread
          refine ⟨.inr ⟨lead ++ front ++ name ++ gap, inside, back ++ rest, ?_,
            not_balanced_of_splitArgument hsplit⟩, rfl⟩
          simp [htext]
        · rename_i raw behind hsplit
          split at hread
          · cases hread
          · rename_i hbehind
            cases hread
            obtain ⟨rfl, hrun⟩ :=
              eq_of_splitArgument (by simp [Nesting.Tidy]) hsplit
            have hfront : '(' ∉ lead ++ (front ++ name ++ gap) := by
              have hlead := not_mem_of_blank hlead
              have hfront := not_mem_of_blank hfront
              have hgap := not_mem_of_blank hgap
              have hname : '(' ∉ name :=
                fun hmem => absurd (hname '(' hmem) (by decide)
              simp [hlead, hfront, hgap, hname]
            have hshows : Fault.ShowsIn opening _ _ .textAfterArguments :=
              showsIn_of_behind hfront (balanced_of_run? hrun)
                (by simpa using hbehind) (back ++ rest)
            simpa [htext] using hshows

theorem showsIn_of_readScope {word : List Char} (htrail : Text.Blank trail)
    {front : List Char}
    (hread : readScope (some (insideBraces opening (front ++ ['|']), word)) =
      .error e) :
    e.fault.ShowsIn opening (front ++ '|' :: (word ++ trail)) e.position := by
  have htrim := Text.trim_append_of_blank word htrail
  simp only [readScope] at hread
  split at hread
  · rename_i hempty
    cases hread
    refine ⟨front, word ++ trail, rfl, ?_, rfl⟩
    rw [← Text.trim_eq_nil_iff, htrim]
    simpa using hempty
  · split at hread
    · cases hread
    · rename_i hname
      cases hread
      refine ⟨front, word ++ trail, rfl, ?_, hname, rfl⟩
      rw [htrim, String.toList_ofList]

theorem showsIn_of_read {inner : List Char}
    (hread : read opening inner = .error e) :
    e.fault.ShowsIn opening inner e.position := by
  by_cases hinner : Text.trim inner = []
  · simp only [read, hinner, List.isEmpty_nil, if_true] at hread
    cases hread
    exact ⟨Text.trim_eq_nil_iff.mp hinner, rfl⟩
  · obtain ⟨lead, trail, hlead, htrail, heq, hsolid⟩ :=
      Text.exists_eq_trim inner
    have hindent : Text.indent inner = Text.byteLength lead := by
      rw [heq, List.append_assoc]
      refine Text.indent_of_blank_append hlead ?_
      rw [List.head?_append_of_ne_nil _ hinner]
      exact hsolid.1
    have hposition : opening + 2 + Text.indent inner =
        insideBraces opening lead := congrArg (opening + 2 + ·) hindent
    rw [read_eq_bind hinner, hposition] at hread
    rcases bind_eq_error_iff.mp hread with hsplit |
      ⟨⟨call, scope⟩, hsplit, hread⟩
    · rw [heq]
      exact showsIn_of_splitScope hlead htrail hsplit
    have htext := eq_of_splitScope hsplit
    have hwhole : lead ++ Text.trim inner ++ trail = inner := heq.symm
    rw [htext] at hwhole
    cases scope with
    | none =>
        simp only [Option.elim, List.append_nil] at htext hwhole
        rw [htext] at hsolid hinner
        rcases bind_eq_error_iff.mp hread with hread | ⟨function, -, hread⟩
        · rw [← hwhole]
          refine showsIn_of_readFunction hlead hread fun hblank => ?_
          have hsolid : Text.Solid ([] ++ call) := hsolid
          exact absurd (hsolid.eq_nil_of_append_blank hblank) hinner
        · cases map_eq_error_iff.mp hread
    | some found =>
        obtain ⟨start, word⟩ := found
        simp only [Option.elim] at htext hwhole
        have hrest : inner = lead ++ call ++ '|' :: (word ++ trail) := by
          simp [← hwhole]
        rw [hrest]
        rcases bind_eq_error_iff.mp hread with hread | ⟨function, -, hread⟩
        · exact showsIn_of_readFunction hlead hread fun _ => ⟨_, rfl⟩
        · have hscope := map_eq_error_iff.mp hread
          simp only [position_of_splitScope hsplit] at hscope
          rw [← insideBraces_append, ← List.append_assoc] at hscope
          exact showsIn_of_readScope htrail hscope

end ShowsIn

end Call

/-- The fault shows at a character from the opening braces to the closing
ones. -/
theorem Fault.ShowsIn.exists_split {fault : Fault} {opening position : Nat}
    {inner : List Char} (hshows : fault.ShowsIn opening inner position) :
    ∃ front back, '{' :: '{' :: inner = front ++ back ∧
      position = opening + Text.byteLength front := by
  have hinside : ∀ front back, inner = front ++ back →
      ∃ front' back', '{' :: '{' :: inner = front' ++ back' ∧
        insideBraces opening front = opening + Text.byteLength front' := by
    rintro front back rfl
    have hbrace : '{'.utf8Size = 1 := by decide
    refine ⟨'{' :: '{' :: front, back, rfl, ?_⟩
    simp only [insideBraces, Text.byteLength_cons, hbrace]
    omega
  cases fault with
  | emptyPlaceholder =>
      obtain ⟨-, rfl⟩ := hshows
      exact hinside [] inner rfl
  | missingFunction =>
      obtain ⟨lead, back, hinner, -, rfl⟩ := hshows
      exact hinside _ _ hinner
  | textAfterFunction name =>
      obtain ⟨lead, gap, c, back, hinner, -, -, -, -, -, -, rfl⟩ := hshows
      exact hinside _ _ hinner
  | textAfterArguments =>
      obtain ⟨front, raw, gap, c, back, hinner, -, -, -, -, rfl⟩ := hshows
      exact hinside _ _ hinner
  | missingClosingParenthesis =>
      obtain ⟨-, rfl⟩ := hshows
      exact ⟨[], _, rfl, rfl⟩
  | unexpectedClosingParenthesis =>
      obtain ⟨front, back, hinner, -, rfl⟩ := hshows
      exact hinside _ _ hinner
  | unterminatedQuote =>
      obtain ⟨-, rfl⟩ := hshows
      exact ⟨[], _, rfl, rfl⟩
  | missingClosingBraces => exact hshows.elim
  | emptyScope =>
      obtain ⟨front, back, hinner, -, rfl⟩ := hshows
      exact hinside _ _ (hinner.trans (List.append_cons front '|' back))
  | unknownScope name =>
      obtain ⟨front, back, hinner, -, -, rfl⟩ := hshows
      exact hinside _ _ (hinner.trans (List.append_cons front '|' back))

namespace Template

theorem behindBraces_add (position : Nat) (before inner rest : List Char) :
    behindBraces (position + Text.byteLength before) inner +
        Text.byteLength rest =
      position + Text.byteLength
        (before ++ '{' :: '{' :: (inner ++ '}' :: '}' :: rest)) := by
  rw [behindBraces_eq]
  simp only [Text.byteLength_append, Text.byteLength_cons, Text.byteLength_nil]
  omega

/-- A template that cannot be read is well-formed up to a placeholder that does
not end or cannot be read. -/
theorem cases_of_readFrom_error {position : Nat} {text : List Char}
    {e : Located} (hread : readFrom position text = .error e) :
    ∃ front inside template, text = front ++ '{' :: '{' :: inside ∧
      readFrom position front = .ok template ∧
      ¬ HasPair '{' (template.rest ++ ['{']) ∧
      ((e = ⟨position + Text.byteLength text, .missingClosingBraces⟩ ∧
          ¬ HasPair '}' inside) ∨
        ∃ inner behind, inside = inner ++ '}' :: '}' :: behind ∧
          ¬ HasPair '}' (inner ++ ['}']) ∧
          Call.read (position + Text.byteLength front) inner = .error e) := by
  induction text using braces_induction generalizing position with
  | literal text hliteral =>
      rw [readFrom_literal hliteral] at hread
      cases hread
  | unclosed before inside hbefore hinside =>
      rw [readFrom_unclosed hbefore hinside] at hread
      cases hread
      have hliteral := readFrom_literal (HasPair.not_of_append hbefore) position
      exact ⟨before, inside, _, rfl, hliteral, hbefore, .inl ⟨rfl, hinside⟩⟩
  | placeholder before inner behind hbefore hinner ih =>
      have hliteral := readFrom_literal (HasPair.not_of_append hbefore) position
      rw [readFrom_placeholder hbefore hinner] at hread
      rcases bind_eq_error_iff.mp hread with hcall | ⟨call, hcall, hread⟩
      · exact ⟨before, _, _, rfl, hliteral, hbefore,
          .inr ⟨inner, behind, rfl, hinner, hcall⟩⟩
      · obtain ⟨front, inside, template, rfl, hfront, hrest, hfault⟩ :=
          ih (map_eq_error_iff.mp hread)
        have hread : readFrom position
            (before ++ '{' :: '{' :: (inner ++ '}' :: '}' :: front)) =
              .ok ⟨(before, ⟨call, position + Text.byteLength before,
                behindBraces (position + Text.byteLength before) inner⟩) ::
                  template.parts, template.rest⟩ := by
          rw [readFrom_placeholder hbefore hinner, hcall]
          simp [Except.bind, Except.map, hfront]
        rw [behindBraces_add, behindBraces_add] at hfault
        exact ⟨_, inside, _, by simp, hread, hrest, hfault⟩

theorem readFrom_of_parse_error {text : String} {e : MalformedTemplate}
    (hparse : parse text = .error e) :
    readFrom 0 text.toList = .error ⟨e.position, e.fault⟩ ∧
      e.template = text := by
  unfold parse at hparse
  split at hparse
  · cases hparse
  · rename_i hread
    cases hparse
    exact ⟨hread, rfl⟩

theorem parse_of_readFrom {text : List Char} {template : Template}
    (hread : readFrom 0 text = .ok template) :
    parse (String.ofList text) = .ok template := by
  rw [parse, String.toList_ofList, hread]

/-- A template is malformed because of its first placeholder that is: either its
braces are not closed, which shows at the end of the template, or it cannot be
read, and that shows at the character that is wrong from its opening to its
first closing braces. -/
theorem malformed_at_first_fault {text : String} {e : MalformedTemplate}
    (herror : parse text = .error e) :
    e.template = text ∧ e.position ≤ Text.byteLength text.toList ∧
    Text.IsBoundary e.position text.toList ∧
    ∃ front inside template, text.toList = front ++ '{' :: '{' :: inside ∧
      parse (String.ofList front) = .ok template ∧
      ¬ HasPair '{' (template.rest ++ ['{']) ∧
      ((e.fault = .missingClosingBraces ∧
          e.position = Text.byteLength text.toList ∧ ¬ HasPair '}' inside) ∨
        ∃ inner behind start close,
          inside = inner ++ '}' :: '}' :: behind ∧
          ¬ HasPair '}' (inner ++ ['}']) ∧
          start = Text.byteLength front ∧
          close = Text.byteLength (front ++ '{' :: '{' :: inner) ∧
          Call.read start inner = .error ⟨e.position, e.fault⟩ ∧
          start ≤ e.position ∧ e.position ≤ close ∧
          e.fault.ShowsIn start inner e.position) := by
  obtain ⟨hread, htemplate⟩ := readFrom_of_parse_error herror
  obtain ⟨front, inside, template, htext, hfront, hrest, hfault⟩ :=
    cases_of_readFrom_error hread
  have hparse := parse_of_readFrom hfront
  rw [Nat.zero_add, Nat.zero_add] at hfault
  rcases hfault with ⟨hend, hinside⟩ | ⟨inner, behind, rfl, hinner, hcall⟩
  · obtain ⟨hposition, hfault⟩ := Located.mk.inj hend
    have hboundary : Text.IsBoundary e.position text.toList :=
      ⟨text.toList, [], (List.append_nil _).symm, hposition.symm⟩
    exact ⟨htemplate, hboundary.le, hboundary, front, inside, template, htext,
      hparse, hrest, .inl ⟨hfault, hposition, hinside⟩⟩
  · have hshows : e.fault.ShowsIn (Text.byteLength front) inner e.position :=
      Call.showsIn_of_read hcall
    obtain ⟨before, after, hsplit, hposition⟩ := hshows.exists_split
    have hboundary : Text.IsBoundary e.position text.toList := by
      refine ⟨front ++ before, after ++ '}' :: '}' :: behind, ?_, ?_⟩
      · have hbraces : '{' :: '{' :: (inner ++ '}' :: '}' :: behind) =
            before ++ (after ++ '}' :: '}' :: behind) := by
          rw [← List.append_assoc, ← hsplit]
          rfl
        rw [htext, hbraces, List.append_assoc]
      · rw [Text.byteLength_append]
        exact hposition.symm
    refine ⟨htemplate, hboundary.le, hboundary, front, _, template, htext,
      hparse, hrest, .inr ⟨inner, behind, _, _, rfl, hinner, rfl, rfl, hcall,
        ?_, ?_, hshows⟩⟩
    · rw [hposition]
      exact Nat.le_add_right _ _
    · rw [hposition, hsplit, Text.byteLength_append, Text.byteLength_append]
      omega

namespace FaultWitness

/-- Behind a placeholder that is well-formed and a character of two bytes. -/
def order : String :=
  "\x7b\x7buuid\x7d\x7dé\x7b\x7b any('\x7d') x | local \x7d\x7d"

theorem order_malformed :
    parse order = .error ⟨order, 22, .textAfterArguments⟩ ∧
      Text.IsBoundary 22 order.toList ∧
      ∃ start inner, start ≤ 22 ∧
        Fault.ShowsIn start inner 22 .textAfterArguments := by
  have herror : parse order = .error ⟨order, 22, .textAfterArguments⟩ := by
    decide +kernel
  obtain ⟨-, -, hboundary, -, -, -, -, -, -, ⟨hfault, -⟩ |
    ⟨inner, -, start, -, -, -, -, -, -, hstart, -, hshows⟩⟩ :=
      malformed_at_first_fault herror
  · cases hfault
  · exact ⟨herror, hboundary, start, inner, hstart, hshows⟩

end FaultWitness

end Template

end Specimen
