/-
The text between the parentheses of a placeholder.  It is balanced when its
quotes end and when the parentheses outside quotes close in pairs, which is said
by counting, without the states of the reader.  The reader's tracking succeeds
on balanced text alone, and both of its scanners go through such text: the one
for the closing parenthesis always, the one for the bar of a scope unless there
is a bar outside quotes.
-/
import Mathlib.Data.List.Basic
import Specimen.Template.Placeholder

namespace Specimen

/-- The characters outside quotes, if every quote ends; `quote` is the one that
is open at the start.  A backslash inside quotes protects the next character. -/
def unquoted? : (quote : Option Char) → List Char → Option (List Char)
  | none, [] => some []
  | none, c :: rest =>
    if c = '\'' ∨ c = '"' then unquoted? (some c) rest
    else (unquoted? none rest).map (c :: ·)
  | some _, [] => none
  | some _, ['\\'] => none
  | some q, '\\' :: _ :: rest => unquoted? (some q) rest
  | some q, c :: rest =>
    if c = q then unquoted? none rest else unquoted? (some q) rest

/-- Behind every beginning of the text at most `depth` more parentheses are
closed than opened. -/
def StaysOpen (depth : Nat) (text : List Char) : Prop :=
  ∀ start, start <+: text → start.count ')' ≤ depth + start.count '('

/-- The quotes of the text end, and its parentheses outside quotes close in
pairs. -/
def Balanced (text : List Char) : Prop :=
  ∃ bare, unquoted? none text = some bare ∧ StaysOpen 0 bare ∧
    bare.count '(' = bare.count ')'

/-- There is a bar outside quotes. -/
def HasBareBar (text : List Char) : Prop :=
  ∃ bare, unquoted? none text = some bare ∧ '|' ∈ bare

theorem unquoted?_eq_self {text : List Char}
    (hplain : ∀ c ∈ text, c ≠ '\'' ∧ c ≠ '"') :
    unquoted? none text = some text := by
  induction text with
  | nil => rfl
  | cons c text ih =>
      obtain ⟨hc, hrest⟩ := List.forall_mem_cons.mp hplain
      simp [unquoted?, hc.1, hc.2, ih hrest]

/-- Without parentheses outside quotes there is nothing to close. -/
theorem balanced_of_bare {text bare : List Char}
    (hbare : unquoted? none text = some bare) (hopens : '(' ∉ bare)
    (hcloses : ')' ∉ bare) : Balanced text := by
  refine ⟨bare, hbare, ?_, ?_⟩
  · intro start hstart
    have hcount := hstart.sublist.count_le ')'
    rw [List.count_eq_zero.mpr hcloses] at hcount
    omega
  · rw [List.count_eq_zero.mpr hopens, List.count_eq_zero.mpr hcloses]

theorem unquoted?_inside {q c : Char} (hplain : c ≠ '\\') (rest : List Char) :
    unquoted? (some q) (c :: rest) =
      if c = q then unquoted? none rest else unquoted? (some q) rest := by
  simp [unquoted?, hplain]

theorem ne_backslash {c : Char} {rest : List Char}
    (hlast : c = '\\' → rest = [] → False)
    (hescape : ∀ d tail, c = '\\' → rest = d :: tail → False) : c ≠ '\\' := by
  intro hc
  cases rest with
  | nil => exact hlast hc rfl
  | cons d tail => exact hescape d tail hc rfl

/-- The first of the bars outside quotes. -/
theorem exists_first_bar {quote : Option Char} {text bare : List Char}
    (hbare : unquoted? quote text = some bare) (hbar : '|' ∈ bare) :
    ∃ front back bareFront, text = front ++ '|' :: back ∧
      unquoted? quote front = some bareFront ∧ '|' ∉ bareFront ∧
      bareFront <+: bare := by
  fun_induction unquoted? quote text generalizing bare with
  | case1 => simp_all
  | case2 c rest hquote ih =>
      obtain ⟨front, back, bareFront, rfl, hfront, hfirst⟩ := ih hbare hbar
      exact ⟨c :: front, back, bareFront, rfl, by simpa [unquoted?, hquote],
        hfirst⟩
  | case3 c rest hquote ih =>
      obtain ⟨bare, hrest, rfl⟩ := Option.map_eq_some_iff.mp hbare
      by_cases hc : c = '|'
      · exact ⟨[], rest, [], by rw [hc]; rfl, rfl, by simp, by simp⟩
      · obtain ⟨front, back, bareFront, rfl, hfront, hfirst, hprefix⟩ :=
          ih hrest ((List.mem_cons.mp hbar).resolve_left (Ne.symm hc))
        refine ⟨c :: front, back, c :: bareFront, rfl, ?_, ?_, ?_⟩
        · simp [unquoted?, hquote, hfront]
        · simp [hfirst, Ne.symm hc]
        · simpa using hprefix
  | case4 q => simp at hbare
  | case5 q => simp at hbare
  | case6 q c rest ih =>
      obtain ⟨front, back, bareFront, rfl, hfront, hfirst⟩ := ih hbare hbar
      exact ⟨'\\' :: c :: front, back, bareFront, rfl, hfront, hfirst⟩
  | case7 c rest hlast hescape ih =>
      obtain ⟨front, back, bareFront, rfl, hfront, hfirst⟩ := ih hbare hbar
      refine ⟨c :: front, back, bareFront, rfl, ?_, hfirst⟩
      simpa [unquoted?_inside (ne_backslash hlast hescape)]
  | case8 q c rest hlast hescape hclose ih =>
      obtain ⟨front, back, bareFront, rfl, hfront, hfirst⟩ := ih hbare hbar
      refine ⟨c :: front, back, bareFront, rfl, ?_, hfirst⟩
      simpa [unquoted?_inside (ne_backslash hlast hescape), hclose]

/-- How many parentheses are open behind one more character outside quotes. -/
def depthBehind (depth : Nat) (c : Char) : Nat :=
  if c = '(' then depth + 1 else if c = ')' then depth - 1 else depth

/-- The parentheses of the text lead from one depth to the other. -/
theorem leads_cons_iff {depth left : Nat} {c : Char} {text : List Char}
    (hfirst : c = ')' → 0 < depth) :
    left + (c :: text).count ')' = depth + (c :: text).count '(' ↔
      left + text.count ')' = depthBehind depth c + text.count '(' := by
  simp only [List.count_cons, beq_iff_eq, depthBehind]
  split_ifs <;> simp_all <;> omega

namespace StaysOpen

variable {depth : Nat} {text : List Char}

theorem nil : StaysOpen depth [] := by
  intro start hstart
  simp [List.prefix_nil.mp hstart]

theorem cons_iff {c : Char} :
    StaysOpen depth (c :: text) ↔
      (c = ')' → 0 < depth) ∧ StaysOpen (depthBehind depth c) text := by
  unfold depthBehind
  constructor
  · intro hopen
    have hfirst : c = ')' → 0 < depth := by
      rintro rfl
      have := hopen [')'] (by simp)
      simp at this
      omega
    refine ⟨hfirst, ?_⟩
    intro start hstart
    have hcount := hopen (c :: start) (by simpa using hstart)
    simp only [List.count_cons, beq_iff_eq] at hcount
    split_ifs at hcount ⊢ <;> simp_all <;> omega
  · rintro ⟨hfirst, hrest⟩ start hstart
    rcases List.prefix_cons_iff.mp hstart with rfl | ⟨tail, rfl, htail⟩
    · simp
    · have hcount := hrest tail htail
      simp only [List.count_cons, beq_iff_eq]
      split_ifs at hcount ⊢ <;> simp_all <;> omega

theorem mono {more : Nat} (hopen : StaysOpen depth text)
    (hmore : depth ≤ more) :
    StaysOpen more text := by
  intro start hstart
  have hcount := hopen start hstart
  omega

end StaysOpen

namespace Nesting

/-- What is open behind a text; nothing if it closes a parenthesis that is not
open. -/
def run? (s : Nesting) (text : List Char) : Option Nesting :=
  text.foldlM step s

@[simp] theorem run?_nil (s : Nesting) : s.run? [] = some s := rfl

@[simp] theorem run?_cons (s : Nesting) (c : Char) (text : List Char) :
    s.run? (c :: text) = (s.step c).bind (·.run? text) := rfl

/-- Outside quotes only parentheses matter, and only one that closes too much is
refused. -/
theorem step_outside {depth : Nat} {c : Char}
    (hquote : ¬ (c = '\'' ∨ c = '"')) :
    step ⟨depth, none, false⟩ c =
      if c = ')' ∧ depth = 0 then none
      else some ⟨depthBehind depth c, none, false⟩ := by
  simp only [step, depthBehind]
  split_ifs <;> simp_all

/-- The tracking of the reader, with `quote` open at the start, ends outside
quotes with `left` parentheses open exactly behind the texts whose quotes end
and whose parentheses outside quotes count so. -/
theorem run?_eq_some_iff (quote : Option Char) (text : List Char)
    (depth left : Nat) :
    run? ⟨depth, quote, false⟩ text = some ⟨left, none, false⟩ ↔
      ∃ bare, unquoted? quote text = some bare ∧ StaysOpen depth bare ∧
        left + bare.count ')' = depth + bare.count '(' := by
  fun_induction unquoted? quote text generalizing depth with
  | case1 => simp [StaysOpen.nil, eq_comm]
  | case2 c rest hquote ih => simp [step, hquote, ih]
  | case3 c rest hquote ih =>
      by_cases hclose : c = ')' ∧ depth = 0
      · obtain ⟨rfl, rfl⟩ := hclose
        simp [step, StaysOpen.cons_iff]
      · have hfirst : c = ')' → 0 < depth := by
          intro hc
          exact Nat.pos_of_ne_zero fun hzero => hclose ⟨hc, hzero⟩
        have hopen : ∀ bare, StaysOpen depth (c :: bare) ↔
            StaysOpen (depthBehind depth c) bare := by
          intro bare
          rw [StaysOpen.cons_iff, and_iff_right hfirst]
        simp [step_outside hquote, hclose, ih, hopen, leads_cons_iff hfirst]
  | case4 q => simp
  | case5 q => simp [step]
  | case6 q c rest ih => simp [step, ih]
  | case7 c rest hlast hescape ih =>
      simp [step, ne_backslash hlast hescape, ih]
  | case8 q c rest hlast hescape hclose ih =>
      simp [step, ne_backslash hlast hescape, hclose, ih]

/-- Inside balanced text the reader comes back to the depth it started from. -/
theorem run?_of_balanced {text : List Char} (hbalanced : Balanced text)
    (depth : Nat) :
    run? ⟨depth, none, false⟩ text = some ⟨depth, none, false⟩ := by
  obtain ⟨bare, hbare, hopen, hcount⟩ := hbalanced
  rw [run?_eq_some_iff]
  exact ⟨bare, hbare, hopen.mono (Nat.zero_le depth), by rw [hcount]⟩

theorem balanced_of_run? {text : List Char}
    (hrun : run? {} text = some ⟨0, none, false⟩) : Balanced text := by
  obtain ⟨bare, hbare, hopen, hcount⟩ :=
    (run?_eq_some_iff none text 0 0).mp hrun
  exact ⟨bare, hbare, hopen, by omega⟩

/-- Nothing is protected outside quotes. -/
def Tidy (s : Nesting) : Prop :=
  s.quote = none → s.escaped = false

theorem Tidy.step {s t : Nesting} {c : Char} (htidy : s.Tidy)
    (hstep : s.step c = some t) : t.Tidy := by
  intro hquote
  rcases s with ⟨depth, quote, escaped⟩
  cases quote with
  | none =>
      obtain rfl : escaped = false := htidy rfl
      simp only [Nesting.step] at hstep
      split_ifs at hstep <;> cases hstep <;> rfl
  | some q =>
      simp only [Nesting.step] at hstep
      split_ifs at hstep with hescaped hbackslash hcloses <;> cases hstep
      · cases hquote
      · cases hquote
      · simpa using hescaped
      · cases hquote

theorem step_eq_none_iff {s : Nesting} {c : Char} :
    s.step c = none ↔ s.quote = none ∧ c = ')' ∧ s.depth = 0 := by
  unfold step
  split <;> split_ifs <;> simp_all
  rename_i hquote
  rcases hquote with rfl | rfl <;> simp

end Nesting

namespace Call

open Nesting

/-- The reader of arguments goes on through all that it can follow. -/
theorem splitArgument_append {s t : Nesting} {text : List Char}
    (hrun : s.run? text = some t) (rest : List Char) :
    splitArgument s (text ++ rest) =
      (splitArgument t rest).map fun found => (text ++ found.1, found.2) := by
  induction text generalizing s with
  | nil =>
      obtain rfl : s = t := by simpa using hrun
      simp
  | cons c text ih =>
      rw [run?_cons, Option.bind_eq_some_iff] at hrun
      obtain ⟨u, hstep, hrest⟩ := hrun
      have hstay : ¬ (s.quote = none ∧ c = ')' ∧ s.depth = 0) := by
        rw [← step_eq_none_iff, hstep]
        simp
      simp [splitArgument, hstay, hstep, ih hrest, Function.comp_def]

/-- An argument ends at a parenthesis outside quotes where no other is open. -/
theorem eq_of_splitArgument {s : Nesting} {text argument behind : List Char}
    (htidy : s.Tidy)
    (hsplit : splitArgument s text = some (argument, behind)) :
    text = argument ++ ')' :: behind ∧
      s.run? argument = some ⟨0, none, false⟩ := by
  induction text generalizing s argument with
  | nil => simp [splitArgument] at hsplit
  | cons c text ih =>
      rw [splitArgument] at hsplit
      split at hsplit
      · rename_i hends
        obtain ⟨rfl, rfl⟩ : [] = argument ∧ text = behind := by
          simpa using hsplit
        obtain ⟨hquote, rfl, hdepth⟩ := hends
        have hescaped := htidy hquote
        cases s
        simp_all
      · split at hsplit
        · simp at hsplit
        · rename_i u hstep
          obtain ⟨⟨front, back⟩, hfound, heq⟩ :=
            Option.map_eq_some_iff.mp hsplit
          obtain ⟨rfl, rfl⟩ : c :: front = argument ∧ back = behind := by
            simpa using heq
          obtain ⟨htext, hrun⟩ := ih (htidy.step hstep) hfound
          refine ⟨by rw [htext]; rfl, ?_⟩
          rw [run?_cons, hstep]
          exact hrun

/-- The reader of scopes takes the text, from one state to the other, for a part
of the call. -/
def Passes (s t : Nesting) (text : List Char) : Prop :=
  ∀ opening position rest,
    splitScope opening position s (text ++ rest) =
      (splitScope opening (position + Text.byteLength text) t rest).map
        fun found => (text ++ found.1, found.2)

namespace Passes

variable {s t u : Nesting} {c : Char} {text : List Char}

theorem nil : Passes s s [] := by
  intro opening position rest
  cases hsplit : splitScope opening position s rest <;>
    simp [hsplit, Except.map]

theorem cons (hbar : s.quote = none → c ≠ '|') (hstep : s.step c = some u)
    (hpass : Passes u t text) : Passes s t (c :: text) := by
  intro opening position rest
  have hcall : ¬ (s.quote = none ∧ c = '|') := by
    rintro ⟨hquote, hc⟩
    exact hbar hquote hc
  rw [List.cons_append, splitScope, if_neg hcall, hstep, Text.byteLength_cons,
    ← Nat.add_assoc]
  simp only [hpass opening (position + c.utf8Size) rest]
  cases splitScope opening
    (position + c.utf8Size + Text.byteLength text) t rest <;>
    rfl

theorem append {front : List Char} (hfront : Passes s u front)
    (htext : Passes u t text) : Passes s t (front ++ text) := by
  intro opening position rest
  rw [List.append_assoc, hfront, htext, Text.byteLength_append, ← Nat.add_assoc]
  cases splitScope opening
      (position + Text.byteLength front + Text.byteLength text) t rest with
  | error e => rfl
  | ok found => simp [Except.map]

end Passes

/-- Text whose quotes end passes, if no bar stands outside them. -/
theorem passes_of_unquoted {quote : Option Char} {depth : Nat} {t : Nesting}
    {text bare : List Char} (hbare : unquoted? quote text = some bare)
    (hbar : '|' ∉ bare) (hrun : run? ⟨depth, quote, false⟩ text = some t) :
    Passes ⟨depth, quote, false⟩ t text := by
  fun_induction unquoted? quote text generalizing depth bare with
  | case1 =>
      obtain rfl : Nesting.mk depth none false = t := by simpa using hrun
      exact .nil
  | case2 c rest hquote ih =>
      have hstep : step ⟨depth, none, false⟩ c =
          some ⟨depth, some c, false⟩ := by
        simp [step, hquote]
      refine .cons ?_ hstep (ih hbare hbar ?_)
      · rintro - rfl
        simp at hquote
      · simpa [hstep] using hrun
  | case3 c rest hquote ih =>
      obtain ⟨bare, hrest, rfl⟩ := Option.map_eq_some_iff.mp hbare
      rw [List.mem_cons, not_or] at hbar
      by_cases hclose : c = ')' ∧ depth = 0
      · obtain ⟨rfl, rfl⟩ := hclose
        simp [step] at hrun
      · have hstep : step ⟨depth, none, false⟩ c =
            some ⟨depthBehind depth c, none, false⟩ := by
          rw [step_outside hquote, if_neg hclose]
        refine .cons ?_ hstep (ih hrest hbar.2 ?_)
        · rintro - rfl
          exact hbar.1 rfl
        · simpa [hstep] using hrun
  | case4 q => simp at hbare
  | case5 q => simp at hbare
  | case6 q c rest ih =>
      refine .cons (by simp) rfl (.cons (by simp) rfl (ih hbare hbar ?_))
      simpa [step] using hrun
  | case7 c rest hlast hescape ih =>
      have hstep : step ⟨depth, some c, false⟩ c =
          some ⟨depth, none, false⟩ := by
        simp [step, ne_backslash hlast hescape]
      refine .cons (by simp) hstep (ih hbare hbar ?_)
      simpa [hstep] using hrun
  | case8 q c rest hlast hescape hclose ih =>
      have hstep : step ⟨depth, some q, false⟩ c =
          some ⟨depth, some q, false⟩ := by
        simp [step, ne_backslash hlast hescape, hclose]
      refine .cons (by simp) hstep (ih hbare hbar ?_)
      simpa [hstep] using hrun

/-- A bar outside quotes, but between parentheses, ends the reading of the
call. -/
theorem splitScope_of_hasBareBar {text : List Char} (hbalanced : Balanced text)
    (hbar : HasBareBar text) (opening position depth : Nat) (rest : List Char) :
    splitScope opening position ⟨depth + 1, none, false⟩ (text ++ rest) =
      .error ⟨opening, .missingClosingParenthesis⟩ := by
  obtain ⟨bare, hbare, hopen, -⟩ := hbalanced
  obtain ⟨bare', hbare', hmem⟩ := hbar
  obtain rfl : bare = bare' := Option.some.inj (hbare.symm.trans hbare')
  obtain ⟨front, back, bareFront, rfl, hfront, hfirst, hprefix⟩ :=
    exists_first_bar hbare hmem
  have hcount := hopen bareFront hprefix
  obtain ⟨left, hleft⟩ :
      ∃ left, left + 1 + bareFront.count ')' =
        depth + 1 + bareFront.count '(' :=
    ⟨depth + bareFront.count '(' - bareFront.count ')', by omega⟩
  have hstays : StaysOpen (depth + 1) bareFront := by
    intro start hstart
    have := hopen start (hstart.trans hprefix)
    omega
  have hrun : run? ⟨depth + 1, none, false⟩ front =
      some ⟨left + 1, none, false⟩ :=
    (run?_eq_some_iff none front (depth + 1) (left + 1)).mpr
      ⟨bareFront, hfront, hstays, hleft⟩
  rw [List.append_assoc, passes_of_unquoted hfront hfirst hrun]
  simp [splitScope, openFault?, Except.map]

/-- The bar that ends a call is the only thing that the reader of scopes leaves
out. -/
theorem eq_of_splitScope {opening position : Nat} {s : Nesting}
    {text call : List Char} {scope : Option (Nat × List Char)}
    (hsplit : splitScope opening position s text = .ok (call, scope)) :
    text = call ++ scope.elim [] fun found => '|' :: found.2 := by
  induction text generalizing position s call with
  | nil =>
      rw [splitScope] at hsplit
      split at hsplit
      · simp at hsplit
      · obtain ⟨rfl, rfl⟩ : [] = call ∧ none = scope := by simpa using hsplit
        rfl
  | cons c text ih =>
      rw [splitScope] at hsplit
      split at hsplit
      · rename_i hends
        split at hsplit
        · simp at hsplit
        · obtain ⟨rfl, rfl⟩ : [] = call ∧
              some (position + 1, text) = scope := by
            simpa using hsplit
          simp [hends.2]
      · split at hsplit
        · simp at hsplit
        · rename_i u hstep
          cases hrest : splitScope opening (position + c.utf8Size) u text with
          | error e => simp [hrest] at hsplit
          | ok found =>
              simp only [hrest] at hsplit
              obtain ⟨rfl, rfl⟩ : c :: found.1 = call ∧ found.2 = scope := by
                simpa using hsplit
              rw [List.cons_append, ← ih hrest]

/-- What stands between braces is split at its bar, and then both parts are
read. -/
theorem read_eq_bind {inner : List Char} (hinner : Text.trim inner ≠ [])
    (opening : Nat) :
    let position := opening + 2 + Text.indent inner
    read opening inner =
      (splitScope opening position {} (Text.trim inner)).bind fun found =>
        (readFunction opening position found.1).bind fun function =>
          (readScope found.2).map fun scope =>
            ⟨function.1, function.2, scope⟩ := by
  have hnonempty : (Text.trim inner).isEmpty = false := by simpa using hinner
  simp only [read, hnonempty]
  rfl

end Call

end Specimen
