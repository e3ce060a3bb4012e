/-
Lists of arguments.  Two scanners follow the quotes of an argument: the reader
of placeholders, for which a backslash inside quotes protects the character
behind it, and the splitter of lists, which knows no backslash.  The list is cut
at the commas outside quotes exactly if no comma stands where the two differ,
and they differ only behind a protected mark of the quote that is open.
-/
import Specimen.Proofs.TemplateSpelling
import Specimen.Template.Arguments

namespace Specimen

namespace Arguments

/-- The text is what stands before a comma between two of the pieces. -/
def Between (pieces : List (List Char)) (front : List Char) : Prop :=
  ∃ firsts others, firsts ≠ [] ∧ others ≠ [] ∧ pieces = firsts ++ others ∧
    front = [','].intercalate firsts

/-- The pieces are the text cut at exactly those commas that have the given
property, which is a property of what stands before the comma. -/
structure CutsAt (cuts : List Char → Prop) (text : List Char)
    (pieces : List (List Char)) : Prop where
  joined : [','].intercalate pieces = text
  exact : ∀ front back, text = front ++ ',' :: back →
    (cuts front ↔ Between pieces front)

/-- The quote that is open behind a text for the splitter of lists. -/
def openQuote (front : List Char) : Option Char :=
  front.foldl stepQuote none

/-- The splitter of lists and the property cut at the same commas. -/
def Undisputed (cuts : List Char → Prop) (text : List Char) : Prop :=
  ∀ front back, text = front ++ ',' :: back →
    (cuts front ↔ openQuote front = none)

theorem splitAtCommas_ne_nil (quote : Option Char) (text : List Char) :
    splitAtCommas quote text ≠ [] := by
  cases text with
  | nil => simp [splitAtCommas]
  | cons c text =>
      rw [splitAtCommas]
      split
      · simp
      · cases splitAtCommas (stepQuote quote c) text <;> simp [extendFirst]

theorem intercalate_extendFirst {pieces : List (List Char)}
    (hpieces : pieces ≠ []) (c : Char) :
    [','].intercalate (extendFirst c pieces) =
      c :: [','].intercalate pieces := by
  cases pieces with
  | nil => exact absurd rfl hpieces
  | cons first others => cases others <;> simp [extendFirst]

theorem intercalate_nil_cons {pieces : List (List Char)}
    (hpieces : pieces ≠ []) :
    [','].intercalate ([] :: pieces) = ',' :: [','].intercalate pieces := by
  cases pieces with
  | nil => exact absurd rfl hpieces
  | cons first others => simp

section Between

variable {pieces : List (List Char)} {c d : Char} {front : List Char}

theorem between_nil_cons_nil (hpieces : pieces ≠ []) :
    Between ([] :: pieces) [] :=
  ⟨[[]], pieces, by simp, hpieces, rfl, by simp⟩

theorem between_nil_cons_cons_iff :
    Between ([] :: pieces) (',' :: front) ↔ Between pieces front := by
  constructor
  · rintro ⟨firsts, others, hfirsts, hothers, hsplit, hfront⟩
    obtain ⟨first, firsts, rfl⟩ := List.exists_cons_of_ne_nil hfirsts
    obtain ⟨rfl, rfl⟩ : [] = first ∧ pieces = firsts ++ others := by
      simpa using hsplit
    have hne : firsts ≠ [] := by
      rintro rfl
      simp at hfront
    rw [intercalate_nil_cons hne] at hfront
    exact ⟨firsts, others, hne, hothers, rfl, List.tail_eq_of_cons_eq hfront⟩
  · rintro ⟨firsts, others, hfirsts, hothers, rfl, rfl⟩
    exact ⟨[] :: firsts, others, by simp, hothers, rfl,
      (intercalate_nil_cons hfirsts).symm⟩

theorem extendFirst_append {firsts : List (List Char)} (hfirsts : firsts ≠ [])
    (others : List (List Char)) :
    extendFirst c (firsts ++ others) = extendFirst c firsts ++ others := by
  cases firsts with
  | nil => exact absurd rfl hfirsts
  | cons first firsts => rfl

theorem between_extendFirst_iff :
    Between (extendFirst c pieces) front ↔
      ∃ tail, front = c :: tail ∧ Between pieces tail := by
  constructor
  · rintro ⟨firsts, others, hfirsts, hothers, hsplit, rfl⟩
    obtain ⟨first, firsts, rfl⟩ := List.exists_cons_of_ne_nil hfirsts
    cases pieces with
    | nil =>
        rw [extendFirst, List.cons_append, List.cons.injEq] at hsplit
        simp [hothers] at hsplit
    | cons piece pieces =>
        obtain ⟨rfl, rfl⟩ : c :: piece = first ∧ pieces = firsts ++ others := by
          simpa [extendFirst] using hsplit
        exact ⟨_, intercalate_extendFirst (List.cons_ne_nil piece firsts) c,
          piece :: firsts, others, by simp, hothers, rfl, rfl⟩
  · rintro ⟨tail, rfl, firsts, others, hfirsts, hothers, rfl, rfl⟩
    refine ⟨extendFirst c firsts, others, ?_, hothers,
      extendFirst_append hfirsts others,
      (intercalate_extendFirst hfirsts c).symm⟩
    cases firsts <;> simp [extendFirst]

end Between

/-- The splitter cuts at the commas where it has no quote open. -/
theorem cutsAt_splitAtCommas (quote : Option Char) (text : List Char) :
    CutsAt (fun front => front.foldl stepQuote quote = none) text
      (splitAtCommas quote text) := by
  induction text generalizing quote with
  | nil => exact ⟨by simp [splitAtCommas], by simp⟩
  | cons c text ih =>
      rw [splitAtCommas]
      split
      · rename_i hcut
        obtain ⟨rfl, rfl⟩ := hcut
        have hrest := splitAtCommas_ne_nil none text
        refine ⟨by rw [intercalate_nil_cons hrest, (ih none).joined], ?_⟩
        intro front back hfront
        cases front with
        | nil => simp [between_nil_cons_nil hrest]
        | cons d front =>
            obtain ⟨rfl, htext⟩ : ',' = d ∧ text = front ++ ',' :: back := by
              simpa using hfront
            rw [between_nil_cons_cons_iff, ← (ih none).exact front back htext]
            rfl
      · rename_i hstay
        have hrest := splitAtCommas_ne_nil (stepQuote quote c) text
        refine ⟨by rw [intercalate_extendFirst hrest, (ih _).joined], ?_⟩
        intro front back hfront
        rw [between_extendFirst_iff]
        cases front with
        | nil =>
            obtain ⟨rfl, rfl⟩ : c = ',' ∧ text = back := by simpa using hfront
            simpa using hstay
        | cons d front =>
            obtain ⟨rfl, htext⟩ : c = d ∧ text = front ++ ',' :: back := by
              simpa using hfront
            simpa using (ih (stepQuote quote c)).exact front back htext

/-- The splitter cuts at given commas exactly if they are the ones where it has
no quote open. -/
theorem cutsAt_iff {cuts : List Char → Prop} {text : List Char} :
    CutsAt cuts text (splitAtCommas none text) ↔ Undisputed cuts text := by
  have hsplitter := cutsAt_splitAtCommas none text
  constructor
  · intro hcuts front back hfront
    exact (hcuts.exact front back hfront).trans
      (hsplitter.exact front back hfront).symm
  · intro hsame
    refine ⟨hsplitter.joined, ?_⟩
    intro front back hfront
    exact (hsame front back hfront).trans (hsplitter.exact front back hfront)

theorem length_extendFirst {pieces : List (List Char)} (hpieces : pieces ≠ [])
    (c : Char) : (extendFirst c pieces).length = pieces.length := by
  cases pieces with
  | nil => exact absurd rfl hpieces
  | cons first others => rfl

/-- A comma that the splitter cuts at makes one piece more. -/
theorem length_splitAtCommas_cons (quote : Option Char) (c : Char)
    (text : List Char) :
    (splitAtCommas quote (c :: text)).length =
      (splitAtCommas (stepQuote quote c) text).length +
        if quote = none ∧ c = ',' then 1 else 0 := by
  rw [splitAtCommas]
  split
  · rename_i hcut
    obtain ⟨rfl, rfl⟩ := hcut
    rfl
  · exact length_extendFirst (splitAtCommas_ne_nil _ _) c

/-- With one quote open at the start for the splitter and another for the quotes
that end, the same commas are outside quotes. -/
def SameCommas (quote opened : Option Char) (text : List Char) : Prop :=
  ∀ front back, text = front ++ ',' :: back →
    ((unquoted? quote front).isSome ↔ front.foldl stepQuote opened = none)

namespace SameCommas

variable {quote quote' opened : Option Char} {text : List Char}

theorem append (start : List Char)
    (hsame : SameCommas quote opened (start ++ text))
    (hstart : ∀ front, (unquoted? quote (start ++ front)).isSome =
      (unquoted? quote' front).isSome) :
    SameCommas quote' (start.foldl stepQuote opened) text := by
  intro front back hfront
  have hcomma := hsame (start ++ front) back (by simp [hfront])
  rwa [hstart, List.foldl_append] at hcomma

theorem head_iff (hsame : SameCommas quote opened (',' :: text)) :
    quote = none ↔ opened = none := by
  have hcomma := hsame [] text rfl
  cases quote <;> simpa [unquoted?] using hcomma

end SameCommas

/-- There is one piece more than commas outside quotes, if these are the commas
where the splitter has no quote open. -/
theorem length_splitAtCommas {quote opened : Option Char}
    {text bare : List Char} (hbare : unquoted? quote text = some bare)
    (hsame : SameCommas quote opened text) :
    (splitAtCommas opened text).length = bare.count ',' + 1 := by
  fun_induction unquoted? quote text generalizing opened bare with
  | case1 =>
      obtain rfl : [] = bare := by simpa using hbare
      rfl
  | case2 c rest hquote ih =>
      have hc : c ≠ ',' := by rintro rfl; simp at hquote
      have htail := ih hbare (hsame.append [c] (by simp [unquoted?, hquote]))
      simpa [length_splitAtCommas_cons, hc] using htail
  | case3 c rest hquote ih =>
      obtain ⟨bare, hrest, rfl⟩ := Option.map_eq_some_iff.mp hbare
      have htail := ih hrest (hsame.append [c] (by simp [unquoted?, hquote]))
      rw [length_splitAtCommas_cons]
      by_cases hc : c = ','
      · subst hc
        simpa [hsame.head_iff.mp rfl] using htail
      · simpa [hc] using htail
  | case4 q => simp at hbare
  | case5 q => simp at hbare
  | case6 q c rest ih =>
      have hopened : c = ',' → stepQuote opened '\\' ≠ none := by
        rintro rfl
        simpa [unquoted?] using hsame ['\\'] rest rfl
      have htail := ih hbare (hsame.append ['\\', c] (by simp [unquoted?]))
      have hc : ¬ (stepQuote opened '\\' = none ∧ c = ',') := by
        rintro ⟨hnone, hcomma⟩
        exact hopened hcomma hnone
      simpa [length_splitAtCommas_cons, hc] using htail
  | case7 c rest hlast hescape ih =>
      have hplain := ne_backslash hlast hescape
      have htail := ih hbare
        (hsame.append [c] (by simp [unquoted?_inside hplain]))
      have hc : ¬ (opened = none ∧ c = ',') := by
        rintro ⟨rfl, rfl⟩
        simpa using hsame.head_iff
      simpa [length_splitAtCommas_cons, hc] using htail
  | case8 q c rest hlast hescape hclose ih =>
      have hplain := ne_backslash hlast hescape
      have htail := ih hbare
        (hsame.append [c] (by simp [unquoted?_inside hplain, hclose]))
      have hc : ¬ (opened = none ∧ c = ',') := by
        rintro ⟨rfl, rfl⟩
        simpa using hsame.head_iff
      simpa [length_splitAtCommas_cons, hc] using htail

end Arguments

namespace Nesting

/-- The reader of placeholders is outside quotes behind the text. -/
def EndsOutside (front : List Char) : Prop :=
  ∃ s, run? {} front = some s ∧ s.quote = none

/-- A backslash inside quotes stands before the mark that would end them. -/
def ProtectsMark (text : List Char) : Prop :=
  ∃ front q depth, front ++ ['\\', q] <+: text ∧
    run? {} front = some ⟨depth, some q, false⟩

theorem run?_append (s : Nesting) (front back : List Char) :
    s.run? (front ++ back) = (s.run? front).bind (·.run? back) :=
  List.foldlM_append

theorem run?_concat (s : Nesting) (front : List Char) (c : Char) :
    s.run? (front ++ [c]) = (s.run? front).bind (·.step c) := by
  simp [run?_append]

theorem run?_of_prefix {s t : Nesting} {front text : List Char}
    (hbefore : front <+: text) (hrun : s.run? text = some t) :
    ∃ u, s.run? front = some u := by
  obtain ⟨back, rfl⟩ := hbefore
  rw [run?_append, Option.bind_eq_some_iff] at hrun
  obtain ⟨u, hfront, -⟩ := hrun
  exact ⟨u, hfront⟩

/-- Quotes begin with a mark, and only characters inside quotes are
protected. -/
structure Marked (s : Nesting) : Prop where
  mark : ∀ q ∈ s.quote, q = '\'' ∨ q = '"'
  tidy : s.Tidy

theorem marked_start : Marked {} := ⟨nofun, fun _ => rfl⟩

theorem Marked.step {s t : Nesting} {c : Char} (hmarked : s.Marked)
    (hstep : s.step c = some t) : t.Marked := by
  refine ⟨?_, hmarked.tidy.step hstep⟩
  intro q hq
  unfold Nesting.step at hstep
  cases hquote : s.quote with
  | none =>
      simp only [hquote] at hstep
      split_ifs at hstep <;> cases hstep <;> simp_all
  | some q' =>
      have hmark := hmarked.mark q' hquote
      simp only [hquote] at hstep
      split_ifs at hstep <;> cases hstep <;> simp_all

theorem marked_of_run? {front : List Char} {s t : Nesting}
    (hmarked : s.Marked) (hrun : s.run? front = some t) : t.Marked := by
  induction front generalizing s with
  | nil =>
      obtain rfl : s = t := by simpa using hrun
      exact hmarked
  | cons c front ih =>
      rw [run?_cons, Option.bind_eq_some_iff] at hrun
      obtain ⟨u, hstep, hrest⟩ := hrun
      exact ih (hmarked.step hstep) hrest

/-- Both scanners take a step alike unless the character is the protected mark
of the open quote. -/
theorem quote_of_step {s t : Nesting} {c : Char} (hmarked : s.Marked)
    (hstep : s.step c = some t)
    (hprotected : s.escaped = true → s.quote ≠ some c) :
    t.quote = Arguments.stepQuote s.quote c := by
  unfold Nesting.step at hstep
  cases hquote : s.quote with
  | none =>
      simp only [hquote] at hstep
      split_ifs at hstep <;> cases hstep <;> simp_all [Arguments.stepQuote]
  | some q =>
      have hmark := hmarked.mark q hquote
      simp only [hquote] at hstep hprotected
      split_ifs at hstep with hescaped hbackslash hcloses <;> cases hstep
      · have hopen : c ≠ q := by
          rintro rfl
          exact hprotected hescaped rfl
        simp [Arguments.stepQuote, hopen]
      · have hopen : '\\' ≠ q := by
          rintro rfl
          simp at hmark
        simp [Arguments.stepQuote, hbackslash, hopen]
      · simp [Arguments.stepQuote, hcloses]
      · simp [Arguments.stepQuote, hquote, hcloses]

/-- A character is protected only by a backslash inside quotes. -/
theorem exists_of_escaped {front : List Char} {s : Nesting}
    (hrun : run? {} front = some s) (hescaped : s.escaped = true) :
    ∃ start q depth, front = start ++ ['\\'] ∧
      run? {} start = some ⟨depth, some q, false⟩ ∧ s.quote = some q := by
  rcases List.eq_nil_or_concat' front with rfl | ⟨start, c, rfl⟩
  · cases hrun
    simp at hescaped
  · rw [run?_concat, Option.bind_eq_some_iff] at hrun
    obtain ⟨t, hstart, hstep⟩ := hrun
    have htidy := (marked_of_run? marked_start hstart).tidy
    rcases t with ⟨depth, quote, escaped⟩
    unfold Nesting.step at hstep
    cases quote with
    | none =>
        obtain rfl : escaped = false := htidy rfl
        simp only at hstep
        split_ifs at hstep <;> cases hstep <;> simp at hescaped
    | some q =>
        simp only at hstep
        split_ifs at hstep with hprotected hbackslash hcloses <;> cases hstep
        · simp at hescaped
        · obtain rfl : escaped = false := by simpa using hprotected
          exact ⟨start, q, depth, by rw [hbackslash], hstart, rfl⟩
        · simp_all
        · simp_all

/-- The scanners go together up to a protected mark. -/
theorem openQuote_eq {front : List Char} {s : Nesting}
    (hrun : run? {} front = some s) (hmarks : ¬ ProtectsMark front) :
    Arguments.openQuote front = s.quote := by
  induction front using List.reverseRecOn generalizing s with
  | nil =>
      cases hrun
      rfl
  | append_singleton front c ih =>
      have hfront : ¬ ProtectsMark front := by
        rintro ⟨start, q, depth, hbefore, hstart⟩
        exact hmarks
          ⟨start, q, depth,
            hbefore.trans (List.prefix_append front [c]), hstart⟩
      rw [run?_concat, Option.bind_eq_some_iff] at hrun
      obtain ⟨t, ht, hstep⟩ := hrun
      have hmarked := marked_of_run? marked_start ht
      have hprotected : t.escaped = true → t.quote ≠ some c := by
        intro hescaped hquote
        obtain ⟨start, q, depth, rfl, hstart, hq⟩ :=
          exists_of_escaped ht hescaped
        obtain rfl : q = c := Option.some.inj (hq.symm.trans hquote)
        exact hmarks ⟨start, q, depth, by simp, hstart⟩
      have hsame := ih ht hfront
      unfold Arguments.openQuote at hsame ⊢
      rw [List.foldl_concat, hsame]
      exact (quote_of_step hmarked hstep hprotected).symm

/-- The scanners agree behind every beginning of the text exactly if no mark is
protected. -/
theorem openQuote_eq_iff {text : List Char} :
    (∀ front s, front <+: text → run? {} front = some s →
      Arguments.openQuote front = s.quote) ↔ ¬ ProtectsMark text := by
  constructor
  · rintro hsame ⟨front, q, depth, hbefore, hfront⟩
    have hopen := hsame front _ ((List.prefix_append _ _).trans hbefore) hfront
    have hbehind : run? {} (front ++ ['\\', q]) =
        some ⟨depth, some q, false⟩ := by
      rw [run?_append, hfront]
      rfl
    have hclosed := hsame _ _ hbefore hbehind
    have hmark := (marked_of_run? marked_start hfront).mark q rfl
    have hq : '\\' ≠ q := by
      rintro rfl
      simp at hmark
    unfold Arguments.openQuote at hopen hclosed
    rw [List.foldl_append, hopen] at hclosed
    simp [Arguments.stepQuote, hq] at hclosed
  · intro hmarks front s hbefore hfront
    apply openQuote_eq hfront
    rintro ⟨start, q, depth, hstart, hrun⟩
    exact hmarks ⟨start, q, depth, hstart.trans hbefore, hrun⟩

/-- The quotes of a text end exactly if the reader is outside quotes behind
it. -/
theorem isSome_unquoted?_iff {quote : Option Char} {depth : Nat}
    {text : List Char} {s : Nesting}
    (hrun : run? ⟨depth, quote, false⟩ text = some s) :
    (unquoted? quote text).isSome ↔ s.quote = none := by
  fun_induction unquoted? quote text generalizing depth with
  | case1 => cases hrun; simp
  | case2 c rest hquote ih =>
      exact ih (by simpa [step, hquote] using hrun)
  | case3 c rest hquote ih =>
      rw [run?_cons, step_outside hquote] at hrun
      split_ifs at hrun with hclose
      · simp at hrun
      · simpa using ih hrun
  | case4 q => cases hrun; simp
  | case5 q => cases hrun; simp
  | case6 q c rest ih => exact ih (by simpa [step] using hrun)
  | case7 c rest hlast hescape ih =>
      exact ih (by simpa [step, ne_backslash hlast hescape] using hrun)
  | case8 q c rest hlast hescape hclose ih =>
      exact ih (by simpa [step, ne_backslash hlast hescape, hclose] using hrun)

section Blank

open Text (Blank)

theorem ne_marks_of_isBlank {c : Char} (hc : Text.isBlank c = true) :
    c ∉ ['\'', '"', '(', ')'] := by
  intro hmem
  simp only [List.mem_cons, List.not_mem_nil, or_false] at hmem
  rcases hmem with rfl | rfl | rfl | rfl <;> exact absurd hc (by decide)

theorem balanced_of_blank {text : List Char} (hblank : Blank text) :
    Balanced text := by
  have hmarks {c : Char} (hc : c ∈ ['\'', '"', '(', ')']) : c ∉ text :=
    fun hmem => ne_marks_of_isBlank (hblank c hmem) hc
  have hplain : ∀ c ∈ text, c ≠ '\'' ∧ c ≠ '"' := by
    intro c hc
    have hnot := ne_marks_of_isBlank (hblank c hc)
    simp only [List.mem_cons, not_or] at hnot
    exact ⟨hnot.1, hnot.2.1⟩
  exact balanced_of_bare (unquoted?_eq_self hplain) (hmarks (by simp))
    (hmarks (by simp))

/-- Blanks neither open nor end a quote. -/
theorem quote_of_blank {back : List Char} {s t : Nesting} (hmarked : s.Marked)
    (hback : Blank back) (hrun : s.run? back = some t) : t.quote = s.quote := by
  induction back generalizing s with
  | nil =>
      obtain rfl : s = t := by simpa using hrun
      rfl
  | cons c back ih =>
      have hc := ne_marks_of_isBlank (hback c List.mem_cons_self)
      rw [run?_cons, Option.bind_eq_some_iff] at hrun
      obtain ⟨u, hstep, hrest⟩ := hrun
      have hopen : s.quote ≠ some c := by
        intro hquote
        rcases hmarked.mark c hquote with rfl | rfl <;> simp at hc
      have hquote : u.quote = s.quote := by
        rw [quote_of_step hmarked hstep fun _ => hopen]
        unfold Arguments.stepQuote
        split <;> simp_all [eq_comm]
      rw [ih (hmarked.step hstep) (fun d hd => hback d (by simp [hd])) hrest,
        hquote]

/-- Behind balanced text without the blanks at its ends the reader is outside
quotes. -/
theorem endsOutside_trim {raw : List Char} (hraw : Balanced raw) :
    EndsOutside (Text.trim raw) := by
  obtain ⟨front, back, hfront, hback, heq, -⟩ := Text.exists_eq_trim raw
  have hrun : run? {} raw = some {} := run?_of_balanced hraw 0
  have hstart : run? {} front = some {} :=
    run?_of_balanced (balanced_of_blank hfront) 0
  rw [heq, List.append_assoc, run?_append, hstart, Option.bind_some,
    run?_append, Option.bind_eq_some_iff] at hrun
  obtain ⟨s, hs, hrest⟩ := hrun
  have hquote := quote_of_blank (marked_of_run? marked_start hs) hback hrest
  exact ⟨s, hs, hquote.symm⟩

end Blank

end Nesting

namespace Template

open Arguments Nesting

theorem endsOutside_of_mem {text : String} {template : Template}
    {p : Placeholder} {argument : String} (hparse : parse text = .ok template)
    (hp : p ∈ template.placeholders) (hargument : p.argument = some argument) :
    EndsOutside argument.toList := by
  have hspelled := spelled_of_readFrom (readFrom_of_parse hparse)
  obtain ⟨front, inner, back, -, -, -, -, hcall⟩ := hspelled.holds p hp
  obtain ⟨call, tail, -, hfunction, -⟩ := hcall.parts
  rw [hargument] at hfunction
  generalize p.function = function, Text.trim call = spelled at hfunction
  cases hfunction with
  | applied hgap hraw =>
      rw [String.toList_ofList]
      exact endsOutside_trim hraw

/-- The list in the argument of a placeholder is cut at the commas outside
quotes exactly if none of its commas is disputed. Behind all beginnings both
scanners have the same quote open exactly if no mark is protected, and then no
comma is disputed. -/
theorem argument_cutsAt_iff {text : String} {template : Template}
    {p : Placeholder} {argument : String} (hparse : parse text = .ok template)
    (hp : p ∈ template.placeholders) (hargument : p.argument = some argument)
    (hblank : ¬ Text.Blank argument.toList) :
    let list := argument.toList
    let pieces := splitAtCommas none list
    Arguments.split list =
        pieces.map (fun piece => String.ofList (unquote piece)) ∧
      (CutsAt EndsOutside list pieces ↔ Undisputed EndsOutside list) ∧
      (CutsAt EndsOutside list pieces → ∃ bare,
        unquoted? none list = some bare ∧
        (Arguments.split list).length = bare.count ',' + 1) ∧
      (¬ ProtectsMark list → CutsAt EndsOutside list pieces) ∧
      ((∀ front s, front <+: list → run? {} front = some s →
        openQuote front = s.quote) ↔ ¬ ProtectsMark list) := by
  intro list pieces
  obtain ⟨t, hrun, houtside⟩ := endsOutside_of_mem hparse hp hargument
  have hsplit : Arguments.split list =
      pieces.map (fun piece => String.ofList (unquote piece)) := by
    have hsolid : (Text.trim list).isEmpty = false := by
      simpa [Text.trim_eq_nil_iff] using hblank
    rw [Arguments.split, hsolid]
    rfl
  obtain ⟨bare, hbare⟩ :=
    Option.isSome_iff_exists.mp ((isSome_unquoted?_iff hrun).mpr houtside)
  have hsame (hundisputed : Undisputed EndsOutside list) :
      SameCommas none none list := by
    intro front back hfront
    obtain ⟨s, hs⟩ := run?_of_prefix ⟨',' :: back, hfront.symm⟩ hrun
    have hends : EndsOutside front ↔ s.quote = none := by
      simp [EndsOutside, hs]
    rw [isSome_unquoted?_iff hs, ← hends]
    exact hundisputed front back hfront
  refine ⟨hsplit, cutsAt_iff, ?_, ?_, openQuote_eq_iff⟩
  · intro hcuts
    refine ⟨bare, hbare, ?_⟩
    rw [hsplit, List.length_map]
    exact length_splitAtCommas hbare (hsame (cutsAt_iff.mp hcuts))
  · intro hmarks
    refine cutsAt_iff.mpr ?_
    intro front back hfront
    obtain ⟨s, hs⟩ := run?_of_prefix ⟨',' :: back, hfront.symm⟩ hrun
    have hopen :=
      openQuote_eq_iff.mpr hmarks front s ⟨',' :: back, hfront.symm⟩ hs
    rw [hopen]
    simp [EndsOutside, hs]

namespace ListWitness

/-- A list with a comma and a backslash inside quotes. -/
def drinks : String := "'tea, \\hot', \"milk\" , water"

def order : Placeholder :=
  { function := "any", argument := some drinks, scope := none, start := 0
    stop := 40 }

theorem drinks_cut :
    parse "\x7b\x7b any( 'tea, \\hot', \"milk\" , water ) \x7d\x7d" =
        .ok ⟨[([], order)], []⟩ ∧
      ¬ ProtectsMark drinks.toList ∧
      CutsAt EndsOutside drinks.toList (splitAtCommas none drinks.toList) ∧
      Arguments.split drinks.toList = ["tea, \\hot", "milk", "water"] := by
  have hparse :
      parse "\x7b\x7b any( 'tea, \\hot', \"milk\" , water ) \x7d\x7d" =
        .ok ⟨[([], order)], []⟩ := by
    decide +kernel
  have hmarks : ¬ ProtectsMark drinks.toList := by
    rintro ⟨front, q, depth, hbefore, hfront⟩
    have hpair : ['\\', q] <:+: drinks.toList :=
      (List.suffix_append front ['\\', q]).isInfix.trans hbefore.isInfix
    rcases (marked_of_run? marked_start hfront).mark q rfl with rfl | rfl <;>
      exact absurd hpair (by decide)
  have hblank : ¬ Text.Blank drinks.toList :=
    fun hblank => absurd (hblank '\'' (by decide)) (by decide)
  obtain ⟨-, -, -, hcuts, -⟩ :=
    argument_cutsAt_iff hparse List.mem_cons_self rfl hblank
  exact ⟨hparse, hmarks, hcuts hmarks, by decide +kernel⟩

/-- The comma behind a protected mark is inside quotes, and yet the list is cut
there. -/
theorem protected_mark_cut :
    ¬ ∀ (text : String) (template : Template) (p : Placeholder)
      (argument : String), parse text = .ok template →
        p ∈ template.placeholders → p.argument = some argument →
          ¬ Text.Blank argument.toList →
            CutsAt EndsOutside argument.toList
              (splitAtCommas none argument.toList) := by
  intro hall
  have hparse : parse "\x7b\x7b any('a\\',b') \x7d\x7d" =
      .ok ⟨[([], ⟨⟨"any", some "'a\\',b'", none⟩, 0, 18⟩)], []⟩ := by
    decide +kernel
  have hblank : ¬ Text.Blank "'a\\',b'".toList :=
    fun hblank => absurd (hblank '\'' (by decide)) (by decide)
  have hcuts := hall _ _ _ _ hparse List.mem_cons_self rfl hblank
  have hcomma := cutsAt_iff.mp hcuts ['\'', 'a', '\\', '\''] ['b', '\'']
    (by decide)
  obtain ⟨s, hs, hquote⟩ := hcomma.mpr (by decide)
  cases hs
  simp at hquote

end ListWitness

end Template

end Specimen
