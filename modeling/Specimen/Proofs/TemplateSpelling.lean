/-
What a template says that was read.  Each placeholder stands between its braces
as the grammar spells it, and the text around them is literal.  The one thing
that reading does not ask for is a name: text that begins with a parenthesis is
taken for the call of a function without one.
-/
import Specimen.Proofs.ArgumentText
import Specimen.Proofs.BracePairs
import Specimen.Proofs.Trimming

namespace Specimen

/-- How a function and its argument are spelled, without blanks at the ends. -/
inductive FunctionSpelled : String → Option String → List Char → Prop
  | bare {name : List Char} : FunctionSpelled (String.ofList name) none name
  | applied {name gap raw : List Char} (hgap : Text.Blank gap)
      (hraw : Balanced raw) :
      FunctionSpelled (String.ofList name)
        (some (String.ofList (Text.trim raw)))
        (name ++ gap ++ '(' :: (raw ++ [')']))

/-- How a scope is spelled, with the bar before it. -/
inductive ScopeSpelled : Option Scope → List Char → Prop
  | absent : ScopeSpelled none []
  | present {scope : Scope} {word : List Char}
      (hword : Text.trim word = scope.name.toList) :
      ScopeSpelled (some scope) ('|' :: word)

theorem Scope.name_of_ofName? {name : String} {scope : Scope}
    (hname : ofName? name = some scope) : scope.name = name := by
  unfold ofName? at hname
  split at hname <;> simp_all <;> subst hname <;> rfl

namespace Call

/-- What stands between the braces of a call.  It is without a name exactly if
it begins with a parenthesis. -/
structure SpelledBy (call : Call) (inner : List Char) : Prop where
  parts : ∃ text tail, Text.trim inner = text ++ tail ∧
    FunctionSpelled call.function call.argument (Text.trim text) ∧
    ScopeSpelled call.scope tail
  name : ∀ c ∈ call.function.toList, Text.isBlank c = false ∧ c ≠ '('
  nameless : call.function = "" ↔ (Text.trim inner).head? = some '('

/-- Only a parenthesis can stop a name before its first character. -/
theorem takeWhile_name_eq_empty_iff {text : List Char}
    (hsolid : Text.Solid text)
    (htext : text ≠ []) :
    String.ofList (text.takeWhile isNameChar) = "" ↔ text.head? = some '(' := by
  cases text with
  | nil => exact absurd rfl htext
  | cons c rest =>
      have hblank : Text.isBlank c = false := hsolid.1 c rfl
      by_cases hc : c = '('
      · simp [isNameChar, hc]
      · simp [isNameChar, hblank, hc]

theorem functionSpelled_of_readFunction {opening position : Nat}
    {text : List Char}
    {function : String} {argument : Option String}
    (hread : readFunction opening position text = .ok (function, argument)) :
    FunctionSpelled function argument (Text.trim text) ∧
      function = String.ofList ((Text.trim text).takeWhile isNameChar) ∧
      Text.trim text ≠ [] := by
  have hsolid := Text.solid_trim text
  simp only [readFunction] at hread
  generalize Text.trim text = call at *
  split at hread
  · simp at hread
  · rename_i hnonempty
    have hcall : call =
        call.takeWhile isNameChar ++ call.dropWhile isNameChar :=
      List.takeWhile_append_dropWhile.symm
    obtain ⟨gap, hgap, hremainder, -⟩ :=
      Text.exists_eq_trimStart (call.dropWhile isNameChar)
    split at hread
    · rename_i hrest
      obtain ⟨rfl, rfl⟩ : String.ofList (call.takeWhile isNameChar) = function ∧
          none = argument := by simpa using hread
      rw [hrest, List.append_nil] at hremainder
      have hbare : call.takeWhile isNameChar = call := by
        have hnil := Text.Solid.eq_nil_of_append_blank (hcall ▸ hsolid)
          (hremainder ▸ hgap)
        rw [hnil, List.append_nil] at hcall
        exact hcall.symm
      refine ⟨?_, rfl, by simpa using hnonempty⟩
      rw [hbare]
      exact .bare
    · rename_i c inside hrest
      split at hread
      · simp at hread
      · rename_i hc
        split at hread
        · simp at hread
        · rename_i raw behind hsplit
          split at hread
          · rename_i hbehind
            obtain ⟨rfl, rfl⟩ :
                String.ofList (call.takeWhile isNameChar) = function ∧
                  some (String.ofList (Text.trim raw)) = argument := by
              simpa using hread
            obtain rfl : c = '(' := by simpa using hc
            obtain ⟨hinside, hrun⟩ :=
              eq_of_splitArgument (by simp [Nesting.Tidy]) hsplit
            have htext : call = call.takeWhile isNameChar ++ gap ++
                '(' :: (raw ++ [')']) ++ behind := by
              rw [hrest, hinside] at hremainder
              rw [hremainder] at hcall
              simpa using hcall
            have hnil : behind = [] :=
              Text.Solid.eq_nil_of_append_blank (htext ▸ hsolid)
                (Text.trim_eq_nil_iff.mp (by simpa using hbehind))
            rw [hnil, List.append_nil] at htext
            refine ⟨?_, rfl, by simpa using hnonempty⟩
            have hspelled := @FunctionSpelled.applied
              (call.takeWhile isNameChar) gap raw
              hgap (Nesting.balanced_of_run? hrun)
            rwa [← htext] at hspelled
          · simp at hread

theorem scopeSpelled_of_readScope {found : Option (Nat × List Char)}
    {scope : Option Scope} (hread : readScope found = .ok scope) :
    ScopeSpelled scope (found.elim [] fun word => '|' :: word.2) := by
  cases found with
  | none =>
      obtain rfl : none = scope := by simpa [readScope] using hread
      exact .absent
  | some found =>
      obtain ⟨position, word⟩ := found
      simp only [readScope] at hread
      split at hread
      · simp at hread
      · split at hread
        · rename_i found hname
          obtain rfl : some found = scope := by simpa using hread
          refine .present ?_
          rw [Scope.name_of_ofName? hname, String.toList_ofList]
        · simp at hread

theorem spelledBy_of_read {opening : Nat} {inner : List Char} {call : Call}
    (hread : read opening inner = .ok call) : call.SpelledBy inner := by
  have hinner : Text.trim inner ≠ [] := by
    intro hnil
    simp [read, hnil] at hread
  rw [read_eq_bind hinner] at hread
  obtain ⟨⟨text, found⟩, hsplit, hread⟩ := bind_eq_ok_iff.mp hread
  obtain ⟨⟨function, argument⟩, hfunction, hread⟩ := bind_eq_ok_iff.mp hread
  obtain ⟨scope, hscope, rfl⟩ := map_eq_ok_iff.mp hread
  have htext := eq_of_splitScope hsplit
  obtain ⟨hspelled, hname, hnonempty⟩ :=
    functionSpelled_of_readFunction hfunction
  refine ⟨⟨text, _, htext, hspelled, scopeSpelled_of_readScope hscope⟩, ?_, ?_⟩
  · change ∀ c ∈ function.toList, _
    rw [hname, String.toList_ofList]
    intro c hc
    have := List.mem_takeWhile_imp hc
    simpa [isNameChar] using this
  · have hsolid : Text.Solid
        (text ++ found.elim [] fun word => '|' :: word.2) :=
      htext ▸ Text.solid_trim inner
    obtain ⟨c, rest, hcons⟩ : ∃ c rest, text = c :: rest := by
      apply List.exists_cons_of_ne_nil
      rintro rfl
      exact hnonempty (Text.trim_eq_nil_iff.mpr Text.blank_nil)
    have hblank : Text.isBlank c = false := hsolid.1 c (by rw [hcons]; rfl)
    have hhead : (Text.trim text).head? = some c := by
      rw [Text.head?_trim (by simpa [hcons] using hblank) hnonempty, hcons]
      rfl
    have hinnerHead : (Text.trim inner).head? = some c := by
      rw [htext, hcons]
      rfl
    rw [hinnerHead, ← hhead, hname]
    exact takeWhile_name_eq_empty_iff (Text.solid_trim text) hnonempty

end Call

namespace Template

/-- Text with placeholders, from the given byte on: literal text without opening
braces, and calls between braces that end at the first closing ones. -/
inductive Spelled : Nat → List Char → List Placeholder → Prop
  | literal {position : Nat} {text : List Char} (htext : ¬ HasPair '{' text) :
      Spelled position text []
  | placeholder {position : Nat} {before inner behind : List Char} {call : Call}
      {others : List Placeholder} (hbefore : ¬ HasPair '{' before)
      (hinner : ¬ HasPair '}' inner) (hcall : call.SpelledBy inner)
      (hothers : Spelled
        (behindBraces (position + Text.byteLength before) inner)
          behind others) :
      Spelled position (before ++ '{' :: '{' :: (inner ++ '}' :: '}' :: behind))
        (⟨call, position + Text.byteLength before,
          behindBraces (position + Text.byteLength before) inner⟩ :: others)

theorem spelled_of_readFrom {position : Nat} {text : List Char}
    {template : Template}
    (hread : readFrom position text = .ok template) :
    Spelled position text template.placeholders := by
  refine readFrom_induction ?_ ?_ hread
  · intro position text hliteral
    exact .literal hliteral
  · intro position before inner behind call others hbefore hinner hcall hothers
    exact .placeholder (HasPair.not_of_append hbefore)
      (HasPair.not_of_append hinner) (Call.spelledBy_of_read hcall) hothers

/-- The text has the placeholder where it says, between its braces. -/
def Holds (position : Nat) (text : List Char) (p : Placeholder) : Prop :=
  ∃ front inner back,
    text = front ++ '{' :: '{' :: (inner ++ '}' :: '}' :: back) ∧
      p.start = position + Text.byteLength front ∧
      p.stop = behindBraces p.start inner ∧
      ¬ HasPair '}' inner ∧ p.SpelledBy inner

theorem Holds.append {position : Nat} {front text : List Char} {p : Placeholder}
    (hholds : Holds (position + Text.byteLength front) text p) :
    Holds position (front ++ text) p := by
  obtain ⟨before, inner, back, rfl, hstart, hinner⟩ := hholds
  refine ⟨front ++ before, inner, back, by simp, ?_, hinner⟩
  rw [hstart, Text.byteLength_append, Nat.add_assoc]

theorem Holds.bounds {position : Nat} {text : List Char} {p : Placeholder}
    (hholds : Holds position text p) :
    position ≤ p.start ∧ p.start < p.stop ∧
      p.stop ≤ position + Text.byteLength text := by
  obtain ⟨front, inner, back, htext, hstart, hstop, -⟩ := hholds
  have hbraces : text =
      front ++ ('{' :: '{' :: (inner ++ ['}', '}'])) ++ back := by
    simpa using htext
  have hbytes := congrArg Text.byteLength hbraces
  simp only [Text.byteLength_append] at hbytes
  have hspan := behindBraces_eq p.start inner
  rw [← hstop] at hspan
  have hlonger : p.start < p.stop := by
    rw [hstop, behindBraces]
    omega
  omega

namespace Spelled

variable {position : Nat} {text : List Char} {placeholders : List Placeholder}

theorem holds (hspelled : Spelled position text placeholders) :
    ∀ p ∈ placeholders, Holds position text p := by
  induction hspelled with
  | literal htext => simp
  | @placeholder position before inner behind call others hbefore hinner hcall
      hothers ih =>
      rw [List.forall_mem_cons]
      refine ⟨⟨before, inner, behind, rfl, rfl, rfl, hinner, hcall⟩, ?_⟩
      intro p hp
      have hbraces : before ++ '{' :: '{' :: (inner ++ '}' :: '}' :: behind) =
          (before ++ '{' :: '{' :: (inner ++ ['}', '}'])) ++ behind := by simp
      rw [hbraces]
      apply Holds.append
      rw [Text.byteLength_append, ← Nat.add_assoc, ← behindBraces_eq]
      exact ih p hp

/-- The placeholders stand apart, in order. -/
theorem pairwise (hspelled : Spelled position text placeholders) :
    placeholders.Pairwise fun p q => p.stop ≤ q.start := by
  induction hspelled with
  | literal htext => exact .nil
  | placeholder hbefore hinner hcall hothers ih =>
      exact .cons (fun q hq => (hothers.holds q hq).bounds.1) ih

end Spelled

/-- What was read is what was written.  The placeholders stand in order and
apart, each between its braces as it is spelled, and everything else is
literal. -/
theorem parse_spelled {text : String} {template : Template}
    (hparse : parse text = .ok template) :
    Spelled 0 text.toList template.placeholders ∧
      (template.placeholders.Pairwise fun p q => p.stop ≤ q.start) ∧
      ∀ p ∈ template.placeholders,
        p.start < p.stop ∧ p.stop ≤ Text.byteLength text.toList ∧
          Holds 0 text.toList p := by
  have hread : readFrom 0 text.toList = .ok template := by
    unfold parse at hparse
    split at hparse
    · rename_i hread
      rw [hread]
      simpa using hparse
    · simp at hparse
  have hspelled := spelled_of_readFrom hread
  refine ⟨hspelled, hspelled.pairwise, ?_⟩
  intro p hp
  obtain ⟨-, hnonempty, hinside⟩ := (hspelled.holds p hp).bounds
  exact ⟨hnonempty, by simpa using hinside, hspelled.holds p hp⟩

namespace SpelledWitness

/-- The pieces of a template with two placeholders. -/
def pieces : Template where
  parts := [("a ".toList, ⟨⟨"f", some "'|' (b)", some .file⟩, 2, 28⟩),
    ([], ⟨⟨"uuid", none, none⟩, 28, 36⟩)]
  rest := []

theorem pieces_spelled :
    parse "a \x7b\x7b f ( '|' (b) ) | local\x7d\x7d\x7b\x7buuid\x7d\x7d" =
      .ok pieces ∧
      Spelled 0
        "a \x7b\x7b f ( '|' (b) ) | local\x7d\x7d\x7b\x7buuid\x7d\x7d".toList
        pieces.placeholders := by
  have hparse : parse
      "a \x7b\x7b f ( '|' (b) ) | local\x7d\x7d\x7b\x7buuid\x7d\x7d" =
      .ok pieces := by
    decide +kernel
  exact ⟨hparse, (parse_spelled hparse).1⟩

/-- A call that begins with a parenthesis is read, without a name. -/
theorem nameless_call_read :
    ¬ ∀ (text : String) (template : Template), parse text = .ok template →
      ∀ p ∈ template.placeholders, p.function ≠ "" := by
  intro hall
  have hparse : parse "\x7b\x7b (a) \x7d\x7d" =
      .ok ⟨[([], ⟨⟨"", some "a", none⟩, 0, 9⟩)], []⟩ := by
    decide +kernel
  exact hall _ _ hparse ⟨⟨"", some "a", none⟩, 0, 9⟩ List.mem_cons_self rfl

end SpelledWitness

end Template

end Specimen
