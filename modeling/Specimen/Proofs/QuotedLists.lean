/-
Lists of values on their way through a template.  Values between single quotes
are found again, one for one, whatever else they contain, and the value of the
placeholder is one of them; numbers are found again as they are written.
-/
import Mathlib.Data.Bool.AllAny
import Specimen.Proofs.ArgumentLists
import Specimen.Proofs.CalendarText
import Specimen.Proofs.DrawnNumbers
import Specimen.Proofs.ScopeLifetime
import Specimen.Proofs.TemplateReading

namespace Specimen

namespace Arguments

def quoted (value : List Char) : List Char :=
  '\'' :: (value ++ ['\''])

/-- Values between single quotes, with a comma and a space between them. -/
def quotedList (values : List String) : List Char :=
  [',', ' '].intercalate (values.map fun value => quoted value.toList)

/-- The value can stand between single quotes in a placeholder: neither ends
before the value does. -/
structure Quotable (value : String) : Prop where
  quote : '\'' ∉ value.toList
  backslash : '\\' ∉ value.toList
  braces : ¬ HasPair '}' value.toList

theorem quotedList_singleton (value : String) :
    quotedList [value] = quoted value.toList := by
  simp [quotedList]

theorem quotedList_cons {values : List String} (hvalues : values ≠ [])
    (value : String) :
    quotedList (value :: values) =
      quoted value.toList ++ ',' :: ' ' :: quotedList values := by
  cases values with
  | nil => exact absurd rfl hvalues
  | cons => simp [quotedList]

theorem trim_quoted (value : List Char) :
    Text.trim (quoted value) = quoted value := by
  have hmark : Text.isBlank '\'' = false := by decide
  have hsolid : Text.Solid (quoted value) := by
    refine ⟨by simp [quoted, hmark], ?_⟩
    rw [quoted, ← List.cons_append, List.getLast?_concat]
    simp [hmark]
  exact hsolid.trim_eq_self

/-- Nothing of a value is outside quotes. -/
theorem unquoted?_quoted {value : List Char} (hquote : '\'' ∉ value)
    (hbackslash : '\\' ∉ value) (rest : List Char) :
    unquoted? none (quoted value ++ rest) = unquoted? none rest := by
  have hinside : unquoted? (some '\'') (value ++ '\'' :: rest) =
      unquoted? none rest := by
    induction value with
    | nil => simp [unquoted?]
    | cons c value ih =>
        obtain ⟨hc, hquote⟩ := not_or.mp (mt List.mem_cons.mpr hquote)
        obtain ⟨hplain, hbackslash⟩ :=
          not_or.mp (mt List.mem_cons.mpr hbackslash)
        rw [List.cons_append, unquoted?_inside (Ne.symm hplain),
          if_neg (Ne.symm hc), ih hquote hbackslash]
  simpa [quoted, unquoted?] using hinside

theorem not_hasPair_quoted {value : List Char} (hvalue : ¬ HasPair '}' value) :
    ¬ HasPair '}' (quoted value) := by
  have hquote : '\'' ≠ '}' := by decide
  rw [quoted, HasPair.cons_iff_of_ne hquote, HasPair.append_cons_iff hquote]
  simp [HasPair.not_nil, hvalue]

/-- A list begins and ends with a quote. -/
theorem exists_quotedList_eq {values : List String} (hvalues : values ≠ []) :
    ∃ between, quotedList values = quoted between := by
  induction values, hvalues using List.recNeNil with
  | singleton value => exact ⟨value.toList, quotedList_singleton value⟩
  | cons value values hvalues ih =>
      obtain ⟨between, hrest⟩ := ih
      refine ⟨value.toList ++ '\'' :: ',' :: ' ' :: '\'' :: between, ?_⟩
      rw [quotedList_cons hvalues, hrest]
      simp [quoted]

theorem trim_quotedList {values : List String} (hvalues : values ≠ []) :
    Text.trim (quotedList values) = quotedList values := by
  obtain ⟨between, hlist⟩ := exists_quotedList_eq hvalues
  rw [hlist, trim_quoted]

section Split

theorem foldr_extendFirst (text first : List Char) (others : List (List Char)) :
    text.foldr extendFirst (first :: others) = (text ++ first) :: others := by
  induction text with
  | nil => rfl
  | cons c text ih => rw [List.foldr_cons, ih]; rfl

/-- Nothing is cut inside quotes. -/
theorem splitAtCommas_inside {q : Char} {value : List Char} (hvalue : q ∉ value)
    (rest : List Char) :
    splitAtCommas (some q) (value ++ q :: rest) =
      value.foldr extendFirst (extendFirst q (splitAtCommas none rest)) := by
  induction value with
  | nil => simp [splitAtCommas, stepQuote]
  | cons c value ih =>
      obtain ⟨hc, hrest⟩ := not_or.mp (mt List.mem_cons.mpr hvalue)
      simp [splitAtCommas, stepQuote, Ne.symm hc, ih hrest]

theorem splitAtCommas_quoted {value : List Char} (hvalue : '\'' ∉ value)
    (rest : List Char) :
    splitAtCommas none (quoted value ++ rest) =
      (quoted value).foldr extendFirst (splitAtCommas none rest) := by
  simp [quoted, splitAtCommas, stepQuote, splitAtCommas_inside hvalue]

/-- The quotes around a value are all that is taken off. -/
theorem unquote_quoted (value : List Char) :
    unquote (quoted value) = value := by
  rw [unquote, trim_quoted]
  simp [quoted, insideQuotes?]

theorem unquote_space_cons (text : List Char) :
    unquote (' ' :: text) = unquote text := by
  have htrim : Text.trim (' ' :: text) = Text.trim text := rfl
  rw [unquote, unquote, htrim]

/-- The values are the pieces without the quotes around them. -/
theorem unquote_splitAtCommas {values : List String} (hvalues : values ≠ [])
    (hquotes : ∀ value ∈ values, '\'' ∉ value.toList) :
    (splitAtCommas none (quotedList values)).map
      (fun piece => String.ofList (unquote piece)) = values := by
  induction values, hvalues using List.recNeNil with
  | singleton value =>
      have hvalue := hquotes value List.mem_cons_self
      have hend := splitAtCommas_quoted hvalue []
      rw [List.append_nil] at hend
      simp [quotedList_singleton, hend, splitAtCommas, foldr_extendFirst,
        unquote_quoted]
  | cons value values hvalues ih =>
      obtain ⟨hvalue, hrest⟩ := List.forall_mem_cons.mp hquotes
      obtain ⟨first, others, hpieces⟩ := List.exists_cons_of_ne_nil
        (splitAtCommas_ne_nil none (quotedList values))
      have ih := ih hrest
      rw [hpieces] at ih
      simp [quotedList_cons hvalues, splitAtCommas_quoted hvalue, splitAtCommas,
        hpieces, extendFirst, foldr_extendFirst, unquote_quoted, stepQuote,
        unquote_space_cons]
      simpa using ih

theorem split_quotedList {values : List String} (hvalues : values ≠ [])
    (hquotes : ∀ value ∈ values, '\'' ∉ value.toList) :
    split (quotedList values) = values := by
  have hnonempty : (Text.trim (quotedList values)).isEmpty = false := by
    obtain ⟨between, hlist⟩ := exists_quotedList_eq hvalues
    rw [trim_quotedList hvalues, hlist]
    rfl
  simp only [split, hnonempty]
  exact unquote_splitAtCommas hvalues hquotes

end Split

/-- Only the commas and the spaces between the values are outside quotes. -/
theorem exists_bare_quotedList {values : List String} (hvalues : values ≠ [])
    (hquotable : ∀ value ∈ values, Quotable value) :
    ∃ bare, unquoted? none (quotedList values) = some bare ∧
      ∀ c ∈ bare, c = ',' ∨ c = ' ' := by
  induction values, hvalues using List.recNeNil with
  | singleton value =>
      have hvalue := hquotable value List.mem_cons_self
      have hend := unquoted?_quoted hvalue.quote hvalue.backslash []
      rw [List.append_nil] at hend
      refine ⟨[], ?_, by simp⟩
      rw [quotedList_singleton, hend]
      rfl
  | cons value values hvalues ih =>
      obtain ⟨hvalue, hrest⟩ := List.forall_mem_cons.mp hquotable
      obtain ⟨bare, hbare, hmarks⟩ := ih hrest
      refine ⟨',' :: ' ' :: bare, ?_, ?_⟩
      · rw [quotedList_cons hvalues,
          unquoted?_quoted hvalue.quote hvalue.backslash]
        simp [unquoted?, hbare]
      · simpa using hmarks

theorem not_hasPair_quotedList {values : List String} (hvalues : values ≠ [])
    (hquotable : ∀ value ∈ values, Quotable value) :
    ¬ HasPair '}' (quotedList values) := by
  have hcomma : ',' ≠ '}' := by decide
  have hspace : ' ' ≠ '}' := by decide
  induction values, hvalues using List.recNeNil with
  | singleton value =>
      rw [quotedList_singleton]
      exact not_hasPair_quoted (hquotable value List.mem_cons_self).braces
  | cons value values hvalues ih =>
      obtain ⟨hvalue, hrest⟩ := List.forall_mem_cons.mp hquotable
      rw [quotedList_cons hvalues, HasPair.append_cons_iff hcomma,
        HasPair.cons_iff_of_ne hspace, not_or]
      exact ⟨not_hasPair_quoted hvalue.braces, ih hrest⟩

end Arguments

namespace WrittenCall

def applied (function : String) (argument : List Char) : WrittenCall where
  function := function.toList
  argument := some argument

variable {function : String} {argument bare : List Char}

theorem inner_applied :
    (applied function argument).inner =
      ' ' :: (function.toList ++ '(' :: (argument ++ ')' :: [' '])) := by
  simp [inner, head, tail, applied]

/-- An argument without braces and parentheses outside quotes can be read
back. -/
theorem wellFormed_applied (hnamed : function.toList ≠ [])
    (hplain : ∀ c ∈ function.toList, Text.isBlank c = false ∧
      c ∉ ['\'', '"', '(', ')', '|'])
    (hfunction : '}' ∉ function.toList)
    (hbare : unquoted? none argument = some bare) (hopens : '(' ∉ bare)
    (hcloses : ')' ∉ bare) (hargument : ¬ HasPair '}' argument) :
    (applied function argument).WellFormed where
  named := hnamed
  plain := hplain
  balanced := by
    intro found hfound
    obtain rfl : argument = found := Option.some.inj hfound
    exact balanced_of_bare hbare hopens hcloses
  closed := by
    have hname : ¬ HasPair '}' function.toList := mt HasPair.mem hfunction
    have hmarks : ' ' ≠ '}' ∧ '(' ≠ '}' ∧ ')' ≠ '}' := by decide
    rw [inner_applied, HasPair.cons_iff_of_ne hmarks.1,
      HasPair.append_cons_iff hmarks.2.1, HasPair.append_cons_iff hmarks.2.2]
    simp [hname, hargument, HasPair.not_singleton]

theorem not_barred_applied (hbare : unquoted? none argument = some bare)
    (hbars : '|' ∉ bare) : ¬ (applied function argument).Barred := by
  rintro ⟨found, hfound, bare', hbare', hmem⟩
  obtain rfl : argument = found := Option.some.inj hfound
  obtain rfl : bare = bare' := Option.some.inj (hbare.symm.trans hbare')
  exact hbars hmem

end WrittenCall

namespace Template

def calling (function : String) (argument : List Char) : String :=
  "\x7b\x7b " ++ function ++ "(" ++ String.ofList argument ++ ") \x7d\x7d"

open WrittenCall (applied)

variable {function : String} {argument : List Char}

theorem parse_calling (hformed : (applied function argument).WellFormed)
    (hbar : ¬ (applied function argument).Barred) :
    parse (calling function argument) =
      .ok ⟨[([], ⟨(applied function argument).call, 0,
        behindBraces 0 (applied function argument).inner⟩)], []⟩ := by
  have htext : (calling function argument).toList =
      [] ++ '{' :: '{' :: ((applied function argument).inner ++
        '}' :: '}' :: []) := by
    simp [calling, WrittenCall.inner_applied]
  have hnil : ¬ HasPair '{' ([] ++ ['{']) := HasPair.not_singleton
  rw [parse, htext, readFrom_placeholder hnil hformed.not_hasPair_inner,
    hformed.read hbar, readFrom_literal HasPair.not_nil]
  rfl

/-- Without text around it a placeholder is its value. -/
theorem filled_alone [Regex.Package] (files : Files) (p : Placeholder)
    (s : Session) : ((values (evaluations files [p] s)).map fun found =>
      String.ofList (filled [] [([], p)] found)) =
        Evaluation.result ⟨p.toCall, files, s⟩ := by
  cases hvalue : Evaluation.result ⟨p.toCall, files, s⟩ with
  | error error =>
      rw [evaluations_cons_of_error hvalue, values, hvalue]
      rfl
  | ok value =>
      rw [evaluations_cons_of_ok hvalue, values, hvalue]
      simp [evaluations, values, filled, Except.bind, Except.map]

/-- The text of a placeholder alone is the value of its function. -/
theorem outcome_expand_calling [Regex.Package] {f : Function}
    (hformed : (applied function argument).WellFormed)
    (hbar : ¬ (applied function argument).Barred)
    (htrim : Text.trim argument = argument)
    (hname : Function.ofName? function = some f) (files : Files)
    (s : Session) :
    (outcome (expand files (calling function argument)) s).1 =
      (outcome (f.value function (some (String.ofList argument)) files
        s.memory.file) s.stream).1 := by
  have hcall : (applied function argument).call =
      ⟨function, some (String.ofList argument), none⟩ := by
    simp [WrittenCall.call, applied, htrim]
  rw [outcome_expand, parse_calling hformed hbar, hcall]
  refine (filled_alone files _ s).trans ?_
  rw [Evaluation.result, Evaluation.outcome_resolve_unscoped rfl,
    Evaluation.fresh_eq]
  simp only [hname]

end Template

namespace Function

variable {name : String} {argument : List Char} {files : Files}
  {file : Option FileContext}

theorem outcome_any [Regex.Package] {option : String} {stream : Stream}
    (hchoose : (Draw.choose (Arguments.split argument) stream).1 =
      some option) :
    (outcome (value .any name (some (String.ofList argument)) files file)
      stream).1 = .ok option := by
  let drawn := Draw.choose (Arguments.split argument)
  have hlift : outcome (liftM drawn : ExceptT TemplateError Draw _) stream =
      (.ok (some option), (drawn stream).2) := by
    rw [← hchoose]
    rfl
  simp only [value, Option.getD_some, String.toList_ofList]
  rw [outcome_bind_of_ok hlift]
  rfl

theorem outcome_number [Regex.Package] {a b : Int} {first second : String}
    (hargument : Arguments.split argument = [first, second])
    (hfirst : Decimal.readInt? first.toList = some a)
    (hsecond : Decimal.readInt? second.toList = some b) (stream : Stream) :
    (outcome (value .number name (some (String.ofList argument)) files file)
      stream).1 =
        .ok (String.ofList (Decimal.ofInt (Draw.integer a b stream).1)) := by
  simp only [value, Option.getD_some, String.toList_ofList, hargument, List.map,
    hfirst, hsecond]
  rfl

end Function

namespace Arguments

open Template WrittenCall

/-- The list can be read back from the text of a placeholder. -/
theorem outcome_any_quotedList [Regex.Package] {options : List String}
    (hoptions : options ≠ [])
    (hquotable : ∀ option ∈ options, Quotable option) {option : String}
    {s : Session} (hchoose : (Draw.choose options s.stream).1 = some option)
    (files : Files) :
    (outcome (expand files (calling "any" (quotedList options))) s).1 =
      .ok option := by
  obtain ⟨bare, hbare, hmarks⟩ := exists_bare_quotedList hoptions hquotable
  have hnot : ∀ c ∈ ['(', ')', '|'], c ∉ bare := by
    intro c hc hmem
    rcases hmarks c hmem with rfl | rfl <;> simp at hc
  have hformed : (applied "any" (quotedList options)).WellFormed :=
    wellFormed_applied (by decide)
      (List.all_iff_forall_prop.mp (by decide)) (by decide) hbare
      (hnot _ (by simp)) (hnot _ (by simp))
      (not_hasPair_quotedList hoptions hquotable)
  have hbar : ¬ (applied "any" (quotedList options)).Barred :=
    not_barred_applied hbare (hnot _ (by simp))
  have hsplit := split_quotedList hoptions fun o ho => (hquotable o ho).quote
  rw [outcome_expand_calling hformed hbar (trim_quotedList hoptions) rfl]
  exact Function.outcome_any (hsplit.symm ▸ hchoose)

section Numbers

/-- Two numbers with a comma and a space between them. -/
def numberPair (a b : Int) : List Char :=
  Decimal.ofInt a ++ ',' :: ' ' :: Decimal.ofInt b

theorem madeOf_ofInt (n : Int) : Text.MadeOf ['+', '-'] (Decimal.ofInt n) :=
  (Decimal.literal_ofInt n).madeOf

theorem ofInt_ne_nil (n : Int) : Decimal.ofInt n ≠ [] := by
  intro hnil
  have hliteral := Decimal.literal_ofInt n
  rw [hnil] at hliteral
  cases hliteral with
  | unsigned hnumeral => exact (Decimal.isNumeral_iff.mp hnumeral).1 rfl

theorem madeOf_numberPair (a b : Int) :
    Text.MadeOf ['+', '-', ',', ' '] (numberPair a b) := by
  have hnumber (n : Int) : Text.MadeOf ['+', '-', ',', ' '] (Decimal.ofInt n) :=
    (madeOf_ofInt n).mono (by simp)
  exact (hnumber a).append (((hnumber b).cons (by simp)).cons (by simp))

/-- There are no blanks at the ends, since there is a number at each. -/
theorem trim_numberPair (a b : Int) :
    Text.trim (numberPair a b) = numberPair a b := by
  have hsolid : Text.Solid (numberPair a b) := by
    have hfirst := (Decimal.literal_ofInt a).solid.1
    have hlast := (Decimal.literal_ofInt b).solid.2
    constructor
    · rwa [numberPair, List.head?_append_of_ne_nil _ (ofInt_ne_nil a)]
    · rwa [numberPair, List.append_cons, List.append_cons,
        List.getLast?_append_of_ne_nil _ (ofInt_ne_nil b)]
  exact hsolid.trim_eq_self

theorem splitAtCommas_plain {text : List Char} (hquote : '\'' ∉ text)
    (hdouble : '"' ∉ text) (hcomma : ',' ∉ text) (rest : List Char) :
    splitAtCommas none (text ++ rest) =
      text.foldr extendFirst (splitAtCommas none rest) := by
  induction text with
  | nil => rfl
  | cons c text ih =>
      simp only [List.mem_cons, not_or] at hquote hdouble hcomma
      simp [splitAtCommas, stepQuote, Ne.symm hquote.1, Ne.symm hdouble.1,
        Ne.symm hcomma.1, ih hquote.2 hdouble.2 hcomma.2]

theorem splitAtCommas_ofInt (n : Int) (rest : List Char) :
    splitAtCommas none (Decimal.ofInt n ++ rest) =
      (Decimal.ofInt n).foldr extendFirst (splitAtCommas none rest) :=
  splitAtCommas_plain ((madeOf_ofInt n).not_mem (by decide) (by decide))
    ((madeOf_ofInt n).not_mem (by decide) (by decide))
    ((madeOf_ofInt n).not_mem (by decide) (by decide)) rest

theorem insideQuotes?_eq_none {q : Char} {text : List Char}
    (hquote : q ∉ text) : insideQuotes? q text = none := by
  cases text with
  | nil => rfl
  | cons c text =>
      have hc : c ≠ q := by
        rintro rfl
        exact hquote List.mem_cons_self
      simp [insideQuotes?, hc]

theorem unquote_ofInt (n : Int) :
    unquote (Decimal.ofInt n) = Decimal.ofInt n := by
  have hmade := madeOf_ofInt n
  rw [unquote, (Decimal.literal_ofInt n).solid.trim_eq_self,
    insideQuotes?_eq_none (hmade.not_mem (by decide) (by decide)),
    insideQuotes?_eq_none (hmade.not_mem (by decide) (by decide))]
  rfl

theorem split_numberPair (a b : Int) :
    split (numberPair a b) =
      [String.ofList (Decimal.ofInt a), String.ofList (Decimal.ofInt b)] := by
  have hnonempty : (Text.trim (numberPair a b)).isEmpty = false := by
    rw [trim_numberPair]
    simp [numberPair]
  have hend := splitAtCommas_ofInt b []
  rw [List.append_nil] at hend
  simp only [split, hnonempty]
  simp [numberPair, splitAtCommas_ofInt, splitAtCommas, hend, stepQuote,
    extendFirst, foldr_extendFirst, unquote_space_cons, unquote_ofInt]

theorem outcome_number_numberPair [Regex.Package] {a b : Int}
    (ha : Number.InRange a)
    (hb : Number.InRange b) (files : Files) (s : Session) :
    (outcome (expand files (calling "number" (numberPair a b))) s).1 =
      .ok (String.ofList (Decimal.ofInt (Draw.integer a b s.stream).1)) := by
  have hnot {c : Char} (hmark : c ∉ ['+', '-', ',', ' '])
      (hdigit : c.isDigit = false) : c ∉ numberPair a b :=
    (madeOf_numberPair a b).not_mem hmark hdigit
  have hbare : unquoted? none (numberPair a b) = some (numberPair a b) := by
    refine unquoted?_eq_self fun c hc => ⟨?_, ?_⟩
    · rintro rfl
      exact hnot (by decide) (by decide) hc
    · rintro rfl
      exact hnot (by decide) (by decide) hc
  have hbraces : ¬ HasPair '}' (numberPair a b) :=
    mt HasPair.mem (hnot (by decide) (by decide))
  have hformed : (applied "number" (numberPair a b)).WellFormed :=
    wellFormed_applied (by decide)
      (List.all_iff_forall_prop.mp (by decide)) (by decide) hbare
      (hnot (by decide) (by decide)) (hnot (by decide) (by decide)) hbraces
  have hbar : ¬ (applied "number" (numberPair a b)).Barred :=
    not_barred_applied hbare (hnot (by decide) (by decide))
  have hread {n : Int} (hn : Number.InRange n) :
      Decimal.readInt? (String.ofList (Decimal.ofInt n)).toList = some n := by
    rw [String.toList_ofList]
    exact (Decimal.literal_ofInt n).readInt? hn
  rw [outcome_expand_calling hformed hbar (trim_numberPair a b) rfl]
  exact Function.outcome_number (split_numberPair a b) (hread ha) (hread hb) _

end Numbers

end Arguments

namespace Template

open Arguments

/-- Values between quotes come out of a template as they went in: the text is a
list of values and the result one of them, the one with the index that is drawn,
and each is drawn from some stream as long as an index fits a word.  Numbers are
read as they are written, in either order, and the result is a number between
them. -/
theorem argument_lists_survive [Regex.Package] (files : Files) (s : Session) :
    (∀ options : List String, options ≠ [] →
      (∀ option ∈ options, '\'' ∉ option.toList ∧ '\\' ∉ option.toList ∧
        ¬ HasPair '}' option.toList) →
        (∃ option ∈ options,
          (outcome (expand files (calling "any" (quotedList options))) s).1 =
            .ok option) ∧
        (∀ i option stream, options[i]? = some option →
          (Draw.index options.length stream).1 = i →
            (outcome (expand files (calling "any" (quotedList options)))
              { s with stream }).1 = .ok option) ∧
        (options.length ≤ Draw.Width.word.size → ∀ option ∈ options, ∃ stream,
          (outcome (expand files (calling "any" (quotedList options)))
            { s with stream }).1 = .ok option)) ∧
    ∀ a b : Int, Number.InRange a → Number.InRange b →
      ∃ n : Int, Number.InRange n ∧ min a b ≤ n ∧ n ≤ max a b ∧
        (outcome (expand files (calling "number" (numberPair a b))) s).1 =
          .ok (String.ofList (Decimal.ofInt n)) := by
  constructor
  · intro options hoptions hquotable
    have hquotable : ∀ option ∈ options, Quotable option :=
      fun option hoption => ⟨(hquotable option hoption).1,
        (hquotable option hoption).2.1, (hquotable option hoption).2.2⟩
    have hdrawn : ∀ i option stream, options[i]? = some option →
        (Draw.index options.length stream).1 = i →
          (outcome (expand files (calling "any" (quotedList options)))
            { s with stream }).1 = .ok option := by
      intro i option stream hoption hindex
      refine outcome_any_quotedList hoptions hquotable ?_ files
      rw [Draw.choose_eq hoptions, hindex, hoption]
    refine ⟨?_, hdrawn, ?_⟩
    · obtain ⟨option, hmem, hchoose⟩ := Draw.exists_choose hoptions s.stream
      exact ⟨option, hmem,
        outcome_any_quotedList hoptions hquotable hchoose files⟩
    · intro hlength option hmem
      obtain ⟨i, hi, hoption⟩ := List.mem_iff_getElem.mp hmem
      obtain ⟨stream, hindex⟩ := Draw.exists_below hi hlength
      refine ⟨stream, hdrawn i option stream ?_ hindex⟩
      rw [List.getElem?_eq_getElem hi, hoption]
  · intro a b ha hb
    have hdrawn : (Draw.integer a b s.stream).1 ∈ Set.uIcc a b :=
      Draw.range_integer ha hb ▸ Set.mem_range_self s.stream
    obtain ⟨hlow, hhigh⟩ : min a b ≤ (Draw.integer a b s.stream).1 ∧
        (Draw.integer a b s.stream).1 ≤ max a b := hdrawn
    have hrange : Number.InRange (Draw.integer a b s.stream).1 := by
      unfold Number.InRange at ha hb ⊢
      omega
    exact ⟨_, hrange, hlow, hhigh, outcome_number_numberPair ha hb files s⟩

namespace QuotedWitness

/-- Values with everything that has a meaning in a template, and one without
characters. -/
def sauces : List String :=
  ["", " red, \"hot\" ", "(| local", "\x7b\x7b any(", ")"]

/-- The template that asks for one of them. -/
def choice : String :=
  "\x7b\x7b any('', ' red, \"hot\" ', '(| local', '\x7b\x7b any(', ')') " ++
    "\x7d\x7d"

theorem sauces_survive :
    (∃ option ∈ sauces,
      (outcome (expand {} choice) (Session.ofSeed 1)).1 = .ok option) ∧
    (∀ option ∈ sauces, ∃ stream, (outcome (expand {} choice)
      { Session.ofSeed 1 with stream }).1 = .ok option) ∧
    ∃ n : Int, -3 ≤ n ∧ n ≤ 2 ∧
      (outcome (expand {} "\x7b\x7b number(2, -3) \x7d\x7d")
        (Session.ofSeed 1)).1 = .ok (String.ofList (Decimal.ofInt n)) := by
  have hchoice : calling "any" (quotedList sauces) = choice := by decide
  have hpair : calling "number" (numberPair 2 (-3)) =
      "\x7b\x7b number(2, -3) \x7d\x7d" := by decide
  obtain ⟨hlists, hnumbers⟩ := argument_lists_survive {} (Session.ofSeed 1)
  obtain ⟨hmember, -, hevery⟩ := hlists sauces (by decide) (by decide)
  obtain ⟨n, -, hlow, hhigh, hnumber⟩ := hnumbers 2 (-3) (by decide) (by decide)
  rw [hchoice] at hmember hevery
  rw [hpair] at hnumber
  exact ⟨hmember, hevery (by decide), n, hlow, hhigh, hnumber⟩

end QuotedWitness

end Template

end Specimen
