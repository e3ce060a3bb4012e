/-
Layers of settings over each other.  The rule for a node is that of the specific
layer if one of its rules is about the node, and otherwise that of the general
one: a pattern that both layers have decides the same nodes in both, so nothing
is lost where it stands only once.
-/
import Mathlib.Data.List.Find
import Specimen.Settings.Layer

namespace Specimen

namespace Layer

/-- The setting is the specific one if there is one, and otherwise the general
one. -/
def Settled {α : Type} (specific general merged : Option α) : Prop :=
  (∀ value, specific = some value → merged = some value) ∧
    (specific = none → merged = general)

theorem settled_or {α : Type} (specific general : Option α) :
    Settled specific general (specific.or general) := by
  cases specific <;> simp [Settled]

/-- Every setting with a single value is settled by the two layers. -/
structure Settles (s g merged : Layer) : Prop where
  sourceFilename :
    Settled s.sourceFilename g.sourceFilename merged.sourceFilename
  outputFilename :
    Settled s.outputFilename g.outputFilename merged.outputFilename
  inclusion : Settled s.inclusion g.inclusion merged.inclusion
  occurrenceCap : Settled s.occurrenceCap g.occurrenceCap merged.occurrenceCap
  lower : Settled s.numbers.lower g.numbers.lower merged.numbers.lower
  upper : Settled s.numbers.upper g.numbers.upper merged.numbers.upper

theorem settles_above (s g : Layer) : Settles s g (s.above g) :=
  ⟨settled_or _ _, settled_or _ _, settled_or _ _, settled_or _ _,
    settled_or _ _, settled_or _ _⟩

end Layer

namespace Rule

variable [Regex.Package]

/-- The rules of the patterns as they are written, if none of them is
malformed. -/
def ofSources? (rules : List (String × Option String)) : Option (List Rule) :=
  rules.mapM fun rule => ofSource? rule.1 rule.2

/-- The pattern of the written rule is found in the name. -/
def isAbout (name : String) (rule : String × Option String) : Bool :=
  (Regex.Pattern.compile true rule.1).any (·.isFoundIn name)

theorem isAbout_congr {rule other : String × Option String}
    (hpattern : rule.1 = other.1) (name : String) :
    isAbout name rule = isAbout name other := by
  rw [isAbout, isAbout, hpattern]

theorem isAbout_of_ofSource {written : String × Option String} {rule : Rule}
    (hrule : ofSource? written.1 written.2 = some rule) (name : String) :
    isAbout name written = rule.appliesTo name := by
  obtain ⟨pattern, hpattern, rfl⟩ := Option.map_eq_some_iff.mp hrule
  rw [isAbout, hpattern]
  rfl

theorem ofSource?_of_compile {source : String} {pattern : Regex.Pattern}
    (hcompile : Regex.Pattern.compile true source = some pattern)
    (template : Option String) :
    ofSource? source template = some ⟨source, pattern, template⟩ := by
  rw [ofSource?, hcompile]
  rfl

theorem ofSources?_cons_eq_some_iff {written : String × Option String}
    {rules : List (String × Option String)} {compiled : List Rule} :
    ofSources? (written :: rules) = some compiled ↔
      ∃ rule, ofSource? written.1 written.2 = some rule ∧
        ∃ rest, ofSources? rules = some rest ∧ rule :: rest = compiled := by
  simp [ofSources?, List.mapM_cons, Option.bind_eq_some_iff]

theorem exists_ofSources {rules : List (String × Option String)}
    (hrules : ∀ rule ∈ rules, (Regex.Pattern.compile true rule.1).isSome) :
    ∃ compiled, ofSources? rules = some compiled := by
  induction rules with
  | nil => exact ⟨[], rfl⟩
  | cons rule rules ih =>
      obtain ⟨hrule, hrules⟩ := List.forall_mem_cons.mp hrules
      obtain ⟨pattern, hpattern⟩ := Option.isSome_iff_exists.mp hrule
      obtain ⟨rest, hrest⟩ := ih hrules
      exact ⟨_, ofSources?_cons_eq_some_iff.mpr
        ⟨_, ofSource?_of_compile hpattern rule.2, rest, hrest, rfl⟩⟩

/-- The first rule about a name is the one of the first pattern that is found in
the name. -/
theorem find?_of_ofSources {rules : List (String × Option String)}
    {compiled : List Rule} (hcompiled : ofSources? rules = some compiled)
    (name : String) :
    compiled.find? (·.appliesTo name) =
      (rules.find? (isAbout name)).bind fun rule =>
        ofSource? rule.1 rule.2 := by
  induction rules generalizing compiled with
  | nil =>
      cases hcompiled
      rfl
  | cons written rules ih =>
      obtain ⟨rule, hrule, rest, hrest, rfl⟩ :=
        ofSources?_cons_eq_some_iff.mp hcompiled
      rw [List.find?_cons, List.find?_cons, isAbout_of_ofSource hrule]
      by_cases happlies : rule.appliesTo name
      · simp [happlies, hrule]
      · simp [happlies, ih hrest]

end Rule

namespace Settings

theorem withRules_eq [Regex.Package] {rules : List (String × Option String)}
    {compiled : List Rule} (hcompiled : Rule.ofSources? rules = some compiled)
    (settings : Settings) :
    settings.withRules rules =
      .ok { settings with rules := settings.rules ++ compiled } := by
  induction rules generalizing compiled settings with
  | nil =>
      cases hcompiled
      simp [withRules, pure, Except.pure]
  | cons written rules ih =>
      obtain ⟨pattern, template⟩ := written
      obtain ⟨rule, hrule, rest, hrest, rfl⟩ :=
        Rule.ofSources?_cons_eq_some_iff.mp hcompiled
      have hwith : settings.withRule pattern template =
          .ok { settings with rules := settings.rules ++ [rule] } := by
        rw [withRule, hrule]
      simp only [withRules, List.foldlM_cons, hwith]
      refine (ih hrest _).trans ?_
      simp only [List.append_assoc, List.singleton_append]

theorem templateFor?_of_find {rules : List Rule} {name : String} {rule : Rule}
    (hfind : rules.find? (·.appliesTo name) = some rule) :
    templateFor? rules name = rule.template.filter (· ≠ "") := by
  rw [templateFor?, hfind]

end Settings

namespace Layer

variable {s g layer : Layer}

/-- What the layer settles, with these rules and with defaults for what it
leaves open. -/
def inEffect (layer : Layer) (rules : List Rule) : Settings :=
  let defaults : Settings := {}
  { sourceFilename := layer.sourceFilename.getD defaults.sourceFilename
    outputFilename := layer.outputFilename.getD defaults.outputFilename
    inclusion := layer.inclusion.getD defaults.inclusion
    occurrenceCap := layer.occurrenceCap.getD defaults.occurrenceCap
    numbers := layer.numbers
    rules := rules }

/-- The layer has a rule with the pattern of this one. -/
def repeats (layer : Layer) (rule : String × Option String) : Bool :=
  layer.rules.any fun other => other.1 == rule.1

theorem repeats_iff {rule : String × Option String} :
    layer.repeats rule ↔ ∃ other ∈ layer.rules, other.1 = rule.1 := by
  simp [repeats]

theorem rules_above (s g : Layer) :
    (s.above g).rules = s.rules ++ g.rules.filter fun rule => !s.repeats rule :=
  rfl

theorem repeats_above (s g : Layer) (rule : String × Option String) :
    (s.above g).repeats rule = (s.repeats rule || g.repeats rule) := by
  cases hs : s.repeats rule with
  | true =>
      obtain ⟨other, hother, hpattern⟩ := repeats_iff.mp hs
      exact repeats_iff.mpr ⟨other, List.mem_append_left _ hother, hpattern⟩
  | false =>
      have hkept : ∀ other : String × Option String, other.1 = rule.1 →
          (!s.repeats other) = true := by
        intro other hpattern
        rw [repeats, hpattern, ← repeats, hs]
        rfl
      rw [Bool.false_or, Bool.eq_iff_iff, repeats_iff, repeats_iff]
      constructor
      · rintro ⟨other, hother, hpattern⟩
        rcases List.mem_append.mp hother with hother | hother
        · rw [repeats_iff.mpr ⟨other, hother, hpattern⟩] at hs
          contradiction
        · exact ⟨other, (List.mem_filter.mp hother).1, hpattern⟩
      · rintro ⟨other, hother, hpattern⟩
        exact ⟨other, List.mem_append_right _
          (List.mem_filter.mpr ⟨hother, hkept other hpattern⟩), hpattern⟩

theorem above_assoc (a b c : Layer) :
    (a.above b).above c = a.above (b.above c) := by
  have hrules : ((a.above b).above c).rules = (a.above (b.above c)).rules := by
    simp only [rules_above, List.filter_append, List.filter_filter,
      List.append_assoc, repeats_above, Bool.not_or]
  simp only [above, Layer.mk.injEq, Option.or_assoc, true_and]
  exact hrules

theorem above_self (a : Layer) : a.above a = a := by
  have hnone : (a.rules.filter fun rule => !a.repeats rule) = [] := by
    refine List.filter_eq_nil_iff.mpr fun rule hrule => ?_
    simp [repeats_iff.mpr ⟨rule, hrule, rfl⟩]
  have hrules : (a.above a).rules = a.rules := by
    rw [rules_above, hnone, List.append_nil]
  simp only [above, Option.or_self]
  exact congrArg (fun rules => { a with rules }) hrules

theorem above_empty (a : Layer) : a.above {} = a := by
  simp [above]

theorem empty_above (a : Layer) : ({} : Layer).above a = a := by
  have hrules : (({} : Layer).above a).rules = a.rules := by
    simp [rules_above, repeats]
  simp only [above, Option.none_or]
  exact congrArg (fun rules => { a with rules }) hrules

section Compiled

variable [Regex.Package]

/-- No pattern of a rule is malformed. -/
def Compiles (layer : Layer) : Prop :=
  ∀ rule ∈ layer.rules, (Regex.Pattern.compile true rule.1).isSome

theorem Compiles.above (hs : s.Compiles) (hg : g.Compiles) :
    (s.above g).Compiles := by
  intro rule hrule
  rcases List.mem_append.mp hrule with hrule | hrule
  · exact hs rule hrule
  · exact hg rule (List.mem_filter.mp hrule).1

/-- A layer takes effect with all its rules, in the order in which they are
written. -/
theorem settings_eq_ok_iff {rules : List Rule} {settings : Settings}
    (hrules : Rule.ofSources? layer.rules = some rules) :
    layer.settings = .ok settings ↔
      isChance (layer.inEffect rules).inclusion ∧
        (Regex.Pattern.compile false
          (layer.inEffect rules).sourceFilename).isSome ∧
        layer.inEffect rules = settings := by
  simp only [Layer.settings, bind, Except.bind, Settings.withRules_eq hrules,
    List.nil_append, inEffect]
  by_cases hchance : isChance (layer.inclusion.getD 0.5)
  · cases hname : Regex.Pattern.compile false
        (layer.sourceFilename.getD "(?P<extracted>.*).(xsd|XSD)") with
    | none => simp [hchance, throw, throwThe, MonadExceptOf.throw]
    | some pattern => simp [hchance]
  · simp [hchance, throw, throwThe, MonadExceptOf.throw]

/-- Whether a pattern is found in a name depends on the pattern alone, and so
the rules that are not repeated are not missed. -/
theorem find?_above (s g : Layer) (name : String) :
    (s.above g).rules.find? (Rule.isAbout name) =
      (s.rules.find? (Rule.isAbout name)).or
        (g.rules.find? (Rule.isAbout name)) := by
  rw [rules_above, List.find?_append]
  cases hfind : s.rules.find? (Rule.isAbout name) with
  | some rule => rfl
  | none =>
      rw [Option.none_or, Option.none_or, List.find?_filter]
      refine List.find?_congr fun rule hrule => ?_
      cases habout : Rule.isAbout name rule with
      | false => simp
      | true =>
          have hnew : s.repeats rule = false := by
            refine Bool.eq_false_iff.mpr fun hrepeats => ?_
            obtain ⟨other, hother, hpattern⟩ := repeats_iff.mp hrepeats
            have hnot := List.find?_eq_none.mp hfind other hother
            exact hnot ((Rule.isAbout_congr hpattern name).trans habout)
          simp [hnew]

/-- The first rule about a name comes from the specific layer if that has
one. -/
theorem find?_of_above {first second merged : List Rule} (hs : s.Compiles)
    (hfirst : Rule.ofSources? s.rules = some first)
    (hsecond : Rule.ofSources? g.rules = some second)
    (hmerged : Rule.ofSources? (s.above g).rules = some merged)
    (name : String) :
    merged.find? (·.appliesTo name) =
      (first.find? (·.appliesTo name)).or
        (second.find? (·.appliesTo name)) := by
  rw [Rule.find?_of_ofSources hmerged, Rule.find?_of_ofSources hfirst,
    Rule.find?_of_ofSources hsecond, find?_above]
  cases hfind : s.rules.find? (Rule.isAbout name) with
  | none => rfl
  | some rule =>
      obtain ⟨pattern, hpattern⟩ := Option.isSome_iff_exists.mp
        (hs rule (List.mem_of_find?_eq_some hfind))
      simp [Rule.ofSource?, hpattern]

/-- The rule for a node is the first of the specific layer about it, with a
template or without, and the first of the general layer where the specific one
has none; it is the same rule as if nothing had been left out.  Every other
setting is the specific one if there is one.  Layers may be put together in any
order of the steps, and a layer over itself or with an empty one is the same. -/
theorem specific_then_general {s g : Layer} (hs : s.Compiles)
    (hg : g.Compiles) :
    (∃ first second merged,
      Rule.ofSources? s.rules = some first ∧
      Rule.ofSources? g.rules = some second ∧
      Rule.ofSources? (s.above g).rules = some merged ∧
      (∀ settings, (s.above g).settings = .ok settings →
        settings.rules = merged) ∧
      ∀ name,
        merged.find? (·.appliesTo name) =
          (first.find? (·.appliesTo name)).or
            (second.find? (·.appliesTo name)) ∧
        merged.find? (·.appliesTo name) =
          (first ++ second).find? (·.appliesTo name) ∧
        (∀ rule, first.find? (·.appliesTo name) = some rule →
          Settings.templateFor? merged name =
            rule.template.filter (· ≠ "")) ∧
        (first.find? (·.appliesTo name) = none →
          Settings.templateFor? merged name =
            Settings.templateFor? second name)) ∧
    Settles s g (s.above g) ∧
    (∀ a b c : Layer, (a.above b).above c = a.above (b.above c)) ∧
    (∀ a : Layer, a.above a = a) ∧
    (∀ a : Layer, a.above {} = a ∧ ({} : Layer).above a = a) := by
  refine ⟨?_, settles_above s g, above_assoc, above_self,
    fun a => ⟨above_empty a, empty_above a⟩⟩
  obtain ⟨first, hfirst⟩ := Rule.exists_ofSources hs
  obtain ⟨second, hsecond⟩ := Rule.exists_ofSources hg
  obtain ⟨merged, hmerged⟩ := Rule.exists_ofSources (hs.above hg)
  refine ⟨first, second, merged, hfirst, hsecond, hmerged, ?_, ?_⟩
  · intro settings hsettings
    obtain ⟨-, -, rfl⟩ := (settings_eq_ok_iff hmerged).mp hsettings
    rfl
  intro name
  have hfind := find?_of_above hs hfirst hsecond hmerged name
  refine ⟨hfind, hfind.trans List.find?_append.symm, ?_, ?_⟩
  · intro rule hrule
    rw [hrule, Option.some_or] at hfind
    exact Settings.templateFor?_of_find hfind
  · intro hnone
    rw [hnone, Option.none_or] at hfind
    rw [Settings.templateFor?, hfind, Settings.templateFor?]

end Compiled

namespace LayerWitness

/-- Leave what ends with a three as it is, and give other numbers a text. -/
def books : Layer :=
  { occurrenceCap := some 3
    rules := [("3$", none), ("_", some "ISBN")] }

def everything : Layer :=
  { occurrenceCap := some 5, outputFilename := some "sample.xml"
    rules := [("_", some "code"), ("", some "x")] }

def thirteen : Rule :=
  ⟨"3$", .sequence (.text ['3']) (.look .textEnd), none⟩

def numbered (template : String) : Rule :=
  ⟨"_", .text ['_'], some template⟩

def other : Rule :=
  ⟨"", .empty, some "x"⟩

theorem compile_three : Regex.Pattern.compile true "3$" =
    some (.sequence (.text ['3']) (.look .textEnd)) := by
  decide +kernel

theorem compile_underscore :
    Regex.Pattern.compile true "_" = some (.text ['_']) := by
  decide +kernel

theorem compile_empty : Regex.Pattern.compile true "" = some .empty := rfl

theorem rules_books :
    Rule.ofSources? books.rules = some [thirteen, numbered "ISBN"] := by
  simp [Rule.ofSources?, books, Rule.ofSource?_of_compile compile_three,
    Rule.ofSource?_of_compile compile_underscore, thirteen, numbered]

theorem rules_everything :
    Rule.ofSources? everything.rules = some [numbered "code", other] := by
  simp [Rule.ofSources?, everything, Rule.ofSource?_of_compile compile_empty,
    Rule.ofSource?_of_compile compile_underscore, numbered, other]

/-- A rule without template stands before one of the general layer, and the rule
that the general layer repeats is left out. -/
theorem books_first :
    books.Compiles ∧ everything.Compiles ∧
    (books.above everything).rules =
      [("3$", none), ("_", some "ISBN"), ("", some "x")] ∧
    ∃ merged, Rule.ofSources? (books.above everything).rules = some merged ∧
      Settings.templateFor? merged "isbn_13" = none ∧
      Settings.templateFor? merged "isbn_10" = some "ISBN" ∧
      Settings.templateFor? merged "page3" = none ∧
      Settings.templateFor? merged "page" = some "x" := by
  have hbooks : books.Compiles := by
    simp [Compiles, books, compile_three, compile_underscore]
  have heverything : everything.Compiles := by
    simp [Compiles, everything, compile_underscore, compile_empty]
  obtain ⟨⟨first, second, merged, hfirst, hsecond, hmerged, -, hnames⟩, -⟩ :=
    specific_then_general hbooks heverything
  obtain rfl : [thirteen, numbered "ISBN"] = first :=
    Option.some.inj (rules_books.symm.trans hfirst)
  obtain rfl : [numbered "code", other] = second :=
    Option.some.inj (rules_everything.symm.trans hsecond)
  refine ⟨hbooks, heverything, rfl, merged, hmerged, ?_, ?_, ?_, ?_⟩
  · obtain ⟨-, -, hspecific, -⟩ := hnames "isbn_13"
    exact hspecific thirteen rfl
  · obtain ⟨-, -, hspecific, -⟩ := hnames "isbn_10"
    exact hspecific (numbered "ISBN") rfl
  · obtain ⟨-, -, hspecific, -⟩ := hnames "page3"
    exact hspecific thirteen rfl
  · obtain ⟨-, -, -, hrest⟩ := hnames "page"
    exact hrest rfl

end LayerWitness

end Layer

end Specimen
