/-
Patterns that are tied to the start of a text by writing them between
parentheses.
-/
import Specimen.Proofs.PatternSearch
import Specimen.Proofs.EnclosedText
import Specimen.Settings.Layer

namespace Specimen.Regex

namespace Pattern

open Profile (anchored)

/-- The pattern at the start of the text only. -/
def tied (p : Pattern) : Pattern := .sequence (.look .textStart) (.group none p)

/-- The group that is written around a pattern to tie it to the start of the
text. -/
def tie : Reader.Frame := ⟨{}, none, [], [some (.look .textStart)]⟩

variable [Package] {text : String}

/-- The text closes a group that it does not open. -/
def Overcloses (text : String) : Prop :=
  Reader.overcloses text.toList.length { flags := {} } text.toList

/-- The text is a pattern whose last comment is open: with a parenthesis behind
it it still is one. -/
def EndsInComment (text : String) : Prop :=
  (parse false text).isSome ∧ (parse false (text ++ ")")).isSome

/-- The text keeps to the limits that the package sets on nesting and size. -/
def WithinLimits (text : String) : Prop :=
  Package.shallow text ∧ Package.small false text

instance (text : String) : Decidable (Overcloses text) :=
  inferInstanceAs (Decidable (_ = true))

instance (text : String) : Decidable (EndsInComment text) :=
  inferInstanceAs (Decidable (_ ∧ _))

instance (text : String) : Decidable (WithinLimits text) :=
  inferInstanceAs (Decidable (_ ∧ _))

theorem compile_eq (text : String) : compile false text =
    if WithinLimits text then parse false text else none := by
  by_cases hshallow : Package.shallow text <;>
    by_cases hsmall : Package.small false text <;>
      simp [compile, read, WithinLimits, hshallow, hsmall]

theorem parse_anchored_eq (text : String) : parse false (anchored text) =
    Reader.readOn (text.toList.length + 2 + 1)
      (Reader.State.onto { flags := {} } tie) (text.toList ++ [')']) := by
  have hlist : (anchored text).toList =
      '^' :: '(' :: '?' :: ':' :: (text.toList ++ [')']) := by
    simp [anchored]
  have hlength : (anchored text).toList.length =
      text.toList.length + 2 + 1 + 2 := by
    simp [hlist]
  rw [parse, hlength, hlist]
  rfl

theorem enclosed_parse (hover : ¬ Overcloses text) :
    Reader.Enclosed tie (parse false text) (parse false (text ++ ")"))
      (parse false (anchored text)) := by
  have hbehind : parse false (text ++ ")") =
      Reader.readOn (text.toList.length + 0 + 1) { flags := {} }
        (text.toList ++ [')']) := by
    simp [parse]
  rw [parse_anchored_eq, hbehind]
  exact Reader.enclosed_readOn 0 2 (Nat.le_refl _)
    (by simpa [Overcloses] using hover)

/-- A text that is a pattern closes only groups it opens. -/
theorem not_overcloses_of_parse (hparse : (parse false text).isSome) :
    ¬ Overcloses text := by
  obtain ⟨p, hparse⟩ := Option.isSome_iff_exists.mp hparse
  rw [Overcloses, Reader.overcloses_of_readOn hparse]
  exact Bool.false_ne_true

theorem parse_eq_none_of_overcloses (hover : Overcloses text) :
    parse false text = none :=
  Option.not_isSome_iff_eq_none.mp fun hparse =>
    not_overcloses_of_parse hparse hover

/-- The text means the same between parentheses as alone: no parenthesis that
closes a group it does not open is put up with there, none is lost in a comment,
and what is written around the text makes it neither too deep nor too large. -/
structure Contained (text : String) : Prop where
  compile_eq_none : Overcloses text → compile false (anchored text) = none
  not_endsInComment : ¬ EndsInComment text
  withinLimits_iff : (parse false text).isSome →
    (WithinLimits (anchored text) ↔ WithinLimits text)

/-- Between parentheses a text that is contained is compiled as it is alone. -/
theorem Contained.compile_anchored (hcontained : Contained text) :
    compile false (anchored text) = (compile false text).map tied := by
  by_cases hover : Overcloses text
  · rw [hcontained.compile_eq_none hover, compile_eq,
      parse_eq_none_of_overcloses hover, ite_self]
    rfl
  have henclosed := enclosed_parse hover
  have hcomment := hcontained.not_endsInComment
  have hlimits := hcontained.withinLimits_iff
  rw [EndsInComment] at hcomment
  rw [compile_eq, compile_eq]
  generalize parse false text = alone, parse false (text ++ ")") = behind,
    parse false (anchored text) = enclosed at henclosed hcomment hlimits
  cases henclosed with
  | refused => rw [ite_self, ite_self, Option.map_none]
  | closed p =>
      simp only [hlimits rfl]
      split <;> rfl
  | commented p => exact absurd ⟨rfl, rfl⟩ hcomment

/-- Of the texts that can be compiled, those are refused that end in a comment
or pass a limit with what is written around them. -/
theorem isSome_compile_anchored_iff (hcompile : (compile false text).isSome) :
    (compile false (anchored text)).isSome ↔
      ¬ EndsInComment text ∧ WithinLimits (anchored text) := by
  rw [compile_eq] at hcompile
  split at hcompile
  · have henclosed := enclosed_parse (not_overcloses_of_parse hcompile)
    rw [EndsInComment, compile_eq]
    generalize parse false text = alone, parse false (text ++ ")") = behind,
      parse false (anchored text) = enclosed at henclosed hcompile
    cases henclosed with
    | refused => cases hcompile
    | closed p =>
        by_cases hlimits : WithinLimits (anchored text) <;> simp [hlimits]
    | commented p => simp
  · cases hcompile

end Pattern

end Specimen.Regex

namespace Specimen

open Regex (Pattern)

namespace Profile

variable {fileName pattern : String} {layer : Layer}
  {sections : List (String × Layer)}
  {selected : Except SettingsError (Option Layer)}

section Selection

variable [Regex.Package]

/-- Which section is applied to a file: the first whose pattern takes an initial
part of the file's name, unless one that is no pattern stands before it. -/
inductive Selected (fileName : String) :
    List (String × Layer) → Except SettingsError (Option Layer) → Prop
  | none : Selected fileName [] (.ok none)
  | invalid {pattern : String} {layer : Layer}
    {sections : List (String × Layer)}
    (hcompile : Pattern.compile false pattern = none) :
    Selected fileName ((pattern, layer) :: sections)
      (.error (.invalidPattern (anchored pattern)))
  | here {pattern : String} {layer : Layer} {sections : List (String × Layer)}
    {p : Pattern} {w : List Char}
    (hcompile : Pattern.compile false pattern = some p)
    (hw : w <+: fileName.toList)
    (hmatch : p.Matches ⟨none, fileName.toList⟩ w) :
    Selected fileName ((pattern, layer) :: sections) (.ok (some layer))
  | later {pattern : String} {layer : Layer} {sections : List (String × Layer)}
    {p : Pattern} {selected : Except SettingsError (Option Layer)}
    (hcompile : Pattern.compile false pattern = some p)
    (hmiss : ∀ w, w <+: fileName.toList →
      ¬ p.Matches ⟨none, fileName.toList⟩ w)
    (hlater : Selected fileName sections selected) :
    Selected fileName ((pattern, layer) :: sections) selected

/-- The section that is applied is determined. -/
theorem Selected.unique {other : Except SettingsError (Option Layer)}
    (hselected : Selected fileName sections selected)
    (hother : Selected fileName sections other) : other = selected := by
  induction hselected with
  | none =>
      cases hother
      rfl
  | invalid hcompile => cases hother <;> simp_all
  | here hcompile hw hmatch => cases hother <;> simp_all
  | later hcompile hmiss hlater ih => cases hother <;> simp_all

theorem selected_find?
    (hcontained : ∀ entry ∈ sections, Pattern.Contained entry.1) :
    Selected fileName sections (find? fileName sections) := by
  induction sections with
  | nil => exact .none
  | cons entry sections ih =>
      obtain ⟨pattern, layer⟩ := entry
      obtain ⟨hpattern, hrest⟩ := List.forall_mem_cons.mp hcontained
      rw [find?, hpattern.compile_anchored]
      cases hcompile : Pattern.compile false pattern with
      | none => exact .invalid hcompile
      | some p =>
          have hfound : p.tied.isFoundIn fileName ↔ _ :=
            Pattern.isFoundIn_anchored_iff (Pattern.proper_of_compile hcompile)
          simp only [Option.map_some]
          split
          · rename_i hyes
            obtain ⟨w, hw, hmatch⟩ := hfound.mp hyes
            exact .here hcompile hw hmatch
          · rename_i hno
            exact .later hcompile
              (fun w hw hmatch => hno (hfound.mpr ⟨w, hw, hmatch⟩)) (ih hrest)

def resolve (profile : Profile) : Option Layer → Except SettingsError Settings
  | some layer => (layer.above profile.general).settings
  | none => profile.general.settings

/-- As long as every section's pattern means the same between parentheses as
alone, the settings of a file are those of the first section whose pattern takes
an initial part of the file's name.  Of the texts that can be compiled, those
and only those are refused that leave a comment open at their end, or pass a
limit on nesting or size with the parentheses and the sign for the start. -/
theorem settingsFor_selected (profile : Profile) (fileName : String) :
    ((∀ entry ∈ profile.specific, Pattern.Contained entry.1) →
      ∃ selected,
        (∀ other, Selected fileName profile.specific other ↔ other = selected) ∧
          profile.settingsFor fileName = selected.bind profile.resolve) ∧
    ∀ text, (Pattern.compile false text).isSome →
      ((Pattern.compile false (anchored text)).isSome ↔
        ¬ Pattern.EndsInComment text ∧
        Pattern.WithinLimits (anchored text)) := by
  refine ⟨fun hcontained => ?_,
    fun text => Pattern.isSome_compile_anchored_iff⟩
  have hselected : Selected fileName profile.specific _ :=
    selected_find? hcontained
  refine ⟨find? fileName profile.specific, fun other =>
    ⟨hselected.unique, ?_⟩, ?_⟩
  · rintro rfl
    exact hselected
  · rw [settingsFor]
    cases find? fileName profile.specific with
    | error e => rfl
    | ok layer => cases layer <;> rfl

theorem matches_iff {p : Pattern}
    (hcompile : Pattern.compile false pattern = some p) :
    (∃ w, w <+: fileName.toList ∧ p.Matches ⟨none, fileName.toList⟩ w) ↔
      (Pattern.compile false pattern).any (·.tied.isFoundIn fileName) := by
  rw [hcompile]
  exact (Pattern.isFoundIn_anchored_iff
    (Pattern.proper_of_compile hcompile)).symm

end Selection

namespace AnchoredWitness

/-- The name of what is written for an atlas. -/
def mapped : Layer := { outputFilename := some "map.xml" }

/-- A section for numbered files, and one for an atlas. -/
def atlases : Profile where
  specific := [("[0-9]+", {}), ("a(t|l)+", mapped)]

def only (pattern : String) : Profile where
  specific := [(pattern, mapped)]

theorem contained_atlases :
    ∀ entry ∈ atlases.specific, Pattern.Contained entry.1 := by
  have hplain : ∀ entry ∈ atlases.specific,
      ¬ Pattern.Overcloses entry.1 ∧ ¬ Pattern.EndsInComment entry.1 := by
    intro entry hentry
    rcases List.mem_pair.mp hentry with rfl | rfl <;> decide +kernel
  exact fun entry hentry =>
    ⟨fun hover => absurd hover (hplain entry hentry).1, (hplain entry hentry).2,
      fun _ => Iff.rfl⟩

/-- An atlas is no numbered file, and the section for it is applied. -/
theorem atlas_mapped :
    Selected "atlas.xsd" atlases.specific (.ok (some mapped)) ∧
      atlases.settingsFor "atlas.xsd" = (mapped.above {}).settings := by
  have hnumbered : (Pattern.compile false "[0-9]+").isSome := by decide +kernel
  have hatlas : (Pattern.compile false "a(t|l)+").isSome := by decide +kernel
  obtain ⟨number, hnumber⟩ := Option.isSome_iff_exists.mp hnumbered
  obtain ⟨atlas, hatlas⟩ := Option.isSome_iff_exists.mp hatlas
  have hmiss : ¬ ∃ w, w <+: "atlas.xsd".toList ∧
      number.Matches ⟨none, "atlas.xsd".toList⟩ w := by
    rw [matches_iff hnumber]
    decide +kernel
  obtain ⟨w, hw, hmatch⟩ : ∃ w, w <+: "atlas.xsd".toList ∧
      atlas.Matches ⟨none, "atlas.xsd".toList⟩ w := by
    rw [matches_iff hatlas]
    decide +kernel
  have hselected :
      Selected "atlas.xsd" atlases.specific (.ok (some mapped)) :=
    .later hnumber (fun w hw hmatch => hmiss ⟨w, hw, hmatch⟩)
      (.here hatlas hw hmatch)
  obtain ⟨selected, hunique, hsettings⟩ :=
    (settingsFor_selected atlases "atlas.xsd").1 contained_atlases
  obtain rfl := (hunique _).mp hselected
  exact ⟨hselected, hsettings⟩

/-- A section whose pattern closes a group before opening one is applied by a
match in the middle of a name, and one whose pattern ends in a comment is
refused. -/
theorem anchoring_gaps :
    (Pattern.compile false "a)|(?:s" = none ∧
      (only "a)|(?:s").settingsFor "tests.xsd" = (mapped.above {}).settings) ∧
    (Pattern.compile false "(?x)a#").isSome ∧
      (only "(?x)a#").settingsFor "abc.xsd" =
        .error (.invalidPattern "^(?:(?x)a#)") := by
  have hlater : (Pattern.compile false (anchored "a)|(?:s")).any
      (·.isFoundIn "tests.xsd") := by decide +kernel
  rcases hcompile : Pattern.compile false (anchored "a)|(?:s") with _ | p
  · rw [hcompile] at hlater
    cases hlater
  rw [hcompile, Option.any_some] at hlater
  refine ⟨⟨by decide +kernel, ?_⟩, by decide +kernel, ?_⟩
  · simp only [settingsFor, only, find?, hcompile, hlater]
    rfl
  · have hrefused : Pattern.compile false (anchored "(?x)a#") = none := by
      decide +kernel
    simp only [settingsFor, only, find?, hrefused]
    rfl

end AnchoredWitness

end Profile

end Specimen
