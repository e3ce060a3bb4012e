/-
The lengths of values.  Characters are counted in texts and octets in binary
values, and both numbers are drawn alike: from a least length, which is one
where the facets give none, to the greatest one, which is left out where it is
below.  What the facets ask of the length then holds, unless they allow nothing
but the empty value and only say so by the greatest length.
-/
import Mathlib.Control.Monad.Basic
import Specimen.Proofs.OctetTexts
import Specimen.Proofs.UnruledValues

namespace Specimen

namespace Facets

/-- The facets allow values of a length. -/
structure AllowsLength (facets : Facets) (n : Nat) : Prop where
  length : ∀ m ∈ facets.length, n = m
  minLength : ∀ m ∈ facets.minLength, m ≤ n
  maxLength : ∀ m ∈ facets.maxLength, n ≤ m

/-- The greatest length allows the empty value alone, and no other facet speaks
of the length. -/
structure EmptyByGreatest (facets : Facets) : Prop where
  length : facets.length = Option.none
  minLength : facets.minLength = Option.none
  maxLength : facets.maxLength = some 0

/-- The length is one that is drawn for the facets. -/
structure DrawsLength (facets : Facets) (n : Nat) : Prop where
  least_le : facets.lengthRange.1.getD 1 ≤ n
  le_most : ∀ most ∈ facets.lengthRange.2,
    facets.lengthRange.1.getD 1 ≤ most → n ≤ most

variable {facets : Facets} {n w : Nat}

/-- Where the facets allow some length, the bounds of the lengths that are drawn
are only in the wrong order where they allow the empty value alone. -/
theorem AllowsLength.least_le_most (hw : facets.AllowsLength w)
    (hempty : ¬ facets.EmptyByGreatest) :
    ∀ most ∈ facets.lengthRange.2, facets.lengthRange.1.getD 1 ≤ most := by
  intro most hmost
  cases hlength : facets.length with
  | some m =>
      simp only [lengthRange, hlength] at hmost ⊢
      cases hmost
      exact Nat.le_refl _
  | none =>
      simp only [lengthRange, hlength] at hmost ⊢
      have hwmost := hw.maxLength most hmost
      cases hleast : facets.minLength with
      | some least => exact Nat.le_trans (hw.minLength least hleast) hwmost
      | none =>
          refine Nat.one_le_iff_ne_zero.mpr fun hzero => hempty ?_
          exact ⟨hlength, hleast, hzero ▸ hmost⟩

theorem AllowsLength.of_between (hw : facets.AllowsLength w)
    (hleast : facets.lengthRange.1.getD 1 ≤ n)
    (hmost : ∀ most ∈ facets.lengthRange.2, n ≤ most) :
    facets.AllowsLength n := by
  cases hlength : facets.length with
  | some m =>
      simp only [lengthRange, hlength] at hleast hmost
      have hn : n = w := by
        rw [hw.length m hlength]
        exact Nat.le_antisymm (hmost m rfl) hleast
      exact hn ▸ hw
  | none =>
      simp only [lengthRange, hlength] at hleast hmost
      refine ⟨by simp [hlength], ?_, hmost⟩
      intro least hfacet
      rw [hfacet] at hleast
      exact hleast

/-- Of the lengths that are drawn for facets that some length meets, all meet
them or none does. -/
theorem AllowsLength.allows_iff_of_draws (hw : facets.AllowsLength w)
    (hn : facets.DrawsLength n) :
    facets.AllowsLength n ↔ ¬ facets.EmptyByGreatest := by
  constructor
  · intro hallows hempty
    have hzero := hallows.maxLength 0 hempty.maxLength
    have hone := hn.least_le
    simp only [lengthRange, hempty.length, hempty.minLength,
      Option.getD_none] at hone
    omega
  · intro hempty
    have hmost := hw.least_le_most hempty
    refine hw.of_between hn.least_le fun most hfacet => ?_
    exact hn.le_most most hfacet (hmost most hfacet)

end Facets

namespace Draw

/-- A greatest length below the least one counts as missing. -/
theorem letters_of_lt {minLength : Option Nat} {most : Nat}
    (hlt : most < minLength.getD 1) :
    letters minLength (some most) = letters minLength none := by
  simp only [letters, ge_iff_le, if_neg (Nat.not_le.mpr hlt)]

theorem length_bytes (n : Nat) (s : Stream) : (bytes n s).1.length = n := by
  fun_induction bytes n generalizing s with
  | case1 => rfl
  | case2 n ih =>
      change (bytesOfDouble (double s).1 ++ (bytes n (double s).2).1).length = _
      rw [List.length_append, ih, Nat.add_comm]
      rfl
  | case3 n _ hn hgreat =>
      change ((bytesOfDouble (double s).1).take n).length = n
      have hdouble : (bytesOfDouble (double s).1).length = 8 := rfl
      rw [List.length_take, hdouble]
      refine Nat.min_eq_left (Nat.le_of_not_lt fun hlong => ?_)
      exact hn (n - 8) (by omega)
  | case4 n _ hn hsmall =>
      change ((bytesOfWord (word s).1).take n).length = n
      have hword : (bytesOfWord (word s).1).length = 4 := rfl
      rw [List.length_take, hword]
      omega

end Draw

namespace Value

open Octets

variable {type : SimpleType} {facets : Facets} {node : String}
  {settings : Settings} {files : Files}

theorem letters_draws (facets : Facets) (s : Stream) :
    facets.DrawsLength (letters facets s).1.length := by
  unfold letters
  by_cases hle : ∀ most ∈ facets.lengthRange.2,
      facets.lengthRange.1.getD 1 ≤ most
  · have hletters := Draw.length_letters hle s
    exact ⟨hletters.1, fun most hmost _ => hletters.2 most hmost⟩
  · obtain ⟨most, hmost, hlt⟩ : ∃ most ∈ facets.lengthRange.2,
        most < facets.lengthRange.1.getD 1 := by
      simpa using hle
    rw [Option.mem_def.mp hmost, Draw.letters_of_lt hlt]
    have hletters := @Draw.length_letters facets.lengthRange.1 none nofun s
    refine ⟨hletters.1, ?_⟩
    intro most' hmost' hle'
    cases hmost.symm.trans hmost'
    omega

theorem bytes_draws (facets : Facets) (s : Stream) :
    facets.DrawsLength (bytes facets s).1.length := by
  let least := facets.lengthRange.1.getD 1
  let most := (facets.lengthRange.2.filter (least ≤ ·)).getD
    (max least usualBytes)
  have hlength : (bytes facets s).1.length = (Draw.count least most s).1 :=
    Draw.length_bytes _ _
  have hmost (greatest : Nat) (hgreatest : greatest ∈ facets.lengthRange.2)
      (hkept : least ≤ greatest) : most = greatest := by
    have hfilter : facets.lengthRange.2.filter (least ≤ ·) = some greatest :=
      Option.filter_eq_some_iff.mpr ⟨hgreatest, by simpa using hkept⟩
    simp only [most, hfilter, Option.getD_some]
  have hle : least ≤ most := by
    cases hfilter : facets.lengthRange.2.filter (least ≤ ·) with
    | none =>
        simp only [most, hfilter, Option.getD_none]
        exact Nat.le_max_left _ _
    | some greatest =>
        have hkept := (Option.filter_eq_some_iff.mp hfilter).2
        simpa [most, hfilter] using hkept
  have hcount := Draw.count_mem hle s
  rw [← hlength] at hcount
  exact ⟨hcount.1, fun greatest hgreatest hkept =>
    hmost greatest hgreatest hkept ▸ hcount.2⟩

/-- The kinds whose values are letters. -/
def letterKinds : List Kind := [.string, .qName, .notationName]

/-- The kinds whose values stand for octets. -/
def octetKinds : List Kind := [.hexBinary, .base64Binary]

/-- The length of a value: characters of a text and octets of a binary value. -/
def measure? : Kind → String → Option Nat
  | .string, text => some text.length
  | .qName, text => some text.length
  | .notationName, text => some text.length
  | .hexBinary, text => (ofHexadecimal? text.toList).map List.length
  | .base64Binary, text => (ofBase64? text.toList).map List.length
  | _, _ => none

theorem measure?_of_mem_letterKinds {kind : Kind} (hkind : kind ∈ letterKinds)
    (text : String) : measure? kind text = some text.length := by
  simp only [letterKinds, List.mem_cons, List.not_mem_nil, or_false] at hkind
  rcases hkind with rfl | rfl | rfl <;> rfl

theorem ofKind_of_mem_letterKinds (hkind : type.kind ∈ letterKinds) :
    ofKind type node settings.numbers = Step.draw (letters type.facets) := by
  simp only [letterKinds, List.mem_cons, List.not_mem_nil, or_false] at hkind
  rcases hkind with hkind | hkind | hkind <;> simp only [ofKind, hkind]

theorem measure?_hexadecimal (octets : List UInt8) :
    measure? .hexBinary (hexadecimal octets) = some octets.length := by
  rw [measure?, ofHexadecimal?_hexadecimal, Option.map_some]

theorem measure?_base64 (octets : List UInt8) :
    measure? .base64Binary (String.ofList (base64 octets)) =
      some octets.length := by
  rw [measure?, String.toList_ofList, ofBase64?_base64, Option.map_some]

/-- A kind with a length draws its values, and their lengths are those that are
drawn for the facets. -/
theorem exists_draw_measured (hkind : type.kind ∈ letterKinds ++ octetKinds) :
    ∃ d : Draw String, ofKind type node settings.numbers = Step.draw d ∧
      ∀ s, ∃ n, type.facets.DrawsLength n ∧
        measure? type.kind (d s).1 = some n ∧
        (type.kind = .hexBinary → (d s).1.length = 2 * n) := by
  have hbytes (s : Stream) := bytes_draws type.facets s
  rcases List.mem_append.mp hkind with hkind | hkind
  · refine ⟨letters type.facets, ofKind_of_mem_letterKinds hkind, fun s => ?_⟩
    refine ⟨_, letters_draws type.facets s,
      measure?_of_mem_letterKinds hkind _, ?_⟩
    intro hhex
    exact absurd (hhex ▸ hkind) (by decide)
  simp only [octetKinds, List.mem_cons, List.not_mem_nil, or_false] at hkind
  rcases hkind with hkind | hkind
  · refine ⟨do return hexadecimal (← bytes type.facets),
      by simp only [ofKind, hkind]; rfl,
      fun s => ⟨_, hbytes s, ?_, fun _ => ?_⟩⟩
    · rw [hkind]
      exact measure?_hexadecimal (bytes type.facets s).1
    · exact length_hexadecimal (bytes type.facets s).1
  · refine ⟨do return String.ofList (base64 (← bytes type.facets)),
      by simp only [ofKind, hkind]; rfl, fun s => ⟨_, hbytes s, ?_, ?_⟩⟩
    · rw [hkind]
      exact measure?_base64 (bytes type.facets s).1
    · simp [hkind]

/-- A value of a kind with a length has a length that its facets allow, exactly
if they do not ask for the empty value by their greatest length alone. -/
theorem ofType?_length_iff [Regex.Package]
    (hkind : type.kind ∈ letterKinds ++ octetKinds)
    (hrules : ∀ rule ∈ settings.rules, rule.appliesTo node = false)
    (hmembers : type.facets.enumeration = [])
    (hpatterns : type.facets.patterns = [])
    (hallowed : ∃ w, type.facets.AllowsLength w) (s : Session) :
    ∃ text n t, outcome (ofType? (some type) node settings files) s =
        (.ok (some text), t) ∧
      measure? type.kind text = some n ∧
      (type.kind = .hexBinary → text.length = 2 * n) ∧
      (type.facets.AllowsLength n ↔ ¬ type.facets.EmptyByGreatest) := by
  obtain ⟨w, hw⟩ := hallowed
  obtain ⟨d, hd, hmeasured⟩ := exists_draw_measured hkind
  obtain ⟨n, hn, hmeasure, hdigits⟩ := hmeasured s.stream
  exact ⟨_, n, _, outcome_ofType?_of_draw hrules hmembers hpatterns hd s,
    hmeasure, hdigits, hw.allows_iff_of_draws hn⟩

namespace LengthWitness

/-- Keys of at least 20 octets, which is more than there usually are. -/
def key : SimpleType where
  kind := .hexBinary
  facets := { minLength := some 20 }

/-- Texts without a single character. -/
def emptyText : SimpleType where
  kind := .string
  facets := { maxLength := some 0 }

/-- A key has at least 20 octets and is written with twice as many digits. -/
theorem key_length : key.facets.AllowsLength 20 ∧
    ∀ s, ∃ text n t, outcome (ofType? (some key) "key" {} {}) s =
        (.ok (some text), t) ∧
      measure? .hexBinary text = some n ∧ text.length = 2 * n ∧
      key.facets.AllowsLength n := by
  have hallows : key.facets.AllowsLength 20 :=
    ⟨nofun, fun m hm => by cases hm; decide, nofun⟩
  refine ⟨hallows, fun s => ?_⟩
  obtain ⟨text, n, t, hvalue, hmeasure, hdigits, hiff⟩ :=
    @ofType?_length_iff key "key" {} {} _ (by decide) (by decide) rfl rfl
      ⟨20, hallows⟩ s
  exact ⟨text, n, t, hvalue, hmeasure, hdigits rfl, hiff.mpr fun hempty => by
    cases hempty.minLength⟩

/-- The empty text is asked for, and fourteen letters are drawn. -/
theorem emptyText_missed : emptyText.facets.AllowsLength 0 ∧
    (outcome (ofType? (some emptyText) "Value" {} {}) (Session.ofSeed 1)).1 =
      .ok (some "zsKYdcWXvCUmnJ") ∧
    measure? .string "zsKYdcWXvCUmnJ" = some 14 ∧
    ¬ emptyText.facets.AllowsLength 14 := by
  refine ⟨⟨nofun, nofun, fun m hm => Nat.zero_le m⟩, by decide +kernel, rfl, ?_⟩
  intro hallows
  exact absurd (hallows.maxLength 0 rfl) (by decide)

end LengthWitness

end Value

end Specimen
