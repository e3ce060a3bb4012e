/-
What bounds come to when they are merged.  Bounds stand for the set of the
numbers that they admit.  As long as digits and schema have a number in common,
merging leaves exactly what they have in common, and then each side of the
settings takes away the numbers beyond it, unless that would take them all.
-/
import Mathlib.Order.Interval.Set.UnorderedInterval
import Specimen.Bounds

namespace Specimen.Bounds

/-- The numbers from a lower side on; a missing side is open. -/
def atLeast (low : Option Int) : Set Int := {n | ∀ l ∈ low, l ≤ n}

def atMost (high : Option Int) : Set Int := {n | ∀ h ∈ high, n ≤ h}

def interval (b : Bounds) : Set Int := {n | b.Admits n}

/-- The numbers between the two sides, whichever of them is the greater. -/
def between : Bounds → Set Int
  | ⟨some low, some high⟩ => Set.uIcc low high
  | b => b.interval

/-- The numbers of a set that a wish leaves: those within the wish if there are
any, and otherwise all of them. -/
def narrowed (s wish : Set Int) : Set Int :=
  {n ∈ s | (s ∩ wish).Nonempty → n ∈ wish}

variable {b : Bounds} {n z : Int}

theorem mem_interval : z ∈ b.interval ↔ b.Admits z := Iff.rfl

theorem interval_eq (b : Bounds) :
    b.interval = atLeast b.lower ∩ atMost b.upper := rfl

@[simp] theorem mem_atLeast_some : z ∈ atLeast (some n) ↔ n ≤ z := by
  simp [atLeast]

@[simp] theorem mem_atMost_some : z ∈ atMost (some n) ↔ z ≤ n := by
  simp [atMost]

@[simp] theorem atLeast_none : atLeast none = Set.univ := by
  simp [atLeast]

@[simp] theorem atMost_none : atMost none = Set.univ := by
  simp [atMost]

section Narrowing

variable {s wish : Set Int}

theorem narrowed_of_nonempty (hsome : (s ∩ wish).Nonempty) :
    narrowed s wish = s ∩ wish := by
  ext z
  simp [narrowed, hsome]

theorem narrowed_of_empty (hnone : ¬ (s ∩ wish).Nonempty) :
    narrowed s wish = s := by
  ext z
  simp [narrowed, hnone]

theorem narrowed_subset (s wish : Set Int) : narrowed s wish ⊆ s :=
  fun _ hz => hz.1

@[simp] theorem narrowed_univ (s : Set Int) : narrowed s Set.univ = s := by
  simp [narrowed]

theorem narrowed_nonempty (hs : s.Nonempty) (wish : Set Int) :
    (narrowed s wish).Nonempty := by
  by_cases hsome : (s ∩ wish).Nonempty
  · rwa [narrowed_of_nonempty hsome]
  · rwa [narrowed_of_empty hsome]

/-- A wish is granted exactly where it leaves a number. -/
theorem narrowed_subset_iff (hs : s.Nonempty) :
    narrowed s wish ⊆ wish ↔ (s ∩ wish).Nonempty := by
  constructor
  · intro hgranted
    obtain ⟨z, hz⟩ := narrowed_nonempty hs wish
    exact ⟨z, hz.1, hgranted hz⟩
  · exact fun hsome z hz => hz.2 hsome

end Narrowing

section Sides

theorem interval_raise (b : Bounds) (n : Int) :
    (b.raise n).interval = b.interval ∩ atLeast (some n) := by
  have hlower : atLeast (b.raise n).lower =
      atLeast b.lower ∩ atLeast (some n) := by
    rcases b with ⟨_ | low, high⟩
    · simp [raise]
    · ext z
      simp [raise, and_comm]
  rw [interval_eq, hlower, Set.inter_right_comm]
  rfl

theorem interval_cap (b : Bounds) (n : Int) :
    (b.cap n).interval = b.interval ∩ atMost (some n) := by
  have hupper : atMost (b.cap n).upper = atMost b.upper ∩ atMost (some n) := by
    rcases b with ⟨low, _ | high⟩
    · simp [cap]
    · ext z
      simp [cap, and_comm]
  rw [interval_eq, hupper, ← Set.inter_assoc]
  rfl

theorem interval_raise? (b : Bounds) (side : Option Int) :
    (b.raise? side).interval = b.interval ∩ atLeast side := by
  cases side with
  | none => simp [raise?]
  | some n => exact interval_raise b n

theorem interval_cap? (b : Bounds) (side : Option Int) :
    (b.cap? side).interval = b.interval ∩ atMost side := by
  cases side with
  | none => simp [cap?]
  | some n => exact interval_cap b n

/-- A preferred least number leaves a number exactly if it is not beyond the
upper side. -/
theorem inter_atLeast_nonempty_iff (hb : b.interval.Nonempty) :
    (b.interval ∩ atLeast (some n)).Nonempty ↔ ∀ high ∈ b.upper, n ≤ high := by
  constructor
  · rintro ⟨z, hz, hn⟩ high hhigh
    exact Int.le_trans (mem_atLeast_some.mp hn) (hz.2 high hhigh)
  · intro hn
    obtain ⟨w, hlow, hhigh⟩ := hb
    refine ⟨max n w, ⟨?_, ?_⟩, mem_atLeast_some.mpr (Int.le_max_left n w)⟩
    · exact fun low hl => Int.le_trans (hlow low hl) (Int.le_max_right n w)
    · exact fun high hh => Int.max_le.mpr ⟨hn high hh, hhigh high hh⟩

/-- A preferred greatest number leaves a number exactly if it is not beyond the
lower side. -/
theorem inter_atMost_nonempty_iff (hb : b.interval.Nonempty) :
    (b.interval ∩ atMost (some n)).Nonempty ↔ ∀ low ∈ b.lower, low ≤ n := by
  constructor
  · rintro ⟨z, hz, hn⟩ low hlow
    exact Int.le_trans (hz.1 low hlow) (mem_atMost_some.mp hn)
  · intro hn
    obtain ⟨w, hlow, hhigh⟩ := hb
    refine ⟨min n w, ⟨?_, ?_⟩, mem_atMost_some.mpr (Int.min_le_left n w)⟩
    · exact fun low hl => Int.le_min.mpr ⟨hn low hl, hlow low hl⟩
    · exact fun high hh => Int.le_trans (Int.min_le_right n w) (hhigh high hh)

theorem interval_prefer (hb : b.interval.Nonempty) (side : Option Int) :
    (b.prefer side).interval = narrowed b.interval (atLeast side) := by
  cases side with
  | none => simp [prefer]
  | some n =>
      have hiff := @inter_atLeast_nonempty_iff b n hb
      by_cases hn : ∀ high ∈ b.upper, n ≤ high
      · rw [prefer, if_pos hn, interval_raise,
          narrowed_of_nonempty (hiff.mpr hn)]
      · rw [prefer, if_neg hn, narrowed_of_empty (mt hiff.mp hn)]

theorem interval_preferAtMost (hb : b.interval.Nonempty) (side : Option Int) :
    (b.preferAtMost side).interval = narrowed b.interval (atMost side) := by
  cases side with
  | none => simp [preferAtMost]
  | some n =>
      have hiff := @inter_atMost_nonempty_iff b n hb
      by_cases hn : ∀ low ∈ b.lower, low ≤ n
      · rw [preferAtMost, if_pos hn, interval_cap,
          narrowed_of_nonempty (hiff.mpr hn)]
      · rw [preferAtMost, if_neg hn, narrowed_of_empty (mt hiff.mp hn)]

end Sides

section Merging

variable {digits schema configured : Bounds}

/-- Bounds that admit a number are in order. -/
theorem between_of_admits {w : Int} (hw : b.Admits w) :
    b.between = b.interval := by
  rcases b with ⟨_ | low, _ | high⟩
  · rfl
  · rfl
  · rfl
  · have hle : low ≤ high := Int.le_trans (hw.1 low rfl) (hw.2 high rfl)
    ext z
    simp [between, Set.uIcc_of_le hle, interval_eq]

/-- In rising order the lesser side comes first. -/
theorem ordered_eq (low high : Int) :
    (Bounds.mk (some low) (some high)).ordered =
    ⟨some (min low high), some (max low high)⟩ := by
  simp only [ordered]
  split_ifs <;> simp only [mk.injEq, Option.some.injEq] <;> omega

/-- Putting the sides in order leaves the numbers between them. -/
theorem interval_ordered (b : Bounds) : b.ordered.interval = b.between := by
  rcases b with ⟨_ | low, _ | high⟩
  · rfl
  · rfl
  · rfl
  · ext z
    by_cases hreversed : low > high
    · simp [ordered, hreversed, between, interval_eq,
        Set.uIcc_of_ge (Int.le_of_lt hreversed)]
    · simp [ordered, hreversed, between, interval_eq,
        Set.uIcc_of_le (Int.not_lt.mp hreversed)]

/-- The sides of the schema, and those of the digits where it has none. -/
def asked (digits schema : Bounds) : Bounds :=
  ⟨schema.lower.or digits.lower, schema.upper.or digits.upper⟩

/-- Within the digits it makes no difference that they stand in for sides that
the schema does not have. -/
theorem interval_asked (digits schema : Bounds) :
    (asked digits schema).interval ∩ digits.interval =
      digits.interval ∩ schema.interval := by
  rcases schema with ⟨_ | low, _ | high⟩ <;>
    simp only [asked, interval_eq, Option.none_or, Option.some_or,
      atLeast_none, atMost_none] <;> grind

/-- The same of the numbers between the sides, which a reversed schema needs:
with a side missing nothing is reversed. -/
theorem between_asked (hmeet : (digits.interval ∩ schema.between).Nonempty) :
    (asked digits schema).between ∩ digits.interval =
      digits.interval ∩ schema.between := by
  obtain ⟨w, hdigits, hschema⟩ := hmeet
  have hopen (hinterval : schema.between = schema.interval) :
      (asked digits schema).between ∩ digits.interval =
        digits.interval ∩ schema.between := by
    have hasked := interval_asked digits schema
    have hw : w ∈ (asked digits schema).interval ∩ digits.interval :=
      hasked ▸ ⟨hdigits, hinterval ▸ hschema⟩
    rw [between_of_admits hw.1, hasked, hinterval]
  rcases schema with ⟨_ | low, _ | high⟩
  · exact hopen rfl
  · exact hopen rfl
  · exact hopen rfl
  · exact Set.inter_comm _ _

/-- What digits and schema allow together. -/
def allowed (digits schema : Bounds) : Bounds :=
  ((asked digits schema).ordered.raise? digits.lower).cap? digits.upper

theorem merge_eq (digits schema configured : Bounds) :
    merge digits schema configured =
      ((allowed digits schema).prefer configured.lower).preferAtMost
        configured.upper := rfl

theorem interval_allowed (hmeet : (digits.interval ∩ schema.between).Nonempty) :
    (allowed digits schema).interval = digits.interval ∩ schema.between := by
  rw [allowed, interval_cap?, interval_raise?, Set.inter_assoc, ← interval_eq,
    interval_ordered, between_asked hmeet]

/-- Each wish needs a number left before it, so that the lower side goes first.
-/
theorem interval_merge (hmeet : (digits.interval ∩ schema.between).Nonempty)
    (configured : Bounds) :
    (merge digits schema configured).interval =
      narrowed (narrowed (digits.interval ∩ schema.between)
        (atLeast configured.lower)) (atMost configured.upper) := by
  have hallowed := interval_allowed hmeet
  rw [merge_eq]
  rw [← hallowed] at hmeet ⊢
  have hpreferred := interval_prefer hmeet configured.lower
  have hnonempty := narrowed_nonempty hmeet (atLeast configured.lower)
  rw [← hpreferred] at hnonempty ⊢
  exact interval_preferAtMost hnonempty configured.upper

/-- Merged bounds keep to the settings where a number can. -/
theorem merge_subset_configured {v : Int}
    (hallowed : v ∈ digits.interval ∩ schema.between)
    (hv : v ∈ configured.interval) :
    (merge digits schema configured).interval ⊆ configured.interval := by
  have hlow : (digits.interval ∩ schema.between ∩
      atLeast configured.lower).Nonempty := ⟨v, hallowed, hv.1⟩
  have hhigh : (digits.interval ∩ schema.between ∩ atLeast configured.lower ∩
      atMost configured.upper).Nonempty := ⟨v, ⟨hallowed, hv.1⟩, hv.2⟩
  rw [interval_merge ⟨v, hallowed⟩ configured, narrowed_of_nonempty hlow,
    narrowed_of_nonempty hhigh]
  exact fun z hz => ⟨hz.1.2, hz.2⟩

end Merging

section Ends

variable {p : Int → Prop} {side : Option Int}

/-- The sides of the bounds have the property. -/
def Ends (p : Int → Prop) (b : Bounds) : Prop :=
  (∀ low ∈ b.lower, p low) ∧ ∀ high ∈ b.upper, p high

theorem Ends.ordered (hb : b.Ends p) : b.ordered.Ends p := by
  rcases b with ⟨_ | low, _ | high⟩
  · exact hb
  · exact hb
  · exact hb
  · by_cases hreversed : low > high
    · simpa [Ends, Bounds.ordered, hreversed] using And.comm.mp hb
    · simpa [Ends, Bounds.ordered, hreversed] using hb

theorem Ends.raise (hb : b.Ends p) (hn : p n) : (b.raise n).Ends p := by
  refine ⟨?_, hb.2⟩
  rcases b with ⟨_ | low, high⟩
  · simpa [Bounds.raise] using hn
  · rcases max_choice low n with hmax | hmax
    · simpa [Bounds.raise, hmax] using hb.1
    · simpa [Bounds.raise, hmax] using hn

theorem Ends.cap (hb : b.Ends p) (hn : p n) : (b.cap n).Ends p := by
  refine ⟨hb.1, ?_⟩
  rcases b with ⟨low, _ | high⟩
  · simpa [Bounds.cap] using hn
  · rcases min_choice high n with hmin | hmin
    · simpa [Bounds.cap, hmin] using hb.2
    · simpa [Bounds.cap, hmin] using hn

theorem Ends.raise? (hb : b.Ends p) (hside : ∀ n ∈ side, p n) :
    (b.raise? side).Ends p := by
  cases side with
  | none => exact hb
  | some n => exact hb.raise (hside n rfl)

theorem Ends.cap? (hb : b.Ends p) (hside : ∀ n ∈ side, p n) :
    (b.cap? side).Ends p := by
  cases side with
  | none => exact hb
  | some n => exact hb.cap (hside n rfl)

theorem Ends.prefer (hb : b.Ends p) (hside : ∀ n ∈ side, p n) :
    (b.prefer side).Ends p := by
  cases side with
  | none => exact hb
  | some n =>
      by_cases hn : ∀ high ∈ b.upper, n ≤ high
      · rw [Bounds.prefer, if_pos hn]
        exact hb.raise (hside n rfl)
      · rw [Bounds.prefer, if_neg hn]
        exact hb

theorem Ends.preferAtMost (hb : b.Ends p) (hside : ∀ n ∈ side, p n) :
    (b.preferAtMost side).Ends p := by
  cases side with
  | none => exact hb
  | some n =>
      by_cases hn : ∀ low ∈ b.lower, low ≤ n
      · rw [Bounds.preferAtMost, if_pos hn]
        exact hb.cap (hside n rfl)
      · rw [Bounds.preferAtMost, if_neg hn]
        exact hb

theorem Ends.asked {digits schema : Bounds} (hdigits : digits.Ends p)
    (hschema : schema.Ends p) : (Bounds.asked digits schema).Ends p := by
  constructor
  · intro low hlow
    rcases Option.or_eq_some_iff.mp hlow with hlow | ⟨-, hlow⟩
    · exact hschema.1 low hlow
    · exact hdigits.1 low hlow
  · intro high hhigh
    rcases Option.or_eq_some_iff.mp hhigh with hhigh | ⟨-, hhigh⟩
    · exact hschema.2 high hhigh
    · exact hdigits.2 high hhigh

/-- Merging chooses among the sides that it is given. -/
theorem Ends.merge {digits schema configured : Bounds}
    (hdigits : digits.Ends p) (hschema : schema.Ends p)
    (hconfigured : configured.Ends p) :
    (Bounds.merge digits schema configured).Ends p := by
  have hallowed : (allowed digits schema).Ends p :=
    ((hdigits.asked hschema).ordered.raise? hdigits.1).cap? hdigits.2
  rw [merge_eq]
  exact (hallowed.prefer hconfigured.1).preferAtMost hconfigured.2

end Ends

/-- What merged bounds are to the numbers that digits and schema allow and to
the settings. -/
structure Tightened (allowed : Set Int)
    (configured merged : Bounds) : Prop where
  interval : merged.interval =
    narrowed (narrowed allowed (atLeast configured.lower))
      (atMost configured.upper)
  inOrder : ∀ low ∈ merged.lower, ∀ high ∈ merged.upper, low ≤ high
  nonempty : merged.interval.Nonempty
  subset : merged.interval ⊆ allowed
  granted_lower : merged.interval ⊆ atLeast configured.lower ↔
    (allowed ∩ atLeast configured.lower).Nonempty
  granted_upper : merged.interval ⊆ atMost configured.upper ↔
    (narrowed allowed (atLeast configured.lower) ∩
      atMost configured.upper).Nonempty

theorem Tightened.of_interval {allowed : Set Int} {configured merged : Bounds}
    (hallowed : allowed.Nonempty)
    (hmerged : merged.interval = narrowed (narrowed allowed
      (atLeast configured.lower)) (atMost configured.upper)) :
    Tightened allowed configured merged := by
  have hlowered := narrowed_nonempty hallowed (atLeast configured.lower)
  have hnonempty : merged.interval.Nonempty :=
    hmerged ▸ narrowed_nonempty hlowered _
  have hsubset : merged.interval ⊆ narrowed allowed
      (atLeast configured.lower) :=
    hmerged ▸ narrowed_subset _ _
  refine ⟨hmerged, ?_, hnonempty, fun z hz => (hsubset hz).1, ?_, ?_⟩
  · intro low hlow high hhigh
    obtain ⟨z, hz⟩ := hnonempty
    exact Int.le_trans (hz.1 low hlow) (hz.2 high hhigh)
  · constructor
    · intro hgranted
      obtain ⟨z, hz⟩ := hnonempty
      exact ⟨z, (hsubset hz).1, hgranted hz⟩
    · exact fun hsome z hz => (hsubset hz).2 hsome
  · rw [hmerged]
    exact narrowed_subset_iff hlowered

/-- As long as digits and schema have a number in common, merged bounds are what
they have in common, narrowed by the lower and then by the upper side of the
settings. -/
theorem merge_tightens {digits schema : Bounds}
    (hmeet : (digits.interval ∩ schema.between).Nonempty)
    (configured : Bounds) :
    Tightened (digits.interval ∩ schema.between) configured
      (merge digits schema configured) :=
  .of_interval hmeet (interval_merge hmeet configured)

namespace MergeWitness

/-- Numbers of two digits, asked for from 50 down to -200; the settings would
rather have them from 20 to 10. -/
theorem reversed_tightened :
    let schema : Bounds := ⟨some 50, some (-200)⟩
    ((ofDigits 2).interval ∩ schema.between).Nonempty ∧
      merge (ofDigits 2) schema ⟨some 20, some 10⟩ = ⟨some 20, some 50⟩ ∧
      Tightened ((ofDigits 2).interval ∩ schema.between) ⟨some 20, some 10⟩
        ⟨some 20, some 50⟩ := by
  intro schema
  have hmeet : ((ofDigits 2).interval ∩ schema.between).Nonempty := by
    refine ⟨0, ?_, ?_⟩
    · rw [mem_interval]
      decide
    · exact Set.mem_uIcc.mpr (.inr (by decide))
  exact ⟨hmeet, by decide, merge_tightens hmeet ⟨some 20, some 10⟩⟩

end MergeWitness

end Specimen.Bounds
