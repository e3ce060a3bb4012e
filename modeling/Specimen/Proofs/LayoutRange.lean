/-
The range that facets leave of a layout.  A bound is read without the blanks
around it and without a zone; a text that cannot have a zone is read as it is.
-/
import Mathlib.Data.Int.ConditionallyCompleteOrder
import Specimen.Proofs.CalendarText
import Specimen.Proofs.DrawnNumbers
import Specimen.Proofs.MergedBounds
import Specimen.Proofs.NumberFacets
import Specimen.Value.Temporal

namespace Specimen

open Number (InRange)
open Scaled (Side)

namespace Text

theorem length_le_byteLength (s : List Char) : s.length ≤ byteLength s := by
  induction s with
  | nil => exact Nat.le_refl 0
  | cons c s ih =>
      have hpos := c.utf8Size_pos
      rw [byteLength_cons, List.length_cons]
      omega

theorem splitBytes?_spec {n : Nat} {s front back : List Char}
    (hsplit : splitBytes? n s = some (front, back)) :
    s = front ++ back ∧ byteLength front = n := by
  induction s generalizing n front with
  | nil =>
      cases n with
      | zero => cases hsplit; exact ⟨rfl, rfl⟩
      | succ n => cases hsplit
  | cons c s ih =>
      cases n with
      | zero => cases hsplit; exact ⟨rfl, rfl⟩
      | succ n =>
          simp only [splitBytes?] at hsplit
          split_ifs at hsplit with hfits
          obtain ⟨⟨front, back⟩, hrest, hcons⟩ :=
            Option.map_eq_some_iff.mp hsplit
          cases hcons
          obtain ⟨rfl, hlength⟩ := ih hrest
          refine ⟨rfl, ?_⟩
          rw [byteLength_cons, hlength]
          omega

theorem splitLastBytes?_spec {size : Nat} {s front back : List Char}
    (hsplit : splitLastBytes? size s = some (front, back)) :
    s = front ++ back ∧ byteLength back = size := by
  unfold splitLastBytes? at hsplit
  split_ifs at hsplit with hfits
  obtain ⟨rfl, hlength⟩ := splitBytes?_spec hsplit
  refine ⟨rfl, ?_⟩
  rw [byteLength_append] at hfits hlength
  omega

end Text

namespace Value

/-- An offset has six bytes, the first of them a sign, with a colon among them.
-/
theorem beforeOffset?_eq_some {s front : List Char}
    (hfront : beforeOffset? s = some front) :
    ∃ zone, s = front ++ zone ∧ Text.byteLength zone = 6 ∧ ':' ∈ zone ∧
      (zone.head? = some '+' ∨ zone.head? = some '-') := by
  simp only [beforeOffset?, Option.bind_eq_bind,
    Option.bind_eq_some_iff] at hfront
  obtain ⟨⟨_, zone⟩, hzone, ⟨hours, minutes⟩, hminutes, hrest⟩ := hfront
  dsimp only at hminutes hrest
  split_ifs at hrest with hoffset
  cases hrest
  obtain ⟨-, hsigned, hcolon⟩ := hoffset
  obtain ⟨hs, hlength⟩ := Text.splitLastBytes?_spec hzone
  refine ⟨zone, hs, hlength, ?_, by simpa using hsigned⟩
  rw [(Text.splitLastBytes?_spec hminutes).1]
  exact List.mem_append_right hours (List.mem_of_mem_head? hcolon)

/-- Without a colon there is no offset. -/
theorem beforeOffset?_of_not_mem {s : List Char} (hcolon : ':' ∉ s) :
    beforeOffset? s = none := by
  rw [Option.eq_none_iff_forall_ne_some]
  intro front hfront
  obtain ⟨zone, rfl, -, hmem, -⟩ := beforeOffset?_eq_some hfront
  exact hcolon (List.mem_append_right front hmem)

/-- Where the last six characters are no signs, there is no offset. -/
theorem beforeOffset?_append {front back : List Char}
    (hlength : 6 ≤ back.length) (hsigns : '+' ∉ back ∧ '-' ∉ back) :
    beforeOffset? (front ++ back) = none := by
  rw [Option.eq_none_iff_forall_ne_some]
  intro front' hfront
  obtain ⟨zone, hs, hbytes, -, hsigned⟩ := beforeOffset?_eq_some hfront
  have hsuffix : zone <:+ back := by
    have hle := Text.length_le_byteLength zone
    exact List.suffix_of_suffix_length_le ⟨front', hs.symm⟩
      ⟨front, rfl⟩ (by omega)
  rcases hsigned with hplus | hminus
  · exact hsigns.1 (hsuffix.mem (List.mem_of_mem_head? hplus))
  · exact hsigns.2 (hsuffix.mem (List.mem_of_mem_head? hminus))

/-- Nothing stands at the ends of the text that could be taken off: no blank and
no zone. -/
structure Bare (s : List Char) : Prop where
  solid : Text.Solid s
  letter : 'Z' ∉ s
  offset : beforeOffset? s = none

/-- The text has the form, perhaps with blanks around it. -/
def Around (form : List Char → Prop) (text : String) : Prop :=
  ∃ front body back, text.toList = front ++ body ++ back ∧ Text.Blank front ∧
    Text.Blank back ∧ form body

variable {form : List Char → Prop}

theorem around_ofList {s : List Char} (hs : form s) :
    Around form (String.ofList s) :=
  ⟨[], s, [], by simp, Text.blank_nil, Text.blank_nil, hs⟩

/-- What has a form without zone is found when the blanks around it are taken
off. -/
theorem Around.withoutZone (hbare : ∀ s, form s → Bare s) {text : String}
    (htext : Around form text) : form (withoutZone text.toList) := by
  obtain ⟨front, body, back, hsplit, hfront, hback, hform⟩ := htext
  obtain ⟨hsolid, hletter, hoffset⟩ := hbare body hform
  have hlast : body.getLast? ≠ some 'Z' :=
    fun h => hletter (List.mem_of_mem_getLast? h)
  have hbody : Value.withoutZone text.toList = body := by
    rw [hsplit]
    simp only [Value.withoutZone,
      Text.trim_eq hfront hsolid hback, if_neg hlast, hoffset, Option.getD_none]
  exact hbody ▸ hform

end Value

/-- A value lies on the inner side of a bound, which is itself included or not.
-/
def Scaled.Side.Admits {α : Type} [LE α] [LT α] :
    Side → (exclusive : Bool) → (x y : α) → Prop
  | .lower, false, x, y => x ≤ y
  | .lower, true, x, y => x < y
  | .upper, false, x, y => y ≤ x
  | .upper, true, x, y => y < x

theorem Scaled.keeps_inward_iff_admits {side : Side} {exclusive : Bool}
    {n z : Int} :
    side.Keeps (inward exclusive side n) z ↔ side.Admits exclusive n z := by
  cases side <;> cases exclusive <;>
    simp only [Side.Keeps, Side.Admits, inward, if_true, if_false,
      Bool.false_eq_true] <;> omega

namespace Facets

section Within

variable {α : Type} [LE α] [LT α]

/-- The value keeps to the bounds of the facets, as the relation reads them. -/
structure Within (facets : Facets) (reads : String → α → Prop) (y : α) :
    Prop where
  minInclusive : ∀ text ∈ facets.minInclusive, ∃ x, reads text x ∧ x ≤ y
  minExclusive : ∀ text ∈ facets.minExclusive, ∃ x, reads text x ∧ x < y
  maxInclusive : ∀ text ∈ facets.maxInclusive, ∃ x, reads text x ∧ y ≤ x
  maxExclusive : ∀ text ∈ facets.maxExclusive, ∃ x, reads text x ∧ y < x

variable {facets : Facets} {reads : String → α → Prop} {y : α}

theorem lower_admits_iff (hone : facets.minInclusive = Option.none ∨
      facets.minExclusive = Option.none) :
    (∀ limit ∈ facets.lower,
      ∃ x, reads limit.value x ∧ Side.lower.Admits limit.exclusive x y) ↔
      (∀ text ∈ facets.minInclusive, ∃ x, reads text x ∧ x ≤ y) ∧
        ∀ text ∈ facets.minExclusive, ∃ x, reads text x ∧ x < y := by
  rcases hone with hnone | hnone
  · cases hexclusive : facets.minExclusive <;>
      simp [lower, hnone, hexclusive, Side.Admits]
  · cases hinclusive : facets.minInclusive <;>
      simp [lower, hnone, hinclusive, Side.Admits]

theorem upper_admits_iff (hone : facets.maxInclusive = Option.none ∨
      facets.maxExclusive = Option.none) :
    (∀ limit ∈ facets.upper,
      ∃ x, reads limit.value x ∧ Side.upper.Admits limit.exclusive x y) ↔
      (∀ text ∈ facets.maxInclusive, ∃ x, reads text x ∧ y ≤ x) ∧
        ∀ text ∈ facets.maxExclusive, ∃ x, reads text x ∧ y < x := by
  rcases hone with hnone | hnone
  · cases hexclusive : facets.maxExclusive <;>
      simp [upper, hnone, hexclusive, Side.Admits]
  · cases hinclusive : facets.maxInclusive <;>
      simp [upper, hnone, hinclusive, Side.Admits]

/-- With at most one bound on each side the limits say what the facets do. -/
theorem OneBoundEach.within_iff (hone : facets.OneBoundEach) :
    facets.Within reads y ↔ ∀ side, ∀ limit ∈ facets.limit? side,
      ∃ x, reads limit.value x ∧ side.Admits limit.exclusive x y := by
  have hlower := @lower_admits_iff α _ _ facets reads y hone.lower
  have hupper := @upper_admits_iff α _ _ facets reads y hone.upper
  constructor
  · intro hy side
    cases side with
    | lower => exact hlower.mpr ⟨hy.minInclusive, hy.minExclusive⟩
    | upper => exact hupper.mpr ⟨hy.maxInclusive, hy.maxExclusive⟩
  · intro hlimits
    obtain ⟨hminInclusive, hminExclusive⟩ := hlower.mp (hlimits .lower)
    obtain ⟨hmaxInclusive, hmaxExclusive⟩ := hupper.mp (hlimits .upper)
    exact ⟨hminInclusive, hminExclusive, hmaxInclusive, hmaxExclusive⟩

/-- Values that are laid out in their order keep to the bounds as their places
do. -/
theorem within_iff_of_strictMonoOn {α β : Type} [LinearOrder α] [Preorder β]
    {facets : Facets} {reads : String → α → Prop} {place : α → β}
    {domain : Set α}
    (hmono : StrictMonoOn place domain)
    (hreads : ∀ text x, reads text x → x ∈ domain) {y : α} (hy : y ∈ domain) :
    facets.Within (fun text n => ∃ x, reads text x ∧ place x = n) (place y) ↔
      facets.Within reads y := by
  have hside {r : α → Prop} {q : β → Prop}
      (hr : ∀ x ∈ domain, q (place x) ↔ r x)
      (text : String) : (∃ n, (∃ x, reads text x ∧ place x = n) ∧ q n) ↔
        ∃ x, reads text x ∧ r x := by
    rw [exists_exists_and_eq_and]
    exact exists_congr fun x => and_congr_right fun hx =>
      hr x (hreads text x hx)
  have hlower := @hside (· ≤ y) (· ≤ place y) fun x hx => hmono.le_iff_le hx hy
  have hlower' := @hside (· < y) (· < place y) fun x hx => hmono.lt_iff_lt hx hy
  have hupper := @hside (y ≤ ·) (place y ≤ ·) fun x hx => hmono.le_iff_le hy hx
  have hupper' := @hside (y < ·) (place y < ·) fun x hx => hmono.lt_iff_lt hy hx
  constructor
  · rintro ⟨hminInclusive, hminExclusive, hmaxInclusive, hmaxExclusive⟩
    exact ⟨fun text h => (hlower text).mp (hminInclusive text h),
      fun text h => (hlower' text).mp (hminExclusive text h),
      fun text h => (hupper text).mp (hmaxInclusive text h),
      fun text h => (hupper' text).mp (hmaxExclusive text h)⟩
  · rintro ⟨hminInclusive, hminExclusive, hmaxInclusive, hmaxExclusive⟩
    exact ⟨fun text h => (hlower text).mpr (hminInclusive text h),
      fun text h => (hlower' text).mpr (hminExclusive text h),
      fun text h => (hupper text).mpr (hmaxInclusive text h),
      fun text h => (hupper' text).mpr (hmaxExclusive text h)⟩

end Within

end Facets

namespace Value

namespace Layout

/-- The layout is made for the numbers of the set. -/
structure Covers (layout : Layout) (domain : Set Int) : Prop where
  ordConnected : domain.OrdConnected
  inRange : ∀ n ∈ domain, InRange n
  first_mem : layout.first ∈ domain
  last_mem : layout.last ∈ domain
  first_le_last : layout.first ≤ layout.last

theorem covers_Icc {layout : Layout} {least greatest : Int}
    (hrange : InRange least ∧ InRange greatest)
    (husual : least ≤ layout.first ∧ layout.first ≤ layout.last ∧
      layout.last ≤ greatest) : layout.Covers (Set.Icc least greatest) where
  ordConnected := Set.ordConnected_Icc
  inRange _ hn :=
    ⟨Int.le_trans hrange.1.1 hn.1, Int.le_trans hn.2 hrange.2.2⟩
  first_mem := ⟨husual.1, Int.le_trans husual.2.1 husual.2.2⟩
  last_mem := ⟨Int.le_trans husual.1 husual.2.1, husual.2.2⟩
  first_le_last := husual.2.1

/-- The layout reads a bound as the relation does. -/
def Finds (layout : Layout) (reads : String → Int → Prop) : Prop :=
  ∀ text n, reads text n → layout.read (withoutZone text.toList) = some n

def bound? (layout : Layout) (limit : Limit) (side : Side) : Option Int :=
  (layout.read (withoutZone limit.value.toList)).bind fun n =>
    if limit.exclusive then Number.checked (Scaled.inward true side n)
    else some n

variable {layout : Layout} {domain : Set Int} {facets : Facets}
  {reads : String → Int → Prop} {w z : Int}

theorem mem_facetBounds_lower {low : Int} :
    low ∈ (layout.facetBounds facets).lower ↔
      ∃ limit ∈ facets.limit? .lower, low ∈ layout.bound? limit .lower :=
  Option.bind_eq_some_iff

theorem mem_facetBounds_upper {high : Int} :
    high ∈ (layout.facetBounds facets).upper ↔
      ∃ limit ∈ facets.limit? .upper, high ∈ layout.bound? limit .upper :=
  Option.bind_eq_some_iff

theorem facetBounds_admits_iff : (layout.facetBounds facets).Admits z ↔
    ∀ side, ∀ limit ∈ facets.limit? side,
      ∀ bound ∈ layout.bound? limit side, side.Keeps bound z := by
  constructor
  · intro hadmits side limit hlimit bound hbound
    cases side with
    | lower =>
        exact hadmits.1 bound
          (mem_facetBounds_lower.mpr ⟨limit, hlimit, hbound⟩)
    | upper =>
        exact hadmits.2 bound
          (mem_facetBounds_upper.mpr ⟨limit, hlimit, hbound⟩)
  · intro hkeeps
    constructor
    · intro low hlow
      obtain ⟨limit, hlimit, hbound⟩ := mem_facetBounds_lower.mp hlow
      exact hkeeps .lower limit hlimit low hbound
    · intro high hhigh
      obtain ⟨limit, hlimit, hbound⟩ := mem_facetBounds_upper.mp hhigh
      exact hkeeps .upper limit hlimit high hbound

theorem ends_facetBounds {p : Int → Prop}
    (hbound : ∀ side, ∀ limit ∈ facets.limit? side,
      ∀ bound ∈ layout.bound? limit side, p bound) :
    (layout.facetBounds facets).Ends p := by
  constructor
  · intro low hlow
    obtain ⟨limit, hlimit, hlow⟩ := mem_facetBounds_lower.mp hlow
    exact hbound .lower limit hlimit low hlow
  · intro high hhigh
    obtain ⟨limit, hlimit, hhigh⟩ := mem_facetBounds_upper.mp hhigh
    exact hbound .upper limit hlimit high hhigh

/-- What a limit comes to is in range if the number it is read as is. -/
theorem bound?_inRange {side : Side} {limit : Limit} {n bound : Int}
    (hread : layout.read (withoutZone limit.value.toList) = some n)
    (hn : InRange n) (hbound : bound ∈ layout.bound? limit side) :
    InRange bound := by
  simp only [bound?, hread, Option.bind_some, Option.mem_def, Number.checked]
    at hbound
  split_ifs at hbound with hexclusive hrange
  · cases hbound
    exact hrange
  · cases hbound
    exact hn

theorem Finds.unique (hfinds : layout.Finds reads) {text : String} {n m : Int}
    (hn : reads text n) (hm : reads text m) : n = m :=
  Option.some_inj.mp ((hfinds text n hn).symm.trans (hfinds text m hm))

/-- What is asked of the number that a bound is read as. -/
theorem Finds.exists_iff (hfinds : layout.Finds reads) {text : String} {n : Int}
    (hn : reads text n) {property : Int → Prop} :
    (∃ m, reads text m ∧ property m) ↔ property n := by
  constructor
  · rintro ⟨m, hm, hproperty⟩
    exact hfinds.unique hn hm ▸ hproperty
  · exact fun hproperty => ⟨n, hn, hproperty⟩

/-- A limit comes to its number, or to the inner neighbour if that is in range.
-/
theorem Finds.bound?_eq (hfinds : layout.Finds reads) {limit : Limit}
    {side : Side} {n : Int} (hn : reads limit.value n)
    (hrange : InRange (Scaled.inward limit.exclusive side n)) :
    layout.bound? limit side = some (Scaled.inward limit.exclusive side n) := by
  rw [bound?, hfinds limit.value n hn]
  cases hexclusive : limit.exclusive with
  | false => cases side <;> rfl
  | true =>
      rw [hexclusive] at hrange
      simp [Number.checked, hrange]

/-- The number that a limit comes to lies between the limit and whatever keeps
to it. -/
theorem inward_mem_uIcc {side : Side} {exclusive : Bool} {n : Int}
    (hw : side.Admits exclusive n w) :
    Scaled.inward exclusive side n ∈ Set.uIcc n w := by
  rw [Set.mem_uIcc]
  cases side <;> cases exclusive <;>
    simp only [Side.Admits, Scaled.inward, if_true, if_false,
      Bool.false_eq_true] at hw ⊢ <;> omega

/-- The ends of the range are ends of the usual range or of the bounds. -/
theorem range_ends {p : Int → Prop} (hends : (layout.facetBounds facets).Ends p)
    (hfirst : p layout.first) (hlast : p layout.last) :
    p (layout.range facets).1 ∧ p (layout.range facets).2 := by
  have hempty : Bounds.Ends p {} := by simp [Bounds.Ends]
  have hmerge := hempty.merge hends hempty
  unfold range
  generalize Bounds.merge {} (layout.facetBounds facets) {} = b at hmerge
  rcases b with ⟨_ | low, _ | high⟩
  · exact ⟨hfirst, hlast⟩
  · have hhigh := hmerge.2 high rfl
    exact ⟨min_rec' p hfirst hhigh, hhigh⟩
  · have hlow := hmerge.1 low rfl
    exact ⟨hlow, max_rec' p hlast hlow⟩
  · exact ⟨hmerge.1 low rfl, hmerge.2 high rfl⟩

/-- What a limit comes to is among the numbers that are drawn from. -/
theorem mem_uIcc_range {side : Side} {limit : Limit} {bound : Int}
    (hlimit : limit ∈ facets.limit? side)
    (hbound : bound ∈ layout.bound? limit side) :
    bound ∈ Set.uIcc (layout.range facets).1 (layout.range facets).2 := by
  have hbound : bound ∈ (layout.facetBounds facets).lower ∨
      bound ∈ (layout.facetBounds facets).upper := by
    cases side with
    | lower => exact .inl (mem_facetBounds_lower.mpr ⟨limit, hlimit, hbound⟩)
    | upper => exact .inr (mem_facetBounds_upper.mpr ⟨limit, hlimit, hbound⟩)
  unfold range
  generalize layout.facetBounds facets = b at hbound
  rcases b with ⟨_ | low, _ | high⟩
  · exact absurd hbound (by simp)
  · obtain rfl : high = bound := by simpa using hbound
    exact Set.right_mem_uIcc
  · obtain rfl : low = bound := by simpa using hbound
    exact Set.left_mem_uIcc
  · have hmerge : Bounds.merge {} ⟨some low, some high⟩ {} =
        ⟨some (min low high), some (max low high)⟩ := Bounds.ordered_eq low high
    have hends : bound = low ∨ bound = high := by simpa [eq_comm] using hbound
    rw [hmerge, Set.mem_uIcc]
    dsimp only
    omega

/-- A draw writes any of the numbers between the ends of the range. -/
theorem forall_draw_iff (hends : InRange (layout.range facets).1 ∧
      InRange (layout.range facets).2) {property : Option String → Prop} :
    (∀ s, property (layout.draw facets s).1) ↔
      ∀ n ∈ Set.uIcc (layout.range facets).1 (layout.range facets).2,
        property ((layout.write n).map String.ofList) := by
  rw [← Draw.range_integer hends.1 hends.2, Set.forall_mem_range]
  rfl

/-- Bounds that admit a number are in order. -/
theorem merge_of_admits {b : Bounds} (hb : b.Admits w) :
    Bounds.merge {} b {} = b := by
  rcases b with ⟨_ | low, _ | high⟩
  · rfl
  · rfl
  · rfl
  · have hle : ¬ low > high :=
      Int.not_lt.mpr (Int.le_trans (hb.1 low rfl) (hb.2 high rfl))
    change (Bounds.mk (some low) (some high)).ordered = _
    rw [Bounds.ordered, if_neg hle]

/-- Bounds that admit a number leave a range of numbers that they admit; a side
that is missing is closed by the usual range, or where the other side is. -/
theorem range_of_admits (hle : layout.first ≤ layout.last)
    (hw : (layout.facetBounds facets).Admits w) :
    (layout.range facets).1 ≤ (layout.range facets).2 ∧
      (∀ z ∈ Set.Icc (layout.range facets).1 (layout.range facets).2,
        (layout.facetBounds facets).Admits z) ∧
      ((layout.facetBounds facets).lower.isSome →
        (layout.facetBounds facets).upper.isSome →
        Set.Icc (layout.range facets).1 (layout.range facets).2 =
          (layout.facetBounds facets).interval) := by
  unfold range
  rw [merge_of_admits hw]
  generalize layout.facetBounds facets = b at hw
  rcases b with ⟨_ | low, _ | high⟩
  · exact ⟨hle, by simp [Bounds.Admits], by simp⟩
  · exact ⟨Int.min_le_right _ _, by simp [Bounds.Admits], by simp⟩
  · exact ⟨Int.le_max_right _ _, by simp +contextual [Bounds.Admits], by simp⟩
  · have hends : low ≤ high := Int.le_trans (hw.1 low rfl) (hw.2 high rfl)
    refine ⟨hends, by simp +contextual [Bounds.Admits], fun _ _ => ?_⟩
    ext z
    simp [Bounds.interval, Bounds.Admits]

section Range

variable (hlayout : layout.Covers domain) (hfinds : layout.Finds reads)
  (hdomain : ∀ text n, reads text n → n ∈ domain) (hone : facets.OneBoundEach)
  (hw : w ∈ domain) (hwithin : facets.Within reads w)

include hlayout hfinds hdomain hone hw hwithin

/-- If a number of the layout keeps to the facets, each limit comes to a number
of the layout that tells which numbers keep to it. -/
theorem exists_bound? {side : Side} {limit : Limit}
    (hlimit : limit ∈ facets.limit? side) :
    ∃ bound ∈ domain, layout.bound? limit side = some bound ∧
      ∀ z, side.Keeps bound z ↔
        ∃ x, reads limit.value x ∧ side.Admits limit.exclusive x z := by
  obtain ⟨n, hn, hadmits⟩ := hone.within_iff.mp hwithin side limit hlimit
  have hmem : Scaled.inward limit.exclusive side n ∈ domain :=
    hlayout.ordConnected.uIcc_subset (hdomain _ n hn) hw
      (inward_mem_uIcc hadmits)
  refine ⟨_, hmem, hfinds.bound?_eq hn (hlayout.inRange _ hmem), fun z => ?_⟩
  rw [Scaled.keeps_inward_iff_admits, hfinds.exists_iff hn]

theorem facetBounds_admits_iff_within :
    (layout.facetBounds facets).Admits z ↔ facets.Within reads z := by
  rw [facetBounds_admits_iff, hone.within_iff]
  refine forall_congr' fun side => forall₂_congr fun limit hlimit => ?_
  obtain ⟨bound, -, hbound, hkeeps⟩ :=
    exists_bound? hlayout hfinds hdomain hone hw hwithin hlimit
  rw [hbound, ← hkeeps]
  simp

/-- A limit on a side leaves a bound there. -/
theorem isSome_bound? {side : Side} (hlimit : (facets.limit? side).isSome) :
    ((facets.limit? side).bind (layout.bound? · side)).isSome := by
  obtain ⟨limit, hlimit⟩ := Option.isSome_iff_exists.mp hlimit
  obtain ⟨bound, -, hbound, -⟩ :=
    exists_bound? hlayout hfinds hdomain hone hw hwithin hlimit
  rw [hlimit, Option.bind_some, hbound]
  rfl

theorem ends_facetBounds_mem :
    (layout.facetBounds facets).Ends (· ∈ domain) := by
  refine ends_facetBounds fun side limit hlimit bound hbound => ?_
  obtain ⟨bound', hmem, hbound', -⟩ :=
    exists_bound? hlayout hfinds hdomain hone hw hwithin hlimit
  cases hbound'.symm.trans hbound
  exact hmem

/-- If a number of the layout keeps to the facets, so do all numbers of the
range, and with a limit on each side no others. -/
theorem range_within :
    (layout.range facets).1 ≤ (layout.range facets).2 ∧
      (∀ z ∈ Set.Icc (layout.range facets).1 (layout.range facets).2,
        z ∈ domain ∧ facets.Within reads z) ∧
      ((∀ side, (facets.limit? side).isSome) →
        Set.Icc (layout.range facets).1 (layout.range facets).2 =
          {z | facets.Within reads z}) := by
  have hadmits (z : Int) : (layout.facetBounds facets).Admits z ↔
      facets.Within reads z :=
    facetBounds_admits_iff_within hlayout hfinds hdomain hone hw hwithin
  have hmem := range_ends
    (ends_facetBounds_mem hlayout hfinds hdomain hone hw hwithin)
    hlayout.first_mem hlayout.last_mem
  obtain ⟨hle, hrange, hboth⟩ :=
    range_of_admits hlayout.first_le_last ((hadmits w).mpr hwithin)
  refine ⟨hle, fun z hz => ⟨?_, (hadmits z).mp (hrange z hz)⟩,
    fun hlimits => ?_⟩
  · exact hlayout.ordConnected.out hmem.1 hmem.2 hz
  · have hlower := isSome_bound? hlayout hfinds hdomain hone hw hwithin
      (hlimits .lower)
    have hupper := isSome_bound? hlayout hfinds hdomain hone hw hwithin
      (hlimits .upper)
    rw [hboth hlower hupper]
    exact Set.ext hadmits

end Range

end Layout

end Value

end Specimen
