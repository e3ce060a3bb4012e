/-
Where chains of restrictions lead.  Facets that are taken together have every
facet from the first step that declares it, and so it does not matter in which
order the steps are put together.  What a type resolves to is decided by the
type that its bases lead to, if it is no restriction, and by the number of
restrictions before it.
-/
import Mathlib.Tactic.SplitIfs
import Specimen.Proofs.FacetChains

namespace Specimen

namespace Facets

/-- The values of a facet that may have several, if it has any. -/
def listed? (values : List String) : Option (List String) :=
  if values = [] then .none else some values

/-- The inclusive and the exclusive bound of one side of the range, if there is
one of them. -/
def side? (inclusive exclusive : Option String) :
    Option (Option String × Option String) :=
  if inclusive = .none ∧ exclusive = .none then .none
  else some (inclusive, exclusive)

def enumeration? (f : Facets) : Option (List String) := listed? f.enumeration

def patterns? (f : Facets) : Option (List String) := listed? f.patterns

def lowerSide? (f : Facets) : Option (Option String × Option String) :=
  side? f.minInclusive f.minExclusive

def upperSide? (f : Facets) : Option (Option String × Option String) :=
  side? f.maxInclusive f.maxExclusive

theorem listed?_inj {values values' : List String}
    (hlisted : listed? values = listed? values') : values = values' := by
  unfold listed? at hlisted
  split_ifs at hlisted <;> simp_all

theorem side?_inj {inclusive exclusive inclusive' exclusive' : Option String}
    (hside : side? inclusive exclusive = side? inclusive' exclusive') :
    inclusive = inclusive' ∧ exclusive = exclusive' := by
  unfold side? at hside
  split_ifs at hside <;> simp_all

theorem listed?_or (values values' : List String) :
    listed? (if values.isEmpty then values' else values) =
      (listed? values).or (listed? values') := by
  cases values <;> simp [listed?]

theorem side?_or (inclusive exclusive inclusive' exclusive' : Option String) :
    let isOpen := inclusive.isNone && exclusive.isNone
    side? (if isOpen then inclusive' else inclusive)
        (if isOpen then exclusive' else exclusive) =
      (side? inclusive exclusive).or (side? inclusive' exclusive') := by
  cases inclusive <;> cases exclusive <;> simp [side?]

/-- Every facet is the one of the first step that declares it; the bounds of one
side of the range go together. -/
structure FromFirst (steps : List Facets) (f : Facets) : Prop where
  enumeration : f.enumeration? = steps.findSome? enumeration?
  patterns : f.patterns? = steps.findSome? patterns?
  length : f.length = steps.findSome? Facets.length
  minLength : f.minLength = steps.findSome? Facets.minLength
  maxLength : f.maxLength = steps.findSome? Facets.maxLength
  lowerSide : f.lowerSide? = steps.findSome? lowerSide?
  upperSide : f.upperSide? = steps.findSome? upperSide?
  totalDigits : f.totalDigits = steps.findSome? Facets.totalDigits
  fractionDigits : f.fractionDigits = steps.findSome? Facets.fractionDigits

theorem fromFirst_none : FromFirst [] none :=
  ⟨rfl, rfl, rfl, rfl, rfl, rfl, rfl, rfl, rfl⟩

theorem findSome?_singleton {α : Type} (view : Facets → Option α) (f : Facets) :
    view f = [f].findSome? view := by
  cases hview : view f <;> simp [hview]

theorem fromFirst_self (f : Facets) : FromFirst [f] f where
  enumeration := findSome?_singleton _ f
  patterns := findSome?_singleton _ f
  length := findSome?_singleton _ f
  minLength := findSome?_singleton _ f
  maxLength := findSome?_singleton _ f
  lowerSide := findSome?_singleton _ f
  upperSide := findSome?_singleton _ f
  totalDigits := findSome?_singleton _ f
  fractionDigits := findSome?_singleton _ f

section Inherit

variable {front back : List Facets} {f g : Facets}

theorem view_inherit {α : Type} {view : Facets → Option α}
    (hf : view f = front.findSome? view) (hg : view g = back.findSome? view)
    (hinherit : view (f.inherit g) = (view f).or (view g)) :
    view (f.inherit g) = (front ++ back).findSome? view := by
  rw [hinherit, hf, hg, List.findSome?_append]

/-- A derived type goes before its base. -/
theorem FromFirst.inherit (hf : FromFirst front f) (hg : FromFirst back g) :
    FromFirst (front ++ back) (f.inherit g) where
  enumeration := view_inherit hf.enumeration hg.enumeration (listed?_or _ _)
  patterns := view_inherit hf.patterns hg.patterns (listed?_or _ _)
  length := view_inherit hf.length hg.length rfl
  minLength := view_inherit hf.minLength hg.minLength rfl
  maxLength := view_inherit hf.maxLength hg.maxLength rfl
  lowerSide := view_inherit hf.lowerSide hg.lowerSide (side?_or _ _ _ _)
  upperSide := view_inherit hf.upperSide hg.upperSide (side?_or _ _ _ _)
  totalDigits := view_inherit hf.totalDigits hg.totalDigits rfl
  fractionDigits := view_inherit hf.fractionDigits hg.fractionDigits rfl

theorem FromFirst.foldl_inherit (hf : FromFirst front f) (steps : List Facets) :
    FromFirst (front ++ steps) (steps.foldl Facets.inherit f) := by
  induction steps generalizing front f with
  | nil => simpa using hf
  | cons step steps ih =>
      rw [List.append_cons]
      exact ih (hf.inherit (fromFirst_self step))

end Inherit

theorem fromFirst_together (steps : List Facets) :
    FromFirst steps (together steps) :=
  fromFirst_none.foldl_inherit steps

/-- The steps leave no choice. -/
theorem FromFirst.unique {steps : List Facets} {f g : Facets}
    (hf : FromFirst steps f) (hg : FromFirst steps g) : f = g := by
  have henumeration := listed?_inj (hf.enumeration.trans hg.enumeration.symm)
  have hpatterns := listed?_inj (hf.patterns.trans hg.patterns.symm)
  have hlower := side?_inj (hf.lowerSide.trans hg.lowerSide.symm)
  have hupper := side?_inj (hf.upperSide.trans hg.upperSide.symm)
  have hlength := hf.length.trans hg.length.symm
  have hminLength := hf.minLength.trans hg.minLength.symm
  have hmaxLength := hf.maxLength.trans hg.maxLength.symm
  have htotal := hf.totalDigits.trans hg.totalDigits.symm
  have hfraction := hf.fractionDigits.trans hg.fractionDigits.symm
  cases f
  cases g
  simp_all

theorem inherit_assoc (f g h : Facets) :
    (f.inherit g).inherit h = f.inherit (g.inherit h) := by
  have hf := fromFirst_self f
  have hg := fromFirst_self g
  have hh := fromFirst_self h
  exact ((hf.inherit hg).inherit hh).unique (hf.inherit (hg.inherit hh))

theorem inherit_none (f : Facets) : f.inherit none = f :=
  ((fromFirst_self f).inherit fromFirst_none).unique (fromFirst_self f)

end Facets

namespace Model

variable {m : Model} {id knot last : TypeId} {steps loop : List Facets}

/-- The bases lead from one type through restrictions with these facets, the
most derived first, to the other type. -/
inductive Descends (m : Model) : TypeId → List Facets → TypeId → Prop
  | here (id : TypeId) : Descends m id [] id
  | step {id base last : TypeId} {facets : Facets} {steps : List Facets}
      (hget : m.get id = .restriction base facets)
      (hbase : Descends m base steps last) :
      Descends m id (facets :: steps) last

/-- The type is a restriction of another one. -/
def IsRestriction (m : Model) (id : TypeId) : Prop :=
  ∃ base facets, m.get id = .restriction base facets

namespace Descends

theorem restricts {kind : Kind} (hdown : m.Descends id steps last)
    (hlast : m.get last = .builtin kind) : m.Restricts kind id steps := by
  induction hdown with
  | here id => exact .builtin hlast
  | step hget hbase ih => exact .step hget (ih hlast)

theorem append {more : List Facets} (hdown : m.Descends id steps knot)
    (hmore : m.Descends knot more last) :
    m.Descends id (steps ++ more) last := by
  induction hdown with
  | here id => exact hmore
  | step hget hbase ih => exact .step hget (ih hmore)

/-- Where the bases come back to a type they lead on without end. -/
theorem exists_length_le (hloop : m.Descends knot loop knot)
    (hne : loop ≠ []) (n : Nat) :
    ∃ steps, m.Descends knot steps knot ∧ n ≤ steps.length := by
  induction n with
  | zero => exact ⟨[], .here knot, Nat.le_refl 0⟩
  | succ n ih =>
      obtain ⟨steps, hsteps, hlength⟩ := ih
      have hpos := List.length_pos_iff.mpr hne
      refine ⟨loop ++ steps, hloop.append hsteps, ?_⟩
      rw [List.length_append]
      omega

theorem chain_complex {type : ComplexType} (hdown : m.Descends id steps last)
    (hlast : m.get last = .complex type) (node : String) {left : Nat}
    (hleft : steps.length < left) (facets : Facets) :
    m.chain node left facets id = .error (.restrictsComplex node) := by
  induction hdown generalizing left facets with
  | here id =>
      obtain ⟨left, rfl⟩ := Nat.exists_eq_add_one.mpr hleft
      simp only [chain, hlast]
  | step hget hbase ih =>
      obtain ⟨left, rfl⟩ := Nat.exists_eq_add_one.mpr (Nat.zero_lt_of_lt hleft)
      simp only [chain, hget]
      exact ih hlast (Nat.lt_of_succ_lt_succ hleft) _

theorem chain_tooDeep (hdown : m.Descends id steps last) (node : String)
    {left : Nat} (hleft : left ≤ steps.length) (facets : Facets) :
    m.chain node left facets id = .error (.tooDeep node) := by
  induction hdown generalizing left facets with
  | here id =>
      obtain rfl := Nat.le_zero.mp hleft
      rfl
  | step hget hbase ih =>
      cases left with
      | zero => rfl
      | succ left =>
          simp only [chain, hget]
          exact ih (Nat.le_of_succ_le_succ hleft) _

end Descends

theorem resolve_of_isRestriction (hid : m.IsRestriction id) (node : String) :
    m.resolve id node = (m.chain node chainLimit .none id).map some := by
  obtain ⟨base, facets, hget⟩ := hid
  simp only [resolve, hget]

theorem Descends.isRestriction (hdown : m.Descends id steps last)
    (hsteps : 0 < steps.length) : m.IsRestriction id := by
  cases hdown with
  | here => contradiction
  | step hget hbase => exact ⟨_, _, hget⟩

theorem Descends.resolve_tooDeep (hdown : m.Descends id steps last)
    (hlength : chainLimit ≤ steps.length) (node : String) :
    m.resolve id node = .error (.tooDeep node) := by
  have hid := hdown.isRestriction (Nat.lt_of_lt_of_le (by decide) hlength)
  rw [resolve_of_isRestriction hid, hdown.chain_tooDeep node hlength]
  rfl

/-- The bases lead through so many restrictions, or to a type before that is
none. -/
theorem exists_descends (m : Model) (id : TypeId) (n : Nat) :
    ∃ steps last, m.Descends id steps last ∧
      (steps.length = n ∨ steps.length < n ∧ ¬ m.IsRestriction last) := by
  induction n generalizing id with
  | zero => exact ⟨[], id, .here id, .inl rfl⟩
  | succ n ih =>
      by_cases hid : m.IsRestriction id
      · obtain ⟨base, facets, hget⟩ := hid
        obtain ⟨steps, last, hbase, hend⟩ := ih base
        refine ⟨facets :: steps, last, .step hget hbase, ?_⟩
        rw [List.length_cons, Nat.add_right_cancel_iff,
          Nat.add_lt_add_iff_right]
        exact hend
      · exact ⟨[], id, .here id, .inr ⟨Nat.succ_pos n, hid⟩⟩

/-- Facets are put together in any order of the steps, with nothing at either
end.  A type resolves to the builtin kind that its bases lead to, with every
facet of the first restriction that declares it; a complex type resolves to
none, and it is an error to restrict it.  After 64 restrictions, and so wherever
the bases come back to a type, the chain is too deep.  The type and its bases
are meant to have numbers of the model, as they do where the model is closed. -/
theorem restrictions_flatten (m : Model) (id : TypeId) (node : String) :
    (∀ f g h : Facets, (f.inherit g).inherit h = f.inherit (g.inherit h)) ∧
    (∀ f : Facets, Facets.none.inherit f = f ∧ f.inherit Facets.none = f) ∧
    (∀ steps last kind, m.Descends id steps last →
      m.get last = .builtin kind → steps.length ≤ 63 →
        m.resolve id node = .ok (some ⟨kind, Facets.together steps⟩) ∧
          Facets.FromFirst steps (Facets.together steps)) ∧
    (∀ type, m.get id = .complex type → m.resolve id node = .ok none) ∧
    (∀ steps last type, m.Descends id steps last →
      m.get last = .complex type → 1 ≤ steps.length → steps.length ≤ 63 →
        m.resolve id node = .error (.restrictsComplex node)) ∧
    ((∀ steps last, m.Descends id steps last → steps.length ≤ 63 →
        m.IsRestriction last) →
      m.resolve id node = .error (.tooDeep node)) ∧
    (∀ steps knot loop, m.Descends id steps knot → m.Descends knot loop knot →
      loop ≠ [] → m.resolve id node = .error (.tooDeep node)) := by
  refine ⟨Facets.inherit_assoc,
    fun f => ⟨Facets.none_inherit f, Facets.inherit_none f⟩, ?_, ?_, ?_, ?_, ?_⟩
  · intro steps last kind hdown hlast hlength
    exact ⟨(hdown.restricts hlast).resolve_eq (Nat.lt_succ_of_le hlength) node,
      Facets.fromFirst_together steps⟩
  · intro type hget
    simp only [resolve, hget]
  · intro steps last type hdown hlast hpos hlength
    have hless : steps.length < chainLimit := Nat.lt_succ_of_le hlength
    rw [resolve_of_isRestriction (hdown.isRestriction hpos),
      hdown.chain_complex hlast node hless]
    rfl
  · intro hall
    obtain ⟨steps, last, hdown, hlength | ⟨hlength, hlast⟩⟩ :=
      exists_descends m id chainLimit
    · exact hdown.resolve_tooDeep (Nat.le_of_eq hlength.symm) node
    · exact absurd (hall steps last hdown (Nat.le_of_lt_succ hlength)) hlast
  · intro steps knot loop hdown hloop hne
    obtain ⟨turns, hturns, hlength⟩ := hloop.exists_length_le hne chainLimit
    refine (hdown.append hturns).resolve_tooDeep ?_ node
    rw [List.length_append]
    omega

namespace FlatteningWitness

def percentage : Facets :=
  { minInclusive := some "0", maxInclusive := some "100"
    totalDigits := some 5 }

def positive : Facets :=
  { minExclusive := some "0", totalDigits := some 4 }

/-- A percentage, a positive one, a complex type with a restriction of it, and
two types that restrict each other. -/
def rates : Model :=
  { types := [.builtin .decimal, .restriction 0 percentage,
      .restriction 1 positive, .complex {}, .restriction 3 percentage,
      .restriction 6 positive, .restriction 5 percentage] }

/-- The exclusive bound of the derived type takes the place of the inclusive one
of its base, and the other side stays. -/
theorem rates_flattened :
    rates.resolve 2 "rate" = .ok (some ⟨.decimal,
      { minExclusive := some "0", maxInclusive := some "100",
        totalDigits := some 4 }⟩) ∧
    rates.resolve 3 "rate" = .ok none ∧
    rates.resolve 4 "rate" = .error (.restrictsComplex "rate") ∧
    rates.resolve 5 "rate" = .error (.tooDeep "rate") := by
  obtain ⟨-, -, hbuiltin, -⟩ := restrictions_flatten rates 2 "rate"
  obtain ⟨-, -, -, hcomplex, -⟩ := restrictions_flatten rates 3 "rate"
  obtain ⟨-, -, -, -, hrestricted, -⟩ := restrictions_flatten rates 4 "rate"
  obtain ⟨-, -, -, -, -, -, hcycle⟩ := restrictions_flatten rates 5 "rate"
  have hpositive : rates.Descends 2 [positive, percentage] 0 :=
    .step rfl (.step rfl (.here 0))
  have hturn : rates.Descends 5 [positive, percentage] 5 :=
    .step rfl (.step rfl (.here 5))
  refine ⟨?_, hcomplex {} rfl, ?_, ?_⟩
  · exact (hbuiltin _ _ .decimal hpositive rfl (by decide)).1
  · exact hrestricted [percentage] 3 {} (.step rfl (.here 3)) rfl (by decide)
      (by decide)
  · exact hcycle [] 5 _ (.here 5) hturn (List.cons_ne_nil _ _)

end FlatteningWitness

end Model

end Specimen
