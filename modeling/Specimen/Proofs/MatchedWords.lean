/-
Languages over different letters are compared word by word: the words of the one
are matched, letter by letter, by words of the other.  All that content models
do with languages respects such matches.
-/
import Mathlib.Data.List.Forall2
import Mathlib.Order.CompletePartialOrder
import Specimen.Proofs.ContentLanguage

namespace Specimen

variable {α β : Type}

/-- The letters of two words, in the order that each word has them. -/
inductive Interleaves : List α → List α → List α → Prop
  | nil : Interleaves [] [] []
  | left (a : α) {u v w : List α} (hrest : Interleaves u v w) :
      Interleaves (a :: u) v (a :: w)
  | right (a : α) {u v w : List α} (hrest : Interleaves u v w) :
      Interleaves u (a :: v) (a :: w)

/-- The words that a word of each language may be mixed to. -/
def interleave (L K : Language α) : Language α :=
  { w | ∃ u ∈ L, ∃ v ∈ K, Interleaves u v w }

/-- The words of one repetition of a group: a word of every part in order, a
word of one part, or words of all parts mixed. -/
def Order.words : Order → List (Language α) → Language α
  | .sequence, parts => parts.prod
  | .choice, parts => parts.sum
  | .all, parts => parts.foldr interleave 1

/-- Every word of the one language is matched by a word of the other. -/
def Matched (R : α → β → Prop) (L : Language α) (K : Language β) : Prop :=
  ∀ w ∈ L, ∃ w' ∈ K, List.Forall₂ R w w'

theorem matched_eq_iff {L K : Language α} : Matched Eq L K ↔ L ≤ K := by
  constructor
  · intro hmatched w hw
    obtain ⟨w', hw', hsame⟩ := hmatched w hw
    rw [List.forall₂_eq_eq_eq] at hsame
    exact hsame ▸ hw'
  · exact fun hle w hw => ⟨w, hle hw, List.forall₂_refl w⟩

namespace Matched

variable {R : α → β → Prop} {L L₁ L₂ : Language α} {K K₁ K₂ : Language β}

theorem zero : Matched R 0 K := fun _ hw => absurd hw (Language.notMem_zero _)

theorem one : Matched R 1 1 := by
  intro w hw
  obtain rfl := (Language.mem_one w).mp hw
  exact ⟨[], Language.nil_mem_one, .nil⟩

theorem singleton {a : α} {b : β} (hab : R a b) : Matched R {[a]} {[b]} := by
  rintro w rfl
  exact ⟨[b], rfl, .cons hab .nil⟩

theorem add (hfirst : Matched R L₁ K₁) (hsecond : Matched R L₂ K₂) :
    Matched R (L₁ + L₂) (K₁ + K₂) := by
  rintro w (hw | hw)
  · obtain ⟨w', hw', hmatch⟩ := hfirst w hw
    exact ⟨w', .inl hw', hmatch⟩
  · obtain ⟨w', hw', hmatch⟩ := hsecond w hw
    exact ⟨w', .inr hw', hmatch⟩

theorem mul (hfirst : Matched R L₁ K₁) (hsecond : Matched R L₂ K₂) :
    Matched R (L₁ * L₂) (K₁ * K₂) := by
  intro w hw
  obtain ⟨u, hu, v, hv, rfl⟩ := Language.mem_mul.mp hw
  obtain ⟨u', hu', hleft⟩ := hfirst u hu
  obtain ⟨v', hv', hright⟩ := hsecond v hv
  exact ⟨u' ++ v', Language.append_mem_mul hu' hv',
    List.rel_append hleft hright⟩

theorem pow (honce : Matched R L K) (n : Nat) : Matched R (L ^ n) (K ^ n) := by
  induction n with
  | zero =>
      rw [pow_zero, pow_zero]
      exact one
  | succ n ih =>
      rw [pow_succ, pow_succ]
      exact ih.mul honce

theorem repetitions (honce : Matched R L K) (counts : Set Nat) :
    Matched R (ContentReading.repetitions counts L)
      (ContentReading.repetitions counts K) := by
  rintro w ⟨n, hn, hw⟩
  obtain ⟨w', hw', hmatch⟩ := honce.pow n w hw
  exact ⟨w', ContentReading.mem_repetitions hn hw', hmatch⟩

/-- Matching words are mixed in the same way. -/
theorem exists_interleaves {u v w : List α} (hmixed : Interleaves u v w)
    {u' v' : List β} (hleft : List.Forall₂ R u u')
    (hright : List.Forall₂ R v v') :
    ∃ w', Interleaves u' v' w' ∧ List.Forall₂ R w w' := by
  induction hmixed generalizing u' v' with
  | nil =>
      cases hleft
      cases hright
      exact ⟨[], .nil, .nil⟩
  | left a hrest ih =>
      cases hleft with
      | cons hfirst hleft =>
          obtain ⟨w', hw', hmatch⟩ := ih hleft hright
          exact ⟨_, .left _ hw', .cons hfirst hmatch⟩
  | right a hrest ih =>
      cases hright with
      | cons hfirst hright =>
          obtain ⟨w', hw', hmatch⟩ := ih hleft hright
          exact ⟨_, .right _ hw', .cons hfirst hmatch⟩

theorem interleave (hfirst : Matched R L₁ K₁) (hsecond : Matched R L₂ K₂) :
    Matched R (interleave L₁ L₂) (interleave K₁ K₂) := by
  rintro w ⟨u, hu, v, hv, hmixed⟩
  obtain ⟨u', hu', hleft⟩ := hfirst u hu
  obtain ⟨v', hv', hright⟩ := hsecond v hv
  obtain ⟨w', hmixed', hmatch⟩ := exists_interleaves hmixed hleft hright
  exact ⟨w', ⟨u', hu', v', hv', hmixed'⟩, hmatch⟩

theorem order {Ls : List (Language α)} {Ks : List (Language β)}
    (hparts : List.Forall₂ (Matched R) Ls Ks) (order : Order) :
    Matched R (order.words Ls) (order.words Ks) := by
  induction hparts with
  | nil =>
      cases order with
      | sequence => exact one
      | choice => exact zero
      | all => exact one
  | cons hfirst hrest ih =>
      cases order with
      | sequence =>
          rw [Order.words, Order.words, List.prod_cons, List.prod_cons]
          exact hfirst.mul ih
      | choice =>
          rw [Order.words, Order.words, List.sum_cons, List.sum_cons]
          exact hfirst.add ih
      | all => exact hfirst.interleave ih

end Matched

/-- The languages have the same words, letter by letter. -/
structure Agrees (R : α → β → Prop) (L : Language α) (K : Language β) :
    Prop where
  forth : Matched R L K
  back : Matched (flip R) K L

namespace Agrees

variable {R : α → β → Prop} {L : Language α} {K : Language β}

theorem one : Agrees R 1 1 := ⟨.one, .one⟩

theorem singleton {a : α} {b : β} (hab : R a b) : Agrees R {[a]} {[b]} :=
  ⟨.singleton hab, .singleton hab⟩

theorem repetitions (honce : Agrees R L K) (counts : Set Nat) :
    Agrees R (ContentReading.repetitions counts L)
      (ContentReading.repetitions counts K) :=
  ⟨honce.forth.repetitions counts, honce.back.repetitions counts⟩

theorem order {Ls : List (Language α)} {Ks : List (Language β)}
    (hparts : List.Forall₂ (Agrees R) Ls Ks) (order : Order) :
    Agrees R (order.words Ls) (order.words Ks) where
  forth := .order (hparts.imp fun _ _ hpart => hpart.forth) order
  back := .order (hparts.flip.imp fun _ _ hpart => hpart.back) order

end Agrees

end Specimen
