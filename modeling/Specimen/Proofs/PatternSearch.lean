/-
The search for a pattern finds exactly its matches.  From a place, the ends that
are listed are those of the texts the pattern takes there.  A repetition notes
from where it has gone on with how many turns left, and does not go on from
there again; nothing is lost, for what has been noted is listed by then, or
waits at an earlier place.
-/
import Mathlib.Data.List.Infix
import Mathlib.Logic.Relation
import Specimen.Proofs.PatternLanguage
import Specimen.Proofs.PatternReading
import Specimen.Regex.Search

namespace Specimen.Regex

namespace Place

variable {o p q : Place} {u v w : List Char}

/-- The second place lies in the text behind the first, or is the same. -/
def Precedes (p q : Place) : Prop := ∃ w, w <+: p.rest ∧ p.skip w = q

theorem rest_skip (hrest : p.rest = u ++ v) : (p.skip u).rest = v := by
  induction u generalizing p with
  | nil => exact hrest
  | cons c u ih => exact ih (by rw [hrest]; rfl)

theorem before_skip_cons (p : Place) (c : Char) (w : List Char) :
    (p.skip (c :: w)).before ≠ none := by
  induction w generalizing p c with
  | nil => exact Option.some_ne_none c
  | cons d w ih => exact ih ⟨some c, p.rest.drop 1⟩ d

namespace Precedes

theorem refl (p : Place) : p.Precedes p := ⟨[], List.nil_prefix, rfl⟩

theorem trans (hop : o.Precedes p) (hpq : p.Precedes q) : o.Precedes q := by
  obtain ⟨u, ⟨s, hs⟩, rfl⟩ := hop
  obtain ⟨v, ⟨t, ht⟩, rfl⟩ := hpq
  rw [rest_skip hs.symm] at ht
  exact ⟨u ++ v, ⟨t, by rw [List.append_assoc, ht, hs]⟩, skip_append o u v⟩

theorem length_le (hpq : p.Precedes q) : q.rest.length ≤ p.rest.length := by
  obtain ⟨u, ⟨s, hs⟩, rfl⟩ := hpq
  rw [rest_skip hs.symm, ← hs, List.length_append]
  exact Nat.le_add_left ..

/-- Within one text, a place is known by how much is left. -/
theorem eq_of_length_eq (hop : o.Precedes p) (hoq : o.Precedes q)
    (hlength : p.rest.length = q.rest.length) : p = q := by
  obtain ⟨u, ⟨s, hs⟩, rfl⟩ := hop
  obtain ⟨v, ⟨t, ht⟩, rfl⟩ := hoq
  rw [rest_skip hs.symm, rest_skip ht.symm] at hlength
  rw [(List.append_inj' (hs.trans ht.symm) hlength).1]

/-- Only where a text begins, nothing stands before. -/
theorem eq_of_before (hpq : p.Precedes q)
    (hbefore : q.before = none) : q = p := by
  obtain ⟨_ | ⟨c, w⟩, -, rfl⟩ := hpq
  · rfl
  · exact absurd hbefore (before_skip_cons p c w)

theorem cons_iff {before : Option Char} {c : Char} {rest : List Char} :
    Precedes ⟨before, c :: rest⟩ q ↔
      q = ⟨before, c :: rest⟩ ∨ Precedes ⟨some c, rest⟩ q := by
  constructor
  · rintro ⟨_ | ⟨d, w⟩, hw, rfl⟩
    · exact .inl rfl
    · obtain ⟨rfl, hbehind⟩ := List.cons_prefix_cons.mp hw
      exact .inr ⟨w, hbehind, rfl⟩
  · rintro (rfl | ⟨w, hw, rfl⟩)
    · exact .refl _
    · exact ⟨c :: w, List.cons_prefix_cons.mpr ⟨rfl, hw⟩, rfl⟩

theorem eq_of_le (hpq : p.Precedes q) (hle : p.rest.length ≤ q.rest.length) :
    q = p :=
  hpq.eq_of_length_eq (.refl p) (hpq.length_le.antisymm hle)

end Precedes

/-- The relation only leads to places behind. -/
def Forward (R : Place → Place → Prop) : Prop := ∀ a b, R a b → a.Precedes b

end Place

open Place (Forward)

/-- So many steps of a relation. -/
def Turns (R : Place → Place → Prop) : Nat → Place → Place → Prop
  | 0 => Eq
  | n + 1 => Relation.Comp R (Turns R n)

section Turns

variable {R : Place → Place → Prop} {a b : Place} {m n : Nat}

theorem turns_add_iff : Turns R (m + n) a b ↔
    ∃ c, Turns R m a c ∧ Turns R n c b := by
  induction m generalizing a with
  | zero => simp [Turns]
  | succ m ih =>
      rw [Nat.succ_add]
      simp only [Turns, Relation.Comp, ih]
      exact ⟨fun ⟨d, hd, c, hc, hb⟩ => ⟨c, ⟨d, hd, hc⟩, hb⟩,
        fun ⟨c, ⟨d, hd, hc⟩, hb⟩ => ⟨d, hd, c, hc, hb⟩⟩

variable (hR : Forward R)
include hR

theorem Turns.precedes (hturns : Turns R n a b) : a.Precedes b := by
  induction n generalizing a with
  | zero => exact hturns ▸ .refl a
  | succ n ih =>
      obtain ⟨c, hc, hrest⟩ := hturns
      exact (hR a c hc).trans (ih hrest)

/-- More turns than characters are left cannot all take something. -/
theorem Turns.exists_idle (hturns : Turns R n a b) (hlt : a.rest.length < n) :
    ∃ i j c, i + j + 1 = n ∧ Turns R i a c ∧ R c c ∧ Turns R j c b := by
  induction n generalizing a with
  | zero => exact absurd hlt (Nat.not_lt_zero _)
  | succ n ih =>
      obtain ⟨d, hd, hrest⟩ := hturns
      by_cases hidle : a.rest.length ≤ d.rest.length
      · obtain rfl := (hR a d hd).eq_of_le hidle
        exact ⟨0, n, d, by omega, rfl, hd, hrest⟩
      · obtain ⟨i, j, c, hij, hi, hc, hj⟩ := ih hrest (by omega)
        exact ⟨i + 1, j, c, by omega, ⟨d, hd, hi⟩, hc, hj⟩

theorem Turns.shorten (hturns : Turns R (n + 1) a b)
    (hle : a.rest.length ≤ n) : Turns R n a b := by
  obtain ⟨i, j, c, hij, hi, -, hj⟩ :=
    hturns.exists_idle hR (Nat.lt_succ_of_le hle)
  obtain rfl : i + j = n := by omega
  exact turns_add_iff.mpr ⟨c, hi, hj⟩

theorem Turns.lengthen (hturns : Turns R n a b) (hlt : a.rest.length < n) :
    Turns R (n + 1) a b := by
  obtain ⟨i, j, c, hij, hi, hc, hj⟩ := hturns.exists_idle hR hlt
  obtain rfl : i + (j + 1) = n := by omega
  rw [Nat.add_assoc]
  exact turns_add_iff.mpr ⟨c, hi, c, hc, c, hc, hj⟩

/-- From a number of turns on of which one has to be idle, the number does not
matter. -/
theorem Turns.of_lt_of_lt (hturns : Turns R m a b) (hm : a.rest.length < m)
    (hn : a.rest.length < n) : Turns R n a b := by
  rcases Nat.le_total m n with hle | hle
  · induction n, hle using Nat.le_induction with
    | base => exact hturns
    | succ n hle ih =>
        exact (ih (hm.trans_le hle)).lengthen hR (hm.trans_le hle)
  · induction m, hle using Nat.le_induction with
    | base => exact hturns
    | succ m hle ih =>
        exact ih (hturns.shorten hR (hn.trans_le hle).le) (hn.trans_le hle)

/-- No more turns are needed than there are characters. -/
theorem Turns.exists_le (hturns : Turns R n a b) :
    ∃ m ≤ n, m ≤ a.rest.length ∧ Turns R m a b := by
  induction n with
  | zero => exact ⟨0, le_rfl, Nat.zero_le _, hturns⟩
  | succ n ih =>
      by_cases hle : n + 1 ≤ a.rest.length
      · exact ⟨n + 1, le_rfl, hle, hturns⟩
      · obtain ⟨m, hmn, hm⟩ := ih (hturns.shorten hR (by omega))
        exact ⟨m, hmn.trans n.le_succ, hm⟩

end Turns

/-- At most so many steps of a relation. -/
def AtMost (R : Place → Place → Prop) (n : Nat) (a b : Place) : Prop :=
  ∃ m ≤ n, Turns R m a b

/-- Some turns are left out until the first takes something. -/
theorem AtMost.eq_or_step {R : Place → Place → Prop} {a b : Place} {n : Nat}
    (hR : Forward R) (hmost : AtMost R (n + 1) a b) :
    b = a ∨ ∃ c, R a c ∧ c.rest.length < a.rest.length ∧ AtMost R n c b := by
  obtain ⟨m, hm, hturns⟩ := hmost
  induction m with
  | zero => exact .inl hturns.symm
  | succ m ih =>
      obtain ⟨c, hc, hrest⟩ := hturns
      by_cases hidle : a.rest.length ≤ c.rest.length
      · obtain rfl := (hR a c hc).eq_of_le hidle
        exact ih (m.le_succ.trans hm) hrest
      · exact .inr ⟨c, hc, Nat.lt_of_not_le hidle, m,
          Nat.le_of_succ_le_succ hm, hrest⟩

namespace Reached

variable {o q : Place} {r : Reached} {rs : List Reached} {seen : List Nat}

def places (rs : List Reached) : List Place := rs.map Reached.place

@[simp] theorem places_append (rs others : List Reached) :
    places (rs ++ others) = places rs ++ places others := List.map_append

@[simp] theorem places_cons (r : Reached) (rs : List Reached) :
    places (r :: rs) = r.place :: places rs := rfl

@[simp] theorem places_nil : places [] = [] := rfl

theorem places_flatMap (step : Reached → List Reached) (rs : List Reached) :
    places (rs.flatMap step) = rs.flatMap fun r => places (step r) :=
  List.map_flatMap

theorem exists_mem_places {P : Place → Prop} :
    (∃ p ∈ places rs, P p) ↔ ∃ r ∈ rs, P r.place := by
  simp [places]

theorem mem_places_firsts_go (hrs : ∀ p ∈ places rs, o.Precedes p) :
    q ∈ places (firsts.go seen rs) ↔ q ∈ places rs ∧ q.rest.length ∉ seen := by
  fun_induction firsts.go seen rs with
  | case1 => simp
  | case2 seen r rest hseen ih =>
      rw [ih fun p hp => hrs p (List.mem_cons_of_mem _ hp), places_cons,
        List.mem_cons, or_and_right, or_iff_right]
      rintro ⟨rfl, hfresh⟩
      exact hfresh (List.contains_iff_mem.mp hseen)
  | case3 seen r rest hfresh ih =>
      obtain ⟨hr, hrest⟩ := List.forall_mem_cons.mp hrs
      rw [places_cons, List.mem_cons, ih hrest, places_cons, List.mem_cons,
        List.mem_cons, not_or]
      by_cases hqr : q = r.place
      · subst hqr
        simpa [left] using hfresh
      · have hlength (hq : q ∈ places rest) : q.rest.length ≠ r.left :=
          fun hlength => hqr ((hrest q hq).eq_of_length_eq hr hlength)
        simp only [hqr, false_or]
        exact ⟨fun ⟨hq, _, hseen⟩ => ⟨hq, hseen⟩,
          fun ⟨hq, hseen⟩ => ⟨hq, hlength hq, hseen⟩⟩

/-- Places in one text that lie where others lie may be dropped. -/
theorem mem_places_firsts (hrs : ∀ p ∈ places rs, o.Precedes p) :
    q ∈ places (firsts rs) ↔ q ∈ places rs := by
  rw [firsts, mem_places_firsts_go hrs]
  simp

end Reached

open Reached (places)

/-- The step lists exactly the places that the relation leads to, all behind. -/
structure Explores (step : Reached → List Reached)
    (R : Place → Place → Prop) : Prop where
  mem_iff : ∀ r q, q ∈ places (step r) ↔ R r.place q
  forward : Forward R

theorem Explores.of_mem {step : Reached → List Reached}
    {R : Place → Place → Prop} {r child : Reached} (hstep : Explores step R)
    (hchild : child ∈ step r) : R r.place child.place :=
  (hstep.mem_iff r child.place).mp (List.mem_map_of_mem hchild)

namespace Pattern

variable {step next : Reached → List Reached} {R S : Place → Place → Prop}
  {o q : Place} {r : Reached} {rs : List Reached} {n : Nat} {greedy : Bool}

theorem mem_places_stepAll (hstep : Explores step R)
    (hrs : ∀ p ∈ places rs, o.Precedes p) :
    q ∈ places (stepAll step rs) ↔ ∃ p ∈ places rs, R p q := by
  have hflat : ∀ q, q ∈ places (rs.flatMap step) ↔ ∃ p ∈ places rs, R p q := by
    intro q
    rw [Reached.places_flatMap, List.mem_flatMap, Reached.exists_mem_places]
    simp only [hstep.mem_iff]
  rw [stepAll, Reached.mem_places_firsts (o := o), hflat]
  intro q hq
  obtain ⟨p, hp, hpq⟩ := (hflat q).mp hq
  exact (hrs p hp).trans (hstep.forward p q hpq)

theorem explores_stepAll (hstep : Explores step R) (hnext : Explores next S) :
    Explores (fun r => stepAll next (step r)) (Relation.Comp R S) where
  mem_iff r q := by
    rw [mem_places_stepAll hnext (o := r.place)]
    · simp only [hstep.mem_iff, Relation.Comp]
    · exact fun p hp => hstep.forward _ p ((hstep.mem_iff r p).mp hp)
  forward a b :=
    fun ⟨c, hc, hb⟩ => (hstep.forward a c hc).trans (hnext.forward c b hb)

theorem mem_places_turns (hstep : Explores step R)
    (hrs : ∀ p ∈ places rs, o.Precedes p) :
    q ∈ places (turns step n rs) ↔ ∃ p ∈ places rs, Turns R n p q := by
  induction n generalizing rs with
  | zero => simp [turns, Turns]
  | succ n ih =>
      have hall (q : Place) := mem_places_stepAll (q := q) hstep hrs
      have hbehind : ∀ p ∈ places (stepAll step rs), o.Precedes p := by
        intro q hq
        obtain ⟨p, hp, hpq⟩ := (hall q).mp hq
        exact (hrs p hp).trans (hstep.forward p q hpq)
      rw [turns, ih hbehind]
      simp only [hall, Turns, Relation.Comp]
      exact ⟨fun ⟨c, ⟨p, hp, hc⟩, hq⟩ => ⟨p, hp, c, hc, hq⟩,
        fun ⟨p, hp, c, hc, hq⟩ => ⟨c, ⟨p, hp, hc⟩, hq⟩⟩

section Repetition

variable {seen : List (Nat × Nat)} {state : List Reached × List (Nat × Nat)}

/-- What follows one turn is listed behind what is listed already. -/
def visit (step : Reached → List Reached) (greedy : Bool) (n : Nat)
    (r : Reached) (state : List Reached × List (Nat × Nat)) (child : Reached) :
    List Reached × List (Nat × Nat) :=
  if child.left < r.left then
    let (ends, seen) := upTo step greedy n state.2 child
    (state.1 ++ ends, seen)
  else (state.1 ++ [child], state.2)

/-- What follows every first turn is listed. -/
def visitAll (step : Reached → List Reached) (greedy : Bool) (n : Nat)
    (seen : List (Nat × Nat)) (r : Reached) : List Reached × List (Nat × Nat) :=
  (step r).foldl (visit step greedy n r) ([], (n, r.left) :: seen)

theorem upTo_of_mem (hseen : (n, r.left) ∈ seen) :
    upTo step greedy (n + 1) seen r = ([], seen) := by
  rw [upTo, if_pos (List.contains_iff_mem.mpr hseen)]

theorem upTo_of_notMem (hseen : (n, r.left) ∉ seen) :
    upTo step greedy (n + 1) seen r =
      (if greedy then (visitAll step greedy n seen r).1 ++ [r]
        else r :: (visitAll step greedy n seen r).1,
        (visitAll step greedy n seen r).2) := by
  rw [upTo, if_neg (mt List.contains_iff_mem.mp hseen)]
  rfl

theorem mem_places_upTo_of_notMem (hseen : (n, r.left) ∉ seen) :
    q ∈ places (upTo step greedy (n + 1) seen r).1 ↔
      q ∈ places (visitAll step greedy n seen r).1 ∨ q = r.place := by
  rw [upTo_of_notMem hseen]
  cases greedy with
  | true => simp
  | false => simp [or_comm]

theorem visit_of_lt {child : Reached} (hlt : child.left < r.left) :
    visit step greedy n r state child =
      (state.1 ++ (upTo step greedy n state.2 child).1,
        (upTo step greedy n state.2 child).2) := by
  rw [visit, if_pos hlt]

theorem visit_of_le {child : Reached} (hle : r.left ≤ child.left) :
    visit step greedy n r state child = (state.1 ++ [child], state.2) := by
  rw [visit, if_neg hle.not_gt]

/-- Nothing is listed by the first turns that is not reached. -/
theorem atMost_of_mem_foldl {children : List Reached}
    (hupTo : ∀ {seen : List (Nat × Nat)} {r : Reached} {q : Place},
      q ∈ places (upTo step greedy n seen r).1 → AtMost R n r.place q)
    (hchildren : ∀ child ∈ children, R r.place child.place)
    (hstate : ∀ q ∈ places state.1, AtMost R (n + 1) r.place q) :
    ∀ q ∈ places (children.foldl (visit step greedy n r) state).1,
      AtMost R (n + 1) r.place q := by
  induction children generalizing state with
  | nil => exact hstate
  | cons child children ih =>
      obtain ⟨hchild, hrest⟩ := List.forall_mem_cons.mp hchildren
      have hvisit {q : Place} (hq : AtMost R n child.place q) :
          AtMost R (n + 1) r.place q := by
        obtain ⟨m, hm, hturns⟩ := hq
        exact ⟨m + 1, Nat.succ_le_succ hm, child.place, hchild, hturns⟩
      refine ih hrest fun q hq => ?_
      by_cases hlt : child.left < r.left
      · rw [visit_of_lt hlt, Reached.places_append] at hq
        rcases List.mem_append.mp hq with hold | hnew
        · exact hstate q hold
        · exact hvisit (hupTo hnew)
      · rw [visit_of_le (Nat.le_of_not_lt hlt), Reached.places_append] at hq
        rcases List.mem_append.mp hq with hold | hnew
        · exact hstate q hold
        · obtain rfl := List.mem_singleton.mp hnew
          exact hvisit ⟨0, Nat.zero_le n, rfl⟩

/-- Nothing is listed that is not reached. -/
theorem atMost_of_mem_upTo (hstep : Explores step R)
    (hq : q ∈ places (upTo step greedy n seen r).1) : AtMost R n r.place q := by
  induction n generalizing seen r q with
  | zero =>
      obtain rfl := List.mem_singleton.mp hq
      exact ⟨0, le_rfl, rfl⟩
  | succ n ih =>
      by_cases hseen : (n, r.left) ∈ seen
      · rw [upTo_of_mem hseen] at hq
        cases hq
      rcases (mem_places_upTo_of_notMem hseen).mp hq with hmore | rfl
      · exact atMost_of_mem_foldl ih (fun _ => hstep.of_mem) (by simp) q hmore
      · exact ⟨0, Nat.zero_le _, rfl⟩

/-- Whatever is reached from a noted place, with one turn more than are noted to
be left behind it, belongs to the places `L`. -/
def Settled (R : Place → Place → Prop) (o : Place) (L : Place → Prop)
    (note : Nat × Nat) : Prop :=
  ∀ a b, o.Precedes a → a.rest.length = note.2 → AtMost R (note.1 + 1) a b → L b

theorem Settled.mono {L L' : Place → Prop} {note : Nat × Nat}
    (hsettled : Settled R o L note) (hL : ∀ q, L q → L' q) :
    Settled R o L' note :=
  fun a b ha hlength hb => hL b (hsettled a b ha hlength hb)

/-- When a call returns, with `L` listed before it and the notes `old` made by
then, the notes it made are settled, and what it was to list is listed. -/
structure Completes (R : Place → Place → Prop) (o : Place) (L : Place → Prop)
    (old : List (Nat × Nat)) (goal : Place → Prop)
    (result : List Reached × List (Nat × Nat)) : Prop where
  settled : ∀ note ∈ result.2, note ∈ old ∨
    Settled R o (fun q => L q ∨ q ∈ places result.1) note
  listed : ∀ q, goal q → L q ∨ q ∈ places result.1

/-- The first turns are taken one after the other.  The note of the place where
they begin is open until they are done, but no turn that is gone into comes back
to that place. -/
theorem completes_foldl {L : Place → Prop} {children : List Reached}
    (hupTo : ∀ {seen : List (Nat × Nat)} {r : Reached} {L : Place → Prop},
      o.Precedes r.place →
      (∀ note ∈ seen, note.2 ≤ r.left → Settled R o L note) →
      Completes R o L seen (AtMost R n r.place) (upTo step greedy n seen r))
    (hchildren : ∀ child ∈ children, o.Precedes child.place)
    (hseen : ∀ note ∈ seen, note.2 ≤ r.left → Settled R o L note)
    (hstate : ∀ note ∈ state.2, note ∈ (n, r.left) :: seen ∨
      Settled R o (fun q => L q ∨ q ∈ places state.1) note) :
    Completes R o L ((n, r.left) :: seen)
      (fun q => q ∈ places state.1 ∨
        ∃ child ∈ children, child.left < r.left ∧ AtMost R n child.place q)
      (children.foldl (visit step greedy n r) state) := by
  induction children generalizing state with
  | nil => exact ⟨hstate, fun q => by simpa using .inr⟩
  | cons child children ih =>
      obtain ⟨hchild, hrest⟩ := List.forall_mem_cons.mp hchildren
      rw [List.foldl_cons]
      by_cases hlt : child.left < r.left
      · obtain ⟨hsettled, hlisted⟩ := @hupTo state.2 child
          (fun q => L q ∨ q ∈ places state.1) hchild fun note hnote hle => by
            rcases hstate note hnote with hold | hdone
            · rcases List.mem_cons.mp hold with rfl | hold
              · exact absurd hlt hle.not_gt
              · exact (hseen note hold (hle.trans hlt.le)).mono fun _ => .inl
            · exact hdone
        rw [visit_of_lt hlt]
        have hall := @ih (state.1 ++ (upTo step greedy n state.2 child).1,
          (upTo step greedy n state.2 child).2) hrest fun note hnote => by
            simp only [Reached.places_append, List.mem_append, ← or_assoc]
            rcases hsettled note hnote with hbefore | hdone
            · exact (hstate note hbefore).imp_right fun hdone =>
                hdone.mono fun _ => .inl
            · exact .inr hdone
        refine ⟨hall.settled, fun q hq => ?_⟩
        rcases hq with hold | ⟨other, hother, hless, hq⟩
        · exact hall.listed q (.inl (by simp [hold]))
        rcases List.mem_cons.mp hother with rfl | hother
        · rcases hlisted q hq with (hL | hold) | hnew
          · exact .inl hL
          · exact hall.listed q (.inl (by simp [hold]))
          · exact hall.listed q (.inl (by simp [hnew]))
        · exact hall.listed q (.inr ⟨other, hother, hless, hq⟩)
      · rw [visit_of_le (Nat.le_of_not_lt hlt)]
        have hall := @ih (state.1 ++ [child], state.2) hrest fun note hnote =>
          (hstate note hnote).imp_right fun hdone => hdone.mono fun q => by
            simp only [Reached.places_append, List.mem_append, ← or_assoc]
            exact .inl
        refine ⟨hall.settled, fun q hq => hall.listed q ?_⟩
        rcases hq with hold | ⟨other, hother, hless, hq⟩
        · exact .inl (by simp [hold])
        rcases List.mem_cons.mp hother with rfl | hother
        · exact absurd hless hlt
        · exact .inr ⟨other, hother, hless, hq⟩

/-- A call leaves out nothing but what was listed before it. -/
theorem completes_upTo (hstep : Explores step R) {L : Place → Prop}
    (hr : o.Precedes r.place)
    (hseen : ∀ note ∈ seen, note.2 ≤ r.left → Settled R o L note) :
    Completes R o L seen (AtMost R n r.place) (upTo step greedy n seen r) := by
  induction n generalizing seen r L with
  | zero =>
      refine ⟨fun _ => .inl, fun q ⟨m, hm, hturns⟩ => ?_⟩
      obtain rfl := Nat.le_zero.mp hm
      exact .inr (List.mem_singleton.mpr hturns.symm)
  | succ n ih =>
      by_cases hmem : (n, r.left) ∈ seen
      · rw [upTo_of_mem hmem]
        exact ⟨fun _ => .inl, fun q hq =>
          .inl (hseen _ hmem le_rfl r.place q hr rfl hq)⟩
      have hchildren : ∀ child ∈ step r, o.Precedes child.place :=
        fun child hchild => hr.trans (hstep.forward _ _ (hstep.of_mem hchild))
      have hall : Completes R o L ((n, r.left) :: seen) _
          (visitAll step greedy n seen r) :=
        completes_foldl ih hchildren hseen fun _ => .inl
      have hlisted (q : Place) (hq : AtMost R (n + 1) r.place q) :
          L q ∨ q ∈ places (upTo step greedy (n + 1) seen r).1 := by
        rw [mem_places_upTo_of_notMem hmem, ← or_assoc]
        rcases hq.eq_or_step hstep.forward with rfl | ⟨c, hc, hlt, hq⟩
        · exact .inr rfl
        · obtain ⟨child, hchild, rfl⟩ :=
            List.mem_map.mp ((hstep.mem_iff r c).mpr hc)
          exact .inl (hall.listed q (.inr ⟨child, hchild, hlt, hq⟩))
      refine ⟨fun note hnote => ?_, hlisted⟩
      rw [upTo_of_notMem hmem] at hnote
      rcases hall.settled note hnote with hold | hdone
      · rcases List.mem_cons.mp hold with rfl | hold
        · refine .inr fun a b ha hlength hb => ?_
          obtain rfl := ha.eq_of_length_eq hr hlength
          exact hlisted b hb
        · exact .inl hold
      · refine .inr (hdone.mono fun q hq => ?_)
        rw [mem_places_upTo_of_notMem hmem, ← or_assoc]
        exact .inl hq

/-- A repetition lists exactly the places that at most so many turns lead to. -/
theorem explores_upTo (hstep : Explores step R) (greedy : Bool) (n : Nat) :
    Explores (fun r => (upTo step greedy n [] r).1) (AtMost R n) where
  mem_iff r q := by
    refine ⟨atMost_of_mem_upTo hstep, fun hq => ?_⟩
    have hall : Completes R r.place (fun _ => False) [] _
        (upTo step greedy n [] r) :=
      completes_upTo hstep (.refl r.place) (by simp)
    exact (hall.listed q hq).resolve_left id
  forward _ _ := fun ⟨_, _, hturns⟩ => hturns.precedes hstep.forward

end Repetition

/-- The pattern takes the text between two places. -/
def Takes (p : Pattern) (a b : Place) : Prop :=
  ∃ w, w <+: a.rest ∧ p.Matches a w ∧ a.skip w = b

section Takes

variable {p first second body : Pattern} {a b : Place} {least : Nat}
  {most : Option Nat} {capture : Option Capture}

theorem forward_takes (p : Pattern) : Forward p.Takes :=
  fun _ _ ⟨w, hw, _, hskip⟩ => ⟨w, hw, hskip⟩

/-- What is taken in two parts is taken from a place to another by way of a
third. -/
theorem exists_append_iff {P Q : Place → List Char → Prop} :
    (∃ w, w <+: a.rest ∧ (∃ u v, w = u ++ v ∧ P a u ∧ Q (a.skip u) v) ∧
        a.skip w = b) ↔
      ∃ c, (∃ u, u <+: a.rest ∧ P a u ∧ a.skip u = c) ∧
        ∃ v, v <+: c.rest ∧ Q c v ∧ c.skip v = b := by
  constructor
  · rintro ⟨_, ⟨t, ht⟩, ⟨u, v, rfl, hu, hv⟩, rfl⟩
    rw [List.append_assoc] at ht
    refine ⟨a.skip u, ⟨u, ⟨v ++ t, ht⟩, hu, rfl⟩, v, ⟨t, ?_⟩, hv, ?_⟩
    · rw [Place.rest_skip ht.symm]
    · rw [Place.skip_append]
  · rintro ⟨_, ⟨u, ⟨s, hs⟩, hu, rfl⟩, v, ⟨t, ht⟩, hv, rfl⟩
    rw [Place.rest_skip hs.symm] at ht
    refine ⟨u ++ v, ⟨t, ?_⟩, ⟨u, v, rfl, hu, hv⟩, Place.skip_append ..⟩
    rw [List.append_assoc, ht, hs]

theorem takes_sequence :
    (sequence first second).Takes = Relation.Comp first.Takes second.Takes := by
  funext a b
  simp only [Takes, matches_sequence_iff]
  exact propext exists_append_iff

theorem takes_empty_iff : empty.Takes a b ↔ b = a := by
  simp [Takes, eq_comm]

theorem takes_text_iff {cs : List Char} :
    (text cs).Takes a b ↔ cs <+: a.rest ∧ b = a.skip cs := by
  simp [Takes, eq_comm]

theorem takes_chars_iff {set : CharSet} : (chars set).Takes a b ↔
    ∃ c rest, a.rest = c :: rest ∧ set.contains c ∧ b = ⟨some c, rest⟩ := by
  simp only [Takes, matches_chars_iff]
  constructor
  · rintro ⟨_, ⟨rest, hrest⟩, ⟨c, hc, rfl⟩, rfl⟩
    exact ⟨c, rest, hrest.symm, hc, by simp [Place.skip, ← hrest]⟩
  · rintro ⟨c, rest, hrest, hc, rfl⟩
    exact ⟨[c], ⟨rest, hrest.symm⟩, ⟨c, hc, rfl⟩, by simp [Place.skip, hrest]⟩

theorem takes_look_iff {condition : Look} :
    (look condition).Takes a b ↔ condition.holds a ∧ b = a := by
  simp only [Takes, matches_look_iff]
  constructor
  · rintro ⟨_, -, ⟨hholds, rfl⟩, rfl⟩
    exact ⟨hholds, rfl⟩
  · rintro ⟨hholds, rfl⟩
    exact ⟨[], List.nil_prefix, ⟨hholds, rfl⟩, rfl⟩

theorem takes_group : (group capture body).Takes = body.Takes := by
  funext a b
  simp only [Takes, matches_group_iff]

theorem takes_choice_iff :
    (choice first second).Takes a b ↔ first.Takes a b ∨ second.Takes a b := by
  simp only [Takes, matches_choice_iff, or_and_right, and_or_left, exists_or]

theorem turns_takes_iff {n : Nat} : Turns body.Takes n a b ↔
    ∃ w, w <+: a.rest ∧ MatchesTimes n body a w ∧ a.skip w = b := by
  induction n generalizing a with
  | zero => simp [Turns]
  | succ n ih =>
      simp only [matchesTimes_succ_iff, exists_append_iff, Turns,
        Relation.Comp, ih]
      rfl

theorem takes_repeated_iff {greedy : Bool} :
    (repeated least most greedy body).Takes a b ↔
      ∃ n, least ≤ n ∧ (∀ m ∈ most, n ≤ m) ∧ Turns body.Takes n a b := by
  simp only [Takes, matches_repeated_iff, turns_takes_iff]
  grind

end Takes

section Ends

variable {p body : Pattern} {least : Nat} {most : Option Nat}

theorem ends_text (cs : List Char) (r : Reached) : (text cs).ends r =
    if cs.isPrefixOf r.place.rest then [{ r with place := r.place.skip cs }]
    else [] :=
  rfl

theorem ends_chars (set : CharSet) (r : Reached) : (chars set).ends r =
    match r.place.rest with
    | c :: rest =>
      if set.contains c then [{ r with place := ⟨some c, rest⟩ }] else []
    | [] => [] :=
  rfl

theorem ends_look (condition : Look) (r : Reached) :
    (look condition).ends r = if condition.holds r.place then [r] else [] :=
  rfl

theorem ends_group (capture : Option Capture) (r : Reached) :
    (group capture body).ends r =
      (body.ends r).map (Reached.capture capture r) :=
  rfl

theorem ends_choice (first second : Pattern) (r : Reached) :
    (choice first second).ends r =
      Reached.firsts (first.ends r ++ second.ends r) :=
  rfl

theorem explores_text (cs : List Char) :
    Explores (text cs).ends (text cs).Takes where
  mem_iff r q := by
    rw [ends_text, takes_text_iff]
    split <;> simp_all
  forward := forward_takes _

theorem explores_chars (set : CharSet) :
    Explores (chars set).ends (chars set).Takes where
  mem_iff r q := by
    rw [ends_chars, takes_chars_iff]
    split
    · split <;> simp_all
    · simp_all
  forward := forward_takes _

theorem explores_look (condition : Look) :
    Explores (look condition).ends (look condition).Takes where
  mem_iff r q := by
    rw [ends_look, takes_look_iff]
    split <;> simp_all
  forward := forward_takes _

theorem explores_group (hbody : Explores body.ends body.Takes)
    (capture : Option Capture) :
    Explores (group capture body).ends (group capture body).Takes where
  mem_iff r q := by
    have hplace (stop : Reached) :
        (Reached.capture capture r stop).place = stop.place := by
      rw [Reached.capture]
      split <;> rfl
    rw [takes_group, ← hbody.mem_iff, ends_group]
    simp [places, hplace]
  forward := forward_takes _

theorem explores_choice {first second : Pattern}
    (hfirst : Explores first.ends first.Takes)
    (hsecond : Explores second.ends second.Takes) :
    Explores (choice first second).ends (choice first second).Takes where
  mem_iff r q := by
    rw [ends_choice, takes_choice_iff, Reached.mem_places_firsts (o := r.place),
      Reached.places_append, List.mem_append, hfirst.mem_iff, hsecond.mem_iff]
    intro p hp
    rw [Reached.places_append, List.mem_append, hfirst.mem_iff,
      hsecond.mem_iff] at hp
    exact hp.elim (hfirst.forward _ p) (hsecond.forward _ p)
  forward := forward_takes _

/-- How many turns more than the least number are tried with so much text left.
-/
def spare (least : Nat) (most : Option Nat) (left : Nat) : Nat :=
  match most with
  | none => left + 1
  | some most => min (most - least) (left + 1)

theorem ends_repeated {r : Reached} {greedy : Bool} :
    (repeated least most greedy body).ends r =
      stepAll (fun next =>
        (upTo body.ends greedy (spare least most r.left) [] next).1)
        (turns body.ends (min least (r.left + 1)) [r]) := by
  cases most <;> rfl

/-- The turns that are asked for come first, and then those that are allowed.
More turns of either kind than the text has characters make no difference. -/
theorem takes_repeated_iff_bounded {greedy : Bool} {a b : Place}
    (hmost : ∀ m ∈ most, least ≤ m) :
    (repeated least most greedy body).Takes a b ↔
      ∃ c, Turns body.Takes (min least (a.rest.length + 1)) a c ∧
        AtMost body.Takes (spare least most a.rest.length) c b := by
  have hR := forward_takes body
  rw [takes_repeated_iff]
  by_cases hleast : least ≤ a.rest.length
  · rw [min_eq_left (hleast.trans (Nat.le_succ _))]
    constructor
    · rintro ⟨n, hn, hm, hturns⟩
      obtain ⟨k, rfl⟩ := Nat.exists_eq_add_of_le hn
      obtain ⟨c, hc, hrest⟩ := turns_add_iff.mp hturns
      obtain ⟨j, hjk, hj, hrest⟩ := hrest.exists_le hR
      have hlength := (hc.precedes hR).length_le
      refine ⟨c, hc, j, ?_, hrest⟩
      cases most with
      | none => exact hj.trans (hlength.trans (Nat.le_succ _))
      | some m =>
          have hkm := hm m rfl
          rw [spare, Nat.le_min]
          omega
    · rintro ⟨c, hc, j, hj, hrest⟩
      refine ⟨least + j, Nat.le_add_right .., fun m hm => ?_,
        turns_add_iff.mpr ⟨c, hc, hrest⟩⟩
      have hle := hmost m hm
      cases hm
      rw [spare, Nat.le_min] at hj
      omega
  · have hlt : a.rest.length < least := Nat.lt_of_not_le hleast
    rw [min_eq_right hlt]
    constructor
    · rintro ⟨n, hn, -, hturns⟩
      exact ⟨b, hturns.of_lt_of_lt hR (hlt.trans_le hn) (Nat.lt_succ_self _),
        0, Nat.zero_le _, rfl⟩
    · rintro ⟨c, hc, j, -, hrest⟩
      refine ⟨least, le_rfl, hmost, ?_⟩
      exact (turns_add_iff.mpr ⟨c, hc, hrest⟩).of_lt_of_lt hR (by omega) hlt

theorem explores_repeated (hbody : Explores body.ends body.Takes)
    (hmost : ∀ m ∈ most, least ≤ m) (greedy : Bool) :
    Explores (repeated least most greedy body).ends
      (repeated least most greedy body).Takes where
  mem_iff r q := by
    have hbegun (q : Place) : q ∈ places (turns body.ends
        (min least (r.left + 1)) [r]) ↔
          Turns body.Takes (min least (r.left + 1)) r.place q := by
      rw [mem_places_turns hbody (o := r.place) (by simpa using .refl _)]
      simp
    rw [ends_repeated, takes_repeated_iff_bounded hmost,
      mem_places_stepAll (explores_upTo hbody greedy _) (o := r.place)]
    · simp only [hbegun]
      rfl
    · exact fun p hp => ((hbegun p).mp hp).precedes hbody.forward
  forward := forward_takes _

/-- The ends that are listed are the places up to which the pattern takes the
text. -/
theorem explores_ends (hp : p.Proper) : Explores p.ends p.Takes := by
  induction p with
  | empty =>
      refine ⟨fun r q => ?_, forward_takes _⟩
      simp [ends, takes_empty_iff]
  | text cs => exact explores_text cs
  | chars set => exact explores_chars set
  | look condition => exact explores_look condition
  | repeated least most greedy body ih =>
      exact explores_repeated (ih hp.2) hp.1 greedy
  | group capture body ih => exact explores_group (ih hp) capture
  | sequence first second hfirst hsecond =>
      have hboth := explores_stepAll (hfirst hp.1) (hsecond hp.2)
      rwa [← takes_sequence] at hboth
  | choice first second hfirst hsecond =>
      exact explores_choice (hfirst hp.1) (hsecond hp.2)

end Ends

section Search

variable {p : Pattern} {text : String}

theorem isSome_head?_ends_iff (hp : p.Proper) {r : Reached} :
    (p.ends r).head?.isSome ↔ ∃ b, p.Takes r.place b := by
  simp only [← (explores_ends hp).mem_iff]
  cases p.ends r with
  | nil => simp
  | cons first rest => exact iff_of_true rfl ⟨first.place, List.mem_cons_self⟩

theorem isSome_searchFrom_iff (hp : p.Proper) {before : Option Char}
    {rest : List Char} : (p.searchFrom before rest).isSome ↔
      ∃ a b, Place.Precedes ⟨before, rest⟩ a ∧ p.Takes a b := by
  rw [searchFrom.eq_def]
  split
  · rename_i found hfound
    have hhere : ∃ b, p.Takes ⟨before, rest⟩ b :=
      (isSome_head?_ends_iff hp).mp (by rw [hfound]; rfl)
    obtain ⟨b, hb⟩ := hhere
    exact iff_of_true rfl ⟨_, b, .refl _, hb⟩
  · rename_i hnone
    have hnowhere (b : Place) : ¬ p.Takes ⟨before, rest⟩ b := fun hb => by
      have hsome :=
        (isSome_head?_ends_iff (r := ⟨⟨before, rest⟩, []⟩) hp).mpr ⟨b, hb⟩
      rw [hnone] at hsome
      cases hsome
    cases rest with
    | nil =>
        refine iff_of_false Bool.false_ne_true ?_
        rintro ⟨_, b, ⟨w, hw, rfl⟩, hb⟩
        obtain rfl := List.prefix_nil.mp hw
        exact hnowhere b hb
    | cons c rest =>
        rw [isSome_searchFrom_iff hp]
        simp only [Place.Precedes.cons_iff, or_and_right, exists_or,
          exists_and_left, exists_eq_left]
        exact (or_iff_right fun ⟨b, hb⟩ => hnowhere b hb).symm

/-- A pattern is found in a text if it takes something somewhere in it. -/
theorem isFoundIn_iff (hp : p.Proper) : p.isFoundIn text ↔
    ∃ a b, Place.Precedes ⟨none, text.toList⟩ a ∧ p.Takes a b :=
  isSome_searchFrom_iff hp

/-- A pattern that is tied to the start of the text is found in it if it takes
an initial part of it. -/
theorem isFoundIn_anchored_iff (hp : p.Proper) {capture : Option Capture} :
    (sequence (look .textStart) (group capture p)).isFoundIn text ↔
      ∃ w, w <+: text.toList ∧ p.Matches ⟨none, text.toList⟩ w := by
  have hboth : (sequence (look .textStart) (group capture p)).Proper :=
    ⟨trivial, hp⟩
  rw [isFoundIn_iff hboth]
  simp only [takes_sequence, takes_group, Relation.Comp, takes_look_iff]
  constructor
  · rintro ⟨a, b, ha, _, ⟨hstart, rfl⟩, w, hw, hmatch, -⟩
    obtain rfl := ha.eq_of_before (Option.isNone_iff_eq_none.mp hstart)
    exact ⟨w, hw, hmatch⟩
  · rintro ⟨w, hw, hmatch⟩
    exact ⟨_, _, .refl _, _, ⟨rfl, rfl⟩, w, hw, hmatch, rfl⟩

end Search

end Pattern

end Specimen.Regex
