/-
The normal form of a pattern takes nothing that the pattern does not take.  Each
of the constructions that the normal form is made of is shown to keep to what it
is made from: sequences with joined texts, classes in place of choices, a common
beginning taken out of the branches, and repetitions of what takes nothing.
-/
import Specimen.Proofs.PatternLanguage
import Specimen.Proofs.PatternReading
import Specimen.Regex.Normal

namespace Specimen.Regex.Pattern

variable {p q body : Pattern} {ps qs start : List Pattern} {place : Place}
  {w : List Char} {set : CharSet} {least : Nat} {most : Option Nat}
  {greedy : Bool}

section Sequences

theorem matchesEach_text_cons_iff {u : List Char} :
    MatchesEach (text u :: ps) place w ↔
      ∃ v, w = u ++ v ∧ MatchesEach ps (place.skip u) v := by
  rw [matchesEach_cons_iff]
  constructor
  · rintro ⟨_, v, rfl, hu, hrest⟩
    cases matches_text_iff.mp hu
    exact ⟨v, rfl, hrest⟩
  · rintro ⟨v, rfl, hrest⟩
    exact ⟨u, v, rfl, .text place u, hrest⟩

/-- Joining texts changes nothing of what is taken. -/
theorem matchesEach_joinTexts_iff (ps : List Pattern) :
    MatchesEach (joinTexts ps) place w ↔ MatchesEach ps place w := by
  fun_induction joinTexts ps generalizing place w with
  | case1 => rfl
  | case2 rest u v others hjoined ih =>
      rw [hjoined] at ih
      simp only [matchesEach_text_cons_iff, ← ih, Place.skip_append]
      constructor
      · rintro ⟨t, rfl, hothers⟩
        exact ⟨v ++ t, List.append_assoc .., t, rfl, hothers⟩
      · rintro ⟨_, rfl, t, rfl, hothers⟩
        exact ⟨t, (List.append_assoc ..).symm, hothers⟩
  | case3 rest p hapart ih =>
      rw [matchesEach_cons_iff, matchesEach_cons_iff]
      simp only [ih]

theorem matchesEach_flatMap_items_iff (ps : List Pattern) :
    MatchesEach (ps.flatMap items) place w ↔ MatchesEach ps place w := by
  induction ps generalizing place w with
  | nil => rfl
  | cons p ps ih =>
      rw [List.flatMap_cons, matchesEach_append_iff, matchesEach_cons_iff]
      simp only [matchesEach_items_iff, ih]

/-- A sequence takes what the patterns take one behind the other. -/
theorem matches_concat_iff (ps : List Pattern) :
    (concat ps).Matches place w ↔ MatchesEach ps place w := by
  rw [concat, matches_ofItems_iff, matchesEach_joinTexts_iff,
    matchesEach_flatMap_items_iff]

theorem proper_joinTexts (hps : ∀ p ∈ ps, p.Proper) :
    ∀ p ∈ joinTexts ps, p.Proper := by
  fun_induction joinTexts ps with
  | case1 => exact hps
  | case2 rest u v others hjoined ih =>
      rw [hjoined] at ih
      have hothers := ih (List.forall_mem_cons.mp hps).2
      exact List.forall_mem_cons.mpr
        ⟨trivial, (List.forall_mem_cons.mp hothers).2⟩
  | case3 rest p hapart ih =>
      obtain ⟨hp, hrest⟩ := List.forall_mem_cons.mp hps
      exact List.forall_mem_cons.mpr ⟨hp, ih hrest⟩

theorem proper_concat (hps : ∀ p ∈ ps, p.Proper) : (concat ps).Proper := by
  refine proper_ofItems_iff.mpr (proper_joinTexts fun q hq => ?_)
  obtain ⟨p, hp, hitem⟩ := List.mem_flatMap.mp hq
  exact (hps p hp).of_mem_items q hitem

end Sequences

section Classes

theorem matches_of_ofSet (hmatch : (ofSet set).Matches place w) :
    (chars set).Matches place w := by
  unfold ofSet at hmatch
  split at hmatch
  · rename_i c hsingle
    exact matches_chars_iff.mpr
      ⟨c, CharSet.contains_of_single? hsingle, matches_text_iff.mp hmatch⟩
  · exact hmatch

theorem proper_ofSet (hset : set.Valid) : (ofSet set).Proper := by
  unfold ofSet
  split
  · trivial
  · exact hset

theorem exists_of_mapM {α β : Type} {f : α → Option β} {as : List α}
    {bs : List β} (hmapM : as.mapM f = some bs) :
    ∀ b ∈ bs, ∃ a ∈ as, f a = some b := by
  induction as generalizing bs with
  | nil =>
      cases hmapM
      simp
  | cons a as ih =>
      rw [List.mapM_cons] at hmapM
      obtain ⟨b, hb, hmapM⟩ := Option.bind_eq_some_iff.mp hmapM
      obtain ⟨bs, hbs, hmapM⟩ := Option.bind_eq_some_iff.mp hmapM
      cases hmapM
      refine List.forall_mem_cons.mpr ⟨⟨a, List.mem_cons_self, hb⟩, ?_⟩
      intro b hmem
      obtain ⟨a, ha, hf⟩ := ih hbs b hmem
      exact ⟨a, List.mem_cons_of_mem _ ha, hf⟩

theorem contains_of_foldl_union {sets : List CharSet} {c : Char}
    (hc : (sets.foldl CharSet.union set).contains c) :
    set.contains c ∨ ∃ s ∈ sets, s.contains c := by
  induction sets generalizing set with
  | nil => exact .inl hc
  | cons s sets ih =>
      rcases ih hc with hunion | ⟨t, ht, hc⟩
      · rcases CharSet.contains_union_iff.mp hunion with hset | hs
        · exact .inl hset
        · exact .inr ⟨s, List.mem_cons_self, hs⟩
      · exact .inr ⟨t, List.mem_cons_of_mem _ ht, hc⟩

theorem valid_foldl_union {sets : List CharSet} (hset : set.Valid) :
    (sets.foldl CharSet.union set).Valid := by
  induction sets generalizing set with
  | nil => exact hset
  | cons s sets ih => exact ih (CharSet.valid_ofRanges _)

theorem eq_of_singleChar? {c : Char} (hsingle : p.singleChar? = some c) :
    p = text [c] := by
  unfold singleChar? at hsingle
  split at hsingle <;> cases hsingle
  rfl

theorem eq_of_set? (hset : p.set? = some set) : p = chars set := by
  unfold set? at hset
  split at hset <;> cases hset
  rfl

/-- The class in place of a choice takes nothing that no branch takes. -/
theorem exists_of_mergedClass? (hmerged : mergedClass? ps = some q)
    (hmatch : q.Matches place w) : ∃ p ∈ ps, p.Matches place w := by
  unfold mergedClass? at hmerged
  split at hmerged
  · rename_i cs hcs
    cases hmerged
    obtain ⟨c, hc, rfl⟩ := matches_chars_iff.mp (matches_of_ofSet hmatch)
    obtain ⟨p, hp, hsingle⟩ :=
      exists_of_mapM hcs c (CharSet.contains_ofChars_iff.mp hc)
    exact ⟨p, hp, eq_of_singleChar? hsingle ▸ .text place [c]⟩
  · obtain ⟨sets, hsets, rfl⟩ := Option.map_eq_some_iff.mp hmerged
    obtain ⟨c, hc, rfl⟩ := matches_chars_iff.mp (matches_of_ofSet hmatch)
    rcases contains_of_foldl_union hc with hempty | ⟨set, hset, hc⟩
    · exact absurd hempty CharSet.not_contains_empty
    · obtain ⟨p, hp, hfound⟩ := exists_of_mapM hsets set hset
      exact ⟨p, hp, eq_of_set? hfound ▸ .chars place hc⟩

theorem proper_of_mergedClass? (hmerged : mergedClass? ps = some q) :
    q.Proper := by
  unfold mergedClass? at hmerged
  split at hmerged
  · cases hmerged
    exact proper_ofSet (CharSet.valid_ofRanges _)
  · obtain ⟨sets, -, rfl⟩ := Option.map_eq_some_iff.mp hmerged
    exact proper_ofSet (valid_foldl_union CharSet.valid_empty)

end Classes

section Choices

theorem exists_of_mergedChoice (hmatch : (mergedChoice ps).Matches place w) :
    ∃ p ∈ ps, p.Matches place w := by
  unfold mergedChoice at hmatch
  cases hmerged : mergedClass? ps with
  | none =>
      rw [hmerged] at hmatch
      exact (matches_ofBranches_iff ps).mp hmatch
  | some q =>
      rw [hmerged] at hmatch
      exact exists_of_mergedClass? hmerged hmatch

theorem proper_mergedChoice (hps : ∀ p ∈ ps, p.Proper) :
    (mergedChoice ps).Proper := by
  unfold mergedChoice
  cases hmerged : mergedClass? ps with
  | none => exact proper_ofBranches_iff.mpr hps
  | some q => exact proper_of_mergedClass? hmerged

theorem exists_flatMap_branches_iff (ps : List Pattern) :
    (∃ q ∈ ps.flatMap branches, q.Matches place w) ↔
      ∃ p ∈ ps, p.Matches place w := by
  constructor
  · rintro ⟨q, hq, hmatch⟩
    obtain ⟨p, hp, hbranch⟩ := List.mem_flatMap.mp hq
    exact ⟨p, hp, (exists_branches_iff p).mp ⟨q, hbranch, hmatch⟩⟩
  · rintro ⟨p, hp, hmatch⟩
    obtain ⟨q, hbranch, hmatch⟩ := (exists_branches_iff p).mpr hmatch
    exact ⟨q, List.mem_flatMap.mpr ⟨p, hp, hbranch⟩, hmatch⟩

theorem commonStart_begins (ps qs : List Pattern) :
    commonStart ps qs <+: ps ∧ commonStart ps qs <+: qs := by
  fun_induction commonStart ps qs with
  | case1 ps q qs ih => simpa [List.cons_prefix_cons] using ih
  | case2 | case3 => exact ⟨List.nil_prefix, List.nil_prefix⟩

theorem foldl_commonStart_begins (ps start : List Pattern) :
    ps.foldl (fun start q => commonStart start q.items) start <+: start ∧
      ∀ p ∈ ps, ps.foldl (fun start q => commonStart start q.items) start <+:
        p.items := by
  induction ps generalizing start with
  | nil => exact ⟨List.prefix_refl start, by simp⟩
  | cons p ps ih =>
      obtain ⟨hstart, hitems⟩ := commonStart_begins start p.items
      obtain ⟨hcommon, hothers⟩ := ih (commonStart start p.items)
      exact ⟨hcommon.trans hstart,
        List.forall_mem_cons.mpr ⟨hcommon.trans hitems, hothers⟩⟩

/-- All branches begin with what they share. -/
theorem sharedStart_begins (ps : List Pattern) :
    ∀ p ∈ ps, sharedStart ps <+: p.items := by
  cases ps with
  | nil => simp
  | cons first others =>
      rw [sharedStart]
      split
      · exact List.forall_mem_cons.mpr
          (foldl_commonStart_begins others first.items)
      · exact fun p _ => List.nil_prefix

theorem forall_flatMap_branches (hps : ∀ p ∈ ps, p.Proper) :
    ∀ q ∈ ps.flatMap branches, q.Proper := by
  intro q hq
  obtain ⟨p, hp, hbranch⟩ := List.mem_flatMap.mp hq
  exact (hps p hp).of_mem_branches q hbranch

/-- What the branches share is taken first, and then what one of them leaves. -/
theorem exists_of_sharedStart (hstart : ∀ p ∈ ps, start <+: p.items)
    (hmatch : (concat (start ++ [mergedChoice ((ps.map fun p =>
      concat (p.items.drop start.length)).flatMap branches)])).Matches
        place w) :
    ∃ p ∈ ps, p.Matches place w := by
  obtain ⟨u, v, rfl, hshared, hchoice⟩ :=
    matchesEach_append_iff.mp ((matches_concat_iff _).mp hmatch)
  obtain ⟨q, hq, hend⟩ := (exists_flatMap_branches_iff _).mp
    (exists_of_mergedChoice (matchesEach_singleton_iff.mp hchoice))
  obtain ⟨p, hp, rfl⟩ := List.mem_map.mp hq
  refine ⟨p, hp, (matchesEach_items_iff p).mp ?_⟩
  rw [← List.prefix_iff_eq_append.mp (hstart p hp)]
  exact matchesEach_append_iff.mpr
    ⟨u, v, rfl, hshared, (matches_concat_iff _).mp hend⟩

theorem proper_sharedStart (hps : ∀ p ∈ ps, p.Proper) :
    ∀ q ∈ sharedStart ps, q.Proper := by
  cases ps with
  | nil => simp [sharedStart]
  | cons p others =>
      intro q hq
      exact (hps p List.mem_cons_self).of_mem_items q
        ((sharedStart_begins _ p List.mem_cons_self).mem hq)

/-- A choice between some patterns takes nothing that none of them takes. -/
theorem exists_of_alternatives (hmatch : (alternatives ps).Matches place w) :
    ∃ p ∈ ps, p.Matches place w := by
  rw [← exists_flatMap_branches_iff]
  unfold alternatives at hmatch
  split at hmatch
  · rename_i p hall
    rw [hall]
    exact ⟨p, List.mem_cons_self, hmatch⟩
  · split at hmatch
    · exact exists_of_mergedClass? ‹_› hmatch
    · split at hmatch
      · exact (matches_ofBranches_iff _).mp hmatch
      · exact exists_of_sharedStart (sharedStart_begins _) hmatch

theorem proper_alternatives (hps : ∀ p ∈ ps, p.Proper) :
    (alternatives ps).Proper := by
  have hall := forall_flatMap_branches hps
  unfold alternatives
  split
  · rename_i p heq
    rw [heq] at hall
    exact hall p List.mem_cons_self
  · split
    · exact proper_of_mergedClass? ‹_›
    · split
      · exact proper_ofBranches_iff.mpr hall
      · refine proper_concat (List.forall_mem_append.mpr ⟨?_, ?_⟩)
        · exact proper_sharedStart hall
        · rw [List.forall_mem_singleton]
          refine proper_mergedChoice (forall_flatMap_branches ?_)
          intro q hq
          obtain ⟨p, hp, rfl⟩ := List.mem_map.mp hq
          exact proper_concat fun item hitem =>
            (hall p hp).of_mem_items item (List.mem_of_mem_drop hitem)

end Choices

section Repetitions

theorem eq_nil_of_takesNothing (hnothing : p.takesNothing)
    (hmatch : p.Matches place w) : w = [] := by
  induction p generalizing place w with
  | empty => exact matches_empty_iff.mp hmatch
  | text cs =>
      rw [matches_text_iff.mp hmatch]
      exact List.isEmpty_iff.mp hnothing
  | chars set => cases hnothing
  | look condition => exact (matches_look_iff.mp hmatch).2
  | repeated least most greedy body ih =>
      obtain ⟨n, -, hmost, htimes⟩ := matches_repeated_iff.mp hmatch
      rw [takesNothing, Bool.or_eq_true, beq_iff_eq] at hnothing
      rcases hnothing with rfl | hbody
      · cases Nat.le_zero.mp (hmost 0 rfl)
        exact matchesTimes_zero_iff.mp htimes
      · exact htimes.eq_nil fun _ _ => ih hbody
  | group capture body ih => exact ih hnothing (matches_group_iff.mp hmatch)
  | sequence first second hfirst hsecond =>
      obtain ⟨u, v, rfl, hu, hv⟩ := matches_sequence_iff.mp hmatch
      obtain ⟨hleft, hright⟩ := Bool.and_eq_true_iff.mp hnothing
      rw [hfirst hleft hu, hsecond hright hv, List.append_nil]
  | choice first second hfirst hsecond =>
      obtain ⟨hleft, hright⟩ := Bool.and_eq_true_iff.mp hnothing
      rcases matches_choice_iff.mp hmatch with hmatch | hmatch
      · exact hfirst hleft hmatch
      · exact hsecond hright hmatch

def counted (least : Nat) (most : Option Nat) (greedy : Bool)
    (body : Pattern) : Pattern :=
  if most = some 0 then .empty
  else if least = 1 ∧ most = some 1 then body
  else .repeated least most greedy body

theorem repetition_eq : repetition least most greedy body =
    if body.takesNothing then
      counted (min least 1) (some (min (most.getD 1) 1)) greedy body
    else counted least most greedy body := by
  unfold repetition
  cases body.takesNothing <;> rfl

theorem matches_of_counted (hcounts : ∀ m ∈ most, least ≤ m)
    (hmatch : (counted least most greedy body).Matches place w) :
    (repeated least most greedy body).Matches place w := by
  unfold counted at hmatch
  split at hmatch
  · rename_i hzero
    subst hzero
    cases matches_empty_iff.mp hmatch
    exact .repeated (hcounts 0 rfl) (fun m _ => Nat.zero_le m) (.zero _ _)
  · split at hmatch
    · rename_i hone
      obtain ⟨rfl, rfl⟩ := hone
      exact .repeated (Nat.le_refl 1) (by simp)
        (matchesTimes_one_iff.mpr hmatch)
    · exact hmatch

theorem min_counts_le (hcounts : ∀ m ∈ most, least ≤ m) :
    ∀ m ∈ some (min (most.getD 1) 1), min least 1 ≤ m := by
  rintro m ⟨⟩
  cases most with
  | none => exact Nat.min_le_right _ _
  | some m =>
      have hle := hcounts m rfl
      rw [Option.getD_some]
      omega

/-- What takes nothing takes it in any number of turns, if in one at all. -/
theorem matches_of_takesNothing (hnothing : body.takesNothing)
    (hcounts : ∀ m ∈ most, least ≤ m)
    (hmatch : (repeated (min least 1) (some (min (most.getD 1) 1)) greedy
      body).Matches place w) :
    (repeated least most greedy body).Matches place w := by
  obtain ⟨n, hleast, -, htimes⟩ := matches_repeated_iff.mp hmatch
  have hempty (place : Place) (u : List Char) (hu : body.Matches place u) :
      u = [] := eq_nil_of_takesNothing hnothing hu
  cases htimes.eq_nil hempty
  refine .repeated (Nat.le_refl least) hcounts ?_
  cases n with
  | zero =>
      have hzero : least = 0 := by omega
      subst hzero
      exact .zero body place
  | succ n =>
      obtain ⟨u, v, -, hfirst, -⟩ := matchesTimes_succ_iff.mp htimes
      exact matchesTimes_of_nil (hempty place u hfirst ▸ hfirst)

/-- A repetition takes nothing that it does not take as it is written. -/
theorem matches_of_repetition (hcounts : ∀ m ∈ most, least ≤ m)
    (hmatch : (repetition least most greedy body).Matches place w) :
    (repeated least most greedy body).Matches place w := by
  rw [repetition_eq] at hmatch
  split at hmatch
  · exact matches_of_takesNothing ‹_› hcounts
      (matches_of_counted (min_counts_le hcounts) hmatch)
  · exact matches_of_counted hcounts hmatch

theorem proper_counted (hcounts : ∀ m ∈ most, least ≤ m)
    (hbody : body.Proper) : (counted least most greedy body).Proper := by
  unfold counted
  split
  · trivial
  · split
    · exact hbody
    · exact ⟨hcounts, hbody⟩

theorem proper_repetition (hcounts : ∀ m ∈ most, least ≤ m)
    (hbody : body.Proper) : (repetition least most greedy body).Proper := by
  rw [repetition_eq]
  split
  · exact proper_counted (min_counts_le hcounts) hbody
  · exact proper_counted hcounts hbody

end Repetitions

/-- The branches in normal form take nothing that the pattern does not take. -/
theorem Proper.matches_of_normalBranches (hp : p.Proper)
    (hmatch : ∃ q ∈ p.normalBranches, q.Matches place w) :
    p.Matches place w := by
  induction p generalizing place w with
  | empty => simpa [normalBranches] using hmatch
  | text cs =>
      obtain ⟨q, hq, hmatch⟩ := hmatch
      cases List.mem_singleton.mp hq
      split at hmatch
      · rename_i hcs
        rw [List.isEmpty_iff.mp hcs]
        exact matches_text_iff.mpr (matches_empty_iff.mp hmatch)
      · exact hmatch
  | chars set =>
      obtain ⟨q, hq, hmatch⟩ := hmatch
      cases List.mem_singleton.mp hq
      exact matches_of_ofSet hmatch
  | look condition => simpa [normalBranches] using hmatch
  | repeated least most greedy body ih =>
      obtain ⟨q, hq, hmatch⟩ := hmatch
      cases List.mem_singleton.mp hq
      obtain ⟨n, hleast, hmost, htimes⟩ :=
        matches_repeated_iff.mp (matches_of_repetition hp.1 hmatch)
      exact .repeated hleast hmost
        (htimes.mono fun _ _ hturn => ih hp.2 (exists_of_alternatives hturn))
  | group capture body ih =>
      cases capture with
      | none =>
          obtain ⟨q, hq, hmatch⟩ := hmatch
          cases List.mem_singleton.mp hq
          exact .group (ih hp (exists_of_alternatives hmatch))
      | some capture =>
          obtain ⟨q, hq, hmatch⟩ := hmatch
          cases List.mem_singleton.mp hq
          exact .group
            (ih hp (exists_of_alternatives (matches_group_iff.mp hmatch)))
  | sequence first second hfirst hsecond =>
      obtain ⟨q, hq, hmatch⟩ := hmatch
      cases List.mem_singleton.mp hq
      obtain ⟨u, v, rfl, hu, hv⟩ :=
        matchesEach_cons_iff.mp ((matches_concat_iff _).mp hmatch)
      have hlast := matchesEach_singleton_iff.mp hv
      exact .sequence (hfirst hp.1 (exists_of_alternatives hu))
        (hsecond hp.2 (exists_of_alternatives hlast))
  | choice first second hfirst hsecond =>
      obtain ⟨q, hq, hmatch⟩ := hmatch
      rcases List.mem_append.mp hq with hq | hq
      · exact .inFirst (hfirst hp.1 ⟨q, hq, hmatch⟩)
      · exact .inSecond (hsecond hp.2 ⟨q, hq, hmatch⟩)

theorem Proper.normalBranches (hp : p.Proper) :
    ∀ q ∈ p.normalBranches, q.Proper := by
  induction p with
  | empty => simp [Pattern.normalBranches, Proper]
  | text cs =>
      rw [Pattern.normalBranches, List.forall_mem_singleton]
      split <;> trivial
  | chars set =>
      rw [Pattern.normalBranches, List.forall_mem_singleton]
      exact proper_ofSet hp
  | look condition => simp [Pattern.normalBranches, Proper]
  | repeated least most greedy body ih =>
      rw [Pattern.normalBranches, List.forall_mem_singleton]
      exact proper_repetition hp.1 (proper_alternatives (ih hp.2))
  | group capture body ih =>
      cases capture <;>
        rw [Pattern.normalBranches, List.forall_mem_singleton] <;>
        exact proper_alternatives (ih hp)
  | sequence first second hfirst hsecond =>
      rw [Pattern.normalBranches, List.forall_mem_singleton]
      exact proper_concat (List.forall_mem_cons.mpr
        ⟨proper_alternatives (hfirst hp.1), List.forall_mem_singleton.mpr
          (proper_alternatives (hsecond hp.2))⟩)
  | choice first second hfirst hsecond =>
      exact List.forall_mem_append.mpr ⟨hfirst hp.1, hsecond hp.2⟩

/-- The normal form takes nothing that the pattern does not take. -/
theorem Proper.matches_of_normal (hp : p.Proper)
    (hmatch : p.normal.Matches place w) : p.Matches place w :=
  hp.matches_of_normalBranches (exists_of_alternatives hmatch)

theorem Proper.normal (hp : p.Proper) : p.normal.Proper :=
  proper_alternatives hp.normalBranches

end Specimen.Regex.Pattern
