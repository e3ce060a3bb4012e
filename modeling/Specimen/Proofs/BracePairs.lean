/-
Where the pairs of braces of a template stand.  The pair that is found is the
first one, and text without a pair is literal to its end.  What reading does at
a placeholder follows, for templates that are read and for those that are not.
-/
import Mathlib.Data.List.Infix
import Specimen.Template.Placeholder

namespace Specimen

theorem bind_eq_ok_iff {ε α β : Type} {x : Except ε α} {f : α → Except ε β}
    {b : β} :
    x.bind f = .ok b ↔ ∃ a, x = .ok a ∧ f a = .ok b := by
  cases x <;> simp [Except.bind]

theorem map_eq_ok_iff {ε α β : Type} {x : Except ε α} {f : α → β} {b : β} :
    x.map f = .ok b ↔ ∃ a, x = .ok a ∧ f a = b := by
  cases x <;> simp [Except.map]

def HasPair (mark : Char) (text : List Char) : Prop :=
  [mark, mark] <:+: text

instance (mark : Char) (text : List Char) : Decidable (HasPair mark text) :=
  inferInstanceAs (Decidable ([mark, mark] <:+: text))

namespace HasPair

variable {mark c d : Char} {text : List Char}

theorem not_nil : ¬ HasPair mark [] := by
  simp [HasPair]

theorem not_singleton : ¬ HasPair mark [c] := by
  intro hpair
  simpa using hpair.length_le

theorem cons_cons_iff :
    HasPair mark (c :: d :: text) ↔
      (c = mark ∧ d = mark) ∨ HasPair mark (d :: text) := by
  unfold HasPair
  rw [List.infix_cons_iff]
  simp [List.cons_prefix_cons, eq_comm]

theorem cons_iff_of_ne (hc : c ≠ mark) :
    HasPair mark (c :: text) ↔ HasPair mark text := by
  cases text with
  | nil => simp [not_nil, not_singleton]
  | cons d text => simp [cons_cons_iff, hc]

/-- A pair stands on one side of any other character. -/
theorem append_cons_iff (hc : c ≠ mark) (back : List Char) :
    HasPair mark (text ++ c :: back) ↔
      HasPair mark text ∨ HasPair mark back := by
  induction text with
  | nil => simp [cons_iff_of_ne hc, not_nil]
  | cons b text ih =>
      cases text with
      | nil => simp [cons_cons_iff, hc, cons_iff_of_ne hc, not_singleton]
      | cons d text =>
          rw [List.cons_append, List.cons_append, cons_cons_iff,
            cons_cons_iff, or_assoc]
          exact or_congr_right ih

theorem mem (hpair : HasPair mark text) : mark ∈ text :=
  hpair.subset List.mem_cons_self

theorem not_of_append {back : List Char}
    (hpair : ¬ HasPair mark (text ++ back)) : ¬ HasPair mark text :=
  fun htext => hpair (htext.trans (List.prefix_append text back).isInfix)

/-- Behind a character that is not the mark, one more character makes no
pair. -/
theorem not_append_singleton (hd : d ≠ mark)
    (hpair : ¬ HasPair mark (text ++ [d])) :
    ¬ HasPair mark (text ++ [d] ++ [c]) := by
  rw [append_cons_iff hd, not_or] at hpair
  rw [List.append_assoc, List.singleton_append, append_cons_iff hd]
  rintro (htext | hsingle)
  · exact hpair.1 htext
  · exact not_singleton hsingle

/-- Texts that do not run into a mark do not when they are put together. -/
theorem not_append {back : List Char} (htext : ¬ HasPair mark (text ++ [mark]))
    (hback : ¬ HasPair mark (back ++ [mark])) :
    ¬ HasPair mark (text ++ back ++ [mark]) := by
  induction text with
  | nil => simpa using hback
  | cons c text ih =>
      cases text with
      | nil =>
          have hc : c ≠ mark := by
            rintro rfl
            exact htext (List.infix_refl [c, c])
          obtain ⟨d, rest, hrest⟩ :=
            List.exists_cons_of_ne_nil (l := back ++ [mark]) (by simp)
          rw [hrest] at hback
          rw [List.append_assoc, hrest, List.singleton_append, cons_cons_iff]
          rintro (⟨hmark, -⟩ | hpair)
          · exact hc hmark
          · exact hback hpair
      | cons d text =>
          simp only [List.cons_append] at htext
          rw [cons_cons_iff, not_or] at htext
          simp only [List.cons_append] at ih ⊢
          rw [cons_cons_iff]
          rintro (hfirst | hpair)
          · exact htext.1 hfirst
          · exact ih htext.2 hpair

end HasPair

namespace Template

theorem cutPair_eq_none_iff {mark : Char} {text : List Char} :
    cutPair mark text = none ↔ ¬ HasPair mark text := by
  induction text with
  | nil => simp [cutPair, HasPair.not_nil]
  | cons c text ih =>
      cases text with
      | nil => simp [cutPair, HasPair.not_singleton]
      | cons d text =>
          rw [cutPair, HasPair.cons_cons_iff]
          split_ifs with hmark
          · simp [hmark]
          · simp [hmark, ih]

theorem cutPair_append {mark : Char} {before : List Char}
    (hfirst : ¬ HasPair mark (before ++ [mark])) (behind : List Char) :
    cutPair mark (before ++ mark :: mark :: behind) =
      some (before, behind) := by
  induction before with
  | nil => simp [cutPair]
  | cons c before ih =>
      cases before with
      | nil =>
          have hc : c ≠ mark := by
            rintro rfl
            exact hfirst (List.infix_refl [c, c])
          simp [cutPair, hc]
      | cons d before =>
          rw [List.cons_append, List.cons_append, HasPair.cons_cons_iff,
            not_or] at hfirst
          rw [List.cons_append, List.cons_append, cutPair, if_neg hfirst.1,
            ← List.cons_append, ih hfirst.2]
          rfl

/-- The pair that is found is the first one: no pair begins before it. -/
theorem not_hasPair_of_cutPair {mark : Char} {text before behind : List Char}
    (hcut : cutPair mark text = some (before, behind)) :
    ¬ HasPair mark (before ++ [mark]) := by
  induction text generalizing before with
  | nil => simp [cutPair] at hcut
  | cons c text ih =>
      cases text with
      | nil => simp [cutPair] at hcut
      | cons d text =>
          rw [cutPair] at hcut
          split_ifs at hcut with hmark
          · obtain ⟨rfl, rfl⟩ : [] = before ∧ text = behind := by
              simpa using hcut
            exact HasPair.not_singleton
          · obtain ⟨⟨front, back⟩, hrest, heq⟩ := Option.map_eq_some_iff.mp hcut
            obtain ⟨rfl, rfl⟩ : c :: front = before ∧ back = behind := by
              simpa using heq
            have htext := eq_append_of_cutPair hrest
            cases front with
            | nil =>
                obtain rfl : d = mark := by
                  simpa using congrArg List.head? htext
                rw [List.singleton_append, HasPair.cons_cons_iff, not_or]
                exact ⟨hmark, HasPair.not_singleton⟩
            | cons e front =>
                obtain rfl : d = e := by simpa using congrArg List.head? htext
                rw [List.cons_append, List.cons_append, HasPair.cons_cons_iff,
                  not_or]
                exact ⟨hmark, ih hrest⟩

/-- The byte behind the braces around a text; the opening ones are at the given
byte. -/
def behindBraces (opening : Nat) (inner : List Char) : Nat :=
  opening + 2 + Text.byteLength inner + 2

theorem behindBraces_eq (opening : Nat) (inner : List Char) :
    behindBraces opening inner =
      opening + Text.byteLength ('{' :: '{' :: (inner ++ ['}', '}'])) := by
  have hopening : '{'.utf8Size = 1 := by decide
  have hclosing : '}'.utf8Size = 1 := by decide
  simp only [behindBraces, Text.byteLength_cons, Text.byteLength_append,
    Text.byteLength_nil, hopening, hclosing]
  omega

/-- Text without a pair of opening braces is literal. -/
theorem readFrom_literal {text : List Char} (hliteral : ¬ HasPair '{' text)
    (position : Nat) : readFrom position text = .ok ⟨[], text⟩ := by
  rw [readFrom]
  split
  · rfl
  · rename_i hopen
    simp [cutPair_eq_none_iff.mpr hliteral] at hopen

/-- What stands between the first braces is read before the text behind them. -/
theorem readFrom_placeholder {before inner : List Char}
    (hbefore : ¬ HasPair '{' (before ++ ['{']))
    (hinner : ¬ HasPair '}' (inner ++ ['}'])) (position : Nat)
    (behind : List Char) :
    readFrom position
        (before ++ '{' :: '{' :: (inner ++ '}' :: '}' :: behind)) =
      (Call.read (position + Text.byteLength before) inner).bind fun call =>
        (readFrom (behindBraces (position + Text.byteLength before) inner)
          behind).map fun template =>
            ⟨(before, ⟨call, position + Text.byteLength before,
              behindBraces (position + Text.byteLength before) inner⟩) ::
                template.parts, template.rest⟩ := by
  rw [readFrom]
  have hopen := cutPair_append hbefore (inner ++ '}' :: '}' :: behind)
  have hclose := cutPair_append hinner behind
  split
  · rename_i hfound
    simp [hopen] at hfound
  · rename_i front inside hfound
    obtain ⟨rfl, rfl⟩ : before = front ∧
        inner ++ '}' :: '}' :: behind = inside := by
      simpa [hopen] using hfound
    split
    · rename_i hfound
      simp [hclose] at hfound
    · rename_i between back hfound
      obtain ⟨rfl, rfl⟩ : inner = between ∧ behind = back := by
        simpa [hclose] using hfound
      dsimp only
      cases Call.read (position + Text.byteLength before) inner with
      | error e => rfl
      | ok call =>
          change (readFrom
            (behindBraces (position + Text.byteLength before) inner) behind >>=
              _) = Except.map _ _
          cases readFrom
            (behindBraces (position + Text.byteLength before) inner)
            behind <;> rfl

/-- Opening braces without closing ones are a fault at the end. -/
theorem readFrom_unclosed {before inside : List Char}
    (hbefore : ¬ HasPair '{' (before ++ ['{'])) (hinside : ¬ HasPair '}' inside)
    (position : Nat) :
    readFrom position (before ++ '{' :: '{' :: inside) =
      .error ⟨position + Text.byteLength (before ++ '{' :: '{' :: inside),
        .missingClosingBraces⟩ := by
  rw [readFrom]
  have hopen := cutPair_append hbefore inside
  split
  · rename_i hfound
    simp [hopen] at hfound
  · rename_i front back hfound
    obtain ⟨rfl, rfl⟩ : before = front ∧ inside = back := by
      simpa [hopen] using hfound
    split
    · rfl
    · rename_i hfound
      simp [cutPair_eq_none_iff.mpr hinside] at hfound

theorem readFrom_of_parse {text : String} {template : Template}
    (hparse : parse text = .ok template) :
    readFrom 0 text.toList = .ok template := by
  unfold parse at hparse
  split at hparse
  · rename_i hread
    rw [hread]
    simpa using hparse
  · simp at hparse

/-- A text is literal, or leaves opening braces without closing ones, or begins
with a placeholder in front of such a text. -/
@[elab_as_elim]
theorem braces_induction {motive : List Char → Prop}
    (literal : ∀ text, ¬ HasPair '{' text → motive text)
    (unclosed : ∀ before inside, ¬ HasPair '{' (before ++ ['{']) →
      ¬ HasPair '}' inside → motive (before ++ '{' :: '{' :: inside))
    (placeholder : ∀ before inner behind, ¬ HasPair '{' (before ++ ['{']) →
      ¬ HasPair '}' (inner ++ ['}']) → motive behind →
        motive (before ++ '{' :: '{' :: (inner ++ '}' :: '}' :: behind)))
    (text : List Char) : motive text := by
  induction hlength : text.length using Nat.strongRecOn generalizing text with
  | ind n ih =>
      cases hopen : cutPair '{' text with
      | none => exact literal text (cutPair_eq_none_iff.mp hopen)
      | some found =>
          obtain ⟨before, inside⟩ := found
          have hbefore := not_hasPair_of_cutPair hopen
          cases hclose : cutPair '}' inside with
          | none =>
              rw [eq_append_of_cutPair hopen]
              exact unclosed before inside hbefore
                (cutPair_eq_none_iff.mp hclose)
          | some found =>
              obtain ⟨inner, behind⟩ := found
              have hless : behind.length < n := hlength ▸ Nat.lt_trans
                (length_lt_of_cutPair hclose) (length_lt_of_cutPair hopen)
              rw [eq_append_of_cutPair hopen, eq_append_of_cutPair hclose]
              exact placeholder before inner behind hbefore
                (not_hasPair_of_cutPair hclose) (ih _ hless behind rfl)

/-- A template that is read is literal, or begins with a placeholder that is
read. -/
@[elab_as_elim]
theorem readFrom_induction {motive : Nat → List Char → Template → Prop}
    (literal : ∀ position text, ¬ HasPair '{' text →
      motive position text ⟨[], text⟩)
    (placeholder : ∀ position before inner behind call others,
      ¬ HasPair '{' (before ++ ['{']) → ¬ HasPair '}' (inner ++ ['}']) →
      Call.read (position + Text.byteLength before) inner = .ok call →
      motive (behindBraces (position + Text.byteLength before) inner) behind
        others →
      motive position
        (before ++ '{' :: '{' :: (inner ++ '}' :: '}' :: behind))
        ⟨(before, ⟨call, position + Text.byteLength before,
          behindBraces (position + Text.byteLength before) inner⟩) ::
            others.parts, others.rest⟩)
    {position : Nat} {text : List Char} {template : Template}
    (hread : readFrom position text = .ok template) :
    motive position text template := by
  induction text using braces_induction generalizing position template with
  | literal text hliteral =>
      rw [readFrom_literal hliteral] at hread
      cases hread
      exact literal position text hliteral
  | unclosed before inside hbefore hinside =>
      rw [readFrom_unclosed hbefore hinside] at hread
      cases hread
  | placeholder before inner behind hbefore hinner ih =>
      rw [readFrom_placeholder hbefore hinner] at hread
      obtain ⟨call, hcall, hread⟩ := bind_eq_ok_iff.mp hread
      obtain ⟨others, hothers, rfl⟩ := map_eq_ok_iff.mp hread
      exact placeholder position before inner behind call others hbefore hinner
        hcall (ih hothers)

end Template

end Specimen
