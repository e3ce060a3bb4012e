/-
Reading a text alone and with a closing parenthesis behind it.  What the reader
of a construct takes from the text is the same, as long as it is done before the
parenthesis; otherwise the construct has no end in the text alone, and with the
parenthesis it leaves nothing behind that could be read.
-/
import Mathlib.Data.List.Basic
import Mathlib.Order.Basic
import Specimen.Regex.Reader

namespace Specimen.Regex

/-- What is left of a text, and what is left if a closing parenthesis stands
behind it: the parenthesis too, unless it went with a comment that was open. -/
inductive Tail (n : Nat) : List Char → List Char → Prop
  | kept {t : List Char} (hle : t.length ≤ n) : Tail n t (t ++ [')'])
  | taken : Tail n [] []

/-- The results of a reader for a text alone and with the parenthesis behind it.
At most `n` characters are left; where only the second succeeds, what is left is
`dead`. -/
inductive Followed {α : Type} (n : Nat) (dead : List Char → Prop) :
    Option (α × List Char) → Option (α × List Char) → Prop
  | read (a : α) {r r' : List Char} (htail : Tail n r r') :
      Followed n dead (some (a, r)) (some (a, r'))
  | failed : Followed n dead none none
  | late (a : α) {r : List Char} (hdead : dead r) :
      Followed n dead none (some (a, r))

variable {α β : Type} {m n : Nat} {dead dead' : List Char → Prop}
  {t t' : List Char} {x y : Option (α × List Char)}

/-- The parenthesis is not the first character of anything that is looked for.
-/
theorem head?_close_iff {d : Char} (hd : d ≠ ')') (t : List Char) :
    (t ++ [')']).head? = some d ↔ t.head? = some d := by
  cases t <;> simp [hd.symm]

namespace Tail

theorem refl (t : List Char) : Tail t.length t (t ++ [')']) :=
  .kept (Nat.le_refl _)

theorem mono (htail : Tail m t t') (hle : m ≤ n) : Tail n t t' := by
  cases htail with
  | kept h => exact .kept (Nat.le_trans h hle)
  | taken => exact .taken

theorem length_le (htail : Tail n t t') : t.length ≤ n := by
  cases htail with
  | kept h => exact h
  | taken => exact Nat.zero_le n

theorem length_le_succ (htail : Tail n t t') : t'.length ≤ n + 1 := by
  cases htail with
  | kept h => simpa using h
  | taken => exact Nat.zero_le _

end Tail

namespace Followed

theorem mono (h : Followed m dead x y) (hle : m ≤ n) :
    Followed n dead x y := by
  cases h with
  | read a htail => exact .read a (htail.mono hle)
  | failed => exact .failed
  | late a h => exact .late a h

theorem imp (h : Followed n dead x y) (hdead : ∀ r, dead r → dead' r) :
    Followed n dead' x y := by
  cases h with
  | read a htail => exact .read a htail
  | failed => exact .failed
  | late a h => exact .late a (hdead _ h)

theorem map (h : Followed n dead x y) (f : α → β) :
    Followed n dead (x.map fun (a, r) => (f a, r))
      (y.map fun (a, r) => (f a, r)) := by
  cases h with
  | read a htail => exact .read (f a) htail
  | failed => exact .failed
  | late a h => exact .late (f a) h

/-- A reader that leaves no more than there is leaves nothing of nothing. -/
theorem self_of_nil (h : Followed 0 dead x y) : Followed n dead x x := by
  cases h with
  | read a htail =>
      obtain rfl := List.length_eq_zero_iff.mp (Nat.le_zero.mp htail.length_le)
      exact .read a .taken
  | failed => exact .failed
  | late a h => exact .failed

/-- What is read at the end of the text comes too late. -/
theorem late_of_nil (h : Followed 0 dead x y) (hdead : dead []) :
    Followed n dead none x := by
  cases h with
  | read a htail =>
      obtain rfl := List.length_eq_zero_iff.mp (Nat.le_zero.mp htail.length_le)
      exact .late a hdead
  | failed => exact .failed
  | late a h => exact .failed

/-- What a reader makes of all texts it makes of what is left of them. -/
theorem of_tail {f : List Char → Option (α × List Char)}
    (hf : ∀ t, Followed t.length dead (f t) (f (t ++ [')'])))
    (htail : Tail n t t') :
    Followed n dead (f t) (f t') := by
  cases htail with
  | kept hle => exact (hf t).mono hle
  | taken => exact (hf []).self_of_nil

/-- One reader goes on where another stopped. -/
theorem bind (h : Followed n dead x y)
    {f : α → List Char → Option (β × List Char)}
    (hf : ∀ a t, Followed t.length dead' (f a t) (f a (t ++ [')'])))
    (hlate : ∀ a r, dead r → Followed n dead' none (f a r)) :
    Followed n dead' (x.bind fun p => f p.1 p.2)
      (y.bind fun p => f p.1 p.2) := by
  cases h with
  | read a htail => exact of_tail (hf a) htail
  | failed => exact .failed
  | late a h => exact hlate a _ h

/-- The other reader goes on where one stopped that never fails alone only. -/
theorem bind_never (h : Followed n (fun _ => False) x y)
    {f : α → List Char → Option (β × List Char)}
    (hf : ∀ a t, Followed t.length dead (f a t) (f a (t ++ [')']))) :
    Followed n dead (x.bind fun p => f p.1 p.2) (y.bind fun p => f p.1 p.2) :=
  h.bind hf fun _ _ => False.elim

theorem of_some {p q : α × List Char}
    (h : Followed n dead (some p) (some q)) : p.1 = q.1 ∧ Tail n p.2 q.2 := by
  cases h with
  | read a htail => exact ⟨rfl, htail⟩

/-- A reader that decides by the first character: one character leads to what is
made of the text behind it, and nothing else makes a difference. -/
theorem of_head (d : Char) (f g h : List Char → Option (α × List Char))
    (hd : d ≠ ')') (hcons : ∀ s, f (d :: s) = g s)
    (hother : ∀ s, s.head? ≠ some d → f s = h s)
    (hg : ∀ s, Followed s.length dead (g s) (g (s ++ [')'])))
    (hh : ∀ s, s.head? ≠ some d → Followed s.length dead (h s) (h (s ++ [')'])))
    (t : List Char) : Followed t.length dead (f t) (f (t ++ [')'])) := by
  by_cases hhead : t.head? = some d
  · obtain ⟨rest, rfl⟩ := List.head?_eq_some_iff.mp hhead
    rw [List.cons_append, hcons, hcons]
    exact (hg rest).mono (Nat.le_succ _)
  · have hbehind := mt (head?_close_iff hd t).mp hhead
    rw [hother t hhead, hother _ hbehind]
    exact hh t hhead

end Followed

theorem Flags.tail_go (comment : Bool) (t : List Char) :
    Tail t.length (Flags.skipSpace.go comment t)
      (Flags.skipSpace.go comment (t ++ [')'])) := by
  fun_induction Flags.skipSpace.go comment t with
  | case1 comment =>
      cases comment with
      | true => exact .taken
      | false => exact .refl []
  | case2 c rest ih => exact ih.mono (Nat.le_succ _)
  | case3 c rest hblank ih =>
      rw [List.cons_append, Flags.skipSpace.go, if_pos hblank]
      exact ih.mono (Nat.le_succ _)
  | case4 rest hblank ih =>
      rw [List.cons_append, Flags.skipSpace.go, if_neg hblank, if_pos rfl]
      exact ih.mono (Nat.le_succ _)
  | case5 c rest hblank hcomment =>
      rw [List.cons_append, Flags.skipSpace.go, if_neg hblank, if_neg hcomment]
      exact .refl _

theorem Flags.skipSpace_nil (flags : Flags) : flags.skipSpace [] = [] := by
  simp [skipSpace, skipSpace.go]

theorem Flags.skipSpace_close (flags : Flags) :
    flags.skipSpace [')'] = [')'] := by
  have hblank : Text.isBlank ')' = false := by decide
  simp [skipSpace, skipSpace.go, hblank]

theorem Flags.tail_skipSpace (flags : Flags) (htail : Tail n t t') :
    Tail n (flags.skipSpace t) (flags.skipSpace t') := by
  have hgo : Tail t.length (flags.skipSpace t)
      (flags.skipSpace (t ++ [')'])) := by
    simp only [Flags.skipSpace]
    split
    · exact Flags.tail_go false t
    · exact .refl t
  cases htail with
  | kept hle => exact hgo.mono hle
  | taken =>
      rw [flags.skipSpace_nil]
      exact .taken

theorem followed_cut {mark : Char} (hmark : mark ≠ ')') (t : List Char) :
    Followed t.length dead (Text.cut mark t) (Text.cut mark (t ++ [')'])) := by
  induction t with
  | nil =>
      rw [List.nil_append, Text.cut, Text.cut, if_neg hmark.symm]
      exact .failed
  | cons c rest ih =>
      rw [List.cons_append, Text.cut, Text.cut]
      split
      · exact .read _ (.kept (Nat.le_succ _))
      · exact (ih.mono (Nat.le_succ _)).map (c :: ·)

theorem charOfHex?_close (digits : List Char) :
    Text.charOfHex? (digits ++ [')']) = none := by
  have hvalues : (digits ++ [')']).mapM Text.hexValue? = none := by
    rw [List.mapM_append]
    cases digits.mapM Text.hexValue? <;> rfl
  rw [Text.charOfHex?, Text.hexNumber?, hvalues]
  rfl

namespace Escape

variable {flags : Flags} {size : Nat}

def propertyAt [Package] (flags : Flags) (negated : Bool) (s : List Char) :
    Option (Item × List Char) :=
  (propertyName flags s).bind fun found =>
    (propertyItem? flags negated found.1).map (·, found.2)

theorem followed_propertyName (t : List Char) :
    Followed t.length dead (propertyName flags t)
      (propertyName flags (t ++ [')'])) := by
  cases t with
  | nil => exact .failed
  | cons c rest =>
      by_cases hbrace : c = '\x7b'
      · subst hbrace
        exact (followed_cut (by decide) rest).mono (Nat.le_succ _)
      · simp only [List.cons_append, propertyName]
        split
        · exact .read _
            ((flags.tail_skipSpace (.refl rest)).mono (Nat.le_succ _))
        · exact .failed

theorem followed_propertyAt [Package] (negated : Bool) (s : List Char) :
    Followed s.length dead (propertyAt flags negated s)
      (propertyAt flags negated (s ++ [')'])) := by
  refine (followed_propertyName s).bind_never
    (f := fun name r => (propertyItem? flags negated name).map (·, r))
    fun name r => ?_
  cases propertyItem? flags negated name with
  | none => exact .failed
  | some item => exact .read item (.refl r)

theorem followed_readProperty [Package] (negated : Bool) (t : List Char) :
    Followed t.length dead (readProperty flags negated t)
      (readProperty flags negated (t ++ [')'])) :=
  .of_tail (f := propertyAt flags negated) (followed_propertyAt negated)
    (flags.tail_skipSpace (.refl t))

def fixedHex (flags : Flags) (size : Nat) (s : List Char) :
    Option (Item × List Char) :=
  if s.length < size then none
  else (Text.charOfHex? (s.take size)).map fun c =>
    (.char c, flags.skipSpace (s.drop size))

def bracedHex (flags : Flags) (s : List Char) : Option (Item × List Char) :=
  (Text.cut '\x7d' s).bind fun found =>
    (Text.charOfHex? (found.1.filter fun c =>
      !(flags.spaced && Text.isBlank c))).map fun c =>
        (.char c, flags.skipSpace found.2)

def hexAt (flags : Flags) (size : Nat) : List Char → Option (Item × List Char)
  | '\x7b' :: inside => bracedHex flags inside
  | s => fixedHex flags size s

theorem readHex_eq (t : List Char) :
    readHex flags size t = hexAt flags size (flags.skipSpace t) := by
  rw [readHex]
  generalize flags.skipSpace t = s
  rw [hexAt.eq_def]
  split
  · rename_i inside
    show Option.bind _ _ = Option.bind _ _
    rcases Text.cut '\x7d' inside with _ | ⟨digits, rest⟩
    · rfl
    · show Option.bind (Text.charOfHex? _) _ = Option.map _ (Text.charOfHex? _)
      cases Text.charOfHex? _ <;> rfl
  · have htake : (s.take size).length < size ↔ s.length < size := by
      rw [List.length_take]
      omega
    simp only [fixedHex, htake, Option.bind_eq_bind, Option.pure_def,
      Option.bind_none, Option.map_eq_bind]
    rfl

theorem followed_fixedHex (t : List Char) :
    Followed t.length dead (fixedHex flags size t)
      (fixedHex flags size (t ++ [')'])) := by
  rw [fixedHex, fixedHex]
  by_cases hlt : t.length < size
  · rw [if_pos hlt, List.length_append, List.length_singleton]
    split
    · exact .failed
    · rw [List.take_of_length_le (by simp; omega), charOfHex?_close]
      exact .failed
  · have hle : size ≤ t.length := Nat.le_of_not_lt hlt
    rw [if_neg hlt, if_neg (by simp; omega), List.take_append_of_le_length hle,
      List.drop_append_of_le_length hle]
    cases Text.charOfHex? (t.take size) with
    | none => exact .failed
    | some c =>
        refine .read _ ((flags.tail_skipSpace (.refl _)).mono ?_)
        rw [List.length_drop]
        exact Nat.sub_le _ _

theorem followed_bracedHex (t : List Char) :
    Followed t.length dead (bracedHex flags t)
      (bracedHex flags (t ++ [')'])) := by
  have hbrace : '\x7d' ≠ ')' := by decide
  refine (followed_cut hbrace t).bind_never
    (f := fun digits r => (Text.charOfHex? (digits.filter fun c =>
      !(flags.spaced && Text.isBlank c))).map fun c =>
        (Item.char c, flags.skipSpace r)) fun digits r => ?_
  cases Text.charOfHex? _ with
  | none => exact .failed
  | some c => exact .read _ (flags.tail_skipSpace (.refl r))

theorem followed_hexAt (s : List Char) :
    Followed s.length dead (hexAt flags size s)
      (hexAt flags size (s ++ [')'])) := by
  refine .of_head '\x7b' (hexAt flags size) (bracedHex flags)
    (fixedHex flags size) (by decide) (fun _ => rfl) (fun s hs => ?_)
    followed_bracedHex (fun s _ => followed_fixedHex s) s
  rw [hexAt]
  rintro inside rfl
  exact hs rfl

theorem followed_readHex (t : List Char) :
    Followed t.length dead (readHex flags size t)
      (readHex flags size (t ++ [')'])) := by
  rw [readHex_eq, readHex_eq]
  exact .of_tail (f := hexAt flags size) followed_hexAt
    (flags.tail_skipSpace (.refl t))

theorem followed_read [Package] (hdead : dead []) (t : List Char) :
    Followed t.length dead (read flags t) (read flags (t ++ [')'])) := by
  cases t with
  | nil =>
      have hclose : read flags [')'] = some (.char ')', []) := by
        have hclass : classOf? flags ')' = none := by
          unfold classOf?
          split <;> rfl
        have hplain : isPlain ')' = true := by decide
        simp only [read, hclass, hplain, if_true]
      rw [List.nil_append, hclose]
      exact .late _ hdead
  | cons c rest =>
      have hkept (item : Item) : Followed (c :: rest).length dead
          (some (item, rest)) (some (item, rest ++ [')'])) :=
        .read item (.kept (Nat.le_succ _))
      simp only [List.cons_append, read]
      cases classOf? flags c with
      | some set => exact hkept _
      | none =>
          simp only
          split
          · exact hkept _
          split
          all_goals first
            | exact hkept _
            | exact (followed_readHex rest).mono (Nat.le_succ _)
            | exact (followed_readProperty _ rest).mono (Nat.le_succ _)
            | exact .failed

end Escape

end Specimen.Regex
