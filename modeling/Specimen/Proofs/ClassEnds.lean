/-
What the reader of a class of characters makes of a text with a closing
parenthesis behind it.
-/
import Specimen.Proofs.TrailingParenthesis

namespace Specimen.Regex

variable {n : Nat} {dead : List Char → Prop}
  {t t' : List Char}

namespace ClassReader

variable {flags : Flags} {fuel k k' : Nat} {stack : List Frame}
  {items : CharSet} {first : Escape.Item} {found : Bool}

def closeNamed (set : CharSet) : List Char → Option (CharSet × List Char)
  | ']' :: behind => some (set, behind)
  | _ => none

def named (flags : Flags) (negated : Bool) (s : List Char) :
    Option (CharSet × List Char) :=
  (Text.cut ':' s).bind fun found =>
    (asciiClass? (String.ofList found.1)).bind fun set =>
      closeNamed (if negated then (flags.foldCase set).complement else set)
        found.2

theorem followed_closeNamed (set : CharSet) (t : List Char) :
    Followed t.length dead (closeNamed set t)
      (closeNamed set (t ++ [')'])) := by
  refine .of_head ']' _ (fun s => some (set, s)) (fun _ => none) (by decide)
    (fun _ => rfl) (fun s hs => ?_) (fun s => .read _ (.refl s))
    (fun _ _ => .failed) t
  rw [closeNamed]
  rintro behind rfl
  exact hs rfl

theorem followed_named (negated : Bool) (t : List Char) :
    Followed t.length dead (named flags negated t)
      (named flags negated (t ++ [')'])) := by
  have hcolon : ':' ≠ ')' := by decide
  refine (followed_cut hcolon t).bind_never
    (f := fun name rest => (asciiClass? (String.ofList name)).bind fun set =>
      closeNamed (if negated then (flags.foldCase set).complement else set)
        rest)
    fun name rest => ?_
  cases asciiClass? (String.ofList name) with
  | none => exact .failed
  | some set => exact followed_closeNamed _ rest

theorem readNamed?_negated (s : List Char) :
    readNamed? flags (':' :: '^' :: s) = named flags true s := rfl

theorem readNamed?_plain {s : List Char} (hs : s.head? ≠ some '^') :
    readNamed? flags (':' :: s) = named flags false s := by
  simp only [readNamed?, named, closeNamed.eq_def, Option.bind_eq_bind,
    Option.pure_def]
  split
  · exact absurd rfl hs
  · rfl

theorem followed_readNamed? (t : List Char) :
    Followed t.length dead (readNamed? flags t)
      (readNamed? flags (t ++ [')'])) := by
  refine .of_head ':' _ (fun s => readNamed? flags (':' :: s)) (fun _ => none)
    (by decide) (fun _ => rfl) (fun s hs => ?_) (fun s => ?_)
    (fun _ _ => .failed) t
  · rw [readNamed?]
    rintro rest rfl
    exact hs rfl
  · exact .of_head '^' (fun s => readNamed? flags (':' :: s))
      (named flags true) (named flags false)
      (by decide) readNamed?_negated (fun _ => readNamed?_plain)
      (followed_named true) (fun s _ => followed_named false s) s

def negation (flags : Flags) (s : List Char) : Bool × List Char :=
  match s with
  | '^' :: rest => (true, flags.skipSpace rest)
  | _ => (false, s)

theorem followed_negation (t : List Char) : Followed t.length dead
    (some (negation flags t)) (some (negation flags (t ++ [')']))) := by
  refine .of_head '^' (fun s => some (negation flags s))
    (fun s => some (true, flags.skipSpace s)) (fun s => some (false, s))
    (by decide) (fun _ => rfl) (fun s hs => ?_)
    (fun s => .read true (flags.tail_skipSpace (.refl s)))
    (fun s _ => .read false (.refl s)) t
  rw [negation]
  rintro rest rfl
  exact hs rfl

theorem leadingHyphens_of_head {s : List Char} (hs : s.head? ≠ some '-') :
    leadingHyphens flags k found s = (found, s) := by
  cases k with
  | zero => rfl
  | succ k =>
      rw [leadingHyphens]
      rintro rest rfl
      exact hs rfl

theorem followed_leadingHyphens (htail : Tail n t t') (hk : t.length ≤ k)
    (hk' : t'.length ≤ k') :
    Followed n dead (some (leadingHyphens flags k found t))
      (some (leadingHyphens flags k' found t')) := by
  induction k generalizing n t t' k' found with
  | zero =>
      obtain rfl := List.length_eq_zero_iff.mp (Nat.le_zero.mp hk)
      have ht' : t'.head? ≠ some '-' := by
        cases htail <;> simp
      rw [leadingHyphens_of_head ht']
      exact .read found htail
  | succ k ih =>
      by_cases hhead : t.head? = some '-'
      · obtain ⟨rest, rfl⟩ := List.head?_eq_some_iff.mp hhead
        cases htail with
        | kept hle =>
            have hrest := flags.tail_skipSpace (.refl rest)
            have hlength := hrest.length_le
            have hlength' := hrest.length_le_succ
            cases k' with
            | zero => simp at hk'
            | succ k' =>
                simp only [List.length_cons, List.length_append,
                  List.length_nil] at hk hk' hle
                exact (ih hrest (by omega) (by omega)).mono (by omega)
      · have ht' : t'.head? ≠ some '-' := by
          cases htail with
          | taken => simp
          | kept => cases t <;> simp_all
        rw [leadingHyphens_of_head hhead, leadingHyphens_of_head ht']
        exact .read found htail

def opening (flags : Flags) (hyphens : Bool) (s : List Char) :
    CharSet × List Char :=
  if hyphens then (.ofChars ['-'], s)
  else
    match s with
    | ']' :: rest => (.ofChars [']'], flags.skipSpace rest)
    | _ => (.empty, s)

theorem followed_opening (hyphens : Bool) (t : List Char) :
    Followed t.length dead (some (opening flags hyphens t))
      (some (opening flags hyphens (t ++ [')']))) := by
  cases hyphens with
  | true => exact .read _ (.refl t)
  | false =>
      refine .of_head ']' (fun s => some (opening flags false s))
        (fun s => some (.ofChars [']'], flags.skipSpace s))
        (fun s => some (.empty, s)) (by decide) (fun _ => rfl) (fun s hs => ?_)
        (fun s => .read _ (flags.tail_skipSpace (.refl s)))
        (fun s _ => .read _ (.refl s)) t
      rw [opening, if_neg Bool.false_ne_true]
      rintro behind rfl
      exact hs rfl

theorem readStart_eq (t : List Char) :
    let negated := negation flags (flags.skipSpace t)
    let hyphens := leadingHyphens flags negated.2.length false negated.2
    readStart flags t = (negated.1, opening flags hyphens.1 hyphens.2) := by
  have hopening (hyphens : Bool × List Char) (negated : Bool) :
      (if hyphens.1 then (negated, CharSet.ofChars ['-'], hyphens.2)
        else match hyphens.2 with
          | ']' :: rest =>
              (negated, CharSet.ofChars [']'], flags.skipSpace rest)
          | _ => (negated, CharSet.empty, hyphens.2)) =
        (negated, opening flags hyphens.1 hyphens.2) := by
    rw [opening.eq_def]
    split
    · rfl
    · split <;> rfl
  exact hopening _ _

/-- What is read at the start of a class is read in either case. -/
theorem readStart_append (t : List Char) :
    (readStart flags (t ++ [')'])).1 = (readStart flags t).1 ∧
      (readStart flags (t ++ [')'])).2.1 = (readStart flags t).2.1 ∧
        Tail t.length (readStart flags t).2.2
          (readStart flags (t ++ [')'])).2.2 := by
  have hnegation : Followed t.length (fun _ => False)
      (some (negation flags _)) (some (negation flags _)) :=
    .of_tail (f := fun s => some (negation flags s)) followed_negation
      (flags.tail_skipSpace (.refl t))
  obtain ⟨hnegated, hrest⟩ := hnegation.of_some
  have hhyphens : Followed t.length (fun _ => False)
      (some (leadingHyphens flags _ false _))
      (some (leadingHyphens flags _ false _)) :=
    followed_leadingHyphens hrest (Nat.le_refl _) (Nat.le_refl _)
  obtain ⟨hfound, hrest⟩ := hhyphens.of_some
  have hopening (hyphens : Bool) : Followed t.length (fun _ => False)
      (some (opening flags hyphens _)) (some (opening flags hyphens _)) :=
    .of_tail (f := fun s => some (opening flags hyphens s))
      (followed_opening hyphens) hrest
  obtain ⟨hitems, hrest⟩ := (hopening _).of_some
  rw [readStart_eq, readStart_eq]
  refine ⟨hnegated.symm, ?_⟩
  simp only [← hfound]
  exact ⟨hitems.symm, hrest⟩

theorem startsRange_hyphen (s : List Char) : startsRange flags ('-' :: s) =
    ((flags.skipSpace s).head? != some ']' &&
      (flags.skipSpace s).head? != some '-') := by
  rw [startsRange]
  split <;> simp_all [List.head?_eq_some_iff]

theorem startsRange_of_head {s : List Char} (hs : s.head? ≠ some '-') :
    startsRange flags s = false := by
  rw [startsRange]
  rintro rest rfl
  exact hs rfl

theorem startsRange_append (t : List Char) :
    startsRange flags (t ++ [')']) = startsRange flags t := by
  by_cases hhead : t.head? = some '-'
  · obtain ⟨rest, rfl⟩ := List.head?_eq_some_iff.mp hhead
    rw [List.cons_append, startsRange_hyphen, startsRange_hyphen]
    have hrest := flags.tail_skipSpace (.refl rest)
    generalize flags.skipSpace rest = s,
      flags.skipSpace (rest ++ [')']) = s' at hrest
    cases hrest with
    | taken => rfl
    | kept => cases s <;> rfl
  · have hbehind := mt (head?_close_iff (by decide) t).mp hhead
    rw [startsRange_of_head hhead, startsRange_of_head hbehind]

variable [Package]

theorem followed_readItem (hdead : dead []) (t : List Char) :
    Followed (t.length - 1) dead (readItem flags t)
      (readItem flags (t ++ [')'])) := by
  cases t with
  | nil => exact .late _ hdead
  | cons c rest =>
      by_cases hescape : c = '\\'
      · subst hescape
        exact Escape.followed_read hdead rest
      · have hchar (s : List Char) :
            readItem flags (c :: s) = some (.char c, s) := by
          rw [readItem]
          exact hescape
        rw [List.cons_append, hchar, hchar]
        exact .read _ (.refl rest)

def span? : Escape.Item → Escape.Item → Option CharSet
  | .char low, .char high => if low ≤ high then some (.range low high) else none
  | _, _ => none

def single? : Escape.Item → Option CharSet
  | .char c => some (.ofChars [c])
  | .set set => some set
  | .place _ => none

/-- A range from an item on, or the item alone. -/
def rangeFrom (flags : Flags) (first : Escape.Item) (s : List Char) :
    Option (CharSet × List Char) :=
  if s.isEmpty then none
  else if startsRange flags s then
    (readItem flags (flags.skipSpace (s.drop 1))).bind fun second =>
      (span? first second.1).map (·, second.2)
  else (single? first).map (·, s)

theorem readRange_eq (t : List Char) : readRange flags t =
    (readItem flags t).bind fun first =>
      rangeFrom flags first.1 (flags.skipSpace first.2) := by
  simp only [readRange, Option.bind_eq_bind]
  congr 1
  funext first
  simp only [rangeFrom]
  split
  · rfl
  split
  · congr 1
    funext second
    cases first.1 <;> cases second.1 <;> simp [span?]
  · cases first.1 <;> rfl

theorem rangeFrom_cons (c : Char) (s : List Char) :
    rangeFrom flags first (c :: s) =
      if startsRange flags (c :: s) then
        (readItem flags (flags.skipSpace s)).bind fun second =>
          (span? first second.1).map (·, second.2)
      else (single? first).map (·, c :: s) := rfl

theorem followed_rangeFrom (hnil : dead []) (hclose : dead [')'])
    (t : List Char) : Followed t.length dead (rangeFrom flags first t)
      (rangeFrom flags first (t ++ [')'])) := by
  cases t with
  | nil =>
      have hend : rangeFrom flags first [')'] =
          (single? first).map (·, [')']) := rfl
      rw [List.nil_append, hend]
      cases single? first with
      | none => exact .failed
      | some set => exact .late set hclose
  | cons c rest =>
      rw [List.cons_append, rangeFrom_cons, rangeFrom_cons, ← List.cons_append,
        startsRange_append]
      split
      · have hall (t : List Char) : Followed t.length (· = [])
            (readItem flags t) (readItem flags (t ++ [')'])) :=
          (followed_readItem (by rfl) t).mono (Nat.sub_le ..)
        have hitem : Followed rest.length (· = []) _ _ :=
          .of_tail hall (flags.tail_skipSpace (.refl rest))
        refine (hitem.mono (Nat.le_succ _)).bind
          (f := fun second r => (span? first second).map (·, r))
          (fun second r => ?_) fun second r hr => ?_
        · cases span? first second with
          | none => exact .failed
          | some set => exact .read set (.refl r)
        · cases span? first second with
          | none => exact .failed
          | some set => exact .late set (hr ▸ hnil)
      · cases single? first with
        | none => exact .failed
        | some set => exact .read set (.refl _)

theorem followed_readRange (hnil : dead []) (hclose : dead [')'])
    (t : List Char) : Followed (t.length - 1) dead (readRange flags t)
      (readRange flags (t ++ [')'])) := by
  rw [readRange_eq, readRange_eq]
  have hitem : Followed (t.length - 1) (· = []) (readItem flags t) _ :=
    followed_readItem (by rfl) t
  refine hitem.bind
    (f := fun first r => rangeFrom flags first (flags.skipSpace r))
    (fun first r => ?_) fun first r hr => ?_
  · exact .of_tail (f := rangeFrom flags first)
      (followed_rangeFrom hnil hclose) (flags.tail_skipSpace (.refl r))
  · rw [hr, flags.skipSpace_nil]
    exact .failed

section Steps

variable (flags) (fuel) (stack) (items)

def nested (rest : List Char) : Option (CharSet × List Char) :=
  match readNamed? flags rest with
  | some (set, rest) => readOn flags fuel stack (items.union set) rest
  | none =>
    let start := readStart flags rest
    readOn flags fuel (.opened items start.1 :: stack) start.2.1 start.2.2

def closing (rest : List Char) : Option (CharSet × List Char) :=
  match (applyOperation flags items stack).2 with
  | .opened parent negated :: outer =>
    (close? flags negated (applyOperation flags items stack).1).bind
      fun closed =>
      if outer.isEmpty then some (closed, rest)
      else readOn flags fuel outer (parent.union closed) rest
  | _ => none

def operating (operation : Operation) (rest : List Char) :
    Option (CharSet × List Char) :=
  let applied := applyOperation flags items stack
  readOn flags fuel (.operand operation applied.1 :: applied.2) .empty rest

def adding (s : List Char) : Option (CharSet × List Char) :=
  (readRange flags s).bind fun found =>
    readOn flags fuel stack (items.union found.1) found.2

/-- The operation that a character stands for when it is written twice. -/
def operationOf? : Char → Option Operation
  | '&' => some .inter
  | '-' => some .diff
  | '~' => some .symmDiff
  | _ => none

/-- The rest of a class, where blanks have been passed over. -/
def readAt (s : List Char) : Option (CharSet × List Char) :=
  match s with
  | [] => none
  | '[' :: rest => nested flags fuel stack items rest
  | ']' :: rest => closing flags fuel stack items rest
  | '&' :: '&' :: rest => operating flags fuel stack items .inter rest
  | '-' :: '-' :: rest => operating flags fuel stack items .diff rest
  | '~' :: '~' :: rest => operating flags fuel stack items .symmDiff rest
  | s => adding flags fuel stack items s

theorem readAt_operating {c : Char} {operation : Operation}
    (hc : operationOf? c = some operation) (rest : List Char) :
    readAt flags fuel stack items (c :: c :: rest) =
      operating flags fuel stack items operation rest := by
  rw [operationOf?.eq_def] at hc
  split at hc <;> cases hc <;> rfl

theorem readAt_adding {c : Char} {rest : List Char} (hopen : c ≠ '[')
    (hclose : c ≠ ']')
    (hdouble : rest.head? = some c → operationOf? c = none) :
    readAt flags fuel stack items (c :: rest) =
      adding flags fuel stack items (c :: rest) := by
  rw [readAt.eq_def]
  split
  · contradiction
  · exact absurd (List.cons.inj ‹_›).1 hopen
  · exact absurd (List.cons.inj ‹_›).1 hclose
  · cases ‹_ = _›
    cases hdouble rfl
  · cases ‹_ = _›
    cases hdouble rfl
  · cases ‹_ = _›
    cases hdouble rfl
  · rfl

theorem readOn_succ (t : List Char) : readOn flags (fuel + 1) stack items t =
    readAt flags fuel stack items (flags.skipSpace t) := by
  rw [readOn, readAt.eq_def]
  rfl

theorem readOn_nil : readOn flags fuel stack items [] = none := by
  cases fuel with
  | zero => rfl
  | succ fuel =>
      rw [readOn_succ, flags.skipSpace_nil]
      rfl

/-- A class is not closed by a parenthesis, and nothing stands behind it. -/
theorem readAt_close : readAt flags fuel stack items [')'] = none := by
  have hrange : readRange flags [')'] = none := by
    rw [readRange_eq]
    show rangeFrom flags (.char ')') (flags.skipSpace []) = none
    rw [flags.skipSpace_nil]
    rfl
  show adding flags fuel stack items [')'] = none
  rw [adding, hrange]
  rfl

theorem readOn_close : readOn flags fuel stack items [')'] = none := by
  cases fuel with
  | zero => rfl
  | succ fuel => rw [readOn_succ, flags.skipSpace_close, readAt_close]

end Steps

section Runs

variable {rest s : List Char}
  (hon : ∀ {m : Nat} {t t' : List Char} (stack : List Frame) (items : CharSet),
    Tail m t t' → m < k → Followed m dead (readOn flags k stack items t)
      (readOn flags k' stack items t'))
include hon

theorem followed_nested (hlt : rest.length < k) :
    Followed rest.length dead (nested flags k stack items rest)
      (nested flags k' stack items (rest ++ [')'])) := by
  have hnamed : Followed rest.length (fun _ => False)
      (readNamed? flags rest) (readNamed? flags (rest ++ [')'])) :=
    followed_readNamed? rest
  rw [nested, nested]
  generalize readNamed? flags rest = x,
    readNamed? flags (rest ++ [')']) = y at hnamed
  cases hnamed with
  | read set htail => exact hon _ _ htail hlt
  | failed =>
      obtain ⟨hnegated, hitems, htail⟩ := @readStart_append flags rest
      simp only [hnegated, hitems]
      exact hon _ _ htail hlt
  | late _ hdead => exact hdead.elim

theorem followed_closing (hlt : rest.length < k) :
    Followed rest.length dead (closing flags k stack items rest)
      (closing flags k' stack items (rest ++ [')'])) := by
  rw [closing, closing]
  split
  · rename_i parent negated outer _
    cases close? flags negated _ with
    | none => exact .failed
    | some closed =>
        simp only [Option.bind_some]
        split
        · exact .read closed (.refl rest)
        · exact hon _ _ (.refl rest) hlt
  · exact .failed

theorem followed_operating (operation : Operation) (hlt : rest.length < k) :
    Followed rest.length dead (operating flags k stack items operation rest)
      (operating flags k' stack items operation (rest ++ [')'])) :=
  hon _ _ (.refl rest) hlt

theorem followed_adding (hlt : s.length - 1 < k) :
    Followed (s.length - 1) dead (adding flags k stack items s)
      (adding flags k' stack items (s ++ [')'])) := by
  have hrange : Followed (s.length - 1) (fun r => r = [] ∨ r = [')'])
      (readRange flags s) _ := followed_readRange (.inl rfl) (.inr rfl) s
  rw [adding, adding]
  generalize readRange flags s = x, readRange flags (s ++ [')']) = y at hrange
  cases hrange with
  | read found htail => exact hon _ _ htail hlt
  | failed => exact .failed
  | late found hdead =>
      simp only [Option.bind_some]
      rcases hdead with rfl | rfl
      · rw [readOn_nil]
        exact .failed
      · rw [readOn_close]
        exact .failed

theorem followed_readAt (hle : s.length ≤ k) :
    Followed s.length dead (readAt flags k stack items s)
      (readAt flags k' stack items (s ++ [')'])) := by
  cases s with
  | nil =>
      rw [List.nil_append, readAt_close]
      exact .failed
  | cons c rest =>
      have hlt : rest.length < k := hle
      rw [List.cons_append]
      by_cases hopen : c = '['
      · subst hopen
        exact (followed_nested hon hlt).mono (Nat.le_succ _)
      by_cases hclose : c = ']'
      · subst hclose
        exact (followed_closing hon hlt).mono (Nat.le_succ _)
      by_cases hdouble : rest.head? = some c ∧ operationOf? c ≠ none
      · obtain ⟨hhead, hmark⟩ := hdouble
        obtain ⟨operation, hmark⟩ := Option.ne_none_iff_exists'.mp hmark
        obtain ⟨more, rfl⟩ := List.head?_eq_some_iff.mp hhead
        rw [List.cons_append, readAt_operating _ _ _ _ hmark,
          readAt_operating _ _ _ _ hmark]
        have hmore : more.length < k := Nat.lt_of_succ_lt hlt
        exact (followed_operating hon operation hmore).mono (by simp; omega)
      · have hsingle (h : rest.head? = some c) : operationOf? c = none :=
          not_not.mp fun hmark => hdouble ⟨h, hmark⟩
        have hbehind (h : (rest ++ [')']).head? = some c) :
            operationOf? c = none := by
          cases rest with
          | nil =>
              obtain rfl := Option.some.inj h
              rfl
          | cons d more => exact hsingle h
        rw [readAt_adding _ _ _ _ hopen hclose hsingle,
          readAt_adding _ _ _ _ hopen hclose hbehind]
        have hadding : (c :: rest).length - 1 < k := hlt
        exact (followed_adding hon hadding).mono (Nat.sub_le ..)

end Runs

theorem followed_readOn (hfuel : t.length < k) (hfuel' : k < k') :
    Followed t.length dead (readOn flags k stack items t)
      (readOn flags k' stack items (t ++ [')'])) := by
  induction k generalizing k' t stack items with
  | zero => exact absurd hfuel (Nat.not_lt_zero _)
  | succ k ih =>
      obtain ⟨k', rfl⟩ := Nat.exists_eq_add_of_lt hfuel'
      have hon {m : Nat} {t t' : List Char} (stack : List Frame)
          (items : CharSet) (htail : Tail m t t') (hm : m < k) :
          Followed m dead (readOn flags k stack items t)
            (readOn flags (k + 1 + k') stack items t') := by
        cases htail with
        | kept hle =>
            exact (ih (Nat.lt_of_le_of_lt hle hm) (by omega)).mono hle
        | taken =>
            rw [readOn_nil, readOn_nil]
            exact .failed
      rw [readOn_succ, readOn_succ]
      have hblank := flags.tail_skipSpace (.refl t)
      generalize flags.skipSpace t = s,
        flags.skipSpace (t ++ [')']) = s' at hblank
      cases hblank with
      | taken => exact .failed
      | kept hle =>
          exact (followed_readAt hon
            (Nat.le_trans hle (Nat.le_of_lt_succ hfuel))).mono hle

theorem followed_readClass (t : List Char) :
    Followed t.length dead (ClassReader.read flags t)
      (ClassReader.read flags (t ++ [')'])) := by
  obtain ⟨hnegated, hitems, htail⟩ := @readStart_append flags t
  simp only [ClassReader.read, hnegated, hitems]
  generalize (readStart flags t).2.2 = s,
    (readStart flags (t ++ [')'])).2.2 = s' at htail
  cases htail with
  | taken =>
      rw [readOn_nil, readOn_nil]
      exact .failed
  | kept hle =>
      refine (followed_readOn (Nat.lt_succ_of_le hle) ?_).mono hle
      simp

end ClassReader

end Specimen.Regex
