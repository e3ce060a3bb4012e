/-
Reading a text between parentheses: a group around a text makes no difference to
what is read, except where its end is lost or comes too soon.
-/
import Specimen.Proofs.ClassEnds

namespace Specimen.Regex

namespace Reader

variable {s : State} {flags : Flags} {dead : List Char → Prop}

/-- The name of a group, if its characters may stand in one. -/
def nameOf? : List Char → Option String
  | [] => none
  | c :: more =>
    if isNameStart c && more.all isNameChar then
      some (String.ofList (c :: more))
    else none

theorem readName_eq (t : List Char) : readName t =
    (Text.cut '>' t).bind fun found => (nameOf? found.1).map (·, found.2) := by
  rw [readName]
  rcases Text.cut '>' t with _ | ⟨name, rest⟩
  · rfl
  cases name with
  | nil => rfl
  | cons c more =>
      show (if isNameStart c && more.all isNameChar then _ else _) =
        Option.map _ (if isNameStart c && more.all isNameChar then _ else _)
      split <;> rfl

theorem followed_readName (t : List Char) :
    Followed t.length dead (readName t) (readName (t ++ [')'])) := by
  have hmark : '>' ≠ ')' := by decide
  rw [readName_eq, readName_eq]
  refine (followed_cut hmark t).bind_never
    (f := fun name rest => (nameOf? name).map (·, rest)) fun name rest => ?_
  cases nameOf? name with
  | none => exact .failed
  | some name => exact .read name (.refl rest)

/-- A group with a name, unless the name is taken. -/
theorem followed_enterNamed (s : State) (t : List Char) :
    Followed t.length dead (enterNamed s t) (enterNamed s (t ++ [')'])) := by
  refine (followed_readName t).bind_never
    (f := fun name rest =>
      if s.names.contains name then none
      else some (State.enter { s with
        nextIndex := s.nextIndex + 1, names := name :: s.names }
          (some ⟨s.nextIndex, some name⟩) s.flags, rest)) fun name rest => ?_
  split
  · exact .failed
  · exact .read _ (.refl rest)

/-- The flags behind a letter, and whether letters go on to switch them on. -/
def flagStep (flags : Flags) (on : Bool) (c : Char) : Option (Flags × Bool) :=
  match c with
  | '-' => some (flags, false)
  | 'i' => some ({ flags with caseless := on }, on)
  | 'm' => some ({ flags with multiLine := on }, on)
  | 's' => some ({ flags with dotAll := on }, on)
  | 'U' => some ({ flags with swapGreed := on }, on)
  | 'u' => some ({ flags with unicode := on }, on)
  | 'R' => some ({ flags with carriageReturns := on }, on)
  | 'x' => some ({ flags with spaced := on }, on)
  | _ => none

theorem readFlags_cons {seen : List Char} {on : Bool} {c : Char}
    (hclose : c ≠ ')') (hcolon : c ≠ ':') (rest : List Char) :
    readFlags flags seen on (c :: rest) =
      if seen.contains c then none
      else (flagStep flags on c).bind fun next =>
        readFlags next.1 (c :: seen) next.2 rest := by
  rw [readFlags.eq_def]
  split
  · contradiction
  · exact absurd (List.cons.inj ‹_›).1 hclose
  · exact absurd (List.cons.inj ‹_›).1 hcolon
  · cases ‹_ = _›
    split
    · rfl
    · rw [flagStep.eq_def]
      split <;> simp_all

/-- The letters and whether they stand alone in their parentheses, in a pair. -/
def regroup {α β : Type} (found : α × β × List Char) : (α × β) × List Char :=
  ((found.1, found.2.1), found.2.2)

theorem followed_readFlags (seen : List Char) (on : Bool) (t : List Char) :
    Followed t.length (· = []) ((readFlags flags seen on t).map regroup)
      ((readFlags flags seen on (t ++ [')'])).map regroup) := by
  induction t generalizing flags seen on with
  | nil =>
      have hnil : readFlags flags seen on [] = none := rfl
      rw [List.nil_append, hnil, readFlags]
      split
      · exact .failed
      · exact .late _ rfl
  | cons c rest ih =>
      rw [List.cons_append]
      by_cases hclose : c = ')'
      · subst hclose
        rw [readFlags, readFlags]
        split
        · exact .failed
        · exact .read _ (.kept (Nat.le_succ _))
      by_cases hcolon : c = ':'
      · subst hcolon
        rw [readFlags, readFlags]
        split
        · exact .failed
        · exact .read _ (.kept (Nat.le_succ _))
      rw [readFlags_cons hclose hcolon, readFlags_cons hclose hcolon]
      split
      · exact .failed
      cases flagStep flags on c with
      | none => exact .failed
      | some next => exact (ih _ _).mono (Nat.le_succ _)

def withFlags (s : State) (found : Flags × Bool) : State :=
  if found.2 then { s with flags := found.1, items := none :: s.items }
  else s.enter none found.1

/-- What follows the question mark of a group, if it is no name and does not ask
to look around. -/
def flagsAt (s : State) (t : List Char) : Option (State × List Char) :=
  if t.head? = some ')' then none
  else ((readFlags s.flags [] true t).map regroup).map fun (found, rest) =>
    (withFlags s found, rest)

theorem followed_flagsAt (s : State) (hdead : dead []) (t : List Char) :
    Followed t.length dead (flagsAt s t) (flagsAt s (t ++ [')'])) := by
  cases t with
  | nil => exact .failed
  | cons c rest =>
      have hhead : (c :: rest ++ [')']).head? = (c :: rest).head? := rfl
      rw [flagsAt, flagsAt, hhead]
      split
      · exact .failed
      · refine Followed.map (.imp (followed_readFlags _ _ _) ?_) (withFlags s)
        rintro _ rfl
        exact hdead

theorem flagsAt_eq (s : State) (t : List Char) : flagsAt s t =
    match readFlags s.flags [] true t with
    | none => none
    | some (flags, true, behind) =>
      if t.head? = some ')' then none
      else some ({ s with flags, items := none :: s.items }, behind)
    | some (flags, false, behind) => some (s.enter none flags, behind) := by
  rw [flagsAt]
  split
  · rename_i hhead
    obtain ⟨rest, rfl⟩ := List.head?_eq_some_iff.mp hhead
    rfl
  · split
    · rename_i hread
      rw [hread]
      rfl
    · rename_i hread
      rw [hread]
      rfl
    · rename_i hread
      rw [hread]
      rfl

def queryAt (s : State) (t : List Char) : Option (State × List Char) :=
  match t with
  | '=' :: _ => none
  | '!' :: _ => none
  | '<' :: '=' :: _ => none
  | '<' :: '!' :: _ => none
  | 'P' :: '<' :: rest => enterNamed s rest
  | '<' :: rest => enterNamed s rest
  | rest => flagsAt s rest

def groupAt (s : State) (t : List Char) : Option (State × List Char) :=
  match t with
  | '?' :: rest => queryAt s rest
  | rest => some (State.enter { s with nextIndex := s.nextIndex + 1 }
      (some ⟨s.nextIndex, none⟩) s.flags, rest)

theorem readGroup_eq (s : State) (t : List Char) :
    readGroup s t = groupAt s (s.flags.skipSpace t) := by
  rw [readGroup]
  generalize s.flags.skipSpace t = u
  split
  case h_6 =>
    rw [groupAt, queryAt] <;> simp_all
  case h_7 =>
    rw [groupAt, queryAt]
    · exact (flagsAt_eq s _).symm
    all_goals assumption
  case h_8 =>
    rw [groupAt]
    simp_all
  all_goals rfl

theorem queryAt_cons (s : State) (c : Char) (rest : List Char) :
    queryAt s (c :: rest) =
      if c = '=' ∨ c = '!' then none
      else if c = '<' then
        if rest.head? = some '=' ∨ rest.head? = some '!' then none
        else enterNamed s rest
      else if c = 'P' ∧ rest.head? = some '<' then enterNamed s (rest.drop 1)
      else flagsAt s (c :: rest) := by
  rw [queryAt.eq_def]
  split <;> simp_all [List.head?_eq_some_iff]

theorem followed_queryAt (s : State) (hdead : dead []) (t : List Char) :
    Followed t.length dead (queryAt s t) (queryAt s (t ++ [')'])) := by
  cases t with
  | nil => exact .failed
  | cons c rest =>
      have hequal := head?_close_iff (d := '=') (by decide) rest
      have hmark := head?_close_iff (d := '!') (by decide) rest
      have hangle := head?_close_iff (d := '<') (by decide) rest
      simp only [List.cons_append, queryAt_cons, hequal, hmark, hangle]
      split
      · exact .failed
      split
      · split
        · exact .failed
        · exact (followed_enterNamed s rest).mono (Nat.le_succ _)
      split
      · rename_i hnamed
        obtain ⟨name, rfl⟩ := List.head?_eq_some_iff.mp hnamed.2
        exact (followed_enterNamed s name).mono (by simp; omega)
      · exact followed_flagsAt s hdead (c :: rest)

theorem followed_readGroup (s : State) (hdead : dead []) (t : List Char) :
    Followed t.length dead (readGroup s t) (readGroup s (t ++ [')'])) := by
  have hgroup (t : List Char) : Followed t.length dead (groupAt s t)
      (groupAt s (t ++ [')'])) := by
    refine .of_head '?' _ (queryAt s) (fun t =>
      some (State.enter { s with nextIndex := s.nextIndex + 1 }
        (some ⟨s.nextIndex, none⟩) s.flags, t)) (by decide) (fun _ => rfl)
      (fun t ht => ?_) (followed_queryAt s hdead)
        (fun t _ => .read _ (.refl t)) t
    rw [groupAt]
    rintro rest rfl
    exact ht rfl
  rw [readGroup_eq, readGroup_eq]
  exact .of_tail hgroup (s.flags.tail_skipSpace (.refl t))

theorem dropWhile_close {p : Char → Bool} (hp : p ')' = false)
    (t : List Char) : (t ++ [')']).dropWhile p = t.dropWhile p ++ [')'] := by
  induction t with
  | nil => simp [hp]
  | cons c rest ih =>
      rw [List.cons_append, List.dropWhile_cons, List.dropWhile_cons, ih]
      split <;> rfl

theorem takeWhile_close {p : Char → Bool} (hp : p ')' = false)
    (t : List Char) : (t ++ [')']).takeWhile p = t.takeWhile p := by
  induction t with
  | nil => simp [hp]
  | cons c rest ih =>
      rw [List.cons_append, List.takeWhile_cons, List.takeWhile_cons, ih]

theorem trimStart_close (t : List Char) :
    Text.trimStart (t ++ [')']) = Text.trimStart t ++ [')'] :=
  dropWhile_close (by decide) t

theorem length_trimStart_le (t : List Char) :
    (Text.trimStart t).length ≤ t.length :=
  (List.dropWhile_suffix _).length_le

theorem followed_readCount (t : List Char) :
    Followed t.length dead (readCount t) (readCount (t ++ [')'])) := by
  have hdigit : ')'.isDigit = false := by decide
  simp only [readCount, trimStart_close, takeWhile_close hdigit,
    dropWhile_close hdigit]
  split
  · exact .failed
  · refine .read _ (.kept ?_)
    exact Nat.le_trans (length_trimStart_le _)
      (Nat.le_trans (List.dropWhile_suffix _).length_le (length_trimStart_le t))

/-- The brace that closes the counts of a repetition, if the counts are in
order. -/
def closeCounts (counts : Option (Nat × Option Nat)) :
    List Char → Option ((Nat × Option Nat) × List Char)
  | '\x7d' :: rest => counts.map (·, rest)
  | _ => none

def upperAt (least : Nat) (t : List Char) :
    Option ((Nat × Option Nat) × List Char) :=
  (readCount t).bind fun found =>
    closeCounts (if least ≤ found.1 then some (least, some found.1) else none)
      found.2

/-- What follows the comma between the counts of a repetition, where blanks have
been passed over. -/
def commaAt (least : Nat) :
    List Char → Option ((Nat × Option Nat) × List Char)
  | '\x7d' :: rest => some ((least, none), rest)
  | t => upperAt least t

def countsAt (least : Nat) :
    List Char → Option ((Nat × Option Nat) × List Char)
  | ',' :: rest => commaAt least (Text.trimStart rest)
  | t => closeCounts (some (least, some least)) t

theorem readCounts_eq (t : List Char) : (readCounts t).map regroup =
    (readCount t).bind fun found => countsAt found.1 found.2 := by
  simp only [readCounts, Option.bind_eq_bind, Option.pure_def]
  rcases readCount t with _ | ⟨least, rest⟩
  · rfl
  simp only [Option.bind_some]
  split
  · rfl
  · rename_i behind
    rw [countsAt]
    generalize Text.trimStart behind = u
    rw [commaAt.eq_def]
    split
    · rfl
    · simp only [upperAt]
      rcases readCount u with _ | ⟨most, rest⟩
      · rfl
      simp only [Option.bind_some]
      split
      · rw [closeCounts]
        split <;> rfl
      · rw [closeCounts]
        · rfl
        · assumption
  · rw [countsAt, closeCounts]
    · rfl
    · assumption
    · assumption

theorem followed_closeCounts (counts : Option (Nat × Option Nat))
    (t : List Char) : Followed t.length dead (closeCounts counts t)
      (closeCounts counts (t ++ [')'])) := by
  refine .of_head '\x7d' (closeCounts counts) (fun t => counts.map (·, t))
    (fun _ => none) (by decide) (fun _ => rfl) (fun t ht => ?_) (fun t => ?_)
    (fun _ _ => .failed) t
  · rw [closeCounts]
    rintro rest rfl
    exact ht rfl
  · cases counts with
    | none => exact .failed
    | some counts => exact .read counts (.refl t)

theorem followed_upperAt (least : Nat) (t : List Char) :
    Followed t.length dead (upperAt least t) (upperAt least (t ++ [')'])) :=
  (followed_readCount t).bind_never (f := fun most =>
    closeCounts (if least ≤ most then some (least, some most) else none))
    fun _ => followed_closeCounts _

theorem followed_commaAt (least : Nat) (t : List Char) :
    Followed t.length dead (commaAt least t) (commaAt least (t ++ [')'])) := by
  refine .of_head '\x7d' (commaAt least) (fun t => some ((least, none), t))
    (upperAt least) (by decide) (fun _ => rfl) (fun t ht => ?_)
    (fun t => .read _ (.refl t)) (fun t _ => followed_upperAt least t) t
  rw [commaAt]
  rintro rest rfl
  exact ht rfl

theorem followed_countsAt (least : Nat) (t : List Char) :
    Followed t.length dead (countsAt least t)
      (countsAt least (t ++ [')'])) := by
  refine .of_head ',' (countsAt least)
    (fun t => commaAt least (Text.trimStart t))
    (closeCounts (some (least, some least))) (by decide) (fun _ => rfl)
    (fun t ht => ?_) (fun t => ?_) (fun t _ => followed_closeCounts _ t) t
  · rw [countsAt]
    rintro rest rfl
    exact ht rfl
  · rw [trimStart_close]
    exact (followed_commaAt least _).mono (length_trimStart_le t)

theorem followed_readCounts (t : List Char) :
    Followed t.length dead ((readCounts t).map regroup)
      ((readCounts (t ++ [')'])).map regroup) := by
  rw [readCounts_eq, readCounts_eq]
  exact (followed_readCount t).bind_never followed_countsAt

theorem followed_readLazy (t : List Char) : Followed t.length dead
    (some (readLazy t)) (some (readLazy (t ++ [')']))) := by
  refine .of_head '?' (fun t => some (readLazy t)) (fun t => some (true, t))
    (fun t => some (false, t)) (by decide) (fun _ => rfl) (fun t ht => ?_)
    (fun t => .read true (.refl t)) (fun t _ => .read false (.refl t)) t
  rw [readLazy]
  rintro rest rfl
  exact ht rfl

/-- Nothing can be read from here in an open group: the text is at its end, or
it goes on with a brace behind which no counts stand. -/
def Dead (t : List Char) : Prop :=
  t = [] ∨ ∃ rest, t = '\x7b' :: rest ∧ readCounts rest = none

/-- Where blanks and comments go on up to the end, no count stands. -/
theorem takeWhile_isDigit_of_go {t : List Char}
    (hblank : Flags.skipSpace.go false t = []) :
    (Text.trimStart t).takeWhile Char.isDigit = [] := by
  induction t with
  | nil => rfl
  | cons c rest ih =>
      rw [Flags.skipSpace.go] at hblank
      split at hblank
      · rename_i hc
        rw [Text.trimStart, List.dropWhile_cons_of_pos hc]
        exact ih hblank
      split at hblank
      · rename_i hc hmark
        rw [Text.trimStart, List.dropWhile_cons_of_neg hc, hmark]
        rfl
      · cases hblank

theorem readCounts_of_blank {t : List Char} (hblank : flags.skipSpace t = []) :
    readCounts (t ++ [')']) = none := by
  have hdigits : (Text.trimStart t).takeWhile Char.isDigit = [] := by
    simp only [Flags.skipSpace] at hblank
    split at hblank
    · exact takeWhile_isDigit_of_go hblank
    · rw [hblank]
      rfl
  have hcount : readCount (t ++ [')']) = none := by
    rw [readCount, trimStart_close, takeWhile_close (by decide), hdigits]
    rfl
  rw [readCounts, hcount]
  rfl

/-- What follows a brace behind the mark of a word boundary, of which blanks
have been passed over. -/
def edgeAt (flags : Flags) (s u : List Char) : Option (Edge × List Char) :=
  match u.head? with
  | none => none
  | some c =>
    if c.isAlpha || c == '-' then
      (Text.cut '\x7d' u).bind fun found =>
        (edgeOfName? (String.ofList (found.1.filter fun c =>
          !(flags.spaced && Text.isBlank c)))).map (·, found.2)
    else some (.either, s)

theorem readEdge_brace (t : List Char) :
    readEdge flags ('\x7b' :: t) =
      edgeAt flags ('\x7b' :: t) (flags.skipSpace t) := by
  simp only [readEdge, edgeAt, Option.bind_eq_bind, Option.pure_def,
    Option.map_eq_bind]
  cases (flags.skipSpace t).head? with
  | none => rfl
  | some c => rfl

theorem followed_edgeAt (t : List Char) :
    Followed (t.length + 1) Dead
      (edgeAt flags ('\x7b' :: t) (flags.skipSpace t))
      (edgeAt flags ('\x7b' :: t ++ [')']) (flags.skipSpace (t ++ [')']))) := by
  have hblank := flags.tail_skipSpace (.refl t)
  have hcounts := @readCounts_of_blank flags t
  generalize flags.skipSpace t = u,
    flags.skipSpace (t ++ [')']) = u' at hblank hcounts
  cases hblank with
  | taken => exact .failed
  | kept hle =>
      cases u with
      | nil => exact .late _ (.inr ⟨t ++ [')'], rfl, hcounts rfl⟩)
      | cons c more =>
          simp only [edgeAt, List.cons_append, List.head?_cons]
          split
          · have hbrace : '\x7d' ≠ ')' := by decide
            refine ((followed_cut hbrace (c :: more)).mono
              (Nat.le_trans hle (Nat.le_succ _))).bind_never (f := fun name r =>
                (edgeOfName? (String.ofList (name.filter fun c =>
                  !(flags.spaced && Text.isBlank c)))).map (·, r))
                    fun name r => ?_
            cases edgeOfName? _ with
            | none => exact .failed
            | some edge => exact .read edge (.refl r)
          · exact .read _ (.refl ('\x7b' :: t))

theorem followed_readEdge (t : List Char) :
    Followed t.length Dead (readEdge flags t)
      (readEdge flags (t ++ [')'])) := by
  by_cases hhead : t.head? = some '\x7b'
  · obtain ⟨rest, rfl⟩ := List.head?_eq_some_iff.mp hhead
    rw [List.cons_append, readEdge_brace, readEdge_brace]
    exact followed_edgeAt rest
  · have hplain {t : List Char} (ht : t.head? ≠ some '\x7b') :
        readEdge flags t = some (.either, t) := by
      rw [readEdge]
      rintro rest rfl
      exact ht rfl
    rw [hplain hhead, hplain (mt (head?_close_iff (by decide) t).mp hhead)]
    exact .read _ (.refl t)

def escapeAt (flags : Flags) (item : Escape.Item) (t : List Char) :
    Option (Pattern × List Char) :=
  match item with
  | .char c => some (literal flags c, t)
  | .set set => some (.chars set, t)
  | .place mark =>
    match mark with
    | 'A' => some (.look .textStart, t)
    | 'z' => some (.look .textEnd, t)
    | 'B' => some (.look (.word .neither !flags.unicode), t)
    | '<' => some (.look (.word .start !flags.unicode), t)
    | '>' => some (.look (.word .stop !flags.unicode), t)
    | _ => (readEdge flags t).map fun (edge, rest) =>
      (.look (.word edge !flags.unicode), rest)

theorem readEscape_eq [Package] (t : List Char) : readEscape flags t =
    (Escape.read flags t).bind fun found => escapeAt flags found.1 found.2 := by
  simp only [readEscape, Option.bind_eq_bind, Option.pure_def]
  congr 1
  funext ⟨item, rest⟩
  cases item with
  | char c => rfl
  | set set => rfl
  | place mark =>
      simp only [escapeAt.eq_def, Option.map_eq_bind]
      rfl

theorem followed_escapeAt (item : Escape.Item) (t : List Char) :
    Followed t.length Dead (escapeAt flags item t)
      (escapeAt flags item (t ++ [')'])) := by
  cases item with
  | char c => exact .read _ (.refl t)
  | set set => exact .read _ (.refl t)
  | place mark =>
      have hedge := (@followed_readEdge flags t).map fun edge =>
        Pattern.look (.word edge !flags.unicode)
      simp only [escapeAt.eq_def]
      split <;> first | exact .read _ (.refl t) | exact hedge

theorem followed_readEscape [Package] (t : List Char) :
    Followed t.length Dead (readEscape flags t)
      (readEscape flags (t ++ [')'])) := by
  have hread : Followed t.length (· = []) (Escape.read flags t) _ :=
    Escape.followed_read (by rfl) t
  rw [readEscape_eq, readEscape_eq]
  refine hread.bind followed_escapeAt fun item r hr => ?_
  rw [hr]
  exact (followed_escapeAt item []).late_of_nil (.inl rfl)

/-- The last item is repeated, and the mark of few turns passed over. -/
def repeating (s : State) (least : Nat) (most : Option Nat) (t : List Char) :
    Option (State × List Char) :=
  (s.repeatLast? least most !(readLazy t).1).map (·, (readLazy t).2)

theorem followed_repeating (s : State) (least : Nat) (most : Option Nat)
    (t : List Char) : Followed t.length dead (repeating s least most t)
      (repeating s least most (t ++ [')'])) := by
  have hlazy : Followed t.length (fun _ => False) (some (readLazy t)) _ :=
    followed_readLazy t
  obtain ⟨hfew, htail⟩ := hlazy.of_some
  rw [repeating, repeating, ← hfew]
  cases s.repeatLast? least most !(readLazy t).1 with
  | none => exact .failed
  | some s => exact .read s htail

theorem step_brace [Package] (s : State) (t : List Char) : step s '\x7b' t =
    ((readCounts t).map regroup).bind fun (counts, rest) =>
      repeating s counts.1 counts.2 (s.flags.skipSpace rest) := by
  simp only [step, Option.bind_eq_bind]
  cases readCounts t <;> rfl

/-- One construct is read from a text alone as it is with a parenthesis behind.
-/
theorem followed_step [Package] (s : State) (c : Char) (t : List Char) :
    Followed t.length Dead (step s c t) (step s c (t ++ [')'])) := by
  by_cases hbrace : c = '\x7b'
  · subst hbrace
    rw [step_brace, step_brace]
    refine (followed_readCounts t).bind_never (f := fun counts rest =>
      repeating s counts.1 counts.2 (s.flags.skipSpace rest))
        fun counts rest => ?_
    exact .of_tail (followed_repeating s counts.1 counts.2)
      (s.flags.tail_skipSpace (.refl rest))
  rw [step.eq_def]
  simp only
  split
  · exact followed_readGroup s (.inl rfl) t
  · show Followed _ _ (s.leave?.map (·, t)) (s.leave?.map (·, t ++ [')']))
    cases s.leave? with
    | none => exact .failed
    | some outer => exact .read outer (.refl t)
  · exact .read _ (.refl t)
  · exact (ClassReader.followed_readClass t).map fun set => s.push (.chars set)
  · exact followed_repeating s 0 (some 1) t
  · exact followed_repeating s 0 none t
  · exact followed_repeating s 1 none t
  · exact absurd rfl hbrace
  · show Followed _ _ ((anyChar? s.flags).map fun p => (s.push p, t))
      ((anyChar? s.flags).map fun p => (s.push p, t ++ [')']))
    cases anyChar? s.flags with
    | none => exact .failed
    | some p => exact .read _ (.refl t)
  · exact .read _ (.refl t)
  · exact .read _ (.refl t)
  · exact (followed_readEscape t).map s.push
  · rw [step]
    · exact .read _ (.refl t)
    all_goals assumption

namespace State

/-- The state with a group around all that is open. -/
def onto (s : State) (frame : Frame) : State :=
  { s with stack := s.stack ++ [frame] }

theorem leave?_of_nil {s : State} (hstack : s.stack = []) :
    s.leave? = none := by
  rw [leave?, hstack]

/-- Where nothing else is open, the group around the text is closed. -/
theorem leave?_onto_of_nil {s : State} {frame : Frame} (hstack : s.stack = []) :
    (s.onto frame).leave? = some { s with
      flags := frame.flags
      branches := frame.branches
      items := some (.group frame.capture s.content) :: frame.items
      stack := [] } := by
  simp only [leave?, onto, hstack, List.nil_append]
  rfl

theorem leave?_onto {s : State} {frame : Frame} (hstack : s.stack ≠ []) :
    (s.onto frame).leave? = s.leave?.map fun s => s.onto frame := by
  obtain ⟨inner, outer, hstack⟩ := List.exists_cons_of_ne_nil hstack
  simp only [leave?, onto, hstack, List.cons_append]
  rfl

end State

variable {frame : Frame} {c : Char} {t : List Char}

theorem repeating_onto (least : Nat) (most : Option Nat) :
    repeating (s.onto frame) least most t =
      (repeating s least most t).map fun (s, rest) => (s.onto frame, rest) := by
  have hrepeat (greedy : Bool) : (s.onto frame).repeatLast? least most greedy =
      (s.repeatLast? least most greedy).map fun s => s.onto frame := by
    rw [State.repeatLast?, State.repeatLast?]
    simp only [State.onto]
    split
    · rfl
    · rfl
  rw [repeating, repeating, hrepeat]
  cases s.repeatLast? least most _ <;> rfl

theorem enterNamed_onto : enterNamed (s.onto frame) t =
    (enterNamed s t).map fun (s, rest) => (s.onto frame, rest) := by
  simp only [enterNamed, Option.bind_eq_bind]
  rcases readName t with _ | ⟨name, rest⟩
  · rfl
  show (if s.names.contains name then _ else _) =
    Option.map _ (if s.names.contains name then _ else _)
  split <;> rfl

theorem flagsAt_onto : flagsAt (s.onto frame) t =
    (flagsAt s t).map fun (s, rest) => (s.onto frame, rest) := by
  have hflags (found : Flags × Bool) :
      withFlags (s.onto frame) found = (withFlags s found).onto frame := by
    rw [withFlags, withFlags]
    split <;> rfl
  rw [flagsAt, flagsAt]
  split
  · rfl
  · show Option.map _ ((readFlags s.flags [] true t).map regroup) = _
    cases (readFlags s.flags [] true t).map regroup with
    | none => rfl
    | some found => exact congrArg some (congrArg (·, found.2) (hflags found.1))

theorem queryAt_onto : queryAt (s.onto frame) t =
    (queryAt s t).map fun (s, rest) => (s.onto frame, rest) := by
  cases t with
  | nil => rfl
  | cons c rest =>
      rw [queryAt_cons, queryAt_cons]
      split
      · rfl
      split
      · split
        · rfl
        · exact enterNamed_onto
      split
      · exact enterNamed_onto
      · exact flagsAt_onto

theorem readGroup_onto : readGroup (s.onto frame) t =
    (readGroup s t).map fun (s, rest) => (s.onto frame, rest) := by
  rw [readGroup_eq, readGroup_eq]
  show groupAt (s.onto frame) (s.flags.skipSpace t) = _
  generalize s.flags.skipSpace t = u
  by_cases hhead : u.head? = some '?'
  · obtain ⟨rest, rfl⟩ := List.head?_eq_some_iff.mp hhead
    exact queryAt_onto
  · have hnumbered (s : State) : groupAt s u =
        some (State.enter { s with nextIndex := s.nextIndex + 1 }
          (some ⟨s.nextIndex, none⟩) s.flags, u) := by
      rw [groupAt]
      rintro rest rfl
      exact hhead rfl
    rw [hnumbered, hnumbered]
    rfl

variable [Package]

/-- A group around all that is open makes no difference, except where it would
be closed. -/
theorem step_onto (hinside : c = ')' → s.stack ≠ []) :
    step (s.onto frame) c t =
      (step s c t).map fun (s, rest) => (s.onto frame, rest) := by
  by_cases hbrace : c = '\x7b'
  · subst hbrace
    rw [step_brace, step_brace]
    rcases (readCounts t).map regroup with _ | ⟨counts, rest⟩
    · rfl
    · exact repeating_onto counts.1 counts.2
  rw [step.eq_def]
  simp only
  split
  · exact readGroup_onto
  · show (s.onto frame).leave?.map _ = (s.leave?.map _).map _
    rw [State.leave?_onto (hinside rfl), Option.map_map, Option.map_map]
    rfl
  · rfl
  · show Option.map _ (ClassReader.read s.flags t) =
      Option.map _ ((ClassReader.read s.flags t).map _)
    rw [Option.map_map]
    rfl
  · exact repeating_onto 0 (some 1)
  · exact repeating_onto 0 none
  · exact repeating_onto 1 none
  · exact absurd rfl hbrace
  · show Option.map _ (anyChar? s.flags) =
      Option.map _ ((anyChar? s.flags).map _)
    rw [Option.map_map]
    rfl
  · rfl
  · rfl
  · show Option.map _ (readEscape s.flags t) =
      Option.map _ ((readEscape s.flags t).map _)
    rw [Option.map_map]
    rfl
  · rw [step]
    · rfl
    all_goals assumption

theorem readOn_of_nil {k : Nat} (hblank : s.flags.skipSpace t = []) :
    readOn k s t = if s.stack.isEmpty then some s.content else none := by
  rw [readOn.eq_def]
  simp only [hblank]

theorem readOn_of_cons {k : Nat} {rest : List Char}
    (hcons : s.flags.skipSpace t = c :: rest) :
    readOn (k + 1) s t =
      (step s c rest).bind fun next => readOn k next.1 next.2 := by
  rw [readOn.eq_def]
  simp only [hcons]
  cases step s c rest <;> rfl

/-- Where nothing can be read, an open group is not closed any more. -/
theorem readOn_of_dead {k : Nat} (hdead : Dead t) (hstack : s.stack ≠ []) :
    readOn k s t = none := by
  rcases hdead with rfl | ⟨rest, rfl, hcounts⟩
  · rw [readOn_of_nil s.flags.skipSpace_nil, if_neg]
    simpa using hstack
  · have hbrace : s.flags.skipSpace ('\x7b' :: rest) = '\x7b' :: rest := by
      have hblank : Text.isBlank '\x7b' = false := by decide
      simp [Flags.skipSpace, Flags.skipSpace.go, hblank]
    cases k with
    | zero =>
        rw [readOn.eq_def]
        simp only [hbrace]
    | succ k =>
        rw [readOn_of_cons hbrace, step_brace, hcounts]
        rfl

theorem readOn_onto_of_dead {k : Nat} (hdead : Dead t) :
    readOn k (s.onto frame) t = none :=
  readOn_of_dead hdead (by simp [State.onto])

/-- The reading comes to a parenthesis that closes no group. -/
def overcloses : Nat → State → List Char → Bool
  | fuel, s, text =>
    match s.flags.skipSpace text with
    | [] => false
    | c :: rest =>
      match fuel with
      | 0 => false
      | fuel + 1 =>
        match step s c rest with
        | none => c == ')'
        | some (s, rest) => overcloses fuel s rest

/-- The pattern that is read when a group with the given content ends the text.
-/
def around (frame : Frame) (p : Pattern) : Pattern :=
  State.content
    { flags := frame.flags
      branches := frame.branches
      items := some (.group frame.capture p) :: frame.items }

/-- What is read from a text alone, with a parenthesis behind it, and with the
parenthesis closing a group around it. -/
inductive Enclosed (frame : Frame) :
    Option Pattern → Option Pattern → Option Pattern → Prop
  | refused (behind : Option Pattern) : Enclosed frame none behind none
  | closed (p : Pattern) : Enclosed frame (some p) none (some (around frame p))
  | commented (p : Pattern) : Enclosed frame (some p) (some p) none

/-- A parenthesis at the end of the text closes the group around it, or one that
the text leaves open, and then the one around it stays open. -/
theorem enclosed_of_nil {k i j : Nat} (hblank : s.flags.skipSpace t = []) :
    Enclosed frame (readOn k s t) (readOn (i + 1) s (t ++ [')']))
      (readOn (j + 1) (s.onto frame) (t ++ [')'])) := by
  have htail := s.flags.tail_skipSpace (.refl t)
  rw [hblank] at htail
  generalize hbehind : s.flags.skipSpace (t ++ [')']) = u at htail
  have honto : (s.onto frame).flags.skipSpace (t ++ [')']) = u := hbehind
  rw [readOn_of_nil hblank]
  cases htail with
  | taken =>
      have hopen : ¬ (s.onto frame).stack.isEmpty := by simp [State.onto]
      rw [readOn_of_nil hbehind, readOn_of_nil honto, if_neg hopen]
      split
      · exact .commented _
      · exact .refused _
  | kept =>
      rw [readOn_of_cons hbehind, readOn_of_cons honto]
      show Enclosed frame _ ((s.leave?.map (·, [])).bind _)
        (((s.onto frame).leave?.map (·, [])).bind _)
      rcases hstack : s.stack with _ | ⟨inner, outer⟩
      · rw [State.leave?_of_nil hstack, State.leave?_onto_of_nil hstack]
        simp only [Option.map_some, Option.map_none, Option.bind_some,
          Option.bind_none, List.isEmpty_nil, if_true]
        rw [readOn_of_nil (Flags.skipSpace_nil _)]
        exact .closed s.content
      · have houter : (s.onto frame).leave? =
            s.leave?.map fun s => s.onto frame :=
          State.leave?_onto (by simp [hstack])
        have hnone (s : State) : readOn j (s.onto frame) [] = none :=
          readOn_onto_of_dead (.inl rfl)
        rw [houter]
        simp only [List.isEmpty_cons, Bool.false_eq_true, if_false]
        cases s.leave? with
        | none => exact .refused _
        | some inner =>
            simp only [Option.map_some, Option.bind_some, hnone]
            exact .refused _

theorem overcloses_of_cons {k : Nat} {rest : List Char}
    (hcons : s.flags.skipSpace t = c :: rest) :
    overcloses (k + 1) s t = match step s c rest with
      | none => c == ')'
      | some (s, rest) => overcloses k s rest := by
  rw [overcloses.eq_def]
  simp only [hcons]

theorem overcloses_of_readOn {k : Nat} {p : Pattern}
    (hread : readOn k s t = some p) : overcloses k s t = false := by
  fun_induction readOn k s t with
  | case1 k s t hblank =>
      rw [overcloses.eq_def]
      simp only [hblank]
  | case2 | case3 | case4 => cases hread
  | case5 s t c rest hcons k next behind hstep ih =>
      rw [overcloses_of_cons hcons, hstep]
      exact ih hread

/-- A text that closes no group it does not open is read alone as between
parentheses, unless a comment takes the closing one. -/
theorem enclosed_readOn {k : Nat} (i j : Nat) (hfuel : t.length ≤ k)
    (hover : overcloses k s t = false) :
    Enclosed frame (readOn k s t) (readOn (k + i + 1) s (t ++ [')']))
      (readOn (k + j + 1) (s.onto frame) (t ++ [')'])) := by
  induction k generalizing s t with
  | zero =>
      obtain rfl := List.length_eq_zero_iff.mp (Nat.le_zero.mp hfuel)
      rw [Nat.zero_add, Nat.zero_add]
      exact enclosed_of_nil s.flags.skipSpace_nil
  | succ k ih =>
      have htail := s.flags.tail_skipSpace (.refl t)
      rw [Nat.succ_add k i, Nat.succ_add k j]
      rcases hskip : s.flags.skipSpace t with _ | ⟨c, rest⟩
      · exact enclosed_of_nil hskip
      rw [hskip] at htail
      generalize hbehind : s.flags.skipSpace (t ++ [')']) = u at htail
      cases htail with
      | kept hle =>
      have honto : (s.onto frame).flags.skipSpace (t ++ [')']) = _ := hbehind
      rw [List.cons_append] at hbehind honto
      rw [overcloses_of_cons hskip] at hover
      rw [readOn_of_cons hskip, readOn_of_cons hbehind, readOn_of_cons honto]
      have hrest : rest.length ≤ k :=
        Nat.le_of_succ_le_succ (Nat.le_trans hle hfuel)
      have hinside : c = ')' → s.stack ≠ [] := by
        rintro rfl hstack
        have hleave : step s ')' rest = none := by
          show s.leave?.map _ = none
          rw [State.leave?_of_nil hstack]
          rfl
        rw [hleave] at hover
        cases hover
      rw [step_onto hinside]
      have hstep := followed_step s c rest
      generalize step s c rest = x, step s c (rest ++ [')']) = y at hstep hover
      cases hstep with
      | failed => exact .refused _
      | late next hdead =>
          have hnone : readOn (k + j + 1) (next.onto frame) _ = none :=
            readOn_onto_of_dead hdead
          simp only [Option.map_some, Option.bind_some, hnone]
          exact .refused _
      | read next htail =>
          simp only [Option.map_some, Option.bind_some]
          cases htail with
          | kept hle => exact ih (Nat.le_trans hle hrest) hover
          | taken =>
              have hnone : readOn (k + j + 1) (next.onto frame) [] = none :=
                readOn_onto_of_dead (.inl rfl)
              rw [hnone, readOn_of_nil next.flags.skipSpace_nil,
                readOn_of_nil next.flags.skipSpace_nil]
              split
              · exact .commented _
              · exact .refused _

end Reader

end Specimen.Regex
