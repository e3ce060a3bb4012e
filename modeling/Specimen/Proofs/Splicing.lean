/-
Templates are filled in by splicing.  The placeholders are evaluated one after
the other, and the text that comes out has their values in the place of their
bytes and is otherwise the text of the template.  Putting the values in from the
last placeholder to the first gives the same, since the bytes in front of a
placeholder do not move.
-/
import Specimen.Proofs.BracePairs
import Specimen.Proofs.ScopeLifetime

namespace Specimen

namespace Text

theorem splitBytes?_append (front back : List Char) :
    splitBytes? (byteLength front) (front ++ back) = some (front, back) := by
  induction front with
  | nil => cases back <;> rfl
  | cons c front ih =>
      obtain ⟨n, hn⟩ := Nat.exists_eq_add_one.mpr c.utf8Size_pos
      have hbytes : byteLength (c :: front) = n + byteLength front + 1 := by
        rw [byteLength_cons, hn]
        omega
      have hleft : n + byteLength front + 1 - c.utf8Size =
          byteLength front := by
        omega
      rw [hbytes, List.cons_append, splitBytes?, if_pos (by omega), hleft, ih]
      rfl

/-- The text between two bytes, if both are boundaries of characters. -/
def slice? (start stop : Nat) (text : List Char) : Option (List Char) := do
  let (_, behind) ← splitBytes? start text
  let (part, _) ← splitBytes? (stop - start) behind
  return part

/-- The text with a value in the place of what stands between two bytes. -/
def replaceRange? (start stop : Nat) (value text : List Char) :
    Option (List Char) := do
  let (front, behind) ← splitBytes? start text
  let (_, back) ← splitBytes? (stop - start) behind
  return front ++ value ++ back

section Range

variable (front part back : List Char) {start stop : Nat}

theorem slice?_append (hstart : start = byteLength front)
    (hstop : stop = start + byteLength part) :
    slice? start stop (front ++ part ++ back) = some part := by
  have hlength : stop - start = byteLength part := by omega
  subst hstart
  simp [slice?, hlength, splitBytes?_append]

theorem replaceRange?_append (value : List Char)
    (hstart : start = byteLength front)
    (hstop : stop = start + byteLength part) :
    replaceRange? start stop value (front ++ part ++ back) =
      some (front ++ value ++ back) := by
  have hlength : stop - start = byteLength part := by omega
  subst hstart
  simp [replaceRange?, hlength, splitBytes?_append]

end Range

end Text

namespace Template

/-- Placeholders are evaluated one after the other, each in the state that the
one before it has left.  The first that fails is the last that is evaluated. -/
inductive Evaluates [Regex.Package] (files : Files) :
    Session → List Placeholder → Except TemplateError (List String) → Session →
      Prop
  | done (s : Session) : Evaluates files s [] (.ok []) s
  | next {s t u : Session} {p : Placeholder} {value : String}
      {later : List Placeholder} {given : Except TemplateError (List String)}
      (hvalue : outcome (p.toCall.resolve files) s = (.ok value, t))
      (hlater : Evaluates files t later given u) :
      Evaluates files s (p :: later) (given.map (value :: ·)) u
  | fails {s t : Session} {p : Placeholder} {error : TemplateError}
      {later : List Placeholder}
      (herror : outcome (p.toCall.resolve files) s = (.error error, t)) :
      Evaluates files s (p :: later) (.error error) t

/-- The text from a byte on with the values in the place of the bytes of their
placeholders. -/
def splice? (text : List Char) :
    Nat → List Placeholder → List String → Option (List Char)
  | position, p :: later, value :: values => do
    let literal ← Text.slice? position p.start text
    let tail ← splice? text p.stop later values
    return literal ++ value.toList ++ tail
  | position, _, _ => Text.slice? position (Text.byteLength text) text

/-- The values are put into the text one by one, the last one first. -/
def replaceFromLast? (text : List Char) (placeholders : List Placeholder)
    (values : List String) : Option (List Char) :=
  (placeholders.zip values).foldrM
    (fun (p, value) text => Text.replaceRange? p.start p.stop value.toList text)
    text

theorem evaluates_evaluations [Regex.Package] (files : Files)
    (placeholders : List Placeholder) (s : Session) :
    Evaluates files s placeholders (values (evaluations files placeholders s))
      (stateBehind s (evaluations files placeholders s)) := by
  induction placeholders generalizing s with
  | nil => exact .done s
  | cons p placeholders ih =>
      have heval : outcome (p.toCall.resolve files) s =
          (Evaluation.result ⟨p.toCall, files, s⟩,
            Evaluation.after ⟨p.toCall, files, s⟩) := rfl
      cases hresult : Evaluation.result ⟨p.toCall, files, s⟩ with
      | error error =>
          rw [hresult] at heval
          rw [evaluations_cons_of_error hresult]
          simp only [values, hresult]
          exact .fails heval
      | ok value =>
          rw [hresult] at heval
          rw [evaluations_cons_of_ok hresult]
          simp only [values, hresult]
          exact .next heval (ih _)

/-- There is only one way to evaluate placeholders from a state. -/
theorem Evaluates.unique [Regex.Package] {files : Files} {s u u' : Session}
    {placeholders : List Placeholder}
    {given given' : Except TemplateError (List String)}
    (hgiven : Evaluates files s placeholders given u)
    (hgiven' : Evaluates files s placeholders given' u') :
    given' = given ∧ u' = u := by
  induction hgiven generalizing given' u' with
  | done s =>
      cases hgiven'
      exact ⟨rfl, rfl⟩
  | next hvalue hlater ih =>
      cases hgiven' with
      | next hvalue' hlater' =>
          cases hvalue.symm.trans hvalue'
          obtain ⟨rfl, rfl⟩ := ih hlater'
          exact ⟨rfl, rfl⟩
      | fails herror => cases hvalue.symm.trans herror
  | fails herror =>
      cases hgiven' with
      | next hvalue hlater => cases herror.symm.trans hvalue
      | fails herror' =>
          cases herror.symm.trans herror'
          exact ⟨rfl, rfl⟩

/-- Every placeholder that is evaluated gives one value. -/
theorem Evaluates.length_eq [Regex.Package] {files : Files} {s u : Session}
    {placeholders : List Placeholder}
    {given : Except TemplateError (List String)}
    (hgiven : Evaluates files s placeholders given u) :
    ∀ values, given = .ok values → values.length = placeholders.length := by
  induction hgiven with
  | done s => rintro values ⟨⟩; rfl
  | next hvalue hlater ih =>
      intro values hvalues
      obtain ⟨found, hfound, rfl⟩ := map_eq_ok_iff.mp hvalues
      rw [List.length_cons, List.length_cons, ih found hfound]
  | fails herror => rintro values ⟨⟩

/-- The text from a byte on is cut into literal text and the bytes of the
placeholders. -/
inductive Parted :
    Nat → List Char → List (List Char × Placeholder) → List Char → Prop
  | literal (position : Nat) (rest : List Char) : Parted position rest [] rest
  | placeholder {position : Nat} {before braces behind rest : List Char}
      {p : Placeholder} {parts : List (List Char × Placeholder)}
      (hstart : p.start = position + Text.byteLength before)
      (hstop : p.stop = p.start + Text.byteLength braces)
      (hparts : Parted p.stop behind parts rest) :
      Parted position (before ++ braces ++ behind) ((before, p) :: parts) rest

theorem parted_of_readFrom {position : Nat} {text : List Char}
    {template : Template} (hread : readFrom position text = .ok template) :
    Parted position text template.parts template.rest := by
  refine readFrom_induction ?_ ?_ hread
  · intro position text _
    exact .literal position text
  · intro position before inner behind call others _ _ _ hothers
    have hsplit : before ++ '{' :: '{' :: (inner ++ '}' :: '}' :: behind) =
        before ++ '{' :: '{' :: (inner ++ ['}', '}']) ++ behind := by simp
    rw [hsplit]
    exact .placeholder rfl (behindBraces_eq _ inner) hothers

namespace Parted

variable {position : Nat} {text rest : List Char}
  {parts : List (List Char × Placeholder)} {values : List String}

theorem splice?_eq (hparted : Parted position text parts rest)
    (front : List Char) (hfront : position = Text.byteLength front)
    (hvalues : values.length = parts.length) :
    splice? (front ++ text) position (parts.map (·.2)) values =
      some (filled rest parts values) := by
  induction hparted generalizing front values with
  | literal position rest =>
      have hslice := Text.slice?_append front rest [] hfront rfl
      simpa [splice?, filled, hfront] using hslice
  | @placeholder position before braces behind rest p parts hstart hstop hparts
      ih =>
      cases values with
      | nil => simp at hvalues
      | cons value values =>
          have hliteral :=
            Text.slice?_append front before (braces ++ behind) hfront hstart
          have htail := ih (front ++ before ++ braces)
            (by simp [hstop, hstart, hfront, Nat.add_assoc])
            (by simpa using hvalues)
          simp only [List.append_assoc] at hliteral htail ⊢
          simp [splice?, filled, hliteral, htail]

/-- Nothing moves in front of a placeholder whose value is put in, so the bytes
of those before it stay where they are. -/
theorem replaceFromLast?_eq (hparted : Parted position text parts rest)
    (front : List Char) (hfront : position = Text.byteLength front)
    (hvalues : values.length = parts.length) :
    replaceFromLast? (front ++ text) (parts.map (·.2)) values =
      some (front ++ filled rest parts values) := by
  induction hparted generalizing front values with
  | literal position rest => simp [replaceFromLast?, filled]
  | @placeholder position before braces behind rest p parts hstart hstop hparts
      ih =>
      cases values with
      | nil => simp at hvalues
      | cons value values =>
          have hlater := ih (front ++ before ++ braces)
            (by simp [hstop, hstart, hfront, Nat.add_assoc])
            (by simpa using hvalues)
          have hreplaced := Text.replaceRange?_append (front ++ before) braces
            (filled rest parts values) value.toList
            (by simp [hstart, hfront]) hstop
          simp only [replaceFromLast?, List.append_assoc] at hlater hreplaced ⊢
          simp [filled, hlater, hreplaced]

end Parted

/-- A template is filled in by splicing the values of its placeholders into its
text, whichever order they are put in.  A template that cannot be read changes
nothing, and a placeholder that fails ends the evaluation with its error. -/
theorem expand_splices [Regex.Package] (files : Files) (text : String)
    (s : Session) :
    match parse text with
    | .error e => outcome (expand files text) s = (.error (.malformed e), s)
    | .ok template =>
      ∃ given u,
        (∀ given' u', Evaluates files s template.placeholders given' u' ↔
          given' = given ∧ u' = u) ∧
        match given with
        | .error error => outcome (expand files text) s = (.error error, u)
        | .ok values => ∃ result,
          outcome (expand files text) s = (.ok (String.ofList result), u) ∧
          splice? text.toList 0 template.placeholders values = some result ∧
          replaceFromLast? text.toList template.placeholders values =
            some result := by
  have houtcome := outcome_expand files text s
  cases hparse : parse text with
  | error e => simpa only [hparse] using houtcome
  | ok template =>
      simp only [hparse] at houtcome ⊢
      have hgiven := evaluates_evaluations files template.placeholders s
      refine ⟨_, _, fun given' u' => ⟨hgiven.unique, ?_⟩, ?_⟩
      · rintro ⟨rfl, rfl⟩
        exact hgiven
      rw [houtcome]
      cases hvalues : values (evaluations files template.placeholders s) with
      | error error => rfl
      | ok values =>
          have hparted := parted_of_readFrom (readFrom_of_parse hparse)
          have hlength : values.length = template.parts.length := by
            simpa [placeholders] using hgiven.length_eq values hvalues
          exact ⟨_, rfl, hparted.splice?_eq [] rfl hlength,
            hparted.replaceFromLast?_eq [] rfl hlength⟩

/-- A value is not read as a template again. -/
example : (outcome (expand {} "\x7b\x7b any('\x7b\x7buuid') \x7d\x7d\x7d\x7d")
    (Session.ofSeed 1)).1.toOption = some "\x7b\x7buuid\x7d\x7d" := by
  decide +kernel

end Template

end Specimen
