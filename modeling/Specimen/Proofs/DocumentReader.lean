/-
Reading documents back.  The reader takes one character after the other: it is
inside a tag or outside of all, and keeps the elements that are open with what
was read of them.  The tags have to nest, the predefined entities are resolved,
and white space is left out only beside child elements.  All that is read inside
a tag and all children are kept with the last first.
-/
import Specimen.Document.Node
import Specimen.Markup.Token

namespace Specimen.Reading

open Markup.Token (isSpace decode)

/-- The ranges of the characters that names begin with. -/
def nameStartRanges : List (Nat × Nat) :=
  [(0x3A, 0x3A), (0x41, 0x5A), (0x5F, 0x5F), (0x61, 0x7A), (0xC0, 0xD6),
    (0xD8, 0xF6), (0xF8, 0x2FF), (0x370, 0x37D), (0x37F, 0x1FFF),
    (0x200C, 0x200D), (0x2070, 0x218F), (0x2C00, 0x2FEF), (0x3001, 0xD7FF),
    (0xF900, 0xFDCF), (0xFDF0, 0xFFFD), (0x10000, 0xEFFFF)]

def nameInnerRanges : List (Nat × Nat) :=
  [(0x2D, 0x2E), (0x30, 0x39), (0xB7, 0xB7), (0x300, 0x36F), (0x203F, 0x2040)]

/-- The code point of the character is in one of the ranges. -/
def isWithin (ranges : List (Nat × Nat)) (c : Char) : Bool :=
  ranges.any fun (first, last) => first ≤ c.toNat && c.toNat ≤ last

def isNameStart (c : Char) : Bool := isWithin nameStartRanges c

def isNameChar (c : Char) : Bool := isNameStart c || isWithin nameInnerRanges c

/-- The text is a name of XML. -/
def IsName (name : List Char) : Prop :=
  ∃ first rest, name = first :: rest ∧ isNameStart first ∧
    ∀ c ∈ rest, isNameChar c

instance : DecidablePred IsName
  | [] => .isFalse nofun
  | first :: rest =>
    decidable_of_iff (isNameStart first ∧ rest.all isNameChar)
      ⟨fun ⟨hfirst, hrest⟩ =>
        ⟨first, rest, rfl, hfirst, List.all_eq_true.mp hrest⟩,
      fun ⟨_, _, rfl, hfirst, hrest⟩ =>
        ⟨hfirst, List.all_eq_true.mpr hrest⟩⟩

/-- The name and the attributes in a start tag. -/
structure Head where
  name : List Char
  attributes : List (String × String) := []

namespace Head

def push (head : Head) (label value : List Char) : Head :=
  { head with attributes :=
      (String.ofList label.reverse, String.ofList value) :: head.attributes }

def node (head : Head) (text : Option String) (children : List Node) : Node :=
  { name := String.ofList head.name.reverse
    attributes := head.attributes.reverse
    text
    children }

end Head

/-- What has been read since the bracket that begins a tag. -/
inductive Tag where
  | opened
  | ending (name : List Char)
  | ended (name : List Char)
  | naming (name : List Char)
  | between (head : Head)
  | labelling (head : Head) (label : List Char)
  | labelled (head : Head) (label : List Char)
  | assigned (head : Head) (label : List Char)
  | valued (head : Head) (label : List Char) (quote : Char) (value : List Char)
  | behind (head : Head)
  | closing (head : Head)

/-- A tag that is complete. -/
inductive Piece where
  | start (head : Head)
  | whole (head : Head)
  | finish (name : List Char)

namespace Tag

/-- Take a character that is no bracket, or one between quotes. -/
def next : Tag → Char → Option Tag
  | opened, c =>
    if c = '/' then some (ending [])
    else if isNameStart c then some (naming [c])
    else none
  | ending name, c =>
    if isNameChar c then some (ending (c :: name))
    else if isSpace c then some (ended name)
    else none
  | ended name, c => if isSpace c then some (ended name) else none
  | naming name, c =>
    if isNameChar c then some (naming (c :: name))
    else if isSpace c then some (between ⟨name, []⟩)
    else if c = '/' then some (closing ⟨name, []⟩)
    else none
  | between head, c =>
    if isSpace c then some (between head)
    else if c = '/' then some (closing head)
    else if isNameStart c then some (labelling head [c])
    else none
  | labelling head label, c =>
    if isNameChar c then some (labelling head (c :: label))
    else if isSpace c then some (labelled head label)
    else if c = '=' then some (assigned head label)
    else none
  | labelled head label, c =>
    if isSpace c then some (labelled head label)
    else if c = '=' then some (assigned head label)
    else none
  | assigned head label, c =>
    if isSpace c then some (assigned head label)
    else if c = '"' ∨ c = '\'' then some (valued head label c [])
    else none
  | valued head label quote value, c =>
    if c = quote then
      (decode none value.reverse).map fun value =>
        behind (head.push label value)
    else some (valued head label quote (c :: value))
  | behind head, c =>
    if isSpace c then some (between head)
    else if c = '/' then some (closing head)
    else none
  | closing _, _ => none

def run (tag : Tag) (s : List Char) : Option Tag := s.foldlM next tag

def isQuoted : Tag → Bool
  | valued .. => true
  | _ => false

/-- The tag that a bracket ends here. -/
def piece? : Tag → Option Piece
  | ending name => some (.finish name)
  | ended name => some (.finish name)
  | naming name => some (.start ⟨name, []⟩)
  | between head => some (.start head)
  | behind head => some (.start head)
  | closing head => some (.whole head)
  | _ => none

end Tag

/-- The text that characters of a document stand for; empty text is none. -/
def decodeText (s : List Char) : Option (Option String) :=
  (decode none s).map fun text => (some (String.ofList text)).filter (· ≠ "")

/-- An open element: its start tag, its text and its children. -/
structure Frame where
  head : Head
  text : List Char := []
  children : List Node := []

/-- The finished element: it has no text but white space beside children. -/
def Frame.node? (frame : Frame) : Option Node :=
  match frame.children with
  | [] => (decodeText frame.text.reverse).map (frame.head.node · [])
  | children =>
    if frame.text.all isSpace then some (frame.head.node none children.reverse)
    else none

/-- What has been read: the open tag, the open elements, the innermost first,
and the root once it is finished. -/
structure State where
  tag : Option Tag := none
  opened : List Frame := []
  root : Option Node := none

namespace State

/-- Add an element to the innermost open one, or as the root. -/
def add (s : State) (n : Node) : Option State :=
  match s.opened with
  | frame :: outer =>
    some { s with
      opened := { frame with children := n :: frame.children } :: outer }
  | [] => if s.root.isNone then some { s with root := some n } else none

/-- Take a tag.  Each end tag has the name of the innermost open element. -/
def take (s : State) : Piece → Option State
  | .start head =>
    if s.opened.isEmpty && s.root.isSome then none
    else some { s with opened := { head } :: s.opened }
  | .whole head => s.add (head.node none [])
  | .finish name =>
    match s.opened with
    | frame :: outer =>
      if frame.head.name = name then
        frame.node?.bind { s with opened := outer }.add
      else none
    | [] => none

/-- Take a character of text.  Outside of the root only white space may stand.
-/
def letter (s : State) (c : Char) : Option State :=
  match s.opened with
  | frame :: outer =>
    some { s with opened := { frame with text := c :: frame.text } :: outer }
  | [] => if isSpace c then some s else none

/-- Take a character.  No tag may begin inside another one. -/
def step (s : State) (c : Char) : Option State :=
  match s.tag with
  | none => if c = '<' then some { s with tag := some .opened } else s.letter c
  | some tag =>
    if c = '<' then none
    else if c = '>' ∧ tag.isQuoted = false then
      tag.piece?.bind { s with tag := none }.take
    else (tag.next c).map fun tag => { s with tag := some tag }

def run (s : State) (text : List Char) : Option State := text.foldlM step s

/-- The document, if nothing is left open. -/
def document? (s : State) : Option Node :=
  if s.tag.isNone && s.opened.isEmpty then s.root else none

end State

/-- The text behind the XML declaration, which may be missing. -/
def behindDeclaration (s : List Char) : Option (List Char) :=
  if "<?xml".toList.isPrefixOf s then
    (Markup.Token.cutAt ['?', '>'] s).map (·.2)
  else some s

/-- The tree of a document. -/
def read (text : String) : Option Node := do
  let s ← State.run {} (← behindDeclaration text.toList)
  s.document?

/-- The characters that have a meaning of their own around names. -/
def delimiters : List Char := ['<', '>', '/', '=', '"', ' ', '\t', '\n', '\r']

theorem isNameChar_eq_false {c : Char} (hc : c ∈ delimiters) :
    isNameChar c = false := by
  have hnone : delimiters.all (isNameChar · == false) := by decide
  exact beq_iff_eq.mp (List.all_eq_true.mp hnone c hc)

theorem isNameChar_of_isNameStart {c : Char} (hc : isNameStart c) :
    isNameChar c := by
  simp [isNameChar, hc]

theorem ne_of_isNameChar {c d : Char} (hc : isNameChar c)
    (hd : d ∈ delimiters) : c ≠ d := by
  rintro rfl
  rw [isNameChar_eq_false hd] at hc
  exact nomatch hc

theorem isSpace_of_isNameChar {c : Char} (hc : isNameChar c) :
    isSpace c = false := by
  have hne (d : Char) (hd : d ∈ delimiters) : (c == d) = false :=
    beq_eq_false_iff_ne.mpr (ne_of_isNameChar hc hd)
  rw [isSpace, hne ' ' (by decide), hne '\t' (by decide),
    hne '\n' (by decide), hne '\r' (by decide)]
  rfl

theorem IsName.isNameChar {name : List Char} (hname : IsName name) :
    ∀ c ∈ name, isNameChar c := by
  obtain ⟨first, rest, rfl, hfirst, hrest⟩ := hname
  exact List.forall_mem_cons.mpr ⟨isNameChar_of_isNameStart hfirst, hrest⟩

namespace Tag

theorem run_cons (tag : Tag) (c : Char) (s : List Char) :
    tag.run (c :: s) = (tag.next c).bind (run · s) := List.foldlM_cons

theorem run_append (tag : Tag) (s t : List Char) :
    tag.run (s ++ t) = (tag.run s).bind (run · t) := List.foldlM_append

/-- A tag that keeps the characters of one kind keeps all of them. -/
theorem run_keeping (keeping : List Char → Tag) {s : List Char}
    (hnext : ∀ c ∈ s, ∀ kept, (keeping kept).next c =
      some (keeping (c :: kept)))
    (kept : List Char) :
    (keeping kept).run s = some (keeping (s.reverse ++ kept)) := by
  induction s generalizing kept with
  | nil => rfl
  | cons c rest ih =>
      obtain ⟨hc, hrest⟩ := List.forall_mem_cons.mp hnext
      rw [run_cons, hc, Option.bind_some, ih hrest, List.reverse_cons,
        List.append_assoc, List.singleton_append]

/-- The tag has everything up to the end of the name or of an attribute. -/
structure Awaits (tag : Tag) (head : Head) : Prop where
  piece : tag.piece? = some (.start head)
  space : tag.next ' ' = some (between head)

theorem awaits_naming (name : List Char) : (naming name).Awaits ⟨name, []⟩ where
  piece := rfl
  space := by
    rw [next, isNameChar_eq_false (by decide)]
    rfl

theorem awaits_behind (head : Head) : (behind head).Awaits head := ⟨rfl, rfl⟩

/-- No tag ends between quotes. -/
theorem isQuoted_eq_false {tag : Tag} {piece : Piece}
    (hpiece : tag.piece? = some piece) : tag.isQuoted = false := by
  cases tag with
  | valued => exact nomatch hpiece
  | _ => rfl

end Tag

end Specimen.Reading
