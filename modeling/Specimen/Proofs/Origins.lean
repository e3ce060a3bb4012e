/-
Where the types of a model come from: they are declared, or builtin, or inline
types that are met on the way.  Each type that is declared, and each top-level
element that has no named type, owns a type and the inline types that are met
when it is converted.
-/
import Specimen.Proofs.BuiltinTypes
import Specimen.Proofs.Collecting
import Specimen.Proofs.ConversionRuns

namespace Specimen

namespace Model

/-- The builtin types of the model exist, and each of them has with it what it
needs. -/
structure Furnished (m : Model) : Prop where
  known : ∀ name, (m.builtins.lookup name).isSome →
    (SimpleType.builtin? name).isSome
  needs : ∀ name other, (m.builtins.lookup name).isSome →
    SimpleType.Needs name other → (m.builtins.lookup other).isSome

variable {m : Model} {name : String} {type : TypeDef}

theorem lookup_intern_of_ne {other : String} (hne : other ≠ name) :
    (m.intern name type).builtins.lookup other = m.builtins.lookup other := by
  rw [intern, List.lookup_cons, beq_false_of_ne hne]

theorem lookup_intern_isSome {other : String}
    (hsome : (m.builtins.lookup other).isSome) :
    ((m.intern name type).builtins.lookup other).isSome := by
  by_cases hname : other = name
  · subst hname
    rw [lookup_intern_self]
    rfl
  · rwa [lookup_intern_of_ne hname]

theorem Interns.known (htype : m.Interns name type) :
    (SimpleType.builtin? name).isSome := by
  cases htype with
  | primitive hbuiltin => exact Option.isSome_of_eq_some hbuiltin
  | derived hbuiltin => exact Option.isSome_of_eq_some hbuiltin

theorem Furnished.intern (hfurnished : m.Furnished)
    (htype : m.Interns name type) : (m.intern name type).Furnished where
  known other hother := by
    by_cases hname : other = name
    · subst hname
      exact htype.known
    · rw [lookup_intern_of_ne hname] at hother
      exact hfurnished.known other hother
  needs other another hother hneeds := by
    by_cases hname : other = name
    · subst hname
      cases hneeds with
      | self => exact hother
      | primitive hneeded hfacets =>
          cases htype with
          | primitive hbuiltin =>
              rw [hbuiltin] at hneeded
              cases hneeded
              exact absurd rfl hfacets
          | derived hbuiltin _ hbase =>
              cases hbuiltin.symm.trans hneeded
              exact lookup_intern_isSome (Option.isSome_of_eq_some hbase)
    · rw [lookup_intern_of_ne hname] at hother
      exact lookup_intern_isSome (hfurnished.needs _ _ hother hneeds)

theorem Furnished.builtin?_eq_none_iff (hfurnished : m.Furnished) :
    m.builtin? name = none ↔ SimpleType.builtin? name = none := by
  rw [Model.builtin?_eq_none_iff]
  constructor
  · exact fun hnone => hnone.2
  · intro hnone
    cases hlookup : m.builtins.lookup name with
    | none => exact ⟨rfl, hnone⟩
    | some id =>
        have hknown := hfurnished.known name (Option.isSome_of_eq_some hlookup)
        rw [hnone] at hknown
        cases hknown

end Model

namespace Declaration

/-- What is converted for its own sake: a named type, or the inline type of a
top-level element. -/
inductive Owner where
  | type (name : String)
  | element (name : String)
deriving DecidableEq

/-- Where a type comes from.  The inline types of an owner are told apart by the
numbers that they get if it is converted alone. -/
inductive Origin where
  | owned (owner : Owner)
  | builtin (name : String)
  | inline (owner : Owner) (number : TypeId)
deriving DecidableEq

namespace Origin

/-- The builtin types that are added for the sake of a type. -/
def Asks : Origin → String → Prop
  | builtin name, other => SimpleType.Needs name other
  | _, _ => False

/-- If the type is a builtin one there is such a type. -/
def Known : Origin → Prop
  | builtin name => (SimpleType.builtin? name).isSome
  | _ => True

/-- The end of a search for a type: it is found with what belongs to it, or
there is no such type. -/
inductive Finds (origin : Origin) (gains : TypeId → Builder → Prop) :
    Except DeclarationError (TypeId × Builder) → Prop where
  | known {id : TypeId} {b : Builder} (hknown : origin.Known)
    (hgains : gains id b) : Finds origin gains (.ok (id, b))
  | unknown (hunknown : ¬ origin.Known) (e : DeclarationError) :
    Finds origin gains (.error e)

end Origin

namespace Directory

variable (D : Directory)

/-- What a reference to a type by its name leads to. -/
def typeOrigin (name : String) : Origin :=
  if (D.types.lookup name).isSome then .owned (.type name) else .builtin name

/-- Where the type of a top-level element comes from. -/
def elementOrigin (name : String) (decl : ElementDeclaration) : Origin :=
  match decl.head.type with
  | some type => D.typeOrigin type
  | none => .owned (.element name)

end Directory

/-- What an owner has to be converted: a named type, or the inline type of an
element. -/
inductive Content where
  | type (content : TypeContent)
  | element (items : List ElementItem)

/-- Convert what an owner has.  An element without a type may have any content.
-/
def Content.convert (directory : Directory) (references : References)
    (expanding : List String) : Content → Conversion TypeDef
  | type (.simple items) => simpleType directory items
  | type (.complex items) => do
    let type ← complexItems directory references expanding items {}
    return .complex type
  | element items => do
    let inline ← elementItems directory references expanding items none
    return inline.getD (.builtin .anyType)

theorem addReference_eq (m : Model) (name : String) :
    m.addReference name =
      { m with references := (m.addReference name).references } := by
  unfold Model.addReference
  split <;> rfl

theorem mem_addReference {m : Model} {name other : String} :
    other ∈ (m.addReference name).references ↔
      other = name ∨ other ∈ m.references := by
  unfold Model.addReference
  split
  · rename_i hcontains
    constructor
    · exact .inr
    · rintro (rfl | hother)
      · simpa using hcontains
      · exact hother
  · exact List.mem_cons

/-- A top-level element with a named type and nothing else has the type that the
name stands for. -/
theorem finds_namedType {D : Directory} {references : References}
    {expanding : List String} {b : Builder} {name type : String}
    {origin : Origin} {gains gains' : TypeId → Builder → Prop}
    (hfinds : origin.Finds gains ((Conversion.type D type).run b))
    (hnote : ∀ id b', b'.elementTypes = b.elementTypes → gains id b' →
      gains' id { b' with elementTypes := (name, id) :: b'.elementTypes }) :
    origin.Finds gains'
      ((namedType D references expanding name type []).run b) := by
  have hrun : (namedType D references expanding name type []).run b =
      (Conversion.type D type >>= fun id => do
        Conversion.note name id
        return id).run b := by
    rw [namedType, elementItems]
    rfl
  rw [hrun]
  generalize hresult : (Conversion.type D type).run b = result at hfinds
  cases hfinds with
  | known hknown hgains =>
      rw [Conversion.run_bind_of_ok hresult]
      exact .known hknown
        (hnote _ _ (Conversion.elementTypes_of_run_type hresult) hgains)
  | unknown hunknown e =>
      rw [Conversion.run_bind_of_error hresult]
      exact .unknown hunknown e

end Declaration

end Specimen
