/-
Builtin types in a model.  A builtin type gets its number when it is first asked
for; a derived one comes behind the primitive type that it restricts.  Whoever
asks for a builtin type by its name gets the kind and the facets of that name.
-/
import Specimen.Proofs.FacetChains

namespace Specimen

namespace SimpleType

theorem builtin?_kind (kind : Kind) :
    builtin? kind.name = some ⟨kind, .none⟩ := by
  cases kind <;> rfl

/-- The builtin types that are in a model if the one with the name is: the type
itself, and the primitive type that it restricts. -/
inductive Needs (name : String) : String → Prop where
  | self {type : SimpleType} (hbuiltin : builtin? name = some type) :
    Needs name name
  | primitive {type : SimpleType} (hbuiltin : builtin? name = some type)
    (hfacets : type.facets ≠ .none) : Needs name type.kind.name

end SimpleType

namespace Model

def intern (m : Model) (name : String) (type : TypeDef) : Model :=
  { m with
    types := m.types ++ [type]
    builtins := (name, m.types.length) :: m.builtins }

/-- The definition that a builtin type gets if it is added to a model. -/
inductive Interns (m : Model) : String → TypeDef → Prop where
  | primitive {name : String} {kind : Kind}
    (hbuiltin : SimpleType.builtin? name = some ⟨kind, .none⟩) :
    Interns m name (.builtin kind)
  | derived {name : String} {type : SimpleType} {base : TypeId}
    (hbuiltin : SimpleType.builtin? name = some type)
    (hfacets : type.facets ≠ .none)
    (hbase : m.builtins.lookup type.kind.name = some base) :
    Interns m name (.restriction base type.facets)

variable {m m' : Model} {name : String} {id : TypeId}

theorem lookup_intern_self (m : Model) (name : String) (type : TypeDef) :
    (m.intern name type).builtins.lookup name = some m.types.length := by
  simp [intern]

theorem primitive_induction {motive : Model → Prop} (name : String)
    (kind : Kind) (hm : motive m)
    (hstep : m.builtins.lookup name = none →
      motive (m.intern name (.builtin kind))) :
    motive (m.primitive name kind).2 ∧
      (m.primitive name kind).2.builtins.lookup name =
        some (m.primitive name kind).1 := by
  unfold primitive
  cases hlookup : m.builtins.lookup name with
  | some id => exact ⟨hm, hlookup⟩
  | none => exact ⟨hstep hlookup, lookup_intern_self m name _⟩

/-- What holds of a model and is kept by adding what the builtin type needs one
by one holds behind the question for that type, whose answer is then in the
model. -/
theorem builtin?_induction {motive : Model → Prop} (hm : motive m)
    (hstep : ∀ m other type, SimpleType.Needs name other →
      m.builtins.lookup other = none → m.Interns other type → motive m →
        motive (m.intern other type))
    (hbuiltin : m.builtin? name = some (id, m')) :
    motive m' ∧ m'.builtins.lookup name = some id := by
  unfold builtin? at hbuiltin
  cases hlookup : m.builtins.lookup name with
  | some found =>
      rw [hlookup] at hbuiltin
      cases hbuiltin
      exact ⟨hm, hlookup⟩
  | none =>
      rw [hlookup] at hbuiltin
      obtain ⟨type, htype, hresult⟩ := Option.map_eq_some_iff.mp hbuiltin
      split at hresult
      · rename_i hfacets
        have htype' : SimpleType.builtin? name = some ⟨type.kind, .none⟩ := by
          rw [htype, ← hfacets]
        have hadded := primitive_induction name type.kind hm fun hnone =>
          hstep m name _ (.self htype) hnone (.primitive htype') hm
        rw [hresult] at hadded
        exact hadded
      · rename_i hfacets
        have hne : name ≠ type.kind.name := by
          rintro hname
          rw [hname, SimpleType.builtin?_kind] at htype
          exact hfacets (congrArg SimpleType.facets
            (Option.some.inj htype)).symm
        obtain ⟨⟨hmotive, hnone⟩, hbase⟩ := primitive_induction
          (motive := fun m => motive m ∧ m.builtins.lookup name = none)
          type.kind.name type.kind ⟨hm, hlookup⟩
          fun hnone => ⟨hstep m _ _ (.primitive htype hfacets) hnone
            (.primitive (SimpleType.builtin?_kind type.kind)) hm,
            by rw [intern, List.lookup_cons, beq_false_of_ne hne, hlookup]⟩
        cases hresult
        exact ⟨hstep _ name _ (.self htype) hnone
          (.derived htype hfacets hbase) hmotive, lookup_intern_self _ _ _⟩

theorem builtin?_eq_none_iff :
    m.builtin? name = none ↔
      m.builtins.lookup name = none ∧ SimpleType.builtin? name = none := by
  unfold builtin?
  cases m.builtins.lookup name <;> simp

/-- Behind a number stands the builtin type with the name, as far as a model has
definitions. -/
inductive BuiltinAt (definition : TypeId → TypeDef → Prop) (name : String)
    (id : TypeId) : Prop where
  | primitive {kind : Kind}
    (hbuiltin : SimpleType.builtin? name = some ⟨kind, .none⟩)
    (hdefinition : definition id (.builtin kind))
  | derived {type : SimpleType} {base : TypeId}
    (hbuiltin : SimpleType.builtin? name = some type)
    (hfacets : type.facets ≠ .none)
    (hdefinition : definition id (.restriction base type.facets))
    (hbase : definition base (.builtin type.kind))

theorem BuiltinAt.mono {definition definition' : TypeId → TypeDef → Prop}
    (hbuiltin : BuiltinAt definition name id)
    (hle : ∀ id d, definition id d → definition' id d) :
    BuiltinAt definition' name id := by
  cases hbuiltin with
  | primitive hname hdefinition =>
      exact .primitive hname (hle _ _ hdefinition)
  | derived hname hfacets hdefinition hbase =>
      exact .derived hname hfacets (hle _ _ hdefinition) (hle _ _ hbase)

theorem BuiltinAt.of_kind {definition : TypeId → TypeDef → Prop} {kind : Kind}
    (hbuiltin : BuiltinAt definition kind.name id) :
    definition id (.builtin kind) := by
  cases hbuiltin with
  | primitive hname hdefinition =>
      rw [SimpleType.builtin?_kind] at hname
      cases hname
      exact hdefinition
  | derived hname hfacets =>
      rw [SimpleType.builtin?_kind] at hname
      exact absurd (congrArg SimpleType.facets (Option.some.inj hname)).symm
        hfacets

theorem BuiltinAt.exists_type {definition : TypeId → TypeDef → Prop}
    (hat : BuiltinAt definition name id) :
    ∃ type, SimpleType.builtin? name = some type := by
  cases hat with
  | primitive hbuiltin => exact ⟨_, hbuiltin⟩
  | derived hbuiltin => exact ⟨_, hbuiltin⟩

/-- The definition that a builtin type gets is the right one, if the builtin
types of the model have the right ones. -/
theorem Interns.builtinAt {definition : TypeId → TypeDef → Prop}
    {type : TypeDef} (htype : m.Interns name type) (hself : definition id type)
    (hmodel : ∀ other base, m.builtins.lookup other = some base →
      BuiltinAt definition other base) :
    BuiltinAt definition name id := by
  cases htype with
  | primitive hbuiltin => exact .primitive hbuiltin hself
  | derived hbuiltin hfacets hbase =>
      exact .derived hbuiltin hfacets hself (hmodel _ _ hbase).of_kind

/-- A builtin type gives the kind and the facets of its name. -/
theorem BuiltinAt.resolve {type : SimpleType}
    (hat : BuiltinAt (fun id d => m.types[id]? = some d) name id)
    (hbuiltin : SimpleType.builtin? name = some type) (node : String) :
    m.resolve id node = .ok (some type) := by
  cases hat with
  | primitive hname hdefinition =>
      cases hname.symm.trans hbuiltin
      simp [Model.resolve, chain, chainLimit, get, hdefinition, Except.map]
  | derived hname hfacets hdefinition hbase =>
      cases hname.symm.trans hbuiltin
      simp [Model.resolve, chain, chainLimit, get, hdefinition, hbase,
        Facets.none_inherit, Except.map]

end Model

end Specimen
