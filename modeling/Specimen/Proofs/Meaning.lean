/-
What declarations mean, apart from how they are converted: which definition is
given by the parts of a type, and which particles by the parts of a group, if it
is known what names stand for.
-/
import Specimen.Declaration.Conversion

namespace Specimen

namespace Declaration

/-- What names stand for, and the definitions behind numbers. -/
structure Meaning where
  /-- The type that a reference by its name is a reference to. -/
  type : String → TypeId → Prop
  /-- The builtin type that stands where no type is written. -/
  builtin : String → TypeId → Prop
  /-- The type of a top-level element. -/
  element : String → TypeId → Prop
  /-- The parts of a named group. -/
  group : String → Option (List GroupItem)
  /-- The definition behind a number. -/
  definition : TypeId → TypeDef → Prop

/-- One meaning goes further than another. -/
structure Meaning.Le (M N : Meaning) : Prop where
  type : ∀ name id, M.type name id → N.type name id
  builtin : ∀ name id, M.builtin name id → N.builtin name id
  element : ∀ name id, M.element name id → N.element name id
  group : M.group = N.group
  definition : ∀ id d, M.definition id d → N.definition id d

/-- A simple type that restricts nothing restricts strings. -/
inductive OrString (M : Meaning) : Option TypeDef → TypeDef → Prop where
  | found (d : TypeDef) : OrString M (some d) d
  | string {id : TypeId} (hstring : M.builtin "string" id) :
    OrString M none (.restriction id Facets.none)

section Simple

variable (M : Meaning)

mutual

/-- The parts of a simple type: the last one defines it. -/
inductive SimpleItem.AllMean :
    List SimpleItem → Option TypeDef → Option TypeDef → Prop where
  | nil (found : Option TypeDef) : SimpleItem.AllMean [] found found
  | cons {item : SimpleItem} {rest : List SimpleItem} {d : TypeDef}
    {result : Option TypeDef} (found : Option TypeDef)
    (hitem : SimpleItem.Means item d)
    (hrest : SimpleItem.AllMean rest (some d) result) :
    SimpleItem.AllMean (item :: rest) found result

/-- A restriction of the type that it names, or of an inline one. -/
inductive SimpleItem.Means : SimpleItem → TypeDef → Prop where
  | named {name : String} {id : TypeId} {items : List RestrictionItem}
    {d : TypeDef} (hname : M.type name id)
    (hitems : RestrictionItem.AllMean items (some id) Facets.none d) :
    SimpleItem.Means (.restriction (some name) items) d
  | inline {items : List RestrictionItem} {d : TypeDef}
    (hitems : RestrictionItem.AllMean items none Facets.none d) :
    SimpleItem.Means (.restriction none items) d

/-- The parts of a restriction, behind a base and some facets: an inline type
takes the place of the base. -/
inductive RestrictionItem.AllMean :
    List RestrictionItem → Option TypeId → Facets → TypeDef → Prop where
  | nil (base : TypeId) (facets : Facets) :
    RestrictionItem.AllMean [] (some base) facets (.restriction base facets)
  | cons {item : RestrictionItem} {rest : List RestrictionItem}
    {inline : Option TypeId} {facets facets' : Facets} {d : TypeDef}
    (base : Option TypeId) (hitem : RestrictionItem.Means item facets inline
      facets')
    (hrest : RestrictionItem.AllMean rest (inline.or base) facets' d) :
    RestrictionItem.AllMean (item :: rest) base facets d

/-- A part of a restriction is an inline type or one more facet. -/
inductive RestrictionItem.Means :
    RestrictionItem → Facets → Option TypeId → Facets → Prop where
  | simpleType {items : List SimpleItem} {found : Option TypeDef}
    {d : TypeDef} {id : TypeId} (facets : Facets)
    (hitems : SimpleItem.AllMean items none found) (hfound : OrString M found d)
    (hdefinition : M.definition id d) :
    RestrictionItem.Means (.simpleType items) facets (some id) facets
  | facet {facet : Facet} {facets facets' : Facets}
    (hfacet : addFacet facets facet = .ok facets') :
    RestrictionItem.Means (.facet facet) facets none facets'

end

inductive SimpleItem.Define : List SimpleItem → TypeDef → Prop where
  | intro {items : List SimpleItem} {found : Option TypeDef} {d : TypeDef}
    (hitems : SimpleItem.AllMean M items none found)
    (hfound : OrString M found d) : SimpleItem.Define items d

/-- An attribute has the type that it names, or else an inline one, or else
strings. -/
inductive Attribute.Means : Attribute → AttributeDecl → Prop where
  | named {decl : Attribute} {name type : String} {id : TypeId}
    (hname : decl.name = some name) (htype : decl.type = some type)
    (hid : M.type type id) : Attribute.Means decl ⟨name, id, decl.usage⟩
  | inline {decl : Attribute} {name : String} {items : List SimpleItem}
    {d : TypeDef} {id : TypeId} (hname : decl.name = some name)
    (htype : decl.type = none) (hinline : decl.inline = some items)
    (hitems : SimpleItem.Define M items d) (hdefinition : M.definition id d) :
    Attribute.Means decl ⟨name, id, decl.usage⟩
  | string {decl : Attribute} {name : String} {id : TypeId}
    (hname : decl.name = some name) (htype : decl.type = none)
    (hinline : decl.inline = none) (hstring : M.builtin "string" id) :
    Attribute.Means decl ⟨name, id, decl.usage⟩

end Simple

/-- An element in a group has its inline type, or else the type that it names,
or else any content. -/
inductive OwnType (M : Meaning) :
    Option TypeDef → Option String → TypeId → Prop where
  | inline {d : TypeDef} {id : TypeId} (hdefinition : M.definition id d) :
    OwnType M (some d) none id
  | named {name : String} {id : TypeId} (hname : M.type name id) :
    OwnType M none (some name) id
  | anyType {id : TypeId} (hany : M.builtin "anyType" id) :
    OwnType M none none id

section Content

variable (M : Meaning)

mutual

/-- The parts of a group, one by one. -/
inductive GroupItem.AllMean : List GroupItem → List Particle → Prop where
  | nil : GroupItem.AllMean [] []
  | cons {item : GroupItem} {rest : List GroupItem} {p : Particle}
    {ps : List Particle} (hitem : GroupItem.Means item p)
    (hrest : GroupItem.AllMean rest ps) :
    GroupItem.AllMean (item :: rest) (p :: ps)

inductive GroupItem.Means : GroupItem → Particle → Prop where
  | reference {head : ElementHead} {name : String} {id : TypeId}
    (items : List ElementItem) (hreference : head.reference = some name)
    (helement : M.element name id) :
    GroupItem.Means (.element head items) (.element ⟨name, id, head.occurs⟩)
  | element {head : ElementHead} {name : String} {items : List ElementItem}
    {inline : Option TypeDef} {id : TypeId} (hreference : head.reference = none)
    (hname : head.name = some name)
    (hitems : ElementItem.AllMean items none inline)
    (htype : OwnType M inline head.type id) :
    GroupItem.Means (.element head items) (.element ⟨name, id, head.occurs⟩)
  | named {name : String} {g : Group} (occurs : Occurs)
    (hgroup : GroupItem.Named name g) :
    GroupItem.Means (.reference (some name) occurs)
      (.group ⟨.sequence, occurs, [.group g]⟩)
  | group {items : List GroupItem} {ps : List Particle} (order : Order)
    (occurs : Occurs) (hitems : GroupItem.AllMean items ps) :
    GroupItem.Means (.group order occurs items) (.group ⟨order, occurs, ps⟩)
  | any (occurs : Occurs) : GroupItem.Means (.any occurs) (.any occurs)

/-- The content of a named group is the group that it begins with. -/
inductive GroupItem.Named : String → Group → Prop where
  | intro {name : String} {items rest : List GroupItem} {ps : List Particle}
    {order : Order} {occurs : Occurs}
    (hgroup : M.group name = some (.group order occurs items :: rest))
    (hitems : GroupItem.AllMean items ps) :
    GroupItem.Named name ⟨order, occurs, ps⟩

/-- The parts of an element declaration: the last one defines its inline type.
-/
inductive ElementItem.AllMean :
    List ElementItem → Option TypeDef → Option TypeDef → Prop where
  | nil (found : Option TypeDef) : ElementItem.AllMean [] found found
  | cons {item : ElementItem} {rest : List ElementItem} {d : TypeDef}
    {result : Option TypeDef} (found : Option TypeDef)
    (hitem : ElementItem.Means item d)
    (hrest : ElementItem.AllMean rest (some d) result) :
    ElementItem.AllMean (item :: rest) found result

/-- An inline type of an element. -/
inductive ElementItem.Means : ElementItem → TypeDef → Prop where
  | simpleType {items : List SimpleItem} {d : TypeDef}
    (hitems : SimpleItem.Define M items d) :
    ElementItem.Means (.simpleType items) d
  | complexType {items : List ComplexItem} {t : ComplexType}
    (hitems : ComplexItem.AllMean items {} t) :
    ElementItem.Means (.complexType items) (.complex t)

/-- The parts of a complex type, behind what the parts before them give. -/
inductive ComplexItem.AllMean :
    List ComplexItem → ComplexType → ComplexType → Prop where
  | nil (t : ComplexType) : ComplexItem.AllMean [] t t
  | cons {item : ComplexItem} {rest : List ComplexItem} {t u v : ComplexType}
    (hitem : ComplexItem.Means item t u)
    (hrest : ComplexItem.AllMean rest u v) :
    ComplexItem.AllMean (item :: rest) t v

/-- A part of a complex type is its content or one more attribute. -/
inductive ComplexItem.Means :
    ComplexItem → ComplexType → ComplexType → Prop where
  | group {items : List GroupItem} {ps : List Particle} (order : Order)
    (occurs : Occurs) (t : ComplexType) (hitems : GroupItem.AllMean items ps) :
    ComplexItem.Means (.group order occurs items) t
      { t with content := some ⟨order, occurs, ps⟩ }
  | named {name : String} {g : Group} (occurs : Occurs) (t : ComplexType)
    (hgroup : GroupItem.Named name g) :
    ComplexItem.Means (.reference (some name) occurs) t
      { t with content := some ⟨.sequence, occurs, [.group g]⟩ }
  | attributeUse {decl : Attribute} {a : AttributeDecl} (t : ComplexType)
    (hdecl : decl.Means M a) :
    ComplexItem.Means (.attributeUse decl) t
      { t with attributes := t.attributes ++ [a] }

end

/-- A top-level element has the type that it names, and then no inline one, or
else its inline type, or else any content. -/
inductive ElementDeclaration.Means : ElementDeclaration → TypeId → Prop where
  | named {decl : ElementDeclaration} {type : String} {id : TypeId}
    (htype : decl.head.type = some type) (hitems : decl.items = [])
    (hid : M.type type id) : ElementDeclaration.Means decl id
  | inline {decl : ElementDeclaration} {found : Option TypeDef} {id : TypeId}
    (htype : decl.head.type = none)
    (hitems : ElementItem.AllMean M decl.items none found)
    (hdefinition : M.definition id (found.getD (.builtin .anyType))) :
    ElementDeclaration.Means decl id

end Content

section Mono

variable {M N : Meaning}

theorem Meaning.Le.refl (M : Meaning) : M.Le M :=
  ⟨fun _ _ => id, fun _ _ => id, fun _ _ => id, rfl, fun _ _ => id⟩

theorem Meaning.Le.trans {M N O : Meaning} (hfirst : M.Le N)
    (hsecond : N.Le O) : M.Le O where
  type name id hid := hsecond.type name id (hfirst.type name id hid)
  builtin name id hid := hsecond.builtin name id (hfirst.builtin name id hid)
  element name id hid := hsecond.element name id (hfirst.element name id hid)
  group := hfirst.group.trans hsecond.group
  definition id d hid := hsecond.definition id d (hfirst.definition id d hid)

theorem OrString.mono (hle : M.Le N) {found : Option TypeDef} {d : TypeDef}
    (hfound : OrString M found d) : OrString N found d := by
  cases hfound with
  | found d => exact .found d
  | string hstring => exact .string (hle.builtin _ _ hstring)

theorem OwnType.mono (hle : M.Le N) {inline : Option TypeDef}
    {named : Option String} {id : TypeId} (htype : OwnType M inline named id) :
    OwnType N inline named id := by
  cases htype with
  | inline hdefinition => exact .inline (hle.definition _ _ hdefinition)
  | named hname => exact .named (hle.type _ _ hname)
  | anyType hany => exact .anyType (hle.builtin _ _ hany)

mutual

theorem SimpleItem.AllMean.mono (hle : M.Le N) {items : List SimpleItem}
    {found result : Option TypeDef} :
    SimpleItem.AllMean M items found result →
      SimpleItem.AllMean N items found result
  | .nil found => .nil found
  | .cons found hitem hrest => .cons found (hitem.mono hle) (hrest.mono hle)

theorem SimpleItem.Means.mono (hle : M.Le N) {item : SimpleItem}
    {d : TypeDef} : item.Means M d → item.Means N d
  | .named hname hitems => .named (hle.type _ _ hname) (hitems.mono hle)
  | .inline hitems => .inline (hitems.mono hle)

theorem RestrictionItem.AllMean.mono (hle : M.Le N)
    {items : List RestrictionItem} {base : Option TypeId} {facets : Facets}
    {d : TypeDef} : RestrictionItem.AllMean M items base facets d →
      RestrictionItem.AllMean N items base facets d
  | .nil base facets => .nil base facets
  | .cons base hitem hrest => .cons base (hitem.mono hle) (hrest.mono hle)

theorem RestrictionItem.Means.mono (hle : M.Le N) {item : RestrictionItem}
    {facets facets' : Facets} {inline : Option TypeId} :
    item.Means M facets inline facets' → item.Means N facets inline facets'
  | .simpleType facets hitems hfound hdefinition =>
      .simpleType facets (hitems.mono hle) (hfound.mono hle)
        (hle.definition _ _ hdefinition)
  | .facet hfacet => .facet hfacet

end

theorem SimpleItem.Define.mono (hle : M.Le N) {items : List SimpleItem}
    {d : TypeDef} (hdefine : SimpleItem.Define M items d) :
    SimpleItem.Define N items d := by
  obtain ⟨hitems, hfound⟩ := hdefine
  exact ⟨hitems.mono hle, hfound.mono hle⟩

theorem Attribute.Means.mono (hle : M.Le N) {decl : Attribute}
    {a : AttributeDecl} (hmeans : decl.Means M a) : decl.Means N a := by
  cases hmeans with
  | named hname htype hid => exact .named hname htype (hle.type _ _ hid)
  | inline hname htype hinline hitems hdefinition =>
      exact .inline hname htype hinline (hitems.mono hle)
        (hle.definition _ _ hdefinition)
  | string hname htype hinline hstring =>
      exact .string hname htype hinline (hle.builtin _ _ hstring)

mutual

theorem GroupItem.AllMean.mono (hle : M.Le N) {items : List GroupItem}
    {ps : List Particle} :
    GroupItem.AllMean M items ps → GroupItem.AllMean N items ps
  | .nil => .nil
  | .cons hitem hrest => .cons (hitem.mono hle) (hrest.mono hle)

theorem GroupItem.Means.mono (hle : M.Le N) {item : GroupItem} {p : Particle} :
    item.Means M p → item.Means N p
  | .reference items hreference helement =>
      .reference items hreference (hle.element _ _ helement)
  | .element hreference hname hitems htype =>
      .element hreference hname (hitems.mono hle) (htype.mono hle)
  | .named occurs hgroup => .named occurs (hgroup.mono hle)
  | .group order occurs hitems => .group order occurs (hitems.mono hle)
  | .any occurs => .any occurs

theorem GroupItem.Named.mono (hle : M.Le N) {name : String} {g : Group} :
    GroupItem.Named M name g → GroupItem.Named N name g
  | .intro hgroup hitems => .intro (hle.group ▸ hgroup) (hitems.mono hle)

theorem ElementItem.AllMean.mono (hle : M.Le N) {items : List ElementItem}
    {found result : Option TypeDef} :
    ElementItem.AllMean M items found result →
      ElementItem.AllMean N items found result
  | .nil found => .nil found
  | .cons found hitem hrest => .cons found (hitem.mono hle) (hrest.mono hle)

theorem ElementItem.Means.mono (hle : M.Le N) {item : ElementItem}
    {d : TypeDef} : item.Means M d → item.Means N d
  | .simpleType hitems => .simpleType (hitems.mono hle)
  | .complexType hitems => .complexType (hitems.mono hle)

theorem ComplexItem.AllMean.mono (hle : M.Le N) {items : List ComplexItem}
    {t u : ComplexType} :
    ComplexItem.AllMean M items t u → ComplexItem.AllMean N items t u
  | .nil t => .nil t
  | .cons hitem hrest => .cons (hitem.mono hle) (hrest.mono hle)

theorem ComplexItem.Means.mono (hle : M.Le N) {item : ComplexItem}
    {t u : ComplexType} : item.Means M t u → item.Means N t u
  | .group order occurs t hitems => .group order occurs t (hitems.mono hle)
  | .named occurs t hgroup => .named occurs t (hgroup.mono hle)
  | .attributeUse t hdecl => .attributeUse t (hdecl.mono hle)

end

theorem ElementDeclaration.Means.mono (hle : M.Le N)
    {decl : ElementDeclaration} {id : TypeId} (hmeans : decl.Means M id) :
    decl.Means N id := by
  cases hmeans with
  | named htype hitems hid => exact .named htype hitems (hle.type _ _ hid)
  | inline htype hitems hdefinition =>
      exact .inline htype (hitems.mono hle) (hle.definition _ _ hdefinition)

end Mono

end Declaration

end Specimen
