/-
What the steps of conversion do to the builder, and lookups by name.
-/
import Specimen.Declaration.Conversion

namespace Specimen

namespace Declaration

theorem lookup_isSome_iff_mem {α : Type} {l : List (String × α)}
    {name : String} : (l.lookup name).isSome ↔ name ∈ l.map (·.1) := by
  simp [List.lookup_isSome_iff]

theorem mem_keys_of_lookup {α : Type} {l : List (String × α)} {name : String}
    {a : α} (hlookup : l.lookup name = some a) : name ∈ l.map (·.1) :=
  lookup_isSome_iff_mem.mp (by rw [hlookup]; rfl)

theorem not_mem_keys_of_lookup {α : Type} {l : List (String × α)}
    {name : String} (hlookup : l.lookup name = none) :
    name ∉ l.map (·.1) := by
  rw [← lookup_isSome_iff_mem, hlookup]
  simp

theorem mem_of_lookup {α : Type} {l : List (String × α)} {name : String} {a : α}
    (hlookup : l.lookup name = some a) : (name, a) ∈ l := by
  obtain ⟨front, back, rfl, -⟩ := List.lookup_eq_some_iff.mp hlookup
  simp

/-- What is there under a name is found if names are distinct. -/
theorem lookup_of_mem {α : Type} {l : List (String × α)}
    (hnodup : (l.map (·.1)).Nodup) {name : String} {a : α}
    (hmem : (name, a) ∈ l) : l.lookup name = some a := by
  induction l with
  | nil => cases hmem
  | cons p l ih =>
      obtain ⟨hnew, hnodup⟩ := List.nodup_cons.mp hnodup
      rcases List.mem_cons.mp hmem with rfl | hmem
      · exact List.lookup_cons_self
      · have hne : name ≠ p.1 := by
          rintro rfl
          exact hnew (List.mem_map.mpr ⟨_, hmem, rfl⟩)
        rw [List.lookup_cons, beq_false_of_ne hne]
        exact ih hnodup hmem

/-- A new entry goes before those that were there. -/
theorem lookup_cons_eq_some_iff {α : Type} {l : List (String × α)}
    {name other : String} {a b : α} :
    ((name, a) :: l).lookup other = some b ↔
      other = name ∧ a = b ∨ other ≠ name ∧ l.lookup other = some b := by
  by_cases hname : other = name
  · subst hname
    simp [List.lookup_cons_self]
  · rw [List.lookup_cons, beq_false_of_ne hname]
    simp [hname]

/-- What was found before is found behind an entry for another name. -/
theorem lookup_cons_of_lookup {α : Type} {l : List (String × α)}
    {name other : String} {a b : α} (hnew : l.lookup name = none)
    (hlookup : l.lookup other = some b) :
    ((name, a) :: l).lookup other = some b := by
  refine lookup_cons_eq_some_iff.mpr (.inr ⟨?_, hlookup⟩)
  rintro rfl
  rw [hnew] at hlookup
  cases hlookup

theorem eq_ok_of_toOption {ε α : Type} {x : Except ε α} {a : α}
    (hsome : x.toOption = some a) : x = .ok a := by
  cases x with
  | ok b => exact congrArg Except.ok (Option.some.inj hsome)
  | error e => cases hsome

theorem exists_ok_of_isSome {ε α : Type} {x : Except ε α}
    (hsome : x.toOption.isSome) : ∃ a, x = .ok a := by
  obtain ⟨a, ha⟩ := Option.isSome_iff_exists.mp hsome
  exact ⟨a, eq_ok_of_toOption ha⟩

theorem getElem?_of_le {α : Type} {l l' : List α} (hle : l <+: l') {i : Nat}
    {a : α} (hget : l[i]? = some a) : l'[i]? = some a := by
  obtain ⟨rest, rfl⟩ := hle
  rw [List.getElem?_append_left (List.getElem?_eq_some_iff.mp hget).1, hget]

/-- A top-level element that gets a number for its inline type. -/
def Builder.reserve (b : Builder) (name : String) : Builder where
  model := { b.model with types := b.model.types ++ [.builtin .anyType] }
  elementTypes := (name, b.model.types.length) :: b.elementTypes

namespace Conversion

variable {α β : Type}

theorem run_bind_of_ok {x : Conversion α} {f : α → Conversion β}
    {b b' : Builder} {a : α} (hx : x.run b = .ok (a, b')) :
    (x >>= f).run b = (f a).run b' := by
  rw [StateT.run_bind, hx]
  rfl

theorem run_bind_of_error {x : Conversion α} {f : α → Conversion β}
    {b : Builder} {e : DeclarationError} (hx : x.run b = .error e) :
    (x >>= f).run b = .error e := by
  rw [StateT.run_bind, hx]
  rfl

theorem run_bind_eq_ok_iff {x : Conversion α} {f : α → Conversion β}
    {b b'' : Builder} {c : β} :
    (x >>= f).run b = .ok (c, b'') ↔
      ∃ a b', x.run b = .ok (a, b') ∧ (f a).run b' = .ok (c, b'') := by
  cases hx : x.run b with
  | error e =>
      rw [run_bind_of_error hx]
      simp
  | ok result =>
      obtain ⟨a, b'⟩ := result
      rw [run_bind_of_ok hx]
      constructor
      · exact fun hf => ⟨a, b', rfl, hf⟩
      · rintro ⟨_, _, ⟨⟩, hf⟩
        exact hf

@[simp] theorem run_add (type : TypeDef) (b : Builder) :
    (add type).run b =
      .ok (b.model.types.length,
        { b with model := { b.model with
          types := b.model.types ++ [type] } }) :=
  rfl

@[simp] theorem run_define (id : TypeId) (type : TypeDef) (b : Builder) :
    (define id type).run b =
      .ok ((), { b with model := b.model.define id type }) := rfl

@[simp] theorem run_note (name : String) (id : TypeId) (b : Builder) :
    (note name id).run b =
      .ok ((), { b with elementTypes := (name, id) :: b.elementTypes }) := rfl

@[simp] theorem run_refer (name : String) (b : Builder) :
    (refer name).run b =
      .ok ((), { b with model := b.model.addReference name }) := rfl

theorem run_builtin (name : String) (b : Builder) :
    (builtin name).run b =
      match b.model.builtin? name with
      | some (id, model) => .ok (id, { b with model })
      | none => .error (DeclarationError.unknownType name) := by
  simp only [builtin, StateT.run_bind, StateT.run_get, pure_bind]
  cases b.model.builtin? name <;> rfl

theorem elementTypes_of_run_type {directory : Directory} {name : String}
    {b b' : Builder} {id : TypeId}
    (hrun : (type directory name).run b = .ok (id, b')) :
    b'.elementTypes = b.elementTypes := by
  unfold type at hrun
  split at hrun
  · cases hrun
    rfl
  · rw [run_builtin] at hrun
    split at hrun <;> cases hrun
    rfl

end Conversion

section TopLevel

variable (directory : Directory) (references : References)
  (expanding : List String)

/-- The type of a top-level element that has its number already. -/
def filledType (id : TypeId) (items : List ElementItem) :
    Conversion TypeId := do
  let inline ← elementItems directory references expanding items none
  inline.forM (Conversion.define id)
  return id

def addElement (entry : String × ElementDeclaration) : Conversion Unit := do
  checkHead entry.2.head entry.1
  let type ← topLevelType directory references expanding entry.1 entry.2
  modify fun b =>
    { b with model := b.model.addElement { name := entry.1, type } }

theorem addElements_eq :
    addElements directory references =
      directory.elements.forM (addElement directory references []) := rfl

theorem run_inlineType (name : String) (items : List ElementItem)
    (b : Builder) :
    (inlineType directory references expanding name items).run b =
      (filledType directory references expanding b.model.types.length
        items).run (b.reserve name) :=
  rfl

/-- A number that stands for any content keeps it if no definition is found. -/
theorem run_forM_define {b : Builder} {id : TypeId}
    (hany : b.model.types[id]? = some (.builtin .anyType))
    (found : Option TypeDef) :
    (found.forM (Conversion.define id)).run b =
      .ok ((), { b with
        model := b.model.define id (found.getD (.builtin .anyType)) }) := by
  cases found with
  | some d => rfl
  | none =>
      have hsame : b.model.types.set id (.builtin .anyType) =
          b.model.types := by
        obtain ⟨hlt, hget⟩ := List.getElem?_eq_some_iff.mp hany
        rw [← hget, List.set_getElem_self]
      simp only [Model.define, Option.getD_none, hsame]
      rfl

theorem run_filledType_eq_ok_iff {b b' : Builder} {id id' : TypeId}
    {items : List ElementItem} :
    (filledType directory references expanding id items).run b =
        .ok (id', b') ↔
      ∃ found b₁,
        (elementItems directory references expanding items none).run b =
          .ok (found, b₁) ∧
        (found.forM (Conversion.define id)).run b₁ = .ok ((), b') ∧
        id = id' := by
  unfold filledType
  simp only [Conversion.run_bind_eq_ok_iff, StateT.run_pure]
  constructor
  · rintro ⟨found, b₁, hitems, ⟨⟩, b₂, hdefine, ⟨⟩⟩
    exact ⟨found, b₁, hitems, hdefine, rfl⟩
  · rintro ⟨found, b₁, hitems, hdefine, rfl⟩
    exact ⟨found, b₁, hitems, (), b', hdefine, rfl⟩

theorem run_topLevelType_of_some {name : String} {b : Builder} {id : TypeId}
    (hlookup : b.elementTypes.lookup name = some id)
    (decl : ElementDeclaration) :
    (topLevelType directory references expanding name decl).run b =
      .ok (id, b) := by
  simp only [topLevelType, StateT.run_bind, StateT.run_get, pure_bind, hlookup]
  rfl

theorem run_topLevelType_of_none {name : String} {b : Builder}
    (hlookup : b.elementTypes.lookup name = none)
    (decl : ElementDeclaration) :
    (topLevelType directory references expanding name decl).run b =
      match decl.head.type with
      | some type =>
        (namedType directory references expanding name type decl.items).run b
      | none =>
        (inlineType directory references expanding name decl.items).run b := by
  simp only [topLevelType, StateT.run_bind, StateT.run_get, pure_bind, hlookup]
  cases decl.head.type <;> rfl

end TopLevel

end Declaration

end Specimen
