/-
Builtin types keep their numbers.  Types are added to a model and builtin types
are asked for in any order, the primitive type before or behind those that
restrict it.  What has a number keeps its definition, a name that has a number
keeps it, and behind it stands what the name says.
-/
import Specimen.Proofs.Origins

namespace Specimen.Model

open Declaration (addReference_eq getElem?_of_le lookup_cons_eq_some_iff
  lookup_cons_of_lookup)

/-- What is asked of a model while it is built. -/
inductive Request where
  | add (type : TypeDef)
  | builtin (name : String)
  | element (decl : ElementDecl)
  | reference (name : String)

/-- The number that a request is answered with, if it gives one, and the model
behind it. -/
def ask (m : Model) : Request → Option TypeId × Model
  | .add type => (some (m.add type).1, (m.add type).2)
  | .builtin name =>
      match m.builtin? name with
      | some (id, m') => (some id, m')
      | none => (none, m)
  | .element decl => (none, m.addElement decl)
  | .reference name => (none, m.addReference name)

def after (m : Model) (requests : List Request) : Model :=
  requests.foldl (fun m request => (m.ask request).2) m

/-- Types and builtin types of a model are still there, under their numbers. -/
structure Keeps (m m' : Model) : Prop where
  types : m.types <+: m'.types
  builtins : ∀ name id, m.builtins.lookup name = some id →
    m'.builtins.lookup name = some id

/-- Behind the number of a builtin type stands what its name says, and no two
names have the same number. -/
structure Interned (m : Model) : Prop where
  builtinAt : ∀ name id, m.builtins.lookup name = some id →
    BuiltinAt (fun id d => m.types[id]? = some d) name id
  apart : ∀ name other id, m.builtins.lookup name = some id →
    m.builtins.lookup other = some id → name = other

variable {m m' m'' : Model} {name : String} {type : TypeDef} {id : TypeId}

theorem Keeps.refl (m : Model) : m.Keeps m :=
  ⟨List.prefix_rfl, fun _ _ => id⟩

theorem Keeps.trans (hfirst : m.Keeps m') (hsecond : m'.Keeps m'') :
    m.Keeps m'' where
  types := hfirst.types.trans hsecond.types
  builtins name id hlookup :=
    hsecond.builtins name id (hfirst.builtins name id hlookup)

theorem Keeps.intern (hnew : m.builtins.lookup name = none) (type : TypeDef) :
    m.Keeps (m.intern name type) where
  types := List.prefix_append _ _
  builtins _ _ hlookup := lookup_cons_of_lookup hnew hlookup

theorem Interned.empty : Interned {} :=
  ⟨nofun, nofun⟩

/-- Where the builtin types are the old ones, nothing has to be shown. -/
theorem Interned.of_keeps (hinterned : m.Interned) (hkeeps : m.Keeps m')
    (hbuiltins : m'.builtins = m.builtins) : m'.Interned where
  builtinAt name id hlookup :=
    (hinterned.builtinAt name id (hbuiltins ▸ hlookup)).mono
      fun _ _ hget => getElem?_of_le hkeeps.types hget
  apart name other id hname hother :=
    hinterned.apart name other id (hbuiltins ▸ hname) (hbuiltins ▸ hother)

theorem ask_builtin (hbuiltin : m.builtin? name = some (id, m')) :
    m.ask (.builtin name) = (some id, m') := by
  simp [ask, hbuiltin]

theorem ask_builtin_of_none (hbuiltin : m.builtin? name = none) :
    m.ask (.builtin name) = (none, m) := by
  simp [ask, hbuiltin]

theorem builtin?_of_lookup (hlookup : m.builtins.lookup name = some id) :
    m.builtin? name = some (id, m) := by
  simp [Model.builtin?, hlookup]

theorem BuiltinAt.lt
    (hat : BuiltinAt (fun id d => m.types[id]? = some d) name id) :
    id < m.types.length := by
  cases hat with
  | primitive _ hget => exact (List.getElem?_eq_some_iff.mp hget).1
  | derived _ _ hget => exact (List.getElem?_eq_some_iff.mp hget).1

/-- A builtin type that is added gets a number that no other name has. -/
theorem Interned.intern (hinterned : m.Interned)
    (hnew : m.builtins.lookup name = none) (htype : m.Interns name type) :
    (m.intern name type).Interned := by
  have hkeeps := Keeps.intern hnew type
  have hold : ∀ other id, m.builtins.lookup other = some id →
      BuiltinAt (fun id d => (m.intern name type).types[id]? =
        some d) other id :=
    fun other id hlookup => (hinterned.builtinAt other id hlookup).mono
      fun _ _ hget => getElem?_of_le hkeeps.types hget
  have hlt : ∀ other id, m.builtins.lookup other = some id →
      id ≠ m.types.length :=
    fun other id hlookup =>
      Nat.ne_of_lt (hinterned.builtinAt other id hlookup).lt
  constructor
  · intro other id hlookup
    rcases lookup_cons_eq_some_iff.mp hlookup with ⟨rfl, rfl⟩ | ⟨-, hlookup⟩
    · exact htype.builtinAt (by simp [Model.intern]) hold
    · exact hold other id hlookup
  · intro first second id hfirst hsecond
    rcases lookup_cons_eq_some_iff.mp hfirst with ⟨rfl, rfl⟩ | ⟨-, hfirst⟩
    · rcases lookup_cons_eq_some_iff.mp hsecond with ⟨rfl, -⟩ | ⟨-, hsecond⟩
      · rfl
      · exact absurd rfl (hlt second _ hsecond)
    · rcases lookup_cons_eq_some_iff.mp hsecond with ⟨-, rfl⟩ | ⟨-, hsecond⟩
      · exact absurd rfl (hlt first _ hfirst)
      · exact hinterned.apart first second id hfirst hsecond

/-- The answer to a question for a builtin type stands in the model behind it,
which has kept everything. -/
theorem Interned.builtin? (hinterned : m.Interned)
    (hbuiltin : m.builtin? name = some (id, m')) :
    m.Keeps m' ∧ m'.Interned ∧ m'.builtins.lookup name = some id := by
  have hadded := builtin?_induction
    (motive := fun m' => m.Keeps m' ∧ m'.Interned) ⟨.refl m, hinterned⟩
    (fun _ _ type _ hnew htype hm' =>
      ⟨hm'.1.trans (.intern hnew type), hm'.2.intern hnew htype⟩) hbuiltin
  exact ⟨hadded.1.1, hadded.1.2, hadded.2⟩

/-- One request keeps what there is, and the number that it gives has a
definition. -/
theorem Interned.ask (hinterned : m.Interned) (request : Request) :
    m.Keeps (m.ask request).2 ∧ (m.ask request).2.Interned ∧
      ∀ id, (m.ask request).1 = some id →
        ∃ type, (m.ask request).2.types[id]? = some type := by
  cases request with
  | add type =>
      have hkeeps : m.Keeps (m.add type).2 :=
        ⟨List.prefix_append _ _, fun _ _ => id⟩
      refine ⟨hkeeps, hinterned.of_keeps hkeeps rfl, ?_⟩
      rintro _ ⟨⟩
      exact ⟨type, by simp [Model.ask, Model.add]⟩
  | builtin name =>
      cases hbuiltin : m.builtin? name with
      | none =>
          rw [ask_builtin_of_none hbuiltin]
          exact ⟨.refl m, hinterned, nofun⟩
      | some answer =>
          obtain ⟨hkeeps, hinterned', hlookup⟩ := hinterned.builtin? hbuiltin
          rw [ask_builtin hbuiltin]
          refine ⟨hkeeps, hinterned', ?_⟩
          rintro _ ⟨⟩
          exact ⟨_, List.getElem?_eq_getElem
            (hinterned'.builtinAt _ _ hlookup).lt⟩
  | element decl =>
      have hkeeps : m.Keeps (m.addElement decl) :=
        ⟨List.prefix_rfl, fun _ _ => id⟩
      exact ⟨hkeeps, hinterned.of_keeps hkeeps rfl, nofun⟩
  | reference name =>
      have hask : m.ask (.reference name) = (none,
          { m with references := (m.addReference name).references }) :=
        congrArg (Prod.mk none) (addReference_eq m name)
      have hkeeps : m.Keeps
          { m with references := (m.addReference name).references } :=
        ⟨List.prefix_rfl, fun _ _ => id⟩
      rw [hask]
      exact ⟨hkeeps, hinterned.of_keeps hkeeps rfl, nofun⟩

/-- Any number of requests keep what there is. -/
theorem Interned.after (hinterned : m.Interned) (requests : List Request) :
    m.Keeps (m.after requests) ∧ (m.after requests).Interned := by
  induction requests generalizing m with
  | nil => exact ⟨.refl m, hinterned⟩
  | cons request requests ih =>
      obtain ⟨hkeeps, hinterned', -⟩ := hinterned.ask request
      obtain ⟨hkeeps', hinterned''⟩ := ih hinterned'
      exact ⟨hkeeps.trans hkeeps', hinterned''⟩

theorem Interned.builtin?_isSome (hinterned : m.Interned) (name : String) :
    (m.builtin? name).isSome ↔ (SimpleType.builtin? name).isSome := by
  constructor
  · intro hsome
    obtain ⟨⟨id, m'⟩, hbuiltin⟩ := Option.isSome_iff_exists.mp hsome
    obtain ⟨-, hinterned', hlookup⟩ := hinterned.builtin? hbuiltin
    exact Option.isSome_iff_exists.mpr
      (hinterned'.builtinAt name id hlookup).exists_type
  · rw [Option.isSome_iff_ne_none, Option.isSome_iff_ne_none]
    exact mt fun hnone => (builtin?_eq_none_iff.mp hnone).2

/-- Behind further requests a builtin type has its number, no other has it, and
it is what its name says. -/
theorem Interned.stays (hinterned : m.Interned)
    (hlookup : m.builtins.lookup name = some id) :
    m.builtin? name = some (id, m) ∧
      (∀ other id' m', other ≠ name → m.builtin? other = some (id', m') →
        id' ≠ id) ∧
      ∃ type, SimpleType.builtin? name = some type ∧
        ∀ node, m.resolve id node = .ok (some type) := by
  have hat := hinterned.builtinAt name id hlookup
  obtain ⟨type, htype⟩ := hat.exists_type
  refine ⟨builtin?_of_lookup hlookup, ?_, type, htype, hat.resolve htype⟩
  rintro other id' m' hne hother rfl
  obtain ⟨hkeeps, hinterned', hlookup'⟩ := hinterned.builtin? hother
  exact hne (hinterned'.apart other name id' hlookup'
    (hkeeps.builtins name id' hlookup))

/-- Builtin types stay what they are, whatever is asked of a model from the
beginning.  There is a number for each name that the schema language knows, and
for no other.  A number that has been given keeps its definition.  Behind any
further requests the name still has its number, and asking for it changes
nothing; no other name has the number, and it resolves to the kind and the
facets of its name. -/
theorem builtins_stable (requests : List Request) {m : Model}
    (hm : after {} requests = m) :
    (∀ name, (m.builtin? name).isSome ↔ (SimpleType.builtin? name).isSome) ∧
      (∀ request id m', m.ask request = (some id, m') →
        ∃ type, ∀ further, (m'.after further).types[id]? = some type) ∧
      ∀ name id m', m.builtin? name = some (id, m') → ∀ further,
        (m'.after further).builtin? name = some (id, m'.after further) ∧
        (∀ other id' m'', other ≠ name →
          (m'.after further).builtin? other = some (id', m'') → id' ≠ id) ∧
        ∃ type, SimpleType.builtin? name = some type ∧
          ∀ node, (m'.after further).resolve id node = .ok (some type) := by
  have hinterned : m.Interned := hm ▸ (Interned.empty.after requests).2
  refine ⟨hinterned.builtin?_isSome, fun request id m' hask => ?_,
    fun name id m' hbuiltin further => ?_⟩
  · obtain ⟨-, hinterned', hgiven⟩ := hinterned.ask request
    rw [hask] at hinterned' hgiven
    obtain ⟨type, hget⟩ := hgiven id rfl
    exact ⟨type, fun further =>
      getElem?_of_le (hinterned'.after further).1.types hget⟩
  · obtain ⟨-, hinterned', hlookup⟩ := hinterned.builtin? hbuiltin
    obtain ⟨hkeeps, hlater⟩ := hinterned'.after further
    exact hlater.stays (hkeeps.builtins name id hlookup)

namespace InternedWitness

/-- Positive numbers are asked for first, and their primitive comes with them;
behind them a type is added. -/
def positive : List Request :=
  [.builtin "positiveInteger",
    .add (.restriction 1 { maxInclusive := some "9" })]

/-- Integers have been added for the sake of the positive ones, whose number
they do not have, and they stay integers behind another derived type. -/
theorem integers_stay : ∃ m id, after {} positive = m ∧
    m.builtin? "integer" = some (id, m) ∧
    (m.after [.builtin "byte"]).resolve id "price" =
      .ok (some ⟨.integer, .none⟩) ∧
    (m.after [.builtin "byte"]).builtin? "positiveInteger" ≠
      some (id, m.after [.builtin "byte"]) := by
  have hbuiltin : (after {} positive).builtin? "integer" =
      some (0, after {} positive) := rfl
  obtain ⟨-, -, hstable⟩ := builtins_stable positive rfl
  obtain ⟨-, hapart, type, htype, hresolve⟩ :=
    hstable "integer" 0 _ hbuiltin [.builtin "byte"]
  cases htype
  exact ⟨_, 0, rfl, hbuiltin, hresolve "price", fun hother =>
    hapart "positiveInteger" 0 _ (by decide) hother rfl⟩

end InternedWitness

end Specimen.Model
