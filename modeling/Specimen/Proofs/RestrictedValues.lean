/-
The values of restricted types.  A step of restriction allows a text by what its
own facets say, apart from all other steps.  Where no step has an enumeration,
the value that is drawn within the facets taken together is allowed by every
step; where some have, the value is a member of the enumeration nearest to the
derived end, whatever the other facets say of that member.
-/
import Specimen.Proofs.FacetChains
import Specimen.Proofs.Generating
import Specimen.Proofs.NumberRange
import Specimen.Proofs.UnruledValues

namespace Specimen

open Number (InRange)
open Scaled (Side)

namespace Facets

/-- The number keeps to the bounds of the facets on a side. -/
def Keeps (facets : Facets) : Side → Int → Prop
  | .lower, z =>
    (∀ text ∈ facets.minInclusive, ∃ n, Decimal.Denotes text n ∧ n ≤ z) ∧
      ∀ text ∈ facets.minExclusive, ∃ n, Decimal.Denotes text n ∧ n < z
  | .upper, z =>
    (∀ text ∈ facets.maxInclusive, ∃ n, Decimal.Denotes text n ∧ z ≤ n) ∧
      ∀ text ∈ facets.maxExclusive, ∃ n, Decimal.Denotes text n ∧ z < n

structure AllowsNumber (facets : Facets) (z : Int) : Prop where
  member : facets.enumeration ≠ [] →
    ∃ text ∈ facets.enumeration, Decimal.Denotes text z
  bounds : ∀ side, facets.Keeps side z

theorem allowsNumber_iff {facets : Facets} {z : Int} :
    facets.AllowsNumber z ↔
      (facets.enumeration ≠ [] →
        ∃ text ∈ facets.enumeration, Decimal.Denotes text z) ∧
      facets.Keeps .lower z ∧ facets.Keeps .upper z := by
  constructor
  · exact fun hallows =>
      ⟨hallows.member, hallows.bounds .lower, hallows.bounds .upper⟩
  · rintro ⟨hmember, hlower, hupper⟩
    exact ⟨hmember, fun side => by cases side <;> assumption⟩

structure AllowsText (facets : Facets) (text : String) : Prop where
  member : facets.enumeration ≠ [] → text ∈ facets.enumeration
  length : ∀ n ∈ facets.length, text.length = n
  minLength : ∀ n ∈ facets.minLength, n ≤ text.length
  maxLength : ∀ n ∈ facets.maxLength, text.length ≤ n

/-- The facets allow the text as a value of the kind. Lengths are facets of
strings and bounds are facets of numbers. -/
def Allows (facets : Facets) : Kind → String → Prop
  | .string, text => facets.AllowsText text
  | .integer, text =>
    ∃ z, Decimal.Denotes text z ∧ facets.AllowsNumber z
  | _, _ => False

/-- What the derived facets say of lengths and bounds is no wider than what the
base says of them. -/
structure NoWider (derived base : Facets) : Prop where
  minLength : ∀ m ∈ derived.minLength, ∀ n ∈ base.minLength, n ≤ m
  maxLength : ∀ m ∈ derived.maxLength, ∀ n ∈ base.maxLength, m ≤ n
  bounds : ∀ side, derived.limit? side ≠ Option.none →
    ∀ z, derived.Keeps side z → base.Keeps side z

/-- Enumerations, lengths and bounds make a chain of restrictions, the most
derived step first: no step is wider than one that it restricts, none has two
bounds on one side, and there are not too many of them. -/
structure Narrowing (steps : List Facets) : Prop where
  length_le : steps.length ≤ 63
  patterns : ∀ step ∈ steps, step.patterns = []
  totalDigits : ∀ step ∈ steps, step.totalDigits = Option.none
  oneLower : ∀ step ∈ steps,
    step.minInclusive = Option.none ∨ step.minExclusive = Option.none
  oneUpper : ∀ step ∈ steps,
    step.maxInclusive = Option.none ∨ step.maxExclusive = Option.none
  noWider : steps.Pairwise NoWider

/-- Draws reach the value: numbers have 64 bits, and where no step speaks of an
exact or a least length there is at least one letter. -/
def Reach (steps : List Facets) : Kind → String → Prop
  | .string, text => text = "" →
    ∃ step ∈ steps, step.length ≠ Option.none ∨ step.minLength ≠ Option.none
  | .integer, text => ∃ z, Decimal.Denotes text z ∧ InRange z
  | _, _ => False

variable {steps : List Facets}

section Number

/-- With at most one bound on the side, its limit says what the facets do. -/
theorem keeps_iff {facets : Facets}
    (hlower : facets.minInclusive = Option.none ∨
      facets.minExclusive = Option.none)
    (hupper : facets.maxInclusive = Option.none ∨
      facets.maxExclusive = Option.none) (side : Side) (z : Int) :
    facets.Keeps side z ↔
      ∀ limit ∈ facets.limit? side, limit.Admits side z := by
  cases side with
  | lower =>
      cases hinclusive : facets.minInclusive <;>
        cases hexclusive : facets.minExclusive <;>
        simp_all [Keeps, limit?, lower, Side.Keeps]
  | upper =>
      cases hinclusive : facets.maxInclusive <;>
        cases hexclusive : facets.maxExclusive <;>
        simp_all [Keeps, limit?, upper, Side.Keeps]

theorem limit?_together (steps : List Facets) (side : Side) :
    (together steps).limit? side = steps.findSome? (·.limit? side) := by
  cases side with
  | lower => exact view_together rfl lower_inherit steps
  | upper => exact view_together rfl upper_inherit steps

theorem Narrowing.keeps_iff (hsteps : Narrowing steps) {step : Facets}
    (hstep : step ∈ steps) (side : Side) (z : Int) :
    step.Keeps side z ↔ ∀ limit ∈ step.limit? side, limit.Admits side z :=
  Facets.keeps_iff (hsteps.oneLower step hstep) (hsteps.oneUpper step hstep)
    side z

/-- A number that keeps to the limits of the facets taken together keeps to the
bounds of every step: whoever keeps to the limit of a step keeps to those behind
it, so that only the nearest limit matters. -/
theorem Narrowing.keeps_of_together (hsteps : Narrowing steps) {z : Int}
    (hz : ∀ side, ∀ limit ∈ (together steps).limit? side,
      limit.Admits side z) {step : Facets} (hstep : step ∈ steps)
    (side : Side) : step.Keeps side z := by
  rw [hsteps.keeps_iff hstep]
  intro limit hlimit
  have hnarrower : steps.Pairwise fun derived base =>
      ∀ a ∈ derived.limit? side, ∀ b ∈ base.limit? side,
        ∀ z, a.Admits side z → b.Admits side z := by
    refine hsteps.noWider.imp_of_mem ?_
    intro derived base hderived hbase hnoWider a ha b hb z hadmits
    have hkeeps : derived.Keeps side z := by
      rw [hsteps.keeps_iff hderived]
      intro limit hlimit
      rw [Option.mem_unique hlimit ha]
      exact hadmits
    have hdeclares : derived.limit? side ≠ Option.none := by
      rw [ha]
      exact Option.some_ne_none a
    exact (hsteps.keeps_iff hbase side z).mp
      (hnoWider.bounds side hdeclares z hkeeps) b hb
  obtain ⟨nearest, hnearest, himp⟩ := exists_findSome?_of_pairwise
    (fun _ _ hadmits => hadmits) hnarrower hstep hlimit
  exact himp z (hz side nearest (limit?_together steps side ▸ hnearest))

/-- Where a 64-bit number is allowed by every step and no step has an
enumeration, every step allows the number that is drawn. -/
theorem Narrowing.whole_allowed (hsteps : Narrowing steps)
    (hmembers : ∀ step ∈ steps, step.enumeration = []) {w : Int}
    (hrange : InRange w) (hw : ∀ step ∈ steps, step.AllowsNumber w)
    (s : Stream) :
    ∃ z, Decimal.Denotes (Value.whole (together steps) {} s).1 z ∧
      ∀ step ∈ steps, step.AllowsNumber z := by
  have hdigits : (together steps).totalDigits = Option.none := by
    rw [@view_together _ Facets.totalDigits rfl (fun _ _ => rfl) steps]
    exact List.findSome?_eq_none_iff.mpr hsteps.totalDigits
  obtain ⟨z, hdenotes, hz⟩ := Value.whole_keeps hdigits hrange
    (fun side limit hlimit => by
      rw [limit?_together] at hlimit
      obtain ⟨step, hstep, hlimit⟩ := List.exists_of_findSome?_eq_some hlimit
      exact (hsteps.keeps_iff hstep side w).mp ((hw step hstep).bounds side)
        limit hlimit) s
  refine ⟨z, hdenotes, ?_⟩
  intro step hstep
  exact ⟨fun hmember => absurd (hmembers step hstep) hmember,
    fun side => hsteps.keeps_of_together hz hstep side⟩

end Number

section Text

theorem AllowsText.of_length {facets : Facets} {w text : String}
    (hw : facets.AllowsText w) (hlength : text.length = w.length)
    (hmembers : facets.enumeration = []) : facets.AllowsText text where
  member hmember := absurd hmembers hmember
  length n hn := hlength.trans (hw.length n hn)
  minLength n hn := hlength ▸ hw.minLength n hn
  maxLength n hn := hlength ▸ hw.maxLength n hn

/-- A text whose length is within the lengths of the facets taken together has a
length that every step allows, if none asks for an exact one. -/
theorem Narrowing.allowsText_of_together (hsteps : Narrowing steps)
    (hmembers : ∀ step ∈ steps, step.enumeration = [])
    (hexact : ∀ step ∈ steps, step.length = Option.none) {text : String}
    (hleast : (together steps).minLength.getD 1 ≤ text.length)
    (hmost : ∀ most ∈ (together steps).maxLength, text.length ≤ most) :
    ∀ step ∈ steps, step.AllowsText text := by
  rw [@view_together _ Facets.minLength rfl (fun _ _ => rfl) steps] at hleast
  rw [@view_together _ Facets.maxLength rfl (fun _ _ => rfl) steps] at hmost
  intro step hstep
  constructor
  · exact absurd (hmembers step hstep)
  · simp [hexact step hstep]
  · intro n hn
    obtain ⟨least, hnearest, hle⟩ := @exists_findSome?_of_pairwise _
      Facets.minLength (fun m n => n ≤ m) Nat.le_refl _
      (hsteps.noWider.imp fun hnoWider => hnoWider.minLength) step hstep n hn
    rw [hnearest] at hleast
    exact Nat.le_trans hle hleast
  · intro n hn
    obtain ⟨most, hnearest, hle⟩ := @exists_findSome?_of_pairwise _
      Facets.maxLength (fun m n => m ≤ n) Nat.le_refl _
      (hsteps.noWider.imp fun hnoWider => hnoWider.maxLength) step hstep n hn
    exact Nat.le_trans (hmost most hnearest) hle

/-- The greatest length of the facets taken together is not below the least one,
if a text within reach is allowed by every step. -/
theorem Reach.least_le_most {w : String} (hreach : Reach steps .string w)
    (hw : ∀ step ∈ steps, step.AllowsText w)
    (hexact : ∀ step ∈ steps, step.length = Option.none) :
    ∀ most ∈ (together steps).maxLength,
      (together steps).minLength.getD 1 ≤ most := by
  intro most hmost
  rw [@view_together _ Facets.maxLength rfl (fun _ _ => rfl) steps] at hmost
  rw [@view_together _ Facets.minLength rfl (fun _ _ => rfl) steps]
  obtain ⟨upper, hupper, hmost⟩ := List.exists_of_findSome?_eq_some hmost
  have hwmost := (hw upper hupper).maxLength most hmost
  cases hleast : steps.findSome? Facets.minLength with
  | some least =>
      obtain ⟨lower, hlower, hleast⟩ := List.exists_of_findSome?_eq_some hleast
      exact Nat.le_trans ((hw lower hlower).minLength least hleast) hwmost
  | none =>
      have hnoLeast := List.findSome?_eq_none_iff.mp hleast
      have hne : w ≠ "" := by
        intro hempty
        obtain ⟨step, hstep, hsays⟩ := hreach hempty
        exact hsays.elim (absurd (hexact step hstep))
          (absurd (hnoLeast step hstep))
      have hpos : 0 < w.length :=
        Nat.pos_of_ne_zero (mt String.length_eq_zero_iff.mp hne)
      exact Nat.le_trans hpos hwmost

/-- Where a text within reach is allowed by every step and no step has an
enumeration, every step allows the letters that are drawn. -/
theorem Narrowing.letters_allowed (hsteps : Narrowing steps)
    (hmembers : ∀ step ∈ steps, step.enumeration = []) {w : String}
    (hreach : Reach steps .string w)
    (hw : ∀ step ∈ steps, step.AllowsText w) (s : Stream) :
    ∀ step ∈ steps, step.AllowsText (Value.letters (together steps) s).1 := by
  have hview := @view_together _ Facets.length rfl (fun _ _ => rfl) steps
  unfold Value.letters
  cases hlength : (together steps).length with
  | some n =>
      obtain ⟨exact, hexact, hn⟩ :=
        List.exists_of_findSome?_eq_some (hview.symm.trans hlength)
      have hrange : (together steps).lengthRange = (some n, some n) := by
        simp [lengthRange, hlength]
      have hletters := @Draw.length_letters (some n) (some n) (by simp) s
      rw [hrange]
      intro step hstep
      refine (hw step hstep).of_length ?_ (hmembers step hstep)
      rw [(hw exact hexact).length n hn]
      exact Nat.le_antisymm (hletters.2 n rfl) hletters.1
  | none =>
      have hexact := List.findSome?_eq_none_iff.mp (hview.symm.trans hlength)
      have hrange : (together steps).lengthRange =
          ((together steps).minLength, (together steps).maxLength) := by
        simp [lengthRange, hlength]
      have hletters := Draw.length_letters (hreach.least_le_most hw hexact) s
      rw [hrange]
      exact hsteps.allowsText_of_together hmembers hexact hletters.1 hletters.2

end Text

/-- What becomes of a chain of restrictions in a value: a member of the nearest
enumeration if there is one, and a text that every step allows if they allow all
members of that enumeration. -/
structure Follows (steps : List Facets) (kind : Kind) (text : String) : Prop
    where
  member : nearestEnumeration steps ≠ [] → text ∈ nearestEnumeration steps
  allowed : (∀ member ∈ nearestEnumeration steps, ∀ step ∈ steps,
    step.Allows kind member) → ∀ step ∈ steps, step.Allows kind text

theorem Follows.of_mem {kind : Kind} {text : String}
    (htext : text ∈ nearestEnumeration steps) : Follows steps kind text :=
  ⟨fun _ => htext, fun hmembers => hmembers text htext⟩

theorem Follows.of_allowed {kind : Kind} {text : String}
    (hnearest : nearestEnumeration steps = [])
    (htext : ∀ step ∈ steps, step.Allows kind text) :
    Follows steps kind text :=
  ⟨absurd hnearest, fun _ => htext⟩

end Facets

namespace Value

variable {type : SimpleType} {node : String} {settings : Settings}
  {files : Files}

/-- Where a value within reach is allowed by every step and no step has an
enumeration, the kind of the chain gives a value that every step allows. -/
theorem exists_ofKind_allowed {kind : Kind} {steps : List Facets}
    (hkind : kind = .string ∨ kind = .integer) (hsteps : Facets.Narrowing steps)
    (hmembers : ∀ step ∈ steps, step.enumeration = []) {w : String}
    (hreach : Facets.Reach steps kind w)
    (hw : ∀ step ∈ steps, step.Allows kind w) (node : String) (s : Session) :
    ∃ text t, outcome (ofKind ⟨kind, Facets.together steps⟩ node {}) s =
        (.ok text, t) ∧ ∀ step ∈ steps, step.Allows kind text := by
  rcases hkind with rfl | rfl
  · exact ⟨_, _, rfl, hsteps.letters_allowed hmembers hreach hw s.stream⟩
  · obtain ⟨n, hdenotes, hrange⟩ := hreach
    have hwn : ∀ step ∈ steps, step.AllowsNumber n :=
      fun step hstep => hdenotes.exists_iff.mp (hw step hstep)
    obtain ⟨z, hz, hallowed⟩ :=
      hsteps.whole_allowed hmembers hrange hwn s.stream
    exact ⟨_, _, rfl, fun step hstep => ⟨z, hz, hallowed step hstep⟩⟩

/-- The value of a chain of restrictions of strings or whole numbers, without a
rule for the node and without preferred numbers. -/
theorem exists_ofType_follows [Regex.Package] {kind : Kind}
    {steps : List Facets}
    (hkind : kind = .string ∨ kind = .integer) (hsteps : Facets.Narrowing steps)
    (hvalue : Facets.nearestEnumeration steps = [] →
      ∃ text, Facets.Reach steps kind text ∧
        ∀ step ∈ steps, step.Allows kind text)
    (hrules : ∀ rule ∈ settings.rules, rule.appliesTo node = false)
    (hnumbers : settings.numbers = {}) (s : Session) :
    ∃ text t, outcome
        (ofType ⟨kind, Facets.together steps⟩ node settings files) s =
          (.ok text, t) ∧ Facets.Follows steps kind text := by
  have hmembers := Facets.enumeration_together steps
  by_cases hnearest : Facets.nearestEnumeration steps = []
  · obtain ⟨w, hreach, hw⟩ := hvalue hnearest
    obtain ⟨text, t, hofKind, hallowed⟩ := exists_ofKind_allowed hkind hsteps
      (Facets.nearestEnumeration_eq_nil_iff.mp hnearest) hreach hw node s
    refine ⟨text, t, ?_, .of_allowed hnearest hallowed⟩
    rw [outcome_ofType_of_kind hrules (hmembers.trans hnearest)
      (Facets.patterns_together hsteps.patterns), hnumbers, hofKind]
  · obtain ⟨text, htext, t, hofType⟩ := @exists_ofType_mem
      ⟨kind, Facets.together steps⟩ node settings files _ hrules
      (hmembers ▸ hnearest) s
    exact ⟨text, t, hofType, .of_mem (hmembers ▸ htext)⟩

end Value

namespace Generation

variable {source : Source} {decl : ElementDecl} {kind : Kind}
  {steps : List Facets}

/-- An element whose type restricts strings or whole numbers has a text. -/
theorem element_of_restricts [Regex.Package] {σ : Type} (resolver : Resolver σ)
    (levels : Nat) (hkind : kind = .string ∨ kind = .integer)
    (hchain : source.model.Restricts kind decl.type steps) :
    element source resolver (levels + 1) decl = (do
      let text ← valueOf source resolver decl.type decl.name
      return { name := decl.name, text }) := by
  cases hchain with
  | builtin hget => rcases hkind with rfl | rfl <;> simp only [element, hget]
  | step hget => simp only [element, hget]

/-- The value of a node whose type the model resolves to a simple one is what is
drawn for that type. -/
theorem outcome_valueOf [Regex.Package] {σ : Type} {resolver : Resolver σ}
    {sound : σ → Prop}
    (hfaithful : resolver.Faithful source.model sound) {id : TypeId}
    {node : String} {type : SimpleType}
    (hresolve : source.model.resolve id node = .ok (some type))
    {p : Progress σ} (hsound : sound p.remembered) {text : String}
    {session : Session}
    (htext : outcome (Value.ofType type node source.settings source.files)
      p.session = (.ok text, session)) :
    ∃ remembered, outcome (valueOf source resolver id node) p =
      (.ok (some text), { session, remembered }) := by
  have hanswer := hfaithful.answer id node p.remembered hsound
  rcases hresult : resolver id node p.remembered with ⟨result, remembered⟩
  rw [hresult, hresolve] at hanswer
  cases hanswer
  have hvalue : outcome
      (Value.ofType? (some type) node source.settings source.files) p.session =
        (.ok (some text), session) := by
    rw [Value.ofType?, outcome_bind_of_ok htext]
    exact outcome_pure _ _
  refine ⟨remembered, ?_⟩
  rw [valueOf, outcome_bind_of_ok (outcome_resolve hresult)]
  exact @outcome_ofStep σ _ _ _ _ { p with remembered } _ _ hvalue

/-- An element whose type is a chain of restrictions gets a text that follows
the chain, wherever it stands in a document and whatever the stream holds. -/
theorem element_followsRestrictions [Regex.Package]
    (hkind : kind = .string ∨ kind = .integer)
    (hchain : source.model.Restricts kind decl.type steps)
    (hsteps : Facets.Narrowing steps)
    (hvalue : Facets.nearestEnumeration steps = [] →
      ∃ text, Facets.Reach steps kind text ∧
        ∀ step ∈ steps, step.Allows kind text)
    (hrules : ∀ rule ∈ source.settings.rules,
      rule.appliesTo decl.name = false)
    (hnumbers : source.settings.numbers = {}) (levels : Nat)
    {p : Progress Found} (hfound : p.remembered.Sound source.model) :
    ∃ text q, outcome
        (element source (remembering source.model) (levels + 1) decl) p =
          (.ok { name := decl.name, text := some text }, q) ∧
      Facets.Follows steps kind text := by
  have hlength : steps.length < Model.chainLimit :=
    Nat.lt_succ_of_le hsteps.length_le
  obtain ⟨text, session, hofType, hfollows⟩ :=
    @Value.exists_ofType_follows decl.name source.settings source.files _ kind
      steps hkind hsteps hvalue hrules hnumbers p.session
  obtain ⟨remembered, hvalueOf⟩ := outcome_valueOf
    (remembering_faithful source.model) (hchain.resolve_eq hlength decl.name)
    hfound hofType
  refine ⟨text, { session, remembered }, ?_, hfollows⟩
  rw [element_of_restricts _ _ hkind hchain, outcome_bind_of_ok hvalueOf]
  exact outcome_pure _ _

namespace RestrictionWitness

/-- Ages of adults, and of those adults who are still at work. -/
def adult : Facets := { minInclusive := some "18", maxInclusive := some "99" }

def atWork : Facets := { maxExclusive := some "67" }

def register : Source where
  model :=
    { types := [.builtin .integer, .restriction 0 adult,
        .restriction 1 atWork] }
  settings := {}
  files := {}

theorem register_restricts :
    register.model.Restricts .integer 2 [atWork, adult] :=
  .step rfl (.step rfl (.builtin rfl))

theorem adult_allows_iff {z : Int} :
    adult.AllowsNumber z ↔ 18 ≤ z ∧ z ≤ 99 := by
  have hleast : Decimal.Denotes "18" 18 := Decimal.denotes_ofInt 18
  have hmost : Decimal.Denotes "99" 99 := Decimal.denotes_ofInt 99
  simp [Facets.allowsNumber_iff, Facets.Keeps, adult, hleast.exists_iff,
    hmost.exists_iff]

theorem atWork_allows_iff {z : Int} : atWork.AllowsNumber z ↔ z < 67 := by
  have hlimit : Decimal.Denotes "67" 67 := Decimal.denotes_ofInt 67
  simp [Facets.allowsNumber_iff, Facets.Keeps, atWork, hlimit.exists_iff]

theorem atWork_noWider : atWork.NoWider adult where
  minLength := nofun
  maxLength := nofun
  bounds
    | .lower, hdeclares => absurd rfl hdeclares
    | .upper, _ => by
        have hlimit : Decimal.Denotes "67" 67 := Decimal.denotes_ofInt 67
        have hmost : Decimal.Denotes "99" 99 := Decimal.denotes_ofInt 99
        intro z hz
        simp [Facets.Keeps, atWork, adult, hlimit.exists_iff,
          hmost.exists_iff] at hz ⊢
        omega

theorem register_narrowing : Facets.Narrowing [atWork, adult] where
  length_le := by decide
  patterns := by decide
  totalDigits := by decide
  oneLower := by decide
  oneUpper := by decide
  noWider := by simpa using atWork_noWider

/-- Someone in the register is an adult at work. -/
theorem age_followsRestrictions : ∃ text q,
    outcome (element register (remembering register.model) depthLimit
        { name := "age", type := 2 }) ⟨Session.ofSeed 7, []⟩ =
      (.ok { name := "age", text := some text }, q) ∧
    atWork.Allows .integer text ∧ adult.Allows .integer text := by
  have hforty : Decimal.Denotes "40" 40 := Decimal.denotes_ofInt 40
  obtain ⟨text, q, hrun, hfollows⟩ := @element_followsRestrictions register
    { name := "age", type := 2 } .integer [atWork, adult] _ (.inr rfl)
    register_restricts register_narrowing
    (fun _ => ⟨"40", ⟨40, hforty, by decide⟩, by
      simp [Facets.Allows, hforty.exists_iff, atWork_allows_iff,
        adult_allows_iff]⟩)
    (by simp [register]) rfl 63 ⟨Session.ofSeed 7, []⟩ (Found.sound_nil _)
  have hallowed := hfollows.allowed (by
    intro member hmember
    simp [Facets.nearestEnumeration, adult, atWork] at hmember)
  exact ⟨text, q, hrun, hallowed atWork (by simp), hallowed adult (by simp)⟩

/-- Words of a list and those among them of one letter, and numbers that need
more than 64 bits. -/
def listed : Facets := { enumeration := ["a", "bb"] }

def oneLetter : Facets := { maxLength := some 1 }

def beyond : Facets :=
  { minInclusive := some "9223372036854775808"
    maxInclusive := some "9223372036854775808" }

def catalogue : Source where
  model :=
    { types := [.builtin .string, .restriction 0 listed,
        .restriction 1 oneLetter, .builtin .integer, .restriction 3 beyond] }
  settings := {}
  files := {}

/-- The text of an element with the type, drawn from a seed. -/
def drawn (type : TypeId) (seed : UInt64) :
    Except GenerationError (Option String) :=
  (outcome (element catalogue (remembering catalogue.model) depthLimit
    { name := "entry", type }) ⟨Session.ofSeed seed, []⟩).1.map (·.text)

theorem oneLetter_narrowing : Facets.Narrowing [oneLetter, listed] := by
  have hnoWider : oneLetter.NoWider listed :=
    ⟨nofun, nofun, fun side hdeclares => by
      cases side <;> exact absurd rfl hdeclares⟩
  exact ⟨by decide, by decide, by decide, by decide, by decide,
    by simpa using hnoWider⟩

theorem oneLetter_allows_iff {text : String} :
    oneLetter.AllowsText text ↔ text.length ≤ 1 := by
  constructor
  · exact fun hallows => hallows.maxLength 1 rfl
  · intro hlength
    refine ⟨absurd rfl, nofun, nofun, ?_⟩
    intro n hn
    cases hn
    exact hlength

theorem beyond_narrowing : Facets.Narrowing [beyond] :=
  ⟨by decide, by decide, by decide, by decide, by decide, by simp⟩

theorem beyond_allows_iff {z : Int} :
    beyond.AllowsNumber z ↔ z = 9223372036854775808 := by
  have hdenotes : Decimal.Denotes "9223372036854775808" 9223372036854775808 :=
    Decimal.denotes_ofInt 9223372036854775808
  simp [Facets.allowsNumber_iff, Facets.Keeps, beyond, hdenotes.exists_iff]
  omega

/-- One word of the list has one letter, and yet the other one is drawn; a
number beyond 64 bits is asked for, and the greatest one of 64 bits is drawn. -/
theorem restrictions_not_followed :
    (catalogue.model.Restricts .string 2 [oneLetter, listed] ∧
      Facets.Narrowing [oneLetter, listed] ∧
      (oneLetter.Allows .string "a" ∧ listed.Allows .string "a") ∧
      drawn 2 1 = .ok (some "bb") ∧ ¬ oneLetter.Allows .string "bb") ∧
    (catalogue.model.Restricts .integer 4 [beyond] ∧
      Facets.Narrowing [beyond] ∧
      beyond.Allows .integer "9223372036854775808" ∧
      drawn 4 1 = .ok (some "9223372036854775807") ∧
      ¬ beyond.Allows .integer "9223372036854775807") := by
  constructor
  · refine ⟨.step rfl (.step rfl (.builtin rfl)), oneLetter_narrowing,
      ⟨oneLetter_allows_iff.mpr (by decide), ?_⟩, by decide +kernel, ?_⟩
    · exact ⟨fun _ => by decide, nofun, nofun, nofun⟩
    · exact fun hallows =>
        absurd (oneLetter_allows_iff.mp hallows) (by decide)
  · refine ⟨.step rfl (.builtin rfl), beyond_narrowing,
      ⟨9223372036854775808, Decimal.denotes_ofInt 9223372036854775808,
        beyond_allows_iff.mpr rfl⟩, by decide +kernel, ?_⟩
    rintro ⟨z, hz, hallows⟩
    have hleast := hz.unique (Decimal.denotes_ofInt 9223372036854775807)
    have hasked := beyond_allows_iff.mp hallows
    omega

end RestrictionWitness

end Generation

end Specimen
