/-
The order of declarations.  In another order top-level elements are met
elsewhere and types get other numbers; the models are the same but for that.
There is one exception.  An element that is met for the first time inside a
group is built while the group is being expanded; if the content of the element
is that group again, it seems to contain itself.
-/
import Mathlib.Data.Set.Function
import Specimen.Proofs.Reordering
import Specimen.Proofs.TypeReferences

namespace Specimen

/-- The second model is the first one with other type numbers, and perhaps with
its top-level elements in another order. -/
structure Model.Renamed (m : Model) (rename : TypeId → TypeId) (m' : Model) :
    Prop where
  numbers : Set.BijOn rename (Set.Iio m.types.length) (Set.Iio m'.types.length)
  types : ∀ i d, m.types[i]? = some d → ∃ d', m'.types[rename i]? = some d' ∧
    d.Linked (fun j k => j < m.types.length ∧ k = rename j) d'
  builtins : ∀ name, m'.builtins.lookup name =
    (m.builtins.lookup name).map rename
  elements :
    (m.elements.map fun e => { e with type := rename e.type }).Perm m'.elements
  references : ∀ name, m'.isReferenced name = m.isReferenced name

namespace Declaration

open Builder

/-- The types that stand are those of owners. -/
def Provides (contents : Owner → Option Content) (D : Directory) : Prop :=
  ∀ owner, .owned owner ∈ D.standing → ∃ content, contents owner = some content

/-- Whatever is declared is done, and nothing else is there. -/
structure Finished (contents : Owner → Option Content) (D D' : Directory)
    (origins : List Origin) (t : Builder) : Prop where
  tracked : t.Tracked D' origins
  done : ∀ owner content, contents owner = some content →
    Done contents D owner origins t
  element : ∀ name decl, D.elements.lookup name = some decl →
    ∃ id, t.elementTypes.lookup name = some id ∧
      origins[id]? = some (D.elementOrigin name decl)
  mem_iff : ∀ origin, origin ∈ origins ↔ Belongs contents D origin
  references : ∀ name, name ∈ t.model.references ↔
    ∃ owner, Mentions contents D owner name

section Finishing

variable {contents : Owner → Option Content} {D D' : Directory}
  {owner : Owner} {owners : Owner → Prop} {origin : Origin}
  {origins : List Origin} {t : Builder}

/-- The types that an owner leads to are there when all owners are done. -/
theorem mem_of_comes (hprovides : Provides contents D)
    (hdone : ∀ owner content, contents owner = some content →
      Done contents D owner origins t)
    (hcomes : Comes contents D owner origin) : origin ∈ origins := by
  obtain ⟨content, d, s, hcontent, halone, i, hlt, horigin⟩ := hcomes
  obtain ⟨hs, hcovers, -⟩ :=
    (hdone owner content hcontent).of_alone hcontent halone
  have harises := hs.arises i
  rw [horigin] at harises
  cases harises with
  | owned other hget =>
      obtain ⟨content', hcontent'⟩ :=
        hprovides other (List.mem_of_getElem? hget)
      obtain ⟨_, _, _, -, -, -, -, j, _, hj, -⟩ :=
        hdone other content' hcontent'
      exact List.mem_of_getElem? hj
  | builtin name hlookup =>
      exact hcovers.builtin name (Option.isSome_of_eq_some hlookup)
  | inline =>
      obtain ⟨j, _, hj, -⟩ :=
        hcovers.inline i _ (List.getElem?_eq_getElem hlt) horigin
      exact List.mem_of_getElem? hj

/-- A conversion that has come to its end is finished. -/
theorem finished_of_progress (hprovides : Provides contents D)
    (hprogress : Progress contents D D' owners origins t)
    (howners : ∀ owner content, contents owner = some content → owners owner)
    (helement : ∀ name decl, D.elements.lookup name = some decl →
      ∃ id, t.elementTypes.lookup name = some id ∧
        origins[id]? = some (D.elementOrigin name decl)) :
    Finished contents D D' origins t := by
  have hdone (owner : Owner) (content : Content)
      (hcontent : contents owner = some content) :
      Done contents D owner origins t :=
    hprogress.done owner (howners owner content hcontent)
  refine ⟨hprogress.tracked, hdone, helement,
    fun origin => ⟨hprogress.belongs origin, fun hbelongs => ?_⟩,
    fun name => ⟨hprogress.mentioned name, ?_⟩⟩
  · cases hbelongs with
    | owned hcontent =>
        obtain ⟨_, _, _, -, -, -, -, j, _, hj, -⟩ := hdone _ _ hcontent
        exact List.mem_of_getElem? hj
    | comes hcomes => exact mem_of_comes hprovides hdone hcomes
    | asked hdecl hasks =>
        obtain ⟨id, -, hget⟩ := helement _ _ hdecl
        exact hprogress.tracked.mem_of_asks hget hasks
  · rintro ⟨owner, content, d, s, hcontent, halone, hname⟩
    obtain ⟨-, hcovers, -⟩ :=
      (hdone owner content hcontent).of_alone hcontent halone
    exact hcovers.references name hname

/-- If a conversion is finished no order of declarations is flawed. -/
theorem Finished.not_flawed (hfinished : Finished contents D D' origins t)
    (hheads : ∀ name decl, D.elements.lookup name = some decl →
      checkHead decl.head name = .ok ()) : ¬ Flawed contents D := by
  intro hflawed
  cases hflawed with
  | owner hcontent halone =>
      obtain ⟨_, _, _, hcontent', halone', -⟩ := hfinished.done _ _ hcontent
      cases hcontent.symm.trans hcontent'
      cases halone.symm.trans halone'
  | head hdecl hhead => cases hhead.symm.trans (hheads _ _ hdecl)
  | unknown hdecl hunknown =>
      obtain ⟨id, -, hget⟩ := hfinished.element _ _ hdecl
      exact hunknown (hfinished.tracked.known hget)

end Finishing

section Comparing

/-- The number of the same origin. -/
def renumber (origins origins' : List Origin) (i : TypeId) : TypeId :=
  (origins[i]?).elim 0 fun origin => origins'.idxOf origin

variable {contents : Owner → Option Content} {D D₁ D₂ : Directory}
  {owner : Owner} {origin : Origin} {origins origins' : List Origin}
  {t t' : Builder}

/-- Numbers of one origin. -/
def Counterparts (origins origins' : List Origin) (i j : TypeId) : Prop :=
  ∃ origin, origins[i]? = some origin ∧ origins'[j]? = some origin

theorem counterparts_of_common {s : Builder} {i j : TypeId}
    (hcommon : Common (SameOrigin D owner s origins)
      (SameOrigin D owner s origins') i j) :
    Counterparts origins origins' i j := by
  obtain ⟨k, ⟨-, hi⟩, -, hj⟩ := hcommon
  exact ⟨_, hi, hj⟩

/-- Types of one origin have definitions that differ in type numbers alone. -/
def Agree (origins origins' : List Origin) (t t' : Builder) (i j : TypeId) :
    Prop :=
  ∃ d d', t.model.types[i]? = some d ∧ t'.model.types[j]? = some d' ∧
    d.Linked (Counterparts origins origins') d'

/-- Builtin types are the same everywhere. -/
theorem agree_builtin (htracked : t.Tracked D₁ origins)
    (htracked' : t'.Tracked D₂ origins') {name : String} {i j : TypeId}
    (hi : origins[i]? = some (.builtin name))
    (hj : origins'[j]? = some (.builtin name)) :
    Agree origins origins' t t' i j := by
  cases htracked.standard name i hi with
  | primitive hbuiltin hdefinition =>
      cases htracked'.standard name j hj with
      | primitive hbuiltin' hdefinition' =>
          cases hbuiltin.symm.trans hbuiltin'
          exact ⟨_, _, hdefinition, hdefinition', .builtin _⟩
      | derived hbuiltin' hfacets =>
          cases hbuiltin.symm.trans hbuiltin'
          exact absurd rfl hfacets
  | derived hbuiltin hfacets hdefinition hbase =>
      cases htracked'.standard name j hj with
      | primitive hbuiltin' =>
          cases hbuiltin.symm.trans hbuiltin'
          exact absurd rfl hfacets
      | derived hbuiltin' _ hdefinition' hbase' =>
          cases hbuiltin.symm.trans hbuiltin'
          exact ⟨_, _, hdefinition, hdefinition',
            .restriction _ ⟨_, hbase, hbase'⟩⟩

theorem agree_owned (hfirst : Finished contents D D₁ origins t)
    (hsecond : Finished contents D D₂ origins' t') {content : Content}
    (hcontent : contents owner = some content) {i j : TypeId}
    (hi : origins[i]? = some (.owned owner))
    (hj : origins'[j]? = some (.owned owner)) :
    Agree origins origins' t t' i j := by
  obtain ⟨_, d, s, hcontent', halone, -, -, i', d₁, hi', hd₁, hlinked₁⟩ :=
    hfirst.done owner content hcontent
  obtain ⟨-, -, j', d₂, hj', hd₂, hlinked₂⟩ :=
    (hsecond.done owner content hcontent).of_alone hcontent' halone
  cases hfirst.tracked.eq_of_getElem? hi hi'
  cases hsecond.tracked.eq_of_getElem? hj hj'
  exact ⟨d₁, d₂, hd₁, hd₂,
    (hlinked₁.common hlinked₂).mono fun _ _ => counterparts_of_common⟩

theorem agree_inline (hfirst : Finished contents D D₁ origins t)
    (hsecond : Finished contents D D₂ origins' t') {number : TypeId}
    (hcomes : Comes contents D owner (.inline owner number)) {i j : TypeId}
    (hi : origins[i]? = some (.inline owner number))
    (hj : origins'[j]? = some (.inline owner number)) :
    Agree origins origins' t t' i j := by
  obtain ⟨content, d, s, hcontent, halone, k, hlt, horigin⟩ := hcomes
  obtain ⟨-, rfl⟩ := originIn_eq_inline horigin
  have hget := List.getElem?_eq_getElem hlt
  obtain ⟨-, hcovers, -⟩ :=
    (hfirst.done owner content hcontent).of_alone hcontent halone
  obtain ⟨-, hcovers', -⟩ :=
    (hsecond.done owner content hcontent).of_alone hcontent halone
  obtain ⟨i', d₁, hi', hd₁, hlinked₁⟩ := hcovers.inline _ _ hget horigin
  obtain ⟨j', d₂, hj', hd₂, hlinked₂⟩ := hcovers'.inline _ _ hget horigin
  cases hfirst.tracked.eq_of_getElem? hi hi'
  cases hsecond.tracked.eq_of_getElem? hj hj'
  exact ⟨d₁, d₂, hd₁, hd₂,
    (hlinked₁.common hlinked₂).mono fun _ _ => counterparts_of_common⟩

/-- Whatever a type comes from, it is the same in both models. -/
theorem agree_of_counterparts (hprovides : Provides contents D)
    (hfirst : Finished contents D D₁ origins t)
    (hsecond : Finished contents D D₂ origins' t') {i j : TypeId}
    (hcounterparts : Counterparts origins origins' i j) :
    Agree origins origins' t t' i j := by
  obtain ⟨origin, hi, hj⟩ := hcounterparts
  cases origin with
  | builtin name => exact agree_builtin hfirst.tracked hsecond.tracked hi hj
  | owned owner =>
      have hcontent : ∃ content, contents owner = some content := by
        cases (hfirst.mem_iff _).mp (List.mem_of_getElem? hi) with
        | owned hcontent => exact ⟨_, hcontent⟩
        | comes hcomes =>
            obtain ⟨content, d, s, hcontent, halone, k, hlt, horigin⟩ := hcomes
            obtain ⟨hs, -⟩ :=
              (hfirst.done _ content hcontent).of_alone hcontent halone
            have harises := hs.arises k
            rw [horigin] at harises
            cases harises with
            | owned _ hget =>
                exact hprovides owner (List.mem_of_getElem? hget)
      obtain ⟨content, hcontent⟩ := hcontent
      exact agree_owned hfirst hsecond hcontent hi hj
  | inline owner number =>
      cases (hfirst.mem_iff _).mp (List.mem_of_getElem? hi) with
      | comes hcomes =>
          obtain ⟨_, _, _, -, -, _, -, horigin⟩ := id hcomes
          obtain ⟨rfl, -⟩ := originIn_eq_inline horigin
          exact agree_inline hfirst hsecond hcomes hi hj

end Comparing

section Renaming

variable {contents : Owner → Option Content} {D D₁ D₂ : Directory}
  {origins origins' : List Origin} {t t' : Builder}

theorem counterparts_renumber (hfirst : Finished contents D D₁ origins t)
    (hsecond : Finished contents D D₂ origins' t') {i : TypeId}
    (hlt : i < t.model.types.length) :
    Counterparts origins origins' i (renumber origins origins' i) := by
  rw [← hfirst.tracked.length] at hlt
  have hget := List.getElem?_eq_getElem hlt
  have hmem := (hsecond.mem_iff _).mpr
    ((hfirst.mem_iff _).mp (List.getElem_mem hlt))
  refine ⟨_, hget, ?_⟩
  rw [renumber, hget]
  exact List.getElem?_idxOf hmem

theorem eq_renumber (hfirst : Finished contents D D₁ origins t)
    (hsecond : Finished contents D D₂ origins' t') {i j : TypeId}
    (hcounterparts : Counterparts origins origins' i j) :
    i < t.model.types.length ∧ j = renumber origins origins' i := by
  obtain ⟨origin, hi, hj⟩ := hcounterparts
  have hlt := (List.getElem?_eq_some_iff.mp hi).1
  rw [hfirst.tracked.length] at hlt
  obtain ⟨_, hi', hj'⟩ := counterparts_renumber hfirst hsecond hlt
  cases hi.symm.trans hi'
  exact ⟨hlt, hsecond.tracked.eq_of_getElem? hj hj'⟩

theorem bijOn_renumber (hfirst : Finished contents D D₁ origins t)
    (hsecond : Finished contents D D₂ origins' t') :
    Set.BijOn (renumber origins origins') (Set.Iio t.model.types.length)
      (Set.Iio t'.model.types.length) := by
  refine ⟨fun i hi => ?_, fun i hi j hj hsame => ?_, fun j hj => ?_⟩
  · obtain ⟨_, -, hget⟩ := counterparts_renumber hfirst hsecond hi
    have hlt := (List.getElem?_eq_some_iff.mp hget).1
    rwa [hsecond.tracked.length] at hlt
  · obtain ⟨_, hi', hget⟩ := counterparts_renumber hfirst hsecond hi
    obtain ⟨_, hj', hget'⟩ := counterparts_renumber hfirst hsecond hj
    rw [hsame] at hget
    cases hget.symm.trans hget'
    exact hfirst.tracked.eq_of_getElem? hi' hj'
  · obtain ⟨origin, hj', hi⟩ := counterparts_renumber hsecond hfirst hj
    have hcounterparts : Counterparts origins origins' _ j :=
      ⟨origin, hi, hj'⟩
    obtain ⟨hlt, hsame⟩ := eq_renumber hfirst hsecond hcounterparts
    exact ⟨_, hlt, hsame.symm⟩

/-- The top-level elements are those that are declared, with the types that were
noted. -/
theorem elements_eq_map {entries : List (String × ElementDeclaration)}
    {elements : List ElementDecl}
    (hstands : List.Forall₂ (Stands t) entries elements) :
    elements = entries.map fun entry =>
      { name := entry.1, type := (t.elementTypes.lookup entry.1).getD 0 } := by
  induction hstands with
  | nil => rfl
  | @cons entry element _ _ hentry _ ih =>
      obtain ⟨name, type, occurs⟩ := element
      obtain ⟨rfl, rfl, htype⟩ := hentry
      rw [List.map_cons, ← ih, htype]
      rfl

theorem perm_elements (hfirst : Finished contents D D₁ origins t)
    (hsecond : Finished contents D D₂ origins' t')
    (hnodup : (D.elements.map (·.1)).Nodup)
    (hperm : D.elements.Perm D₂.elements)
    (hstands : List.Forall₂ (Stands t) D.elements t.model.elements)
    (hstands' : List.Forall₂ (Stands t') D₂.elements t'.model.elements) :
    (t.model.elements.map fun e =>
      { e with type := renumber origins origins' e.type }).Perm
        t'.model.elements := by
  rw [elements_eq_map hstands, elements_eq_map hstands', List.map_map]
  refine List.Perm.trans (.of_eq ?_) (hperm.map _)
  refine List.map_congr_left fun entry hentry => ?_
  have hdecl : D.elements.lookup entry.1 = some entry.2 :=
    lookup_of_mem hnodup hentry
  obtain ⟨i, hi, hget⟩ := hfirst.element _ _ hdecl
  obtain ⟨j, hj, hget'⟩ := hsecond.element _ _ hdecl
  obtain ⟨-, rfl⟩ := eq_renumber hfirst hsecond ⟨_, hget, hget'⟩
  simp [hi, hj]

/-- Finished models of the same declarations are the same but for the numbers of
their types. -/
theorem renamed_of_finished (hprovides : Provides contents D)
    (hfirst : Finished contents D D₁ origins t)
    (hsecond : Finished contents D D₂ origins' t')
    (helements : (t.model.elements.map fun e =>
      { e with type := renumber origins origins' e.type }).Perm
        t'.model.elements) :
    t.model.Renamed (renumber origins origins') t'.model where
  numbers := bijOn_renumber hfirst hsecond
  types i d hget := by
    have hlt := (List.getElem?_eq_some_iff.mp hget).1
    obtain ⟨d₁, d₂, hd₁, hd₂, hlinked⟩ := agree_of_counterparts hprovides hfirst
      hsecond (counterparts_renumber hfirst hsecond hlt)
    cases hget.symm.trans hd₁
    exact ⟨d₂, hd₂, hlinked.mono fun _ _ => eq_renumber hfirst hsecond⟩
  builtins name := by
    ext j
    rw [hsecond.tracked.builtin, Option.map_eq_some_iff]
    simp only [hfirst.tracked.builtin]
    constructor
    · intro hj
      obtain ⟨i, hi⟩ := List.mem_iff_getElem?.mp ((hfirst.mem_iff _).mpr
        ((hsecond.mem_iff _).mp (List.mem_of_getElem? hj)))
      exact ⟨i, hi, (eq_renumber hfirst hsecond ⟨_, hi, hj⟩).2.symm⟩
    · rintro ⟨i, hi, rfl⟩
      have hlt := (List.getElem?_eq_some_iff.mp hi).1
      rw [hfirst.tracked.length] at hlt
      obtain ⟨_, hi', hj⟩ := counterparts_renumber hfirst hsecond hlt
      cases hi.symm.trans hi'
      exact hj
  elements := helements
  references name := by
    rw [Bool.eq_iff_iff, Model.isReferenced, Model.isReferenced,
      List.contains_iff_mem, List.contains_iff_mem, hfirst.references,
      hsecond.references]

end Renaming

section Order

variable {declarations declarations' : List TopLevel} {c c' : Collection}
  {name : String}

theorem provides_declaredContent (hholds : c.Holds declarations)
    (hunambiguous : Unambiguous declarations) :
    Provides (declaredContent declarations) c.directory := by
  intro owner hstanding
  rw [Directory.standing, List.mem_append, List.mem_map, List.mem_map]
    at hstanding
  rcases hstanding with ⟨entry, hentry, ⟨⟩⟩ | ⟨name, hname, ⟨⟩⟩
  · obtain ⟨content, hget⟩ :=
      hholds.mem_types.mp (List.mem_reverse.mp hentry)
    exact ⟨_, Collection.Holds.declaredContent_of_getElem? hunambiguous hget⟩
  · obtain ⟨decl, hmem, htype⟩ := mem_untyped.mp hname
    rw [hholds.elements] at hmem
    have hdecl := lookup_of_mem hunambiguous.elements hmem
    rw [← hholds.elements] at hdecl
    exact ⟨_, hholds.declaredContent_element hdecl htype⟩

/-- What is declared of an element is declared of one without a named type. -/
theorem untyped_of_declaredContent (hholds : c.Holds declarations)
    {content : Content}
    (hcontent : declaredContent declarations (.element name) = some content) :
    ∃ decl, c.directory.elements.lookup name = some decl ∧
      decl.head.type = none := by
  rw [declaredContent, ← hholds.elements] at hcontent
  cases hdecl : c.directory.elements.lookup name with
  | none =>
      rw [hdecl] at hcontent
      cases hcontent
  | some decl =>
      rw [hdecl] at hcontent
      dsimp only at hcontent
      split at hcontent
      · rename_i htype
        exact ⟨decl, rfl, Option.isNone_iff_eq_none.mp htype⟩
      · cases hcontent

/-- If a model is built, no top-level element is one that stands for others. -/
theorem checkHead_of_build {references : References} {b b' : Builder}
    (hrun : (c.build references).run b = .ok ((), b')) :
    ∀ entry ∈ c.directory.elements,
      checkHead entry.2.head entry.1 = .ok () := by
  obtain ⟨_, _, -, hrun⟩ := Conversion.run_bind_eq_ok_iff.mp hrun
  obtain ⟨_, b₂, -, hrun⟩ := Conversion.run_bind_eq_ok_iff.mp hrun
  rw [addElements_eq] at hrun
  generalize c.directory.elements = entries at hrun
  induction entries generalizing b₂ with
  | nil => exact nofun
  | cons entry entries ih =>
      obtain ⟨_, b₃, hfirst, hrun⟩ := Conversion.run_bind_eq_ok_iff.mp hrun
      obtain ⟨_, _, hhead, -⟩ := Conversion.run_bind_eq_ok_iff.mp hfirst
      refine List.forall_mem_cons.mpr ⟨?_, ih b₃ hrun⟩
      cases hcheck : checkHead entry.2.head entry.1 with
      | ok => rfl
      | error e =>
          rw [hcheck] at hhead
          cases hhead

/-- A model that is built of declarations in another order is finished. -/
theorem finished_build (hholds : c.Holds declarations)
    (hholds' : c'.Holds declarations') (hunambiguous : Unambiguous declarations)
    (hperm : declarations.Perm declarations') (hplain : c.Plain) {b : Builder}
    (hrun : (c'.build (References.within c'.directory c'.directory.depth)).run
      { model := c'.model } = .ok ((), b)) :
    ∃ origins, Finished (declaredContent declarations) c.directory c'.directory
      origins b := by
  have halike := alike_collected hholds hholds' hunambiguous hperm hplain
  have hreaches := reaches_build halike
    (collected_contents hholds' hunambiguous hperm)
    (progress_collected hholds' hunambiguous hperm c.directory)
      c'.directory.depth
  rw [hrun] at hreaches
  obtain ⟨owners, origins, hprogress, htypes⟩ : ∃ owners origins,
      Progress (declaredContent declarations) c.directory c'.directory owners
        origins b ∧ ∀ name, (c'.directory.types.lookup name).isSome →
          owners (.type name) := by
    cases hreaches with
    | ok hdescribed => exact hdescribed
  obtain ⟨-, -, hstands⟩ := sound_build hholds' hrun
  have helement (name : String) (decl : ElementDeclaration)
      (hdecl : c.directory.elements.lookup name = some decl) :
      ∃ id, b.elementTypes.lookup name = some id ∧
        origins[id]? = some (c.directory.elementOrigin name decl) := by
    rw [← halike.elements] at hdecl
    obtain ⟨id, hid⟩ := lookup_of_stands hstands (mem_keys_of_lookup hdecl)
    obtain ⟨decl', hdecl', hget⟩ := hprogress.tracked.element name id hid
    cases hdecl.symm.trans hdecl'
    rw [halike.elementOrigin] at hget
    exact ⟨id, hid, hget⟩
  refine ⟨origins, finished_of_progress
    (provides_declaredContent hholds hunambiguous) hprogress
    (fun owner content hcontent => ?_) helement⟩
  cases owner with
  | type name =>
      apply htypes
      rw [halike.types, hholds.isSome_lookup_types, hcontent]
      rfl
  | element name =>
      obtain ⟨decl, hdecl, htype⟩ := untyped_of_declaredContent hholds hcontent
      obtain ⟨id, -, hget⟩ := helement name decl hdecl
      rw [Directory.elementOrigin, htype] at hget
      exact hprogress.met name (List.mem_of_getElem? hget)

/-- An element with a named type is only converted if it has no other parts. -/
theorem plain_of_toModel (hholds : c.Holds declarations) {m : Model}
    (hmodel : toModel declarations = .ok m) : c.Plain := by
  intro name decl hdecl htype
  rw [hholds.elements] at hdecl
  obtain ⟨e, -, hmeans⟩ := (toModel_means hmodel).2 name decl hdecl
  cases hmeans with
  | named _ hitems => exact hitems
  | inline hnone =>
      rw [hnone] at htype
      cases htype

theorem toModel_of_build_eq_error {e : DeclarationError}
    (hcollected : Collection.ofTopLevel declarations = .ok c)
    (hfails : (c.build (References.within c.directory c.directory.depth)).run
      { model := c.model } = .error e) : toModel declarations = .error e := by
  rw [toModel, hcollected]
  change c.toModel c.directory.depth = _
  rw [Collection.toModel, hfails]
  rfl

/-- If a model can be built in one order, it can be built in every other one, or
a group seems to contain itself, which leads back to itself. -/
theorem groupInItself_of_build (hholds : c.Holds declarations)
    (hholds' : c'.Holds declarations') (hunambiguous : Unambiguous declarations)
    (hperm : declarations.Perm declarations') (hplain : c.Plain)
    {b : Builder}
    (hrun : (c.build (References.within c.directory c.directory.depth)).run
      { model := c.model } = .ok ((), b)) {e : DeclarationError}
    (hfails : (c'.build
      (References.within c'.directory c'.directory.depth)).run
        { model := c'.model } = .error e) :
    ∃ group, e = .groupInItself group ∧
      Relation.TransGen (Contains declarations) (.group group)
        (.group group) := by
  obtain ⟨origins, hfinished⟩ :=
    finished_build hholds hholds hunambiguous (.refl _) hplain hrun
  have hheads (name : String) (decl : ElementDeclaration)
      (hdecl : c.directory.elements.lookup name = some decl) :
      checkHead decl.head name = .ok () :=
    checkHead_of_build hrun (name, decl) (mem_of_lookup hdecl)
  have halike := alike_collected hholds hholds' hunambiguous hperm hplain
  have hplain' : c'.Plain := by
    intro name decl hdecl
    rw [halike.elements] at hdecl
    exact hplain name decl hdecl
  have hreaches := reaches_build halike
    (collected_contents hholds' hunambiguous hperm)
    (progress_collected hholds' hunambiguous hperm c.directory)
      c'.directory.depth
  rw [hfails] at hreaches
  have hjustifies : c'.directory.Justifies e := by
    refine (Collection.toModel_of_depth_le hplain'.unentangled le_rfl).2 e ?_
    rw [Collection.toModel, hfails]
    rfl
  cases hreaches with
  | error hmay =>
      cases hmay with
      | endless => exact hjustifies.elim
      | groupInItself name =>
          have hle : c'.directory.Contains ≤ Contains declarations :=
            fun _ _ hcontains => (hholds'.contains hcontains).perm hperm
          exact ⟨name, rfl, Relation.TransGen.mono hle _ _ hjustifies⟩
      | flawed hflawed => exact absurd hflawed (hfinished.not_flawed hheads)

end Order

/-- The order of declarations with distinct names makes no difference to the
model but for the numbers of types and the order of top-level elements, where no
simple type has the name of a complex type: of these the last one counts.  It
may be that another order gives no model, but then for the one reason that a
group seems to contain itself, and only if the group leads back to itself. -/
theorem toModel_perm {declarations declarations' : List TopLevel} {m : Model}
    (hperm : declarations.Perm declarations')
    (hdistinct : Distinct declarations) (hapart : TypesApart declarations)
    (hmodel : toModel declarations = .ok m) :
    (∃ m' rename, toModel declarations' = .ok m' ∧ m.Renamed rename m') ∨
      ∃ group, toModel declarations' = .error (.groupInItself group) ∧
        Relation.TransGen (Contains declarations) (.group group)
          (.group group) := by
  obtain ⟨c, b, hcollected, hrun, rfl⟩ := toModel_eq_ok_iff.mp hmodel
  obtain ⟨c', hcollected'⟩ := Collection.ofTopLevel_perm hperm hcollected
  have hholds := Collection.holds_ofTopLevel hcollected
  have hholds' := Collection.holds_ofTopLevel hcollected'
  have hplain := plain_of_toModel hholds hmodel
  have hunambiguous := hdistinct.unambiguous hapart
  cases hrun' : (c'.build (References.within c'.directory
      c'.directory.depth)).run { model := c'.model } with
  | error e =>
      obtain ⟨group, rfl, hleads⟩ := groupInItself_of_build hholds hholds'
        hunambiguous hperm hplain hrun hrun'
      exact .inr ⟨group, toModel_of_build_eq_error hcollected' hrun', hleads⟩
  | ok result =>
      obtain ⟨⟨⟩, b'⟩ := result
      obtain ⟨origins, hfirst⟩ :=
        finished_build hholds hholds hunambiguous (.refl _) hplain hrun
      obtain ⟨origins', hsecond⟩ :=
        finished_build hholds hholds' hunambiguous hperm hplain hrun'
      obtain ⟨-, -, hstands⟩ := sound_build hholds hrun
      obtain ⟨-, -, hstands'⟩ := sound_build hholds' hrun'
      have hnodup : (c.directory.elements.map (·.1)).Nodup :=
        hholds.elements ▸ hunambiguous.elements
      have helements : c.directory.elements.Perm c'.directory.elements := by
        rw [hholds.elements, hholds'.elements]
        exact hperm.filterMap _
      refine .inl ⟨b'.model, renumber origins origins',
        toModel_eq_ok_iff.mpr ⟨c', b', hcollected', hrun', rfl⟩,
        renamed_of_finished
          (provides_declaredContent hholds hunambiguous) hfirst
          hsecond (perm_elements hfirst hsecond hnodup helements
            hstands hstands')⟩

namespace OrderWitness

/-- The start tag of a top-level element, with the name of a type or without. -/
def named (name : String) (type : Option String) : ElementHead :=
  ⟨some name, none, type, {}, false, false⟩

/-- A group that refers to elements, which need not be there. -/
def optional (names : List String) : GroupItem :=
  .group .sequence {} (names.map fun name =>
    .element ⟨none, some name, none, { least := 0 }, false, false⟩ [])

/-- An inline type whose content is a named group. -/
def inlineOf (group : String) : List ElementItem :=
  [.complexType [.reference (some group) {}]]

/-- A shelf with books, which have titles and covers. -/
def shelf : List TopLevel :=
  [.element (named "shelf" none) (inlineOf "books"),
    .group (some "books") [optional ["book"]],
    .element (named "book" (some "Book")) [],
    .complexType (some "Book") [.group .sequence {} [optional ["title"],
      optional ["cover"]]],
    .element (named "cover" none)
      [.complexType [.group .choice {} [optional ["title"]]]],
    .element (named "title" (some "Title")) [],
    .simpleType (some "Title")
      [.restriction (some "token") [.facet ⟨.maxLength, "80"⟩]]]

/-- The shelf may be declared from the other end. -/
theorem shelf_reversed :
    shelf.Perm shelf.reverse ∧ Distinct shelf ∧ TypesApart shelf ∧
      ∃ m, toModel shelf = .ok m ∧ ∃ m' rename,
        toModel shelf.reverse = .ok m' ∧ m.Renamed rename m' := by
  have hperm : shelf.Perm shelf.reverse := (List.reverse_perm shelf).symm
  have hdistinct : Distinct shelf :=
    ⟨by decide, by decide, by decide, by decide⟩
  have hapart : TypesApart shelf := by
    change ["Title"].Disjoint ["Book"]
    simp
  have hfirst : (toModel shelf).toOption.isSome := by decide +kernel
  have hsecond : (toModel shelf.reverse).toOption.isSome := by decide +kernel
  obtain ⟨m, hmodel⟩ := exists_ok_of_isSome hfirst
  obtain ⟨m', hmodel'⟩ := exists_ok_of_isSome hsecond
  refine ⟨hperm, hdistinct, hapart, m, hmodel, ?_⟩
  rcases toModel_perm hperm hdistinct hapart hmodel with
    hrenamed | ⟨group, herror, -⟩
  · exact hrenamed
  · rw [hmodel'] at herror
    cases herror

/-- Two elements that contain a group, which refers to one of them. -/
def twins (first second : String) : List TopLevel :=
  [.group (some "g") [optional ["a"]],
    .element (named first none) (inlineOf "g"),
    .element (named second none) (inlineOf "g")]

/-- The group seems to contain itself if the element that it does not refer to
comes first. -/
theorem twins_ordered :
    (twins "a" "b").Perm (twins "b" "a") ∧ Distinct (twins "a" "b") ∧
      (∃ m, toModel (twins "a" "b") = .ok m) ∧
      toModel (twins "b" "a") = .error (.groupInItself "g") := by
  have hfirst : (toModel (twins "a" "b")).toOption.isSome := by decide +kernel
  have hsecond : (toModel (twins "b" "a")).map (fun _ => ()) =
      .error (.groupInItself "g") := by
    decide +kernel
  refine ⟨.cons _ (.swap _ _ _), ⟨by decide, by decide, by decide, by decide⟩,
    exists_ok_of_isSome hfirst, ?_⟩
  · cases hmodel : toModel (twins "b" "a") with
    | error e =>
        rw [hmodel] at hsecond
        exact congrArg _ (Except.error.inj hsecond)
    | ok => simp [hmodel, Except.map] at hsecond

end OrderWitness

end Declaration

end Specimen
