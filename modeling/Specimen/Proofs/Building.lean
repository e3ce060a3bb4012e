/-
A whole conversion: in the end every owner is done, and whatever there is
belongs to an owner or to a top-level element with a named type.
-/
import Specimen.Proofs.Nesting

namespace Specimen

namespace Declaration

open Builder

/-- A type of the origin belongs to the model: an owner has it if it is
converted alone, or a top-level element with a named type asks for it. -/
inductive Belongs (contents : Owner → Option Content) (D : Directory) :
    Origin → Prop where
  | owned {owner : Owner} {content : Content}
    (hcontent : contents owner = some content) :
    Belongs contents D (.owned owner)
  | comes {owner : Owner} {origin : Origin}
    (hcomes : Comes contents D owner origin) : Belongs contents D origin
  | asked {name other : String} {decl : ElementDeclaration}
    (hdecl : D.elements.lookup name = some decl)
    (hasks : (D.elementOrigin name decl).Asks other) :
    Belongs contents D (.builtin other)

/-- How far a conversion has come: some owners are done, and nothing is begun
that is not. -/
structure Progress (contents : Owner → Option Content) (D D' : Directory)
    (owners : Owner → Prop) (origins : List Origin) (t : Builder) : Prop where
  tracked : t.Tracked D' origins
  belongs : ∀ origin ∈ origins, Belongs contents D origin
  mentioned : ∀ name ∈ t.model.references,
    ∃ owner, Mentions contents D owner name
  opened : ∀ owner i, .inline owner i ∈ origins → owners owner
  met : ∀ name, .owned (.element name) ∈ origins → owners (.element name)
  done : ∀ owner, owners owner → Done contents D owner origins t

variable {contents : Owner → Option Content} {D D' : Directory} {owner : Owner}
  {owners : Owner → Prop} {origins origins' : List Origin} {t t' : Builder}
  {w w' : World} {d d' : TypeDef} {may : DeclarationError → Prop}

/-- One more owner is done, and with it the top-level elements that were met on
the way. -/
theorem Progress.of_converted
    (hprogress : Progress contents D D' owners origins t)
    (hconverted : Converted contents D D' owner w w' d d')
    (hgrows : Grows origins t w.origins w.right)
    (hstart : ∀ origin ∈ w.origins, origin ∈ origins ∨ origin = .owned owner)
    (hreferences : w.right.model.references = t.model.references)
    (hnew : ¬ owners owner) {n : TypeId}
    (hn : w'.origins[n]? = some (.owned owner)) :
    Progress contents D D'
      (fun other => owners other ∨ other = owner ∨
        ∃ name, other = .element name ∧ .owned other ∈ w'.origins)
      w'.origins
      { w'.right with model := w'.right.model.define n d' } := by
  have hdone := hconverted.done hn
  obtain ⟨hvalid, hlater, ⟨content, hcontent, halone⟩, hlinked⟩ := hconverted
  have hkept {other : Owner} (hother : other ≠ owner)
      (hdone : Done contents D other w'.origins w'.right) :
      Done contents D other w'.origins
        { w'.right with model := w'.right.model.define n d' } :=
    hdone.define hn hother
  have hold {other : Owner} (hother : owners other) :
      Done contents D other w'.origins
        { w'.right with model := w'.right.model.define n d' } := by
    refine hkept ?_ ((hprogress.done other hother).of_grows
      (hgrows.trans hlater.grows))
    rintro rfl
    exact hnew hother
  refine ⟨hvalid.tracked.define hn d', fun origin horigin => ?_,
    fun name hname => ?_, fun other i hi => ?_, fun name hname => ?_,
    fun other hother => ?_⟩
  · rcases hlater.new origin horigin with hmem | hown | ⟨name, -, hcomes⟩
    · rcases hstart origin hmem with hmem | rfl
      · exact hprogress.belongs origin hmem
      · exact .owned hcontent
    · exact .comes ⟨content, d, w'.left, hcontent, halone, hown⟩
    · exact .comes hcomes
  · rcases hlater.newReferences name hname with hmem | hown |
      ⟨other, -, hmentions⟩
    · rw [hreferences] at hmem
      exact hprogress.mentioned name hmem
    · exact ⟨owner, content, d, w'.left, hcontent, halone, hown⟩
    · exact ⟨_, hmentions⟩
  · rcases hlater.new _ hi with hmem | ⟨i', -, horigin⟩ |
      ⟨name, -, content', e, s, -, -, i', -, horigin⟩
    · rcases hstart _ hmem with hmem | hlast
      · exact .inl (hprogress.opened other i hmem)
      · cases hlast
    · exact .inr (.inl (originIn_eq_inline horigin).1)
    · have hname := (originIn_eq_inline horigin).1
      subst hname
      exact .inr (.inr ⟨name, rfl, hvalid.tracked.opened name i hi⟩)
  · exact .inr (.inr ⟨name, rfl, hname⟩)
  · by_cases hsame : other = owner
    · rw [hsame]
      exact hdone
    · rcases hother with hother | hother | ⟨name, rfl, hmem⟩
      · exact hold hother
      · exact absurd hother hsame
      · rcases hlater.done name hmem with hmem | hdone'
        · rcases hstart _ hmem with hmem | hlast
          · exact hold (hprogress.met name hmem)
          · exact absurd (Origin.owned.inj hlast) hsame
        · exact hkept hsame hdone'

/-- A top-level element with a named type is found, or one that was met before.
-/
theorem Progress.of_obtains
    (hprogress : Progress contents D D' owners origins t)
    {name : String} {decl : ElementDeclaration} {id : TypeId}
    (hdecl : D.elements.lookup name = some decl)
    (hobtains : Obtains D' (D.elementOrigin name decl) origins t origins' id
      t') :
    Progress contents D D' owners origins' t' := by
  have hmem {origin : Origin} (horigin : origin ∈ origins')
      (hbuiltin : ∀ other, origin ≠ .builtin other) : origin ∈ origins := by
    rcases hobtains.new origin horigin with hold | ⟨other, -, rfl⟩
    · exact hold
    · exact absurd rfl (hbuiltin other)
  refine ⟨hobtains.tracked, fun origin horigin => ?_, fun other hother => ?_,
    fun other i hi => hprogress.opened other i (hmem hi nofun),
    fun other hother => hprogress.met other (hmem hother nofun),
    fun other hother => (hprogress.done other hother).of_grows hobtains.grows⟩
  · rcases hobtains.new origin horigin with hold | ⟨other, hasks, rfl⟩
    · exact hprogress.belongs origin hold
    · exact .asked hdecl hasks
  · rw [hobtains.references] at hother
    exact hprogress.mentioned other hother

/-- A top-level element is added to the model. -/
theorem Progress.addElement
    (hprogress : Progress contents D D' owners origins t)
    (element : ElementDecl) :
    Progress contents D D' owners origins
      { t with model := t.model.addElement element } := by
  obtain ⟨htracked, hbelongs, hmentioned, hopened, hmet, hdone⟩ := hprogress
  refine ⟨htracked.congr rfl rfl rfl, hbelongs, hmentioned, hopened, hmet,
    fun owner howner => ?_⟩
  exact (hdone owner howner).mono List.prefix_rfl
    (fun _ _ _ _ _ hget => hget) fun _ hname => hname

/-- Owners that are done after some more named types. -/
structure Gained (names : String → Prop) (owners owners' : Owner → Prop) :
    Prop where
  kept : ∀ owner, owners owner → owners' owner
  all : ∀ name, names name → owners' (.type name)
  only : ∀ name, owners' (.type name) → owners (.type name) ∨ names name

theorem reaches_namedType (halike : Alike contents D D')
    (hprogress : Progress contents D D' owners origins t) {name : String}
    {id : TypeId} (hid : D'.types.lookup name = some id) {content : Content}
    (hcontent : contents (.type name) = some content)
    (hnew : ¬ owners (.type name)) (depth' : Nat) :
    Reaches (MayFail contents D)
      (fun _ t' => ∃ owners' origins',
        Progress contents D D' owners' origins' t' ∧
          Gained (· = name) owners owners')
      ((do Conversion.define id (← content.convert D'
        (References.within D' depth') []) : Conversion Unit).run t) := by
  have hvalid : Valid D D' (.type name) ⟨D.waiting, t, origins⟩ :=
    valid_waiting halike hprogress.tracked
      (fun i hi => hnew (hprogress.opened _ i hi)) nofun
  have hfollow : Follow (together contents D D' (.type name))
      (References.within D D.depth) (References.within D' depth') [] []
      ⟨D.waiting, t, origins⟩ fun _ => True :=
    follow_together halike _ _ _ _ (List.nil_subset _)
  apply (reaches_convert halike hvalid hfollow hcontent).bind
  rintro d' _ ⟨w', d, rfl, hconverted⟩
  have hn := getElem?_of_le hconverted.later.grows.origins
    (hprogress.tracked.declared name id hid)
  refine .ok ⟨_, _, hprogress.of_converted hconverted (.refl _ _)
    (fun _ => .inl) rfl hnew hn, fun _ => .inl, ?_, ?_⟩
  · rintro _ rfl
    exact .inr (.inl rfl)
  · rintro other (hold | hother | ⟨_, ⟨⟩, _⟩)
    · exact .inl hold
    · exact .inr (Owner.type.inj hother)

/-- Named types are done one by one. -/
theorem reaches_namedTypes (halike : Alike contents D D') (depth' : Nat)
    {ι : Type} (content : ι → Content) (types : List (TypeId × ι))
    (hdeclared : ∀ x ∈ types, ∃ name, D'.types.lookup name = some x.1 ∧
      contents (.type name) = some (content x.2))
    (hnodup : (types.map (·.1)).Nodup)
    (hprogress : Progress contents D D' owners origins t)
    (hnew : ∀ x ∈ types, ∀ name, D'.types.lookup name = some x.1 →
      ¬ owners (.type name)) :
    Reaches (MayFail contents D)
      (fun _ t' => ∃ owners' origins',
        Progress contents D D' owners' origins' t' ∧
          Gained (fun name => ∃ x ∈ types, D'.types.lookup name = some x.1)
            owners owners')
      ((types.forM fun x => do Conversion.define x.1 (← (content x.2).convert
        D' (References.within D' depth') [])).run t) := by
  induction types generalizing t owners origins with
  | nil =>
      exact .ok ⟨owners, origins, hprogress, fun _ => id, nofun, fun _ => .inl⟩
  | cons x types ih =>
      obtain ⟨hfresh, hnodup⟩ := List.nodup_cons.mp hnodup
      obtain ⟨name, hid, hcontent⟩ := hdeclared x List.mem_cons_self
      have hname {other : String} (hother : D'.types.lookup other = some x.1) :
          other = name := by
        have hsame := (hprogress.tracked.declared other x.1 hother).symm.trans
          (hprogress.tracked.declared name x.1 hid)
        simpa using hsame
      apply (reaches_namedType halike hprogress hid hcontent
        (hnew x List.mem_cons_self name hid) depth').bind
      rintro _ t₁ ⟨owners₁, origins₁, hprogress₁, hgained₁⟩
      have hnew₁ : ∀ y ∈ types, ∀ other,
          D'.types.lookup other = some y.1 → ¬ owners₁ (.type other) := by
        intro y hy other hother howner
        rcases hgained₁.only other howner with hold | rfl
        · exact hnew y (List.mem_cons_of_mem x hy) other hother hold
        · have hsame : x.1 = y.1 := Option.some.inj (hid.symm.trans hother)
          exact hfresh (List.mem_map.mpr ⟨y, hy, hsame.symm⟩)
      have hrest := ih
        (fun y hy => hdeclared y (List.mem_cons_of_mem x hy)) hnodup
        hprogress₁ hnew₁
      refine hrest.mono ?_
      rintro _ t' ⟨owners', origins', hprogress', hgained'⟩
      refine ⟨owners', origins', hprogress',
        fun other hother => hgained'.kept other (hgained₁.kept other hother),
        ?_, ?_⟩
      · rintro other ⟨y, hy, hother⟩
        rcases List.mem_cons.mp hy with rfl | hy
        · exact hgained'.kept _ (hgained₁.all other (hname hother))
        · exact hgained'.all other ⟨y, hy, hother⟩
      · intro other hother
        rcases hgained'.only other hother with hold | ⟨y, hy, hlookup⟩
        · rcases hgained₁.only other hold with hold | rfl
          · exact .inl hold
          · exact .inr ⟨x, List.mem_cons_self, hid⟩
        · exact .inr ⟨y, List.mem_cons_of_mem x hy, hlookup⟩

/-- The type of a top-level element is there, and with it what it leads to. -/
theorem reaches_element (halike : Alike contents D D')
    (hprogress : Progress contents D D' owners origins t) {name : String}
    {decl : ElementDeclaration} (hdecl : D.elements.lookup name = some decl)
    (depth' : Nat) :
    Reaches (MayFail contents D)
      (fun _ t' => ∃ owners' origins',
        Progress contents D D' owners' origins' t' ∧
          Gained (fun _ => False) owners owners')
      ((topLevelType D' (References.within D' depth') [] name decl).run t) := by
  have hempty := halike.empty name decl hdecl
  have hdecl' := (halike.elements name).trans hdecl
  by_cases hmet : (t.elementTypes.lookup name).isSome ∨ decl.head.type.isSome
  · have hfinds := hprogress.tracked.findsElement
      (References.within D' depth') [] hdecl' hempty hmet
    rw [halike.elementOrigin] at hfinds
    generalize (topLevelType D' _ [] name decl).run t = result at hfinds ⊢
    cases hfinds with
    | unknown hunknown => exact .error (.flawed (.unknown hdecl hunknown) _)
    | known _ hobtains =>
        obtain ⟨origins', hobtains⟩ := hobtains
        exact .ok ⟨owners, origins', hprogress.of_obtains hdecl hobtains,
          fun _ => id, nofun, fun _ => .inl⟩
  · rw [not_or, Option.not_isSome_iff_eq_none, Option.not_isSome_iff_eq_none]
      at hmet
    obtain ⟨hnew, htype⟩ := hmet
    have hfollow : Follow (together contents D D' (.element name))
        (References.within D D.depth) (References.within D' depth') [] []
        ⟨D.waiting, t.reserve name, origins ++ [.owned (.element name)]⟩
        fun _ => True :=
      follow_together halike _ _ _ _ (List.nil_subset _)
    have hunmet := reaches_unmet (w := ⟨D.waiting, t, origins⟩)
      hprogress.tracked htype hnew (reaches_convert halike
        (valid_unmet halike hprogress.tracked hdecl htype hnew) hfollow
        (halike.content name decl hdecl htype))
    refine hunmet.mono ?_
    rintro _ _ ⟨-, w', d, d', rfl, hbuilt⟩
    have howner : ¬ owners (.element name) := by
      intro howner
      obtain ⟨_, _, _, -, -, -, -, j, _, hj, -⟩ :=
        hprogress.done _ howner
      exact hbuilt.unmet (List.mem_of_getElem? hj)
    refine ⟨_, _, hprogress.of_converted hbuilt.converted
      (hprogress.tracked.reserve hnew hdecl' htype).2 (fun origin horigin => ?_)
      rfl howner hbuilt.getElem?, fun _ => .inl, nofun, ?_⟩
    · exact (List.mem_append.mp horigin).imp_right List.mem_singleton.mp
    · rintro other (hold | ⟨⟨⟩⟩ | ⟨_, ⟨⟩, _⟩)
      exact .inl hold

/-- A top-level element is added, with what it leads to. -/
theorem reaches_addElement (halike : Alike contents D D')
    (hprogress : Progress contents D D' owners origins t) {name : String}
    {decl : ElementDeclaration} (hdecl : D.elements.lookup name = some decl)
    (depth' : Nat) :
    Reaches (MayFail contents D)
      (fun _ t' => ∃ owners' origins',
        Progress contents D D' owners' origins' t' ∧
          Gained (fun _ => False) owners owners')
      ((addElement D' (References.within D' depth') [] (name, decl)).run
        t) := by
  have hhead : Reaches (MayFail contents D) (fun _ b => b = t)
      ((liftM (checkHead decl.head name) : Conversion Unit).run t) := by
    cases hcheck : checkHead decl.head name with
    | ok _ => exact .ok rfl
    | error e => exact .error (.flawed (.head hdecl hcheck) e)
  apply hhead.bind
  rintro _ _ rfl
  apply (reaches_element halike hprogress hdecl depth').bind
  rintro type t' ⟨owners', origins', hprogress', hgained⟩
  exact .ok ⟨owners', origins', hprogress'.addElement _, hgained⟩

/-- Top-level elements are added one by one. -/
theorem reaches_elements (halike : Alike contents D D') (depth' : Nat)
    (entries : List (String × ElementDeclaration))
    (hdeclared : ∀ entry ∈ entries, D.elements.lookup entry.1 = some entry.2)
    (hprogress : Progress contents D D' owners origins t) :
    Reaches (MayFail contents D)
      (fun _ t' => ∃ owners' origins',
        Progress contents D D' owners' origins' t' ∧
          Gained (fun _ => False) owners owners')
      ((entries.forM
        (addElement D' (References.within D' depth') [])).run t) := by
  induction entries generalizing t owners origins with
  | nil =>
      exact .ok ⟨owners, origins, hprogress, fun _ => id, nofun, fun _ => .inl⟩
  | cons entry entries ih =>
      apply (reaches_addElement halike hprogress
        (hdeclared entry List.mem_cons_self) depth').bind
      rintro _ t₁ ⟨owners₁, origins₁, hprogress₁, hgained₁⟩
      refine (ih (fun other hother => hdeclared other
        (List.mem_cons_of_mem entry hother)) hprogress₁).mono ?_
      rintro _ t' ⟨owners', origins', hprogress', hgained'⟩
      refine ⟨owners', origins', hprogress', fun other hother =>
        hgained'.kept other (hgained₁.kept other hother), nofun, ?_⟩
      intro other hother
      rcases hgained'.only other hother with hold | ⟨⟨⟩⟩
      exact hgained₁.only other hold

/-- The collected types are the declared ones. -/
structure Collected (contents : Owner → Option Content) (c : Collection) :
    Prop where
  simpleTypes : ∀ x ∈ c.simpleTypes, ∃ name,
    c.directory.types.lookup name = some x.1 ∧
      contents (.type name) = some (.type (.simple x.2))
  complexTypes : ∀ x ∈ c.complexTypes, ∃ name,
    c.directory.types.lookup name = some x.1 ∧
      contents (.type name) = some (.type (.complex x.2))
  nodup : (c.simpleTypes.map (·.1) ++ c.complexTypes.map (·.1)).Nodup
  elements : ∀ entry ∈ c.directory.elements,
    c.directory.elements.lookup entry.1 = some entry.2
  all : ∀ name id, c.directory.types.lookup name = some id →
    id ∈ c.simpleTypes.map (·.1) ++ c.complexTypes.map (·.1)

theorem defineComplex_eq (D : Directory) (references : References)
    (types : List (TypeId × List ComplexItem)) :
    defineComplex D references types = (types.forM fun x => (do
      Conversion.define x.1 (← (Content.type (.complex x.2)).convert D
        references []) : Conversion Unit)) := by
  simp only [Content.convert, bind_assoc, pure_bind]
  rfl

/-- A model that is built has all owners done. -/
theorem reaches_build {c : Collection}
    (halike : Alike contents D c.directory) (hcollected : Collected contents c)
    (hprogress : Progress contents D c.directory (fun _ => False) origins
      { model := c.model }) (depth' : Nat) :
    Reaches (MayFail contents D)
      (fun _ t' => ∃ owners' origins',
        Progress contents D c.directory owners' origins' t' ∧
          ∀ name, (c.directory.types.lookup name).isSome →
            owners' (.type name))
      ((c.build (References.within c.directory depth')).run
        { model := c.model }) := by
  obtain ⟨hsimple, hcomplex, hdisjoint⟩ :=
    List.nodup_append.mp hcollected.nodup
  have hfirst := reaches_namedTypes halike depth' (.type <| .simple ·)
    c.simpleTypes hcollected.simpleTypes hsimple hprogress nofun
  apply hfirst.bind
  rintro _ t₁ ⟨owners₁, origins₁, hprogress₁, hgained₁⟩
  have hnew : ∀ x ∈ c.complexTypes, ∀ name,
      c.directory.types.lookup name = some x.1 → ¬ owners₁ (.type name) := by
    intro x hx name hname howner
    rcases hgained₁.only name howner with ⟨⟨⟩⟩ | ⟨y, hy, hother⟩
    exact hdisjoint y.1 (List.mem_map_of_mem hy) x.1 (List.mem_map_of_mem hx)
      (Option.some.inj (hother.symm.trans hname))
  have hsecond := reaches_namedTypes halike depth' (.type <| .complex ·)
    c.complexTypes hcollected.complexTypes hcomplex hprogress₁ hnew
  rw [← defineComplex_eq] at hsecond
  apply hsecond.bind
  rintro _ t₂ ⟨owners₂, origins₂, hprogress₂, hgained₂⟩
  refine (reaches_elements halike depth' c.directory.elements
    (fun entry hentry => ?_) hprogress₂).mono ?_
  · rw [← halike.elements]
    exact hcollected.elements entry hentry
  rintro _ t₃ ⟨owners₃, origins₃, hprogress₃, hgained₃⟩
  refine ⟨owners₃, origins₃, hprogress₃, fun name hsome => ?_⟩
  apply hgained₃.kept
  obtain ⟨id, hid⟩ := Option.isSome_iff_exists.mp hsome
  rcases List.mem_append.mp (hcollected.all name id hid) with hin | hin
  · obtain ⟨x, hx, rfl⟩ := List.mem_map.mp hin
    exact hgained₂.kept _ (hgained₁.all name ⟨x, hx, hid⟩)
  · obtain ⟨x, hx, rfl⟩ := List.mem_map.mp hin
    exact hgained₂.all name ⟨x, hx, hid⟩

end Declaration

end Specimen
