/-
Owners that are built in between.  A top-level element that is met for the first
time is converted while another owner waits; it is done then, and for the one
that waits only types behind its own have come.
-/
import Specimen.Proofs.Together

namespace Specimen

namespace Declaration

open Builder

variable {contents : Owner → Option Content} {D D' : Directory} {owner : Owner}
  {s s' t t' : Builder} {origins origins' : List Origin} {w w' w'' : World}

/-- What an owner has is converted alongside if references are followed so. -/
theorem alongside_convert {W : Type} {C : Comparison W}
    (hsupports : C.Supports D D') {references references' : References}
    {expanding expanding' : List String} {w₀ : W}
    {targets : Target → Prop}
    (hfollow : Follow C references references' expanding expanding' w₀ targets)
    (htargets : ∀ target, targets target) (content : Content) :
    C.Alongside w₀ (fun w => TypeDef.Linked (C.same w))
      (content.convert D references expanding)
      (content.convert D' references' expanding') := by
  cases content with
  | type content =>
      cases content with
      | simple items => exact alongside_simpleType hsupports items
      | complex items =>
          apply (alongside_complexItems hsupports hfollow items
            (.intro .none .nil) (C.later_refl w₀)
            fun target _ => htargets target).bind
          intro w' _ t u hlinked
          exact .of_pure (.complex hlinked)
  | element items =>
      apply (alongside_elementItems hsupports hfollow items .none
        (C.later_refl w₀) fun target _ => htargets target).bind
      intro w' _ inline inline' hinline
      cases hinline with
      | none => exact .of_pure (.builtin .anyType)
      | some hlinked => exact .of_pure hlinked

/-- A step ends as described, or fails in a way that is let pass. -/
inductive Reaches {α : Type} (may : DeclarationError → Prop)
    (described : α → Builder → Prop) :
    Except DeclarationError (α × Builder) → Prop where
  | ok {a : α} {b : Builder} (hdescribed : described a b) :
    Reaches may described (.ok (a, b))
  | error {e : DeclarationError} (hmay : may e) :
    Reaches may described (.error e)

theorem Reaches.mono {α : Type} {described described' : α → Builder → Prop}
    {result : Except DeclarationError (α × Builder)}
    (hreaches : Reaches may described result)
    (hle : ∀ a b, described a b → described' a b) :
    Reaches may described' result := by
  cases hreaches with
  | ok hdescribed => exact .ok (hle _ _ hdescribed)
  | error hmay => exact .error hmay

theorem Reaches.bind {α β : Type} {described : α → Builder → Prop}
    {described' : β → Builder → Prop} {x : Conversion α}
    {f : α → Conversion β} {b : Builder}
    (hfirst : Reaches may described (x.run b))
    (hnext : ∀ a b', described a b' →
      Reaches may described' ((f a).run b')) :
    Reaches may described' ((x >>= f).run b) := by
  generalize hx : x.run b = result at hfirst
  cases hfirst with
  | error hmay =>
      rw [Conversion.run_bind_of_error hx]
      exact .error hmay
  | ok hdescribed =>
      rw [Conversion.run_bind_of_ok hx]
      exact hnext _ _ hdescribed

/-- What an owner is converted to alone and in the conversion that it takes part
in. -/
structure Converted (contents : Owner → Option Content) (D D' : Directory)
    (owner : Owner) (w w' : World) (d d' : TypeDef) : Prop where
  valid : Valid D D' owner w'
  later : Later contents D owner w w'
  alone : ∃ content, contents owner = some content ∧
    D.alone content = .ok (d, w'.left)
  linked : d.Linked (SameOrigin D owner w'.left w'.origins) d'

/-- An owner is converted, unless no order of conversion would do. -/
theorem reaches_convert (halike : Alike contents D D')
    {references' : References} {expanding' : List String}
    (hvalid : Valid D D' owner ⟨D.waiting, t, origins⟩)
    (hfollow : Follow (together contents D D' owner)
      (References.within D D.depth) references' [] expanding'
      ⟨D.waiting, t, origins⟩ fun _ => True)
    {content : Content} (hcontent : contents owner = some content) :
    Reaches (MayFail contents D)
      (fun d' t' => ∃ w' d, t' = w'.right ∧ Converted contents D D' owner
        ⟨D.waiting, t, origins⟩ w' d d')
      ((content.convert D' references' expanding').run t) := by
  have houtcome := alongside_convert (together_supports halike) hfollow
    (fun _ => trivial) content _ _ ⟨rfl, rfl, hvalid⟩
  change (together contents D D' owner).Outcome _ _ (D.alone content) _
    at houtcome
  generalize halone : D.alone content = first at houtcome
  generalize (content.convert D' references' expanding').run t = second
    at houtcome ⊢
  cases houtcome with
  | first hmay =>
      obtain ⟨other, rfl⟩ := hmay
      exact absurd halone (halike.ends _ other)
  | second hmay => exact .error hmay
  | both => exact .error (.flawed (.owner hcontent halone) _)
  | ok w' hlater hholds hlinked =>
      obtain ⟨rfl, rfl, hvalid'⟩ := hholds
      exact .ok ⟨w', _, rfl, hvalid', hlater, ⟨content, hcontent, halone⟩,
        hlinked⟩

section Nesting

variable {references references' : References}
  {expanding expanding' : List String} {name : String}
  {decl : ElementDeclaration}

/-- An owner that nothing has been added for is ready to be converted. -/
theorem valid_waiting (halike : Alike contents D D')
    (htracked : t.Tracked D' origins) (hnew : ∀ i, .inline owner i ∉ origins)
    (hopened : ∀ name, owner = .element name → .owned owner ∈ origins) :
    Valid D D' owner ⟨D.waiting, t, origins⟩ := by
  refine ⟨alone_waiting halike.nodup, htracked, ⟨nofun, ?_, nofun⟩,
    fun i hi => absurd hi (hnew i), hopened⟩
  intro i d hget horigin
  have hlt := (List.getElem?_eq_some_iff.mp hget).1
  rw [Directory.waiting, List.length_replicate] at hlt
  have hstanding := List.getElem?_eq_getElem hlt
  rw [originIn_of_standing hstanding] at horigin
  obtain ⟨other, hother⟩ := owned_of_mem_standing (List.getElem_mem hlt)
  rw [horigin] at hother
  cases hother

/-- A top-level element without a named type is ready to be built when it has
its number. -/
theorem valid_unmet (halike : Alike contents D D')
    (htracked : t.Tracked D' origins)
    (hdecl : D.elements.lookup name = some decl)
    (htype : decl.head.type = none)
    (hnew : t.elementTypes.lookup name = none) :
    Valid D D' (.element name)
      ⟨D.waiting, t.reserve name, origins ++ [.owned (.element name)]⟩ := by
  have hdecl' := (halike.elements name).trans hdecl
  refine valid_waiting halike (htracked.reserve hnew hdecl' htype).1
    (fun i hi => ?_) fun other hother => ?_
  · rcases List.mem_append.mp hi with hold | hlast
    · exact htracked.not_mem_owned hnew (htracked.opened name i hold)
    · simp at hlast
  · simp

/-- Only the owner whose number gets a definition changes. -/
theorem getElem?_define {n j : TypeId} {origin : Origin} {d d' : TypeDef}
    (hn : origins[n]? = some (.owned owner)) (hj : origins[j]? = some origin)
    (hne : origin ≠ .owned owner) (hget : t.model.types[j]? = some d) :
    (t.model.define n d').types[j]? = some d := by
  have hnj : n ≠ j := by
    rintro rfl
    exact hne (Option.some.inj (hj.symm.trans hn))
  rwa [Model.define, List.getElem?_set_ne hnj]

theorem Done.define {other : Owner} {n : TypeId} {d : TypeDef}
    (hdone : Done contents D other origins t)
    (hn : origins[n]? = some (.owned owner)) (hne : other ≠ owner) :
    Done contents D other origins
      { t with model := t.model.define n d } := by
  refine hdone.mono List.prefix_rfl (fun j e origin hj horigin hget => ?_)
    fun _ hname => hname
  refine getElem?_define hn hj ?_ hget
  rcases horigin with rfl | ⟨i, rfl⟩
  · simpa using hne
  · simp

/-- An owner is done when its number gets what it has been converted to. -/
theorem Converted.done {d d' : TypeDef}
    (hconverted : Converted contents D D' owner w w' d d') {n : TypeId}
    (hn : w'.origins[n]? = some (.owned owner)) :
    Done contents D owner w'.origins
      { w'.right with model := w'.right.model.define n d' } := by
  obtain ⟨hvalid, -, ⟨content, hcontent, halone⟩, hlinked⟩ := hconverted
  have hlt := (List.getElem?_eq_some_iff.mp hn).1
  rw [hvalid.tracked.length] at hlt
  refine ⟨content, d, w'.left, hcontent, halone, hvalid.alone, ?_, n, d', hn,
    by simp [Model.define, hlt], hlinked⟩
  exact hvalid.covers.mono List.prefix_rfl
    (fun i j e hj hget => getElem?_define hn hj (by simp) hget)
    fun _ hname => hname

/-- A top-level element is converted in between that was not met before. -/
structure Built (contents : Owner → Option Content) (D D' : Directory)
    (name : String) (w w' : World) (d d' : TypeDef) : Prop where
  tracked : w.right.Tracked D' w.origins
  unmet : .owned (.element name) ∉ w.origins
  converted : Converted contents D D' (.element name)
    ⟨D.waiting, w.right.reserve name,
      w.origins ++ [.owned (.element name)]⟩ w' d d'

namespace Built

variable {d d' : TypeDef}

theorem getElem? (hbuilt : Built contents D D' name w w' d d') :
    w'.origins[w.right.model.types.length]? =
      some (.owned (.element name)) :=
  getElem?_of_le hbuilt.converted.later.grows.origins
    (by simp [← hbuilt.tracked.length])

/-- Seen from outside, types have only come behind those that were there. -/
theorem grows (hbuilt : Built contents D D' name w w' d d') :
    Grows w.origins w.right w'.origins { w'.right with
      model := w'.right.model.define w.right.model.types.length d' } := by
  obtain ⟨htypes, horigins, hreferences⟩ := hbuilt.converted.later.grows
  refine ⟨?_, (List.prefix_append _ _).trans horigins, hreferences⟩
  obtain ⟨rest, hrest⟩ := htypes
  have hwhole : w'.right.model.types =
      w.right.model.types ++ (.builtin .anyType :: rest) := by
    rw [← hrest]
    simp [Builder.reserve]
  simp [Model.define, hwhole, List.set_append_right]

/-- Inline types of the owner that waits are not added in between. -/
theorem mem_of_inline (hbuilt : Built contents D D' name w w' d d')
    (hvalid : Valid D D' owner w) {i : TypeId}
    (hmem : .inline owner i ∈ w'.origins) : .inline owner i ∈ w.origins := by
  have hwaits {other : String} (hother : .owned (.element other) ∉ w.origins) :
      owner ≠ .element other := by
    rintro rfl
    exact hother (hvalid.opened other rfl)
  rcases hbuilt.converted.later.new _ hmem with hold | ⟨i', -, horigin⟩ |
    ⟨other, hnew, content, e, s, -, -, i', -, horigin⟩
  · rcases List.mem_append.mp hold with hold | hlast
    · exact hold
    · simp at hlast
  · exact absurd (originIn_eq_inline horigin).1 (hwaits hbuilt.unmet)
  · refine absurd (originIn_eq_inline horigin).1 (hwaits fun hold => hnew ?_)
    exact List.mem_append_left _ hold

/-- The owner that waits goes on where it was. -/
theorem valid_outer (hbuilt : Built contents D D' name w w' d d')
    (hvalid : Valid D D' owner w) {s : Builder} {i : TypeId}
    (hgains : w.left.Gains D owner (.owned (.element name)) i s) :
    Valid D D' owner ⟨s, { w'.right with
      model := w'.right.model.define w.right.model.types.length d' },
      w'.origins⟩ := by
  refine ⟨hgains.alone,
    hbuilt.converted.valid.tracked.define hbuilt.getElem? d', ?_,
    fun i' hi' => ?_, fun other hother =>
      hbuilt.grows.origins.subset (hvalid.opened other hother)⟩
  · refine hvalid.covers.step hgains.onward hbuilt.grows (fun other hsome => ?_)
      (fun i' e hge hget _ => ?_) fun other hother =>
        .inl (hgains.references ▸ hother)
    · exact (hgains.new other hsome).imp_right False.elim
    · have hlt := (List.getElem?_eq_some_iff.mp hget).1
      rcases hgains.newTypes i' hlt with hold | ⟨_, hasks, _⟩
      · exact absurd hold (Nat.not_lt.mpr hge)
      · exact hasks.elim
  · exact (hvalid.begun i' (hbuilt.mem_of_inline hvalid hi')).trans_le
      hgains.onward.types.length_le

theorem later_outer (hbuilt : Built contents D D' name w w' d d') {s : Builder}
    {i : TypeId}
    (hgains : w.left.Gains D owner (.owned (.element name)) i s) :
    Later contents D owner w ⟨s, { w'.right with
      model := w'.right.model.define w.right.model.types.length d' },
      w'.origins⟩ := by
  obtain ⟨content, hcontent, halone⟩ := hbuilt.converted.alone
  have hfirst {other : String}
      (hnew : .owned (.element other) ∉
        w.origins ++ [.owned (.element name)]) :
      .owned (.element other) ∉ w.origins :=
    fun hold => hnew (List.mem_append_left _ hold)
  refine ⟨hgains.onward, hbuilt.grows, fun origin horigin => ?_,
    fun other hother => ?_, fun other hother => ?_⟩
  · rcases hbuilt.converted.later.new origin horigin with hold | hown |
      ⟨other, hnew, hcomes⟩
    · rcases List.mem_append.mp hold with hold | hlast
      · exact .inl hold
      · rw [List.mem_singleton] at hlast
        exact .inr (.inl ⟨i, hgains.lt, hgains.comes.trans hlast.symm⟩)
    · exact .inr (.inr ⟨name, hbuilt.unmet, content, d, w'.left, hcontent,
        halone, hown⟩)
    · exact .inr (.inr ⟨other, hfirst hnew, hcomes⟩)
  · rcases hbuilt.converted.later.newReferences other hother with hold | hown |
      ⟨another, hnew, hmentions⟩
    · exact .inl hold
    · exact .inr (.inr ⟨name, hbuilt.unmet, content, d, w'.left, hcontent,
        halone, hown⟩)
    · exact .inr (.inr ⟨another, hfirst hnew, hmentions⟩)
  · by_cases hname : other = name
    · subst hname
      exact .inr (hbuilt.converted.done hbuilt.getElem?)
    · rcases hbuilt.converted.later.done other hother with hold | hdone
      · rcases List.mem_append.mp hold with hold | hlast
        · exact .inl hold
        · simp only [List.mem_singleton, Origin.owned.injEq,
            Owner.element.injEq] at hlast
          exact absurd hlast hname
      · exact .inr (hdone.define hbuilt.getElem?
          (by simpa using hname))

end Built

theorem run_inlineType_of_ok {D : Directory} {b b' : Builder} {d : TypeDef}
    {items : List ElementItem}
    (hany : b'.model.types[b.model.types.length]? = some (.builtin .anyType))
    (hrun : ((Content.element items).convert D references expanding).run
      (b.reserve name) = .ok (d, b')) :
    (inlineType D references expanding name items).run b =
      .ok (b.model.types.length,
        { b' with model := b'.model.define b.model.types.length d }) := by
  obtain ⟨inline, b₁, hitems, hd⟩ := Conversion.run_bind_eq_ok_iff.mp hrun
  cases hd
  rw [run_inlineType, run_filledType_eq_ok_iff]
  exact ⟨inline, b', hitems, run_forM_define hany inline, rfl⟩

theorem run_inlineType_of_error {D : Directory} {b : Builder}
    {items : List ElementItem} {e : DeclarationError}
    (hrun : ((Content.element items).convert D references expanding).run
      (b.reserve name) = .error e) :
    (inlineType D references expanding name items).run b = .error e := by
  rw [Content.convert] at hrun
  rw [run_inlineType]
  apply Conversion.run_bind_of_error
  cases hitems : (elementItems D references expanding items none).run
      (b.reserve name) with
  | error e' =>
      rw [Conversion.run_bind_of_error hitems] at hrun
      cases hrun
      rfl
  | ok result =>
      rw [Conversion.run_bind_of_ok hitems] at hrun
      cases hrun

/-- A top-level element that is met for the first time is built in between. -/
theorem reaches_unmet (htracked : w.right.Tracked D' w.origins)
    (htype : decl.head.type = none)
    (hnew : w.right.elementTypes.lookup name = none)
    (hcontent : Reaches (MayFail contents D)
      (fun d' t' => ∃ w' d, t' = w'.right ∧
        Converted contents D D' (.element name) ⟨D.waiting,
          w.right.reserve name, w.origins ++ [.owned (.element name)]⟩ w' d d')
      (((Content.element decl.items).convert D' references' expanding').run
        (w.right.reserve name))) :
    Reaches (MayFail contents D)
      (fun id t' => id = w.right.model.types.length ∧ ∃ w' d d',
        t' = { w'.right with
          model := w'.right.model.define w.right.model.types.length d' } ∧
        Built contents D D' name w w' d d')
      ((topLevelType D' references' expanding' name decl).run w.right) := by
  rw [run_topLevelType_of_none _ _ _ hnew, htype]
  dsimp only
  generalize hrun : ((Content.element decl.items).convert D' references'
    expanding').run (w.right.reserve name) = result at hcontent
  cases hcontent with
  | error hmay =>
      rw [run_inlineType_of_error hrun]
      exact .error hmay
  | ok hconverted =>
      obtain ⟨w', d, rfl, hconverted⟩ := hconverted
      have hany : w'.right.model.types[w.right.model.types.length]? =
          some (.builtin .anyType) :=
        getElem?_of_le hconverted.later.grows.types (by simp [Builder.reserve])
      rw [run_inlineType_of_ok hany hrun]
      exact .ok ⟨rfl, w', d, _, rfl, htracked, htracked.not_mem_owned hnew,
        hconverted⟩

theorem outcome_unmet (halike : Alike contents D D')
    (hvalid : Valid D D' owner w)
    (hdecl : D.elements.lookup name = some decl)
    (htype : decl.head.type = none)
    (hright : Reaches (MayFail contents D)
      (fun id t' => id = w.right.model.types.length ∧ ∃ w' d d',
        t' = { w'.right with
          model := w'.right.model.define w.right.model.types.length d' } ∧
        Built contents D D' name w w' d d')
      ((topLevelType D' references' expanding' name decl).run w.right)) :
    (together contents D D' owner).Outcome w
      (together contents D D' owner).same
      ((topLevelType D references expanding name decl).run w.left)
      ((topLevelType D' references' expanding' name decl).run w.right) := by
  have hleft := hvalid.alone.topLevelType halike.standing references expanding
    hdecl (halike.empty name decl hdecl)
  rw [Directory.elementOrigin, htype] at hleft
  generalize (topLevelType D references expanding name decl).run w.left =
    left at hleft
  generalize (topLevelType D' references' expanding' name decl).run w.right =
    right at hright
  cases hleft with
  | unknown hunknown => exact absurd trivial hunknown
  | known _ hgains =>
      cases hright with
      | error hmay => exact .second hmay _
      | ok hbuilt =>
          obtain ⟨rfl, w', d, d', rfl, hbuilt⟩ := hbuilt
          refine .ok _ (hbuilt.later_outer hgains)
            ⟨rfl, rfl, hbuilt.valid_outer hvalid hgains⟩ ⟨hgains.lt, ?_⟩
          rw [hgains.comes]
          exact hbuilt.getElem?

/-- The type of a top-level element is found in both conversions. -/
theorem outcome_element (halike : Alike contents D D')
    (hvalid : Valid D D' owner w)
    (hdecl : D.elements.lookup name = some decl)
    (hfollow : Follow (together contents D D' (.element name))
      (References.within D D.depth) references' [] expanding'
      ⟨D.waiting, w.right.reserve name, w.origins ++ [.owned (.element name)]⟩
      fun _ => True) :
    (together contents D D' owner).Outcome w
      (together contents D D' owner).same
      ((topLevelType D references expanding name decl).run w.left)
      ((topLevelType D' references' expanding' name decl).run w.right) := by
  have hempty := halike.empty name decl hdecl
  have hdecl' := (halike.elements name).trans hdecl
  by_cases hmet : (w.right.elementTypes.lookup name).isSome ∨
      decl.head.type.isSome
  · have hright := hvalid.tracked.findsElement references' expanding' hdecl'
      hempty hmet
    rw [halike.elementOrigin] at hright
    exact outcome_of_finds hvalid (hvalid.alone.topLevelType halike.standing
      references expanding hdecl hempty) hright
  · rw [not_or, Option.not_isSome_iff_eq_none, Option.not_isSome_iff_eq_none]
      at hmet
    obtain ⟨hnew, htype⟩ := hmet
    exact outcome_unmet halike hvalid hdecl htype
      (reaches_unmet hvalid.tracked htype hnew (reaches_convert halike
        (valid_unmet halike hvalid.tracked hdecl htype hnew) hfollow
        (halike.content name decl hdecl htype)))

/-- However many references are followed into one another, together they lead to
what they lead to alone.  An element that is built in between is compared with
itself alone, where its own chains of references begin: so the induction is on
the other bound. -/
theorem follow_together (halike : Alike contents D D') (depth depth' : Nat)
    (owner : Owner) (w₀ : World) (hle : expanding ⊆ expanding') :
    Follow (together contents D D' owner) (References.within D depth)
      (References.within D' depth') expanding expanding' w₀ fun _ => True := by
  induction depth' generalizing depth owner w₀ expanding expanding' with
  | zero =>
      constructor
      · exact fun w _ name _ => .of_second (MayFail.endless name) _
      · exact fun w _ name _ => .of_second (MayFail.endless name) _
  | succ depth' ih =>
      cases depth with
      | zero =>
          have hends (name : String) :
              (together contents D D' owner).firstMay (.endless name) :=
            ⟨name, rfl⟩
          constructor
          · exact fun w _ name _ => .of_first (hends name) _
          · exact fun w _ name _ => .of_first (hends name) _
      | succ depth =>
          constructor
          · intro w _ name _
            change (together contents D D' owner).Alongside w _
              (namedGroup D (References.within D depth) expanding name)
              (namedGroup D' (References.within D' depth') expanding' name)
            unfold namedGroup
            by_cases hname : name ∈ expanding'
            · rw [if_pos (List.contains_iff_mem.mpr hname)]
              exact .of_second (MayFail.groupInItself name) _
            · have hnew : name ∉ expanding := fun hold => hname (hle hold)
              rw [if_neg (by simpa using hnew), if_neg (by simpa using hname),
                halike.groups]
              cases D.groups.lookup name with
              | none => exact .of_throw trivial
              | some items =>
                  exact alongside_groupContent (together_supports halike)
                    (ih depth owner w (List.cons_subset_cons name hle)) name
                    items fun _ _ => trivial
          · intro w _ name _
            change (together contents D D' owner).Alongside w _
              (namedElement D (References.within D depth) expanding name)
              (namedElement D' (References.within D' depth') expanding' name)
            unfold namedElement
            rw [halike.elements]
            cases hdecl : D.elements.lookup name with
            | none => exact .of_throw trivial
            | some decl =>
                rintro s t ⟨rfl, rfl, hvalid⟩
                exact outcome_element halike hvalid hdecl
                  (ih D.depth (.element name) _ (List.nil_subset _))

end Nesting

end Declaration

end Specimen
