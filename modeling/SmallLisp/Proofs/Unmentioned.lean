import SmallLisp.Proofs.Parallel
import SmallLisp.Proofs.Writers

/-!
# Bindings that nobody mentions

A binding is found by its name, and names come out of symbols that code can reach. So a binding under a name
that no symbol within reach has might as well not be there: with and without it evaluation ends alike, in
stores that differ in this binding only. What the binding holds does not matter, be it a primitive that
overwrites all it can get.

* `Store.SameBut` compares two stores but for one binding;
* `Changes.get?_eq`: code does not touch bindings under names that it has not got hold of;
* `unmentioned_binding_has_no_influence` is the main result.
-/

namespace SmallLisp

namespace Store

/-- The same objects in both stores, but for what the frame `home` binds to `name`. -/
structure SameBut (home : FrameId) (name : String) (store store' : Store) : Prop where
  pairs : store'.pairs = store.pairs
  closures : store'.closures = store.closures
  frames_size : store'.frames.size = store.frames.size
  parent : ∀ id, (store'.frame id).parent = (store.frame id).parent
  get? : ∀ id other, ¬(id = home ∧ other = name) →
    (store'.frame id).get? other = (store.frame id).get? other

/-- Arrays of the same size that read the same everywhere are the same. -/
theorem eq_of_getD
    {α : Type}
    {objects objects' : Array α}
    (default : α)
    (hsize : objects'.size = objects.size)
    (h : ∀ index, objects'.getD index default = objects.getD index default) :
    objects' = objects := by
  refine Array.ext hsize ?_
  intro index hindex' hindex
  have hread := h index
  rw [Array.getD_eq_getD_getElem?, Array.getD_eq_getD_getElem?, Array.getElem?_eq_getElem hindex',
    Array.getElem?_eq_getElem hindex] at hread
  exact hread

end Store

section Changes

variable {given : Primitive → Bool} {w w' : World given} {id : FrameId} {name : String}

/-- A change does not touch bindings under names that code has not got hold of, except in frames of calls. -/
theorem Change.get?_eq
    (h : Change w w')
    (hid : id.index < w.store.frames.size)
    (hname : .symbol name ∉ w.items)
    (hcall : id ∉ w.calls) :
    (w'.store.frame id).get? name = (w.store.frame id).get? name := by
  cases h with
  | newFrame =>
      exact congrArg (Frame.get? · name)
        ((Store.frame_newFrame _ _ id).trans (if_neg (Nat.ne_of_lt hid)))
  | @define changed bound value _ _ hbound | @assign changed bound value _ _ _ hbound =>
      rcases w.store.frame_define_cases changed id bound value with hsame | ⟨rfl, hchanged⟩
      · exact congrArg (Frame.get? · name) hsame
      · refine (congrArg (Frame.get? · name) hchanged).trans ?_
        have hother : name ≠ bound := by
          rintro rfl
          exact hname hbound
        rw [Frame.get?_insert, if_neg hother]
  | @fill changed bound value hchanged =>
      rcases w.store.frame_define_cases changed id bound value with hsame | ⟨rfl, -⟩
      · exact congrArg (Frame.get? · name) hsame
      · exact (hcall hchanged).elim
  | _ => rfl

/-- Code does not touch bindings under names that it has not got hold of, except in frames of calls. -/
theorem Changes.get?_eq
    (h : Changes w w')
    (hid : id.index < w.store.frames.size)
    (hname : .symbol name ∉ w.items)
    (hcall : id ∉ w.calls) :
    (w'.store.frame id).get? name = (w.store.frame id).get? name := by
  induction h with
  | refl => rfl
  | tail hfirst hlast ih =>
      rw [← ih]
      refine hlast.get?_eq (Nat.lt_of_lt_of_le hid (grows hfirst).frames) ?_ ?_
      · intro hmem
        exact hname ((made hfirst hmem).resolve_right not_false)
      · intro hmiddle
        rcases call_or_new hfirst hmiddle with hold | hnew
        · exact hcall hold
        · exact Nat.not_lt_of_le hnew hid

end Changes

/-- What a frame binds in place of other values if one name is bound in one frame. -/
def insteadOf (home : FrameId) (name : String) (value : Value) (id : FrameId) (other : String) :
    Option Value :=
  if id = home ∧ other = name then some value else none

section Binding

variable {given : Primitive → Bool} {home : FrameId} {name : String} {value : Value}

theorem insteadOf_ne_none_iff
    {id : FrameId}
    {other : String} :
    insteadOf home name value id other ≠ none ↔ id = home ∧ other = name := by
  unfold insteadOf
  split <;> simp [*]

/-- A store in which a name is bound that code has not got hold of looks like the store without. -/
theorem Mirrors.of_define
    {w : World given}
    (hhome : home.index < w.store.frames.size)
    (hname : .symbol name ∉ w.items)
    (hcall : home ∉ w.calls) :
    Mirrors .same (insteadOf home name value) Set.univ w (w.store.define home name value) where
  carries := by
    rintro item -
    cases item with
    | pair id => exact (Pair.rename_same _).symm
    | closure id => exact (Closure.rename_same _).symm
    | frame id =>
        refine Frame.renamedTo_same_iff.mpr ?_
        show ((w.store.define home name value).frame id).parent = _ ∧
          ∀ other, ((w.store.define home name value).frame id).get? other = _
        rw [Store.frame_define _ _ _ _ _ hhome]
        by_cases hid : id = home
        · subst hid
          refine ⟨by rw [if_pos rfl, Frame.parent_insert], ?_⟩
          intro other
          rw [if_pos rfl, Frame.get?_insert, insteadOf]
          by_cases hother : other = name <;> simp [hother]
        · refine ⟨by rw [if_neg hid], ?_⟩
          intro other
          rw [if_neg hid, insteadOf, if_neg fun hboth => hid hboth.1, Option.none_or]
    | primitive p => trivial
    | symbol other => trivial
  bindings := by
    intro id _ hinstead
    have hid : id ≠ home := fun hsame => insteadOf_ne_none_iff.mpr ⟨hsame, rfl⟩ (hinstead name)
    show ((w.store.define home name value).frame id).bindings = _
    rw [Store.frame_define _ _ _ _ _ hhome, if_neg hid, renameBindings_same]
  instead_old h := by
    obtain ⟨rfl, -⟩ := insteadOf_ne_none_iff.mp h
    exact hhome
  instead_unheld h := by
    obtain ⟨-, rfl⟩ := insteadOf_ne_none_iff.mp h
    exact hname
  instead_calls h := by
    obtain ⟨rfl, -⟩ := insteadOf_ne_none_iff.mp h
    exact hcall
  pairs_next _ := rfl
  closures_next _ := rfl
  frames_next := by
    intro count
    simp [Renaming.same, Store.define]
  pairs_le := Nat.le_refl _
  frames_le := by simp [Store.define]

/-- Two stores that look alike under the same identities, but for one binding. -/
theorem Mirrors.sameBut
    {w : World given}
    {store : Store}
    (h : Mirrors .same (insteadOf home name value) Set.univ w store) :
    w.store.SameBut home name store where
  pairs := by
    refine Store.eq_of_getD ⟨.nil, .nil⟩ h.pairs_next.at_size.symm ?_
    intro index
    exact (h.carries (.pair ⟨index⟩) (.inr trivial)).trans (Pair.rename_same _)
  closures := by
    refine Store.eq_of_getD ⟨[], [], ⟨0⟩⟩ h.closures_next.at_size.symm ?_
    intro index
    exact (h.carries (.closure ⟨index⟩) (.inr trivial)).trans (Closure.rename_same _)
  frames_size := h.frames_next.at_size.symm
  parent id := (Frame.renamedTo_same_iff.mp (h.carries (.frame id) (.inr trivial))).1
  get? id other hother := by
    have hget := (Frame.renamedTo_same_iff.mp (h.carries (.frame id) (.inr trivial))).2 other
    rwa [insteadOf, if_neg hother, Option.none_or] at hget

end Binding

/-- What a frame binds to a name that no symbol within reach of an expression and a frame has makes no
difference to evaluating the expression in the frame: with any fuel the outcome is the same, and so is all
that is in the store afterwards, but for the binding, which stays as it was. -/
theorem unmentioned_binding_has_no_influence
    (fuel : Nat)
    (store : Store)
    (expression : Value)
    (frame home : FrameId)
    (name : String)
    (value : Value)
    (hhome : home.index < store.frames.size)
    (hname : ¬store.ReachedFrom expression frame (.symbol name)) :
    let without := outcome (eval fuel expression frame) store
    let ending := outcome (eval fuel expression frame) (store.define home name value)
    ending.1 = without.1 ∧
      without.2.SameBut home name ending.2 ∧
      (without.2.frame home).get? name = (store.frame home).get? name ∧
      (ending.2.frame home).get? name = some value := by
  intro without ending
  let w : World fun _ => true := .reached store expression frame fun _ _ => rfl
  have hexpression : w.Has expression := fun item hitem => .inl ⟨item, hitem, .refl⟩
  have hframe : frame ∈ w.homes := Set.mem_singleton frame
  have hstart : Mirrors .same (insteadOf home name value) Set.univ w (store.define home name value) :=
    .of_define hhome hname nofun
  obtain ⟨t, hchanges, hstore, hcopy, hend⟩ :=
    eval_parallel fuel (t := ⟨w, _, hstart⟩) hexpression hframe
  rw [Value.rename_same] at hcopy hend
  change without.2 = t.world.store at hstore
  change ending.2 = t.copy at hcopy
  change t.EndAlike _ _ without.1 ending.1 at hend
  have hsame := t.mirrors.sameBut
  refine ⟨?_, ?_, ?_, ?_⟩
  · rw [hend.eq_map (.inl hsame.frames_size), Value.rename_same_eq_id, Except.map_id]
    rfl
  · rw [hstore, hcopy]
    exact hsame
  · rw [hstore]
    exact hchanges.get?_eq hhome hname nofun
  · have hget := (Frame.renamedTo_same_iff.mp (t.mirrors.carries (.frame home) (.inr trivial))).2 name
    rw [hcopy]
    refine hget.trans ?_
    rw [insteadOf, if_pos ⟨rfl, rfl⟩, Option.some_or]

theorem callerStore_not_reached :
    ¬callerStore.ReachedFrom (.pair ⟨0⟩) ⟨0⟩ (.symbol "y") := by
  refine Store.not_reachedFrom nofun nofun ?_
  intro item h
  cases occursInCall_of_link h

/-- In the call `(f 7)` it makes no difference that `y` is bound to a primitive that overwrites pairs. -/
theorem unmentioned_binding_has_no_influence_on_a_call :
    let setter : Value := .primitive (.strict .setCar)
    let ending := outcome (eval 3 (.pair ⟨0⟩) ⟨0⟩) (callerStore.define ⟨0⟩ "y" setter)
    ¬callerStore.ReachedFrom (.pair ⟨0⟩) ⟨0⟩ (.symbol "y") ∧
      ending.1 = .ok (.pair ⟨5⟩) ∧
      (outcome (eval 3 (.pair ⟨0⟩) ⟨0⟩) callerStore).2.SameBut ⟨0⟩ "y" ending.2 ∧
      (ending.2.frame ⟨0⟩).get? "y" = some setter := by
  intro setter ending
  obtain ⟨hresult, hsame, -, hbound⟩ := unmentioned_binding_has_no_influence 3 callerStore (.pair ⟨0⟩) ⟨0⟩
    ⟨0⟩ "y" setter (by decide) callerStore_not_reached
  have hwithout : (outcome (eval 3 (.pair ⟨0⟩) ⟨0⟩) callerStore).1 = .ok (.pair ⟨5⟩) := by decide
  exact ⟨callerStore_not_reached, hresult.trans hwithout, hsame, hbound⟩

end SmallLisp
