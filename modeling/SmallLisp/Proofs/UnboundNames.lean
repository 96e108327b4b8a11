import SmallLisp.Proofs.Forest

/-!
# Names that are reported as unbound

Every line of frames in a session leads to the root frame, and no name is ever unbound. So a name that is not
found from some frame is not bound in the root frame, where it was not bound before either and where it is
not found when it is evaluated next.

* `Session.Rooted` says that all lines of frames lead to the root frame;
* `Fault.Reports` says that a fault is about a name without a binding, `Session.Lacks` what this means for the
  session in which it turns up;
* `Session.Passes` are the forms that are evaluated in a session, whichever calls they belong to;
* `Session.reported_names_are_unbound` is the main result.
-/

namespace SmallLisp

/-- The fault is that a name has no binding, as a variable or as the target of an assignment. -/
def Fault.Reports (fault : Fault) (name : String) : Prop :=
  fault = .unboundTarget name ∨ ∃ depth, fault = .unboundVariable name depth

/-- The faults of this kind are those about names without a binding. -/
theorem Fault.exists_reports_of_kind
    {fault : Fault}
    (h : fault.kind = .unbound) :
    ∃ name, fault.Reports name := by
  cases fault with
  | unboundVariable name depth => exact ⟨name, .inr ⟨depth, rfl⟩⟩
  | unboundTarget name => exact ⟨name, .inl rfl⟩
  | operandCount primitive count =>
      by_cases hspecial : primitive.isSpecial = true <;> simp [Fault.kind, hspecial] at h
  | _ => cases h

/-- A name whose report an evaluation may end with is unbound as `World.Unbound` says. -/
theorem Fault.Reports.unbound
    {given : Primitive → Bool}
    {w : World given}
    {fault : Fault}
    {name : String}
    (h : fault.Reports name)
    (hallows : w.Allows fault.halt) :
    w.Unbound name := by
  rcases h with rfl | ⟨depth, rfl⟩ <;> exact hallows

namespace Session

/-- All lines of frames lead to the root frame. -/
structure Rooted (session : Session) : Prop where
  outermost : (session.store.frame session.root).parent = none
  only : ∀ id, id.index < session.store.frames.size →
    (session.store.frame id).parent = none → id = session.root

/-- A name is bound in the root frame neither before nor after an evaluation, and evaluating it next reports
it as unbound. -/
structure Lacks (before after : Session) (name : String) : Prop where
  not_before : (before.store.frame before.root).binds name = false
  not_after : (after.store.frame after.root).binds name = false
  again : ∀ fuel, 0 < fuel →
    after.evaluate fuel name = (.error (Fault.unboundVariable name 0).halt, after)

/-- A form of a text is evaluated. -/
inductive Step : Session → Session → Prop
  | form
      (session : Session)
      (fuel : Nat)
      {text : String}
      {form : Datum}
      (hform : form ∈ formsOf text) :
      Step session (session.evaluateForm fuel form).2

/-- Any number of forms of texts are evaluated. -/
def Passes : Session → Session → Prop :=
  Relation.ReflTransGen Step

/-- What is kept by evaluating the forms of texts is kept as long as forms are evaluated. -/
theorem Passes.keeps
    {P : Session → Prop}
    (hform : ∀ session fuel text, ∀ form ∈ formsOf text,
      P session → P (session.evaluateForm fuel form).2)
    {session later : Session}
    (hpasses : Passes session later)
    (h : P session) :
    P later := by
  induction hpasses with
  | refl => exact h
  | tail _ hstep ih =>
      cases hstep with
      | form fuel hmember => exact hform _ fuel _ _ hmember ih

/-- The states between the forms of a text. -/
theorem passes_afterForms
    (session : Session)
    (fuel : Nat)
    (text : String)
    (number : Nat) :
    session.Passes (session.afterForms fuel ((formsOf text).take number)) := by
  refine afterForms_induct (P := session.Passes) ?_ .refl
  intro between form hform hpasses
  exact hpasses.tail (.form between fuel (List.mem_of_mem_take hform))

section Scopes

variable {session : Session}

theorem start_rooted : start.Rooted where
  outermost := rfl
  only := by
    rintro ⟨index⟩ (hlt : index < 1) -
    exact congrArg FrameId.mk (Nat.lt_one_iff.mp hlt)

theorem Rooted.evaluateForm
    (h : session.Rooted)
    (hwellFormed : session.WellFormed)
    (fuel : Nat)
    (form : Datum) :
    (session.evaluateForm fuel form).2.Rooted := by
  have hgrows := (hwellFormed.evaluateForm fuel form).2
  rw [evaluateForm_eq] at hgrows ⊢
  constructor
  · exact (hgrows.parent _ hwellFormed.root).trans h.outermost
  · intro id hid houtermost
    rcases Nat.lt_or_ge id.index session.store.frames.size with hold | hnew
    · exact h.only id hold ((hgrows.parent id hold).symm.trans houtermost)
    · obtain ⟨parent, hparent, -⟩ := hgrows.parent_new id hnew hid
      cases houtermost.symm.trans hparent

/-- The root frame stands in the line of every frame that is there. -/
theorem Rooted.root_mem_scopes
    (h : session.Rooted)
    (hwellFormed : session.WellFormed)
    {id : FrameId}
    (hid : id.index < session.store.frames.size) :
    session.root ∈ session.store.scopes id := by
  obtain ⟨scope, hscope, houtermost⟩ := hwellFormed.forest.lineEnds id
  have hpresent : scope.index < session.store.frames.size :=
    World.frame_mem_of_mem_scopesUpTo
      (w := World.everything session.store hwellFormed.sound hwellFormed.root) hid hscope
  exact h.only scope hpresent houtermost ▸ hscope

/-- A name that is not found from some frame is not bound in the root frame. -/
theorem Rooted.binds_root_eq_false
    (h : session.Rooted)
    (hwellFormed : session.WellFormed)
    {id : FrameId}
    (hid : id.index < session.store.frames.size)
    {name : String}
    (hlookup : session.store.lookup id name = none) :
    (session.store.frame session.root).binds name = false := by
  have hnot : session.store.contains id name ≠ true := by
    simp [Store.contains, hlookup]
  rw [← Bool.not_eq_true]
  intro hbinds
  exact hnot (Store.contains_iff.mpr ⟨_, h.root_mem_scopes hwellFormed hid, hbinds⟩)

theorem Rooted.scopes_root
    (h : session.Rooted) :
    session.store.scopes session.root = [session.root] :=
  session.store.scopesUpTo_of_outermost h.outermost _

theorem Rooted.lookup_root
    (h : session.Rooted)
    (name : String) :
    session.store.lookup session.root name = (session.store.frame session.root).get? name := by
  rw [Store.lookup_eq_findSome?, h.scopes_root]
  simp

/-- The value of a symbol is what it is bound to. -/
theorem valueOf_sym
    (session : Session)
    (fuel : Nat)
    (name : String) :
    session.valueOf (fuel + 1) (.sym name) =
      (match session.store.lookup session.root name with
        | some value => .ok value
        | none => .error (Fault.unboundVariable name (session.store.depth session.root)).halt,
        session.store) := by
  show outcome (get >>= _) session.store = _
  rw [outcome_bind, outcome_get]
  dsimp only
  cases session.store.lookup session.root name <;> rfl

/-- A name that is not bound in the root frame is reported as unbound there. -/
theorem Rooted.evaluate_unbound
    (h : session.Rooted)
    {name : String}
    (hname : WritableName name)
    (hunbound : (session.store.frame session.root).binds name = false)
    {fuel : Nat}
    (hfuel : 0 < fuel) :
    session.evaluate fuel name = (.error (Fault.unboundVariable name 0).halt, session) := by
  obtain ⟨fuel, rfl⟩ := Nat.exists_eq_succ_of_ne_zero (Nat.pos_iff_ne_zero.mp hfuel)
  have hlookup : session.store.lookup session.root name = none := by
    rw [h.lookup_root]
    simpa [Frame.binds] using hunbound
  have hdepth : session.store.depth session.root = 0 := by
    rw [Store.depth_eq, h.scopes_root]
    rfl
  unfold evaluate
  rw [hname.reads]
  dsimp only
  rw [evaluateForm_eq, valueOf_sym, hlookup, hdepth]
  rfl

end Scopes

/-- What holds of a session at all times. -/
structure Kept (session : Session) : Prop where
  clean : session.store.Clean
  wellFormed : session.WellFormed
  rooted : session.Rooted

theorem start_kept : start.Kept :=
  ⟨start_clean, start_wellFormed, start_rooted⟩

section Forms

variable {session : Session} {fuel : Nat} {form : Datum} {fault : Fault} {name : String}

theorem Kept.evaluateForm
    (h : session.Kept)
    (fuel : Nat)
    (hform : ∀ name ∈ form.names, ReadableName name) :
    (session.evaluateForm fuel form).2.Kept where
  clean := clean_evaluateForm h.clean fuel hform
  wellFormed := (h.wellFormed.evaluateForm fuel form).1
  rooted := h.rooted.evaluateForm h.wellFormed fuel form

/-- If evaluating a form ends with the report of a name, then the name is readable and there is a frame from
which it is not found. -/
theorem Kept.unbound_of_evaluateForm
    (h : session.Kept)
    (hform : ∀ name ∈ form.names, ReadableName name)
    (hend : (session.evaluateForm fuel form).1 = .error fault.halt)
    (hreports : fault.Reports name) :
    ReadableName name ∧
      ∃ id : FrameId,
        id.index < (session.evaluateForm fuel form).2.store.frames.size ∧
        (session.evaluateForm fuel form).2.store.lookup id name = none := by
  have hvalue : (session.valueOf fuel form).1 = .error fault.halt := by
    rcases evaluateForm_error hend with hvalue | hunfinished | hunprintable
    · exact hvalue
    · cases hunfinished
    · cases hunprintable
      rcases hreports with hreports | ⟨depth, hreports⟩ <;> cases hreports
  rw [evaluateForm_eq]
  obtain ⟨w, hchanges, -, -, hallows⟩ :=
    exists_changes_valueOf (w := World.clean session.store h.clean) rfl (Set.mem_univ session.root)
      (by rintro name hname _ ⟨⟩; exact hform name hname) fuel
  obtain ⟨v, hchanges', hstore, -, hallows'⟩ := h.wellFormed.exists_changes fuel form
  obtain ⟨-, id, hid, hlookup⟩ := hreports.unbound (hallows' _ hvalue)
  refine ⟨hchanges.readableName (hreports.unbound (hallows _ hvalue)).1, id, ?_, ?_⟩
  · rw [hstore]
    exact hchanges'.present (fun _ hitem => hitem) _ hid
  · rw [hstore]
    exact hlookup

/-- A name that is bound in the root frame stays bound there. -/
theorem Kept.binds_root
    (h : session.Kept)
    (fuel : Nat)
    (form : Datum)
    (hbinds : (session.store.frame session.root).binds name = true) :
    ((session.evaluateForm fuel form).2.store.frame (session.evaluateForm fuel form).2.root).binds name =
      true := by
  have hgrows := (h.wellFormed.evaluateForm fuel form).2
  rw [evaluateForm_eq] at hgrows ⊢
  exact hgrows.binds_home name hbinds

theorem Kept.lacks_of_evaluateForm
    (h : session.Kept)
    (hform : ∀ name ∈ form.names, ReadableName name)
    (hend : (session.evaluateForm fuel form).1 = .error fault.halt)
    (hreports : fault.Reports name) :
    session.Lacks (session.evaluateForm fuel form).2 name := by
  obtain ⟨hname, id, hid, hlookup⟩ := h.unbound_of_evaluateForm hform hend hreports
  have hlater := h.evaluateForm fuel hform
  have hafter := hlater.rooted.binds_root_eq_false hlater.wellFormed hid hlookup
  refine ⟨?_, hafter, fun fuel hfuel => hlater.rooted.evaluate_unbound hname.writable hafter hfuel⟩
  rw [← Bool.not_eq_true]
  intro hbefore
  cases hafter.symm.trans (h.binds_root fuel form hbefore)

/-- A symbol that has a value is bound in the root frame. -/
theorem Rooted.binds_root_of_valueOf
    (h : session.Rooted)
    {value : Value}
    (hvalue : (session.valueOf fuel (.sym name)).1 = .ok value) :
    (session.store.frame session.root).binds name = true := by
  cases fuel with
  | zero => cases hvalue
  | succ fuel =>
      rw [valueOf_sym, h.lookup_root] at hvalue
      cases hget : (session.store.frame session.root).get? name with
      | none =>
          rw [hget] at hvalue
          cases hvalue
      | some bound =>
          rw [Frame.binds, hget]
          rfl

end Forms

section Passing

variable {session later : Session}

theorem Reachable.kept (h : session.Reachable) : session.Kept :=
  h.induct start_kept fun _ fuel _ _ hform hkept =>
    hkept.evaluateForm fuel fun _ => readableName_of_mem_formsOf hform

theorem Kept.passes
    (h : session.Kept)
    (hpasses : session.Passes later) :
    later.Kept :=
  hpasses.keeps (P := Kept)
    (fun _ fuel _ _ hform hkept => hkept.evaluateForm fuel fun _ => readableName_of_mem_formsOf hform) h

theorem Kept.binds_root_of_passes
    (h : session.Kept)
    (hpasses : session.Passes later)
    {name : String}
    (hbinds : (session.store.frame session.root).binds name = true) :
    (later.store.frame later.root).binds name = true := by
  let Bound := fun state : Session =>
    state.Kept ∧ (state.store.frame state.root).binds name = true
  have hbound : Bound later := by
    refine hpasses.keeps (P := Bound) ?_ ⟨h, hbinds⟩
    rintro state fuel text form hform ⟨hkept, hstate⟩
    exact ⟨hkept.evaluateForm fuel fun _ => readableName_of_mem_formsOf hform,
      hkept.binds_root fuel form hstate⟩
  exact hbound.2

/-- A call evaluates forms of its text. -/
theorem Call.passes (h : session.Call later) : session.Passes later := by
  refine h.keeps (P := session.Passes) ?_ .refl
  intro between fuel text form hform hpasses
  exact hpasses.tail (.form between fuel hform)

theorem Leads.passes (h : session.Leads later) : session.Passes later := by
  induction h with
  | refl => exact .refl
  | tail _ hcall ih => exact ih.trans hcall.passes

/-- The state behind a form of a text. -/
theorem afterForms_take_succ
    {forms : List Datum}
    {number : Nat}
    {form : Datum}
    (hform : forms[number]? = some form)
    (fuel : Nat)
    (session : Session) :
    session.afterForms fuel (forms.take (number + 1)) =
      ((session.afterForms fuel (forms.take number)).evaluateForm fuel form).2 := by
  rw [List.take_add_one, hform, afterForms, List.foldl_append]
  rfl

end Passing

/-- Names are reported as unbound for good reason. If a form of a session, of whichever call, is answered
with an error of this kind, then the error names a name that is bound in the root frame neither before nor
after the form is evaluated, and evaluating that name next reports it as unbound at depth zero. A symbol that
once has a value in the session is not reported by any form that is evaluated later. The forms of a session
are evaluated in states that `Passes` leads to, between calls and between the forms of a text. -/
theorem reported_names_are_unbound
    {session : Session}
    (h : session.Reachable) :
    (∀ fuel text (fault : Fault),
      (session.evaluate fuel text).1 = .error fault.halt →
      fault.kind = .unbound →
      ∃ name, fault.Reports name ∧ session.Lacks (session.evaluate fuel text).2 name) ∧
    (∀ fuel goOn text number (fault : Fault),
      (session.evaluateAll fuel goOn text).1.answers[number]? = some (.error fault.halt) →
      fault.kind = .unbound →
      let before := session.afterForms fuel ((formsOf text).take number)
      let after := session.afterForms fuel ((formsOf text).take (number + 1))
      ∃ name, fault.Reports name ∧ before.Lacks after name) ∧
    (∀ between later name value fuel,
      session.Passes between →
      (between.valueOf fuel (.sym name)).1 = .ok value →
      between.Passes later →
      ∀ fuel text form (fault : Fault),
        form ∈ formsOf text →
        (later.evaluateForm fuel form).1 = .error fault.halt →
        ¬fault.Reports name) ∧
    (∀ later, session.Leads later → session.Passes later) ∧
    ∀ fuel text number, session.Passes (session.afterForms fuel ((formsOf text).take number)) := by
  refine ⟨?_, ?_, ?_, fun later => Leads.passes, session.passes_afterForms⟩
  · intro fuel text fault hend hkind
    obtain ⟨name, hreports⟩ := Fault.exists_reports_of_kind hkind
    refine ⟨name, hreports, ?_⟩
    unfold evaluate at hend ⊢
    cases hread : readForm text with
    | error e =>
        rw [hread] at hend
        cases hend
    | ok form =>
        rw [hread] at hend
        exact h.kept.lacks_of_evaluateForm (fun _ => readableName_of_readForm hread) hend hreports
  · intro fuel goOn text number fault hanswer hkind before after
    obtain ⟨name, hreports⟩ := Fault.exists_reports_of_kind hkind
    obtain ⟨form, hform, hend⟩ := answers_evaluateAll hanswer
    have hbefore : before.Kept := h.kept.passes (session.passes_afterForms fuel text number)
    have hnames : ∀ name ∈ form.names, ReadableName name :=
      fun _ => readableName_of_mem_formsOf (List.mem_of_getElem? hform)
    refine ⟨name, hreports, ?_⟩
    rw [show after = _ from afterForms_take_succ hform fuel session]
    exact hbefore.lacks_of_evaluateForm hnames hend hreports
  · intro between later name value fuel hbetween hvalue hlater fuel' text form fault hform hend hreports
    have hkept := h.kept.passes hbetween
    have hbound := hkept.binds_root_of_passes hlater (hkept.rooted.binds_root_of_valueOf hvalue)
    have hlacks := (hkept.passes hlater).lacks_of_evaluateForm
      (fun _ => readableName_of_mem_formsOf hform) hend hreports
    cases hlacks.not_before.symm.trans hbound

/-- After `(define (f) (g))` and `1`, calling `f` reports `g` at depth one, and `g` lacks a binding in the root
frame; `f` has a value and is not reported when `(g)` is evaluated. -/
theorem reported_names_are_unbound_at_a_call :
    let session := (start.evaluate 3 "(define (f) (g))").2
    let called := session.evaluate 4 "(f)"
    called.1 = .error (Fault.unboundVariable "g" 1).halt ∧
      session.Lacks called.2 "g" ∧
      ¬(Fault.unboundVariable "g" 0).Reports "f" := by
  intro session called
  have hreachable : session.Reachable := .evaluate .start 3 "(define (f) (g))"
  obtain ⟨hevaluate, -, hnever, hleads, -⟩ := reported_names_are_unbound hreachable
  have hend : called.1 = .error (Fault.unboundVariable "g" 1).halt := by decide +kernel
  obtain ⟨name, hreports, hlacks⟩ := hevaluate 4 "(f)" _ hend rfl
  obtain rfl : name = "g" := by
    rcases hreports with hreports | ⟨depth, hreports⟩ <;> cases hreports
    rfl
  refine ⟨hend, hlacks, ?_⟩
  have hvalue : (session.valueOf 1 (.sym "f")).1 = .ok (.closure ⟨0⟩) := by decide +kernel
  have hform : Datum.list [.sym "g"] ∈ formsOf "(g)" := by decide +kernel
  exact hnever session called.2 "f" _ 1 .refl hvalue (hleads _ (.single (.evaluate session 4 "(f)")))
    4 "(g)" _ _ hform (by decide +kernel)

end Session

end SmallLisp
