import SmallLisp.Proofs.Guard
import SmallLisp.Proofs.Holding

/-!
# Evaluation is confined

An evaluator is confined if it makes only the changes that code may make, started in any world in which
code has got hold of the expression and may bind names in the frame. Each procedure of the language is
confined if the evaluator that it calls is; so evaluation with any fuel is confined.

* `Strict.within_apply` and its siblings follow one procedure each;
* `within_evalStepGiven` is one level of evaluation;
* `evalGiven_confined` follows by induction on the fuel;
* `outcome_evalGiven`: primitives that code has not got hold of are not applied, so nothing changes if
  they are refused;
* `eval_confined` is what this says of evaluation.
-/

namespace SmallLisp

/-- Evaluation with `ev` makes only changes that code may make, and code gets hold of the value. -/
def Confined (given : Primitive → Bool) (ev : Evaluator) : Prop :=
  ∀ {w : World given} {expression : Value} {frame : FrameId},
    w.Has expression → frame ∈ w.homes → Within (ev expression frame) w World.Has

variable {given : Primitive → Bool}

section Operands

variable {w : World given} {operands : List Value}

theorem within_operand
    {number : Nat}
    (hoperands : w.HasAll operands)
    (hnumber : number < operands.length) :
    Within (operand operands number) w World.Has := by
  unfold operand
  rw [List.getElem?_eq_getElem hnumber]
  exact .pure (hoperands _ (List.getElem_mem hnumber))

theorem within_operandsFrom
    {number : Nat}
    (hoperands : w.HasAll operands)
    (hnumber : number ≤ operands.length) :
    Within (operandsFrom operands number) w World.HasAll := by
  unfold operandsFrom
  rw [if_pos hnumber]
  exact .pure (hoperands.drop number)

/-- A pair has elements. -/
theorem within_elements
    {value : Value}
    (hvalue : w.Has value) :
    Within (elements value) w fun w' values =>
      w'.HasAll values ∧ (value.isPair = true → 0 < values.length) := by
  refine .get ?_
  cases h : w.store.elements? value with
  | none => exact .unfinished
  | some values =>
      refine .pure ⟨World.hasAll_of_elements? hvalue h, ?_⟩
      intro hpair
      obtain ⟨⟨front, last⟩, hchain, rfl⟩ := Option.map_eq_some_iff.mp h
      cases value with
      | pair id =>
          obtain ⟨rest, -, hfront⟩ := Option.map_eq_some_iff.mp hchain
          cases hfront
          dsimp only
          split <;> simp
      | _ => cases hpair

theorem within_toNumber
    {operation : String}
    {value : Value}
    (hoperation : NamesPrimitive operation)
    (hvalue : w.Has value) :
    Within (liftM (toNumber operation value)) w fun _ _ => True :=
  .lift (fun _ _ => trivial) fun halt h => by
    cases value <;> cases h <;> exact ⟨hoperation, hvalue.describes⟩

/-- A name that is taken from a symbol is one that code has got hold of. -/
theorem within_toName
    {operation : String}
    {value : Value}
    (hoperation : NamesPrimitive operation)
    (hvalue : w.Has value) :
    Within (liftM (toName operation value)) w fun w' name => .symbol name ∈ w'.items := by
  refine .lift ?_ ?_
  · intro name h
    cases value <;> cases h
    exact hvalue _ rfl
  · intro halt h
    cases value <;> cases h <;> exact ⟨hoperation, hvalue.describes⟩

/-- Either each of the results is there, or one of them fails. -/
theorem mapM_cases
    {α β ε : Type}
    (f : α → Except ε β)
    (values : List α) :
    (∃ results, values.mapM f = .ok results ∧ results.length = values.length) ∨
      ∃ value ∈ values, ∃ e, f value = .error e ∧ values.mapM f = .error e := by
  induction values with
  | nil => exact .inl ⟨[], rfl, rfl⟩
  | cons value values ih =>
      rw [List.mapM_cons]
      cases hvalue : f value with
      | error e => exact .inr ⟨value, List.mem_cons_self, e, hvalue, rfl⟩
      | ok result =>
          rcases ih with ⟨results, hresults, hlength⟩ | ⟨other, hother, e, hfail, hrest⟩
          · refine .inl ⟨result :: results, ?_, ?_⟩
            · rw [hresults]
              rfl
            · rw [List.length_cons, List.length_cons, hlength]
          · refine .inr ⟨other, List.mem_cons_of_mem _ hother, e, hfail, ?_⟩
            rw [hrest]
            rfl

/-- Values of which each is converted: as many results, or a failure of one of them. -/
theorem within_mapM
    {α : Type}
    {f : Value → Except Halt α}
    {values : List Value}
    (hf : ∀ value ∈ values, ∀ halt, f value = .error halt → w.Allows halt) :
    Within (liftM (values.mapM f)) w fun _ results => results.length = values.length := by
  rcases mapM_cases f values with
    ⟨results, hresults, hlength⟩ | ⟨value, hvalue, e, hfail, hresults⟩
  · refine .lift ?_ ?_ <;> intro _ h <;> cases hresults.symm.trans h
    exact hlength
  · refine .lift ?_ ?_ <;> intro _ h <;> cases hresults.symm.trans h
    exact hf value hvalue e hfail

theorem within_toNumbers
    {operation : String}
    {values : List Value}
    (hoperation : NamesPrimitive operation)
    (hvalues : w.HasAll values) :
    Within (liftM (toNumbers operation values)) w fun _ numbers =>
      numbers.length = values.length := by
  refine within_mapM fun value hvalue halt h => ?_
  have hdescribes := (hvalues value hvalue).describes
  cases value <;> cases h <;> exact ⟨hoperation, hdescribes⟩

theorem within_toNames
    {operation : String}
    {values : List Value}
    (hoperation : NamesPrimitive operation)
    (hvalues : w.HasAll values) :
    Within (liftM (toNames operation values)) w fun _ names => names.length = values.length := by
  refine within_mapM fun value hvalue halt h => ?_
  have hdescribes := (hvalues value hvalue).describes
  cases value <;> cases h <;> exact ⟨hoperation, hdescribes⟩

end Operands

section Strict

variable {w : World given} {arguments : List Value}

/-- The pair that a value is, if it is one. -/
theorem within_toPair
    {operation : String}
    {value : Value}
    (hoperation : NamesPrimitive operation)
    (hvalue : w.Has value) :
    Within (liftM (toPair operation value)) w fun w' id => .pair id ∈ w'.items := by
  refine .lift ?_ ?_
  · intro id h
    cases value <;> cases h
    exact hvalue _ rfl
  · intro halt h
    cases value <;> cases h <;> exact ⟨hoperation, hvalue.describes⟩

theorem within_toPlace
    {operation : String}
    {index : Value}
    (hoperation : NamesPrimitive operation)
    (hindex : w.Has index) :
    Within (liftM (toPlace operation index)) w fun _ _ => True := by
  refine .lift (fun _ _ => trivial) ?_
  intro halt h
  unfold toPlace at h
  cases index with
  | int number =>
      change (if number < 0 then _ else _) = _ at h
      split at h <;> cases h
      exact hoperation
  | _ =>
      cases h
      exact ⟨hoperation, hindex.describes⟩

theorem within_tailAt
    {operation : String}
    {chain : Value}
    {place : Int64}
    (hoperation : NamesPrimitive operation)
    (hchain : w.Has chain) :
    Within (tailAt operation chain place) w World.Has := by
  refine .get ?_
  cases h : w.store.follow place.toInt.toNat chain with
  | none => exact .fail hoperation
  | some tail => exact .pure (World.has_of_follow hchain h)

theorem within_elementAt
    {operation : String}
    {chain : Value}
    {place : Int64}
    (hoperation : NamesPrimitive operation)
    (hchain : w.Has chain) :
    Within (elementAt operation chain place) w World.Has := by
  refine .bind (within_tailAt hoperation hchain) ?_
  intro w' tail _ htail
  refine .get ?_
  cases h : w'.store.first? tail with
  | none =>
      dsimp only
      split
      · exact .pure htail
      · exact .fail hoperation
  | some element => exact .pure (World.has_of_first? htail h)

/-- With enough operands, arithmetic fails only at a division by zero. -/
theorem Arithmetic.result_error
    {operation : Arithmetic}
    {numbers : List Int64}
    {halt : Halt}
    (harity : operation.arity.accepts numbers.length = true)
    (h : operation.result numbers = .error halt) :
    halt = Fault.divisionByZero.halt := by
  rcases operation.result_cases numbers with ⟨hcount, -⟩ | ⟨-, -, hfail⟩ | ⟨-, result, hresult⟩
  · cases hcount.symm.trans harity
  · cases h.symm.trans hfail
    rfl
  · cases h.symm.trans hresult

/-- The pair that the first operand is. -/
theorem within_pairOperand
    {α : Type}
    {operation : String}
    {next : PairId → EvalM α}
    {post : World given → α → Prop}
    (hoperation : NamesPrimitive operation)
    (harguments : w.HasAll arguments)
    (hlength : 0 < arguments.length)
    (hnext : ∀ w' id, Changes w w' → .pair id ∈ w'.items → Within (next id) w' post) :
    Within (do next (← toPair operation (← operand arguments 0))) w post := by
  refine .bind (within_operand harguments hlength) ?_
  intro w₁ value h₁ hvalue
  refine .bind (within_toPair hoperation hvalue) ?_
  intro w₂ id h₂ hid
  exact hnext w₂ id (h₁.trans h₂) hid

/-- The chain that the first operand is, and the place in it that the second one means. -/
theorem within_placeOperands
    {α : Type}
    {operation : String}
    {next : Value → Int64 → EvalM α}
    {post : World given → α → Prop}
    (hoperation : NamesPrimitive operation)
    (harguments : w.HasAll arguments)
    (hlength : arguments.length = 2)
    (hnext : ∀ w' chain place, Changes w w' → w'.Has chain → Within (next chain place) w' post) :
    Within (do
      let chain ← operand arguments 0
      let _ ← toPair operation chain
      let place ← toPlace operation (← operand arguments 1)
      next chain place) w post := by
  refine .bind (within_operand harguments (by omega)) ?_
  intro w₁ chain h₁ hchain
  refine .bind (within_toPair hoperation hchain) ?_
  intro w₂ _ h₂ _
  refine .bind (within_operand ((h₁.trans h₂).hasAll harguments) (by omega)) ?_
  intro w₃ index h₃ hindex
  refine .bind (within_toPlace hoperation hindex) ?_
  intro w₄ place h₄ _
  have hrest := (h₂.trans h₃).trans h₄
  exact hnext w₄ chain place (h₁.trans hrest) (hrest.has hchain)

theorem Strict.within_apply
    {procedure : Strict}
    (hprocedure : .primitive (.strict procedure) ∈ w.items)
    (harguments : w.HasAll arguments)
    (harity : procedure.arity.accepts arguments.length = true) :
    Within (procedure.apply arguments) w World.Has := by
  cases procedure with
  | arithmetic operation =>
      refine .bind (within_toNumbers ⟨.strict (.arithmetic operation), rfl⟩ harguments) ?_
      intro w' numbers _ hlength
      refine .andThen (.lift (fun _ _ => trivial) ?_) ?_
      · intro halt h
        rw [Arithmetic.result_error (hlength ▸ harity) h]
        trivial
      · intro w'' result _
        exact .pure (World.has_int result)
  | isA kind =>
      have hlength : arguments.length = 1 := of_decide_eq_true harity
      refine .bind (within_operand harguments (by omega)) ?_
      intro w' value _ _
      exact .get (.pure (World.has_bool _))
  | car =>
      have hlength : arguments.length = 1 := of_decide_eq_true harity
      refine within_pairOperand ⟨.strict .car, rfl⟩ harguments (by omega) ?_
      intro w' id _ hid
      exact .get (.pure (World.has_first hid))
  | cdr =>
      have hlength : arguments.length = 1 := of_decide_eq_true harity
      refine within_pairOperand ⟨.strict .cdr, rfl⟩ harguments (by omega) ?_
      intro w' id _ hid
      exact .get (.pure (World.has_second hid))
  | cons =>
      have hlength : arguments.length = 2 := of_decide_eq_true harity
      refine .bind (within_operand harguments (by omega)) ?_
      intro w₁ first h₁ hfirst
      refine .bind (within_operand (h₁.hasAll harguments) (by omega)) ?_
      intro w₂ second h₂ hsecond
      exact .modifyGet (.single (.newPair (h₂.has hfirst) hsecond)) rfl
        (World.has_of_item rfl (Set.mem_insert _ _))
  | listRef =>
      have hoperation : NamesPrimitive Strict.listRef.name := ⟨.strict .listRef, rfl⟩
      refine within_placeOperands hoperation harguments (of_decide_eq_true harity) ?_
      intro w' chain place _ hchain
      exact within_elementAt hoperation hchain
  | listTail =>
      have hoperation : NamesPrimitive Strict.listTail.name := ⟨.strict .listTail, rfl⟩
      refine within_placeOperands hoperation harguments (of_decide_eq_true harity) ?_
      intro w' chain place _ hchain
      exact within_tailAt hoperation hchain
  | setCar =>
      have hlength : arguments.length = 2 := of_decide_eq_true harity
      refine within_pairOperand ⟨.strict .setCar, rfl⟩ harguments (by omega) ?_
      intro w₁ id h₁ hid
      refine .bind (within_operand (h₁.hasAll harguments) (by omega)) ?_
      intro w₂ value h₂ hvalue
      have hsetter := (h₁.trans h₂).items_subset hprocedure
      have hset : Change w₂ (w₂.setFirst id hvalue) := .setFirst hsetter (h₂.items_subset hid) hvalue
      refine .andThen (.modify (.single hset) rfl trivial) ?_
      intro w₃ _ _
      exact .pure World.has_nil
  | setCdr =>
      have hlength : arguments.length = 2 := of_decide_eq_true harity
      refine within_pairOperand ⟨.strict .setCdr, rfl⟩ harguments (by omega) ?_
      intro w₁ id h₁ hid
      refine .bind (within_operand (h₁.hasAll harguments) (by omega)) ?_
      intro w₂ value h₂ hvalue
      have hsetter := (h₁.trans h₂).items_subset hprocedure
      have hset : Change w₂ (w₂.setSecond id hvalue) := .setSecond hsetter (h₂.items_subset hid) hvalue
      refine .andThen (.modify (.single hset) rfl trivial) ?_
      intro w₃ _ _
      exact .pure World.has_nil

end Strict

section Evaluators

variable {w : World given} {ev : Evaluator} {frame : FrameId} {operands : List Value}

theorem within_evalAll
    (hev : Confined given ev)
    (hframe : frame ∈ w.homes)
    (hoperands : w.HasAll operands) :
    Within (evalAll ev frame operands) w fun w' values =>
      w'.HasAll values ∧ values.length = operands.length := by
  induction operands generalizing w with
  | nil => exact .pure ⟨World.hasAll_nil, rfl⟩
  | cons expression expressions ih =>
      obtain ⟨hexpression, hexpressions⟩ := World.hasAll_cons.mp hoperands
      refine .bind (hev hexpression hframe) ?_
      intro w₁ value h₁ hvalue
      refine .bind (ih (h₁.homes_subset hframe) (h₁.hasAll hexpressions)) ?_
      intro w₂ values h₂ ⟨hvalues, hlength⟩
      refine .pure ⟨World.hasAll_cons.mpr ⟨h₂.has hvalue, hvalues⟩, ?_⟩
      rw [List.length_cons, List.length_cons, hlength]

theorem within_evalBody
    (hev : Confined given ev)
    (hframe : frame ∈ w.homes)
    {last : Value}
    (hlast : w.Has last)
    (hoperands : w.HasAll operands) :
    Within (evalBody ev frame last operands) w World.Has := by
  induction operands generalizing w last with
  | nil => exact .pure hlast
  | cons expression expressions ih =>
      obtain ⟨hexpression, hexpressions⟩ := World.hasAll_cons.mp hoperands
      refine .bind (hev hexpression hframe) ?_
      intro w₁ value h₁ hvalue
      exact ih (h₁.homes_subset hframe) hvalue (h₁.hasAll hexpressions)

theorem Comparison.within_apply
    {relation : Comparison}
    (hev : Confined given ev)
    (hframe : frame ∈ w.homes)
    {previous : Option Int64}
    (hoperands : w.HasAll operands) :
    Within (relation.apply ev frame previous operands) w World.Has := by
  induction operands generalizing w previous with
  | nil => exact .pure (World.has_bool _)
  | cons expression expressions ih =>
      obtain ⟨hexpression, hexpressions⟩ := World.hasAll_cons.mp hoperands
      refine .bind (hev hexpression hframe) ?_
      intro w₁ value h₁ hvalue
      refine .bind (within_toNumber ⟨.comparison relation, rfl⟩ hvalue) ?_
      intro w₂ number h₂ _
      have hrest := h₁.trans h₂
      cases previous with
      | none => exact ih (hrest.homes_subset hframe) (hrest.hasAll hexpressions)
      | some before =>
          dsimp only
          split
          · exact ih (hrest.homes_subset hframe) (hrest.hasAll hexpressions)
          · exact .pure (World.has_bool _)

theorem Connective.within_apply
    {junction : Connective}
    (hev : Confined given ev)
    (hframe : frame ∈ w.homes)
    {last : Value}
    (hlast : w.Has last)
    (hoperands : w.HasAll operands) :
    Within (junction.apply ev frame last operands) w World.Has := by
  induction operands generalizing w last with
  | nil => exact .pure hlast
  | cons expression expressions ih =>
      obtain ⟨hexpression, hexpressions⟩ := World.hasAll_cons.mp hoperands
      refine .bind (hev hexpression hframe) ?_
      intro w₁ value h₁ hvalue
      split
      · exact .pure hvalue
      · exact ih (h₁.homes_subset hframe) hvalue (h₁.hasAll hexpressions)

theorem within_evalBranch
    (hev : Confined given ev)
    (hframe : frame ∈ w.homes)
    (hoperands : w.HasAll operands)
    (hlength : 2 ≤ operands.length) :
    Within (evalBranch ev operands frame) w World.Has := by
  refine .bind (within_operand hoperands (by omega)) ?_
  intro w₁ test h₁ htest
  refine .bind (hev htest (h₁.homes_subset hframe)) ?_
  intro w₂ decision h₂ hdecision
  have hboth := h₁.trans h₂
  split
  · refine .bind (within_operand (hboth.hasAll hoperands) (by omega)) ?_
    intro w₃ branch h₃ hbranch
    exact hev hbranch ((hboth.trans h₃).homes_subset hframe)
  · split
    · rename_i alternative halternative
      have hmember := List.mem_of_getElem? halternative
      exact hev (hboth.has (hoperands _ hmember)) (hboth.homes_subset hframe)
    · exact .pure World.has_nil
  · exact .fail hdecision.describes

/-- A binding whose result is the symbol that was bound. -/
theorem within_binding
    {name : String}
    {value : Value}
    (hframe : frame ∈ w.homes)
    (hdefine : .primitive (.special .define) ∈ w.items)
    (hname : .symbol name ∈ w.items)
    (hvalue : w.Has value) :
    Within (do
      modify (Store.define frame name value)
      pure (.sym name)) w World.Has := by
  have hchange : Change w (w.bind frame name hvalue) := .define hdefine hframe hname hvalue
  refine .andThen (.modify (.single hchange) rfl trivial) ?_
  intro w' _ h
  exact .pure (World.has_of_item rfl (h.items_subset hname))

theorem within_defineVariable
    (hev : Confined given ev)
    (hframe : frame ∈ w.homes)
    (hdefine : .primitive (.special .define) ∈ w.items)
    {name : String}
    (hname : .symbol name ∈ w.items)
    (hoperands : w.HasAll operands) :
    Within (defineVariable ev name operands frame) w World.Has := by
  unfold defineVariable
  split
  · refine .bind (within_operand hoperands (by omega)) ?_
    intro w₁ expression h₁ hexpression
    refine .bind (hev hexpression (h₁.homes_subset hframe)) ?_
    intro w₂ value h₂ hvalue
    have h₁₂ := h₁.trans h₂
    exact within_binding (h₁₂.homes_subset hframe) (h₁₂.items_subset hdefine)
      (h₁₂.items_subset hname) hvalue
  · exact .fail trivial

theorem within_newClosure
    {parameters : List String}
    {body : List Value}
    (hframe : frame ∈ w.homes)
    (hbody : w.HasAll body) :
    Within (modifyGet (Store.newClosure ⟨parameters, body, frame⟩)) w World.Has := by
  have hmade : Change w _ :=
    @Change.newClosure _ w ⟨parameters, body, frame⟩ hbody (w.homes_held hframe)
  exact .modifyGet (.single hmade) rfl (World.has_of_item rfl (Set.mem_insert _ _))

theorem within_defineProcedure
    (hframe : frame ∈ w.homes)
    (hdefine : .primitive (.special .define) ∈ w.items)
    {signature : Value}
    (hsignature : w.Has signature)
    (hpair : signature.isPair = true)
    (hoperands : w.HasAll operands) :
    Within (defineProcedure signature operands frame) w World.Has := by
  unfold defineProcedure
  split
  · exact .fail trivial
  · refine .get ?_
    split
    · refine .bind (within_elements hsignature) ?_
      intro w₁ names h₁ ⟨hnames, hpositive⟩
      refine .bind (within_operand hnames (hpositive hpair)) ?_
      intro w₂ signed h₂ hsigned
      refine .bind (within_toName ⟨.special .define, rfl⟩ hsigned) ?_
      intro w₃ name h₃ hname
      have h₂₃ := h₂.trans h₃
      refine .bind (within_operandsFrom (h₂₃.hasAll hnames) (hpositive hpair)) ?_
      intro w₄ parameterNames h₄ hparameters
      refine .andThen ((within_toNames ⟨.special .define, rfl⟩ hparameters).mono fun _ _ _ _ => trivial) ?_
      intro w₅ parameters h₅
      have h₃₅ := h₄.trans h₅
      have h₁₅ := h₁.trans (h₂₃.trans h₃₅)
      refine .bind (within_operandsFrom (h₁₅.hasAll hoperands) (by omega)) ?_
      intro w₆ body h₆ hbody
      have h₁₆ := h₁₅.trans h₆
      refine .bind (within_newClosure (h₁₆.homes_subset hframe) hbody) ?_
      intro w₇ closure h₇ hclosure
      have h₁₇ := h₁₆.trans h₇
      exact within_binding (h₁₇.homes_subset hframe) (h₁₇.items_subset hdefine)
        ((h₃₅.trans (h₆.trans h₇)).items_subset hname) hclosure
    · exact .fail hsignature.describes

theorem within_evalDefine
    (hev : Confined given ev)
    (hframe : frame ∈ w.homes)
    (hdefine : .primitive (.special .define) ∈ w.items)
    (hoperands : w.HasAll operands)
    (hlength : 1 ≤ operands.length) :
    Within (evalDefine ev operands frame) w World.Has := by
  refine .bind (within_operand hoperands hlength) ?_
  intro w₁ target h₁ htarget
  split
  · exact within_defineVariable hev (h₁.homes_subset hframe) (h₁.items_subset hdefine)
      (htarget _ rfl) (h₁.hasAll hoperands)
  · exact within_defineProcedure (h₁.homes_subset hframe) (h₁.items_subset hdefine)
      htarget rfl (h₁.hasAll hoperands)
  · exact .fail htarget.describes

/-- An assignment either finds a binding or changes nothing. -/
theorem within_assignment
    {name : String}
    {value : Value}
    (hframe : frame ∈ w.homes)
    (hassign : .primitive (.special .assign) ∈ w.items)
    (hname : .symbol name ∈ w.items)
    (hvalue : w.Has value) :
    Within (modifyGet (Store.assign frame name value)) w fun w' found =>
      found = true ∨ w'.Unbound name := by
  have hheld := w.homes_held hframe
  cases h : w.store.binder? frame name with
  | none =>
      have hassigned : w.store.assign frame name value = (false, w.store) := by
        rw [Store.assign_eq, h]
      refine .modifyGet .refl (congrArg Prod.snd hassigned) (.inr ⟨hname, frame, hheld, ?_⟩)
      rw [Store.lookup_eq_binder, h]
      rfl
  | some scope =>
      obtain ⟨hscope, hbinds⟩ := World.binder?_mem hheld h
      have hassigned : w.store.assign frame name value =
          (true, w.store.define scope name value) := by
        rw [Store.assign_eq, h]
      have hchange : Change w (w.bind scope name hvalue) :=
        .assign hassign hscope hbinds hname hvalue
      exact .modifyGet (.single hchange) (congrArg Prod.snd hassigned)
        (.inl (congrArg Prod.fst hassigned))

theorem within_evalAssign
    (hev : Confined given ev)
    (hframe : frame ∈ w.homes)
    (hassign : .primitive (.special .assign) ∈ w.items)
    (hoperands : w.HasAll operands)
    (hlength : operands.length = 2) :
    Within (evalAssign ev operands frame) w World.Has := by
  refine .bind (within_operand hoperands (by omega)) ?_
  intro w₁ target h₁ htarget
  split
  · refine .bind (within_operand (h₁.hasAll hoperands) (by omega)) ?_
    intro w₂ expression h₂ hexpression
    have h₁₂ := h₁.trans h₂
    refine .bind (hev hexpression (h₁₂.homes_subset hframe)) ?_
    intro w₃ value h₃ hvalue
    have h₁₃ := h₁₂.trans h₃
    have hname := (h₂.trans h₃).items_subset (htarget _ rfl)
    refine .bind (within_assignment (h₁₃.homes_subset hframe) (h₁₃.items_subset hassign)
      hname hvalue) ?_
    intro w₄ found h₄ hfound
    split
    · exact .pure (h₄.has hvalue)
    · exact .fail (hfound.resolve_left ‹_›)
  · exact .fail ⟨⟨.special .assign, rfl⟩, htarget.describes⟩

theorem within_evalLambda
    (hframe : frame ∈ w.homes)
    (hoperands : w.HasAll operands)
    (hlength : 2 ≤ operands.length) :
    Within (evalLambda operands frame) w World.Has := by
  refine .bind (within_operand hoperands (by omega)) ?_
  intro w₁ signature h₁ hsignature
  refine .get ?_
  split
  · refine .bind (within_elements hsignature) ?_
    intro w₂ names h₂ ⟨hnames, _⟩
    refine .andThen ((within_toNames ⟨.special .lambda, rfl⟩ hnames).mono fun _ _ _ _ => trivial) ?_
    intro w₃ parameters h₃
    have h₁₃ := h₁.trans (h₂.trans h₃)
    refine .bind (within_operandsFrom (h₁₃.hasAll hoperands) (by omega)) ?_
    intro w₄ body h₄ hbody
    exact within_newClosure ((h₁₃.trans h₄).homes_subset hframe) hbody
  · exact .fail ⟨⟨.special .lambda, rfl⟩, hsignature.describes⟩

theorem SpecialForm.within_apply
    {form : SpecialForm}
    (hev : Confined given ev)
    (hform : .primitive (.special form) ∈ w.items)
    (hframe : frame ∈ w.homes)
    (hoperands : w.HasAll operands)
    (harity : form.arity.accepts operands.length = true) :
    Within (form.apply ev operands frame) w World.Has := by
  cases form with
  | branch =>
      have hlength : 2 ≤ operands.length ∧ operands.length ≤ 3 := of_decide_eq_true harity
      exact within_evalBranch hev hframe hoperands hlength.1
  | define => exact within_evalDefine hev hframe hform hoperands (of_decide_eq_true harity)
  | assign => exact within_evalAssign hev hframe hform hoperands (of_decide_eq_true harity)
  | lambda => exact within_evalLambda hframe hoperands (of_decide_eq_true harity)

theorem Primitive.within_apply
    {primitive : Primitive}
    (hev : Confined given ev)
    (hprimitive : .primitive primitive ∈ w.items)
    (hframe : frame ∈ w.homes)
    (hoperands : w.HasAll operands) :
    Within (primitive.apply ev operands frame) w World.Has := by
  unfold Primitive.apply
  split
  · rename_i harity
    cases primitive with
    | strict procedure =>
        refine .bind (within_evalAll hev hframe hoperands) ?_
        intro w₁ arguments h₁ ⟨harguments, hlength⟩
        exact Strict.within_apply (h₁.items_subset hprimitive) harguments (hlength ▸ harity)
    | comparison relation => exact Comparison.within_apply hev hframe hoperands
    | connective junction =>
        refine Connective.within_apply hev hframe ?_ hoperands
        cases junction <;> exact World.has_bool _
    | negation =>
        have hlength : operands.length = 1 := of_decide_eq_true harity
        refine .bind (within_operand hoperands (by omega)) ?_
        intro w₁ value h₁ _
        exact .pure (World.has_bool _)
    | quote =>
        have hlength : operands.length = 1 := of_decide_eq_true harity
        exact within_operand hoperands (by omega)
    | list =>
        obtain ⟨w', hchanges, hstore, hvalue⟩ := Changes.exists_newChain w hoperands World.has_nil
        exact .modifyGet hchanges hstore hvalue
    | special form => exact SpecialForm.within_apply hev hprimitive hframe hoperands harity
  · exact .fail trivial

/-- The frame of a call stands inside the one of the closure. -/
theorem within_newFrame
    {parent : FrameId}
    (hparent : .frame parent ∈ w.items) :
    Within (modifyGet (Store.newFrame ⟨some parent, []⟩)) w fun w' scope =>
      scope ∈ w'.calls ∧ scope ∈ w'.homes := by
  let made : Frame := ⟨some parent, []⟩
  have hinside : ∀ other, made.parent = some other → .frame other ∈ w.items :=
    fun other h => Option.some.inj h ▸ hparent
  have hmade : Change w (w.newFrame hinside nofun) := .newFrame ⟨parent, rfl⟩ hinside nofun
  exact .modifyGet (.single hmade) rfl ⟨.inr rfl, .inr rfl⟩

/-- Parameters are bound in the frame of a call, and names are bound in the frame of the caller. -/
theorem within_bindInTurn
    {scope : FrameId}
    {entries : List (String × Value)}
    (hev : Confined given ev)
    (hframe : frame ∈ w.homes)
    (hcall : scope ∈ w.calls)
    (hscope : scope ∈ w.homes)
    (hentries : ∀ entry ∈ entries, w.Has entry.2) :
    Within (bindInTurn ev frame scope entries) w fun _ _ => True := by
  induction entries generalizing w with
  | nil => exact .pure trivial
  | cons entry entries ih =>
      obtain ⟨hentry, hrest⟩ := List.forall_mem_cons.mp hentries
      refine .bind (hev hentry hframe) ?_
      intro w₁ argument h₁ hargument
      have hfill : Change w₁ (w₁.bind scope entry.1 hargument) :=
        .fill (h₁.calls_subset hcall) (h₁.homes_subset hscope) hargument
      refine .andThen (.modify (.single hfill) rfl trivial) ?_
      intro w₂ _ h₂
      have h₁₂ := h₁.trans h₂
      exact ih (h₁₂.homes_subset hframe) (h₁₂.calls_subset hcall) (h₁₂.homes_subset hscope)
        fun other hother => h₁₂.has (hrest other hother)

theorem Closure.within_apply
    {closure : Closure}
    (hev : Confined given ev)
    (hbody : w.HasAll closure.body)
    (hcaptured : .frame closure.frame ∈ w.items)
    (hframe : frame ∈ w.homes)
    (hoperands : w.HasAll operands) :
    Within (closure.apply ev operands frame) w World.Has := by
  unfold Closure.apply
  split
  · refine .bind (within_newFrame hcaptured) ?_
    intro w₁ scope h₁ ⟨hcall, hscope⟩
    refine .andThen (within_bindInTurn hev (h₁.homes_subset hframe) hcall hscope ?_) ?_
    · intro entry hentry
      exact h₁.has (hoperands _ (List.of_mem_zip hentry).2)
    · intro w₂ _ h₂
      exact within_evalBody hev (h₂.homes_subset hscope) World.has_nil
        ((h₁.trans h₂).hasAll hbody)
  · exact .fail trivial

theorem within_applyGiven
    {procedure : Value}
    (hev : Confined given ev)
    (hprocedure : w.Has procedure)
    (hframe : frame ∈ w.homes)
    (hoperands : w.HasAll operands) :
    Within (applyGiven given ev procedure operands frame) w World.Has := by
  cases procedure with
  | primitive primitive =>
      dsimp only [applyGiven]
      rw [if_pos (w.primitive_given (hprocedure _ rfl))]
      exact Primitive.within_apply hev (hprocedure _ rfl) hframe hoperands
  | closure id =>
      have hid := hprocedure _ rfl
      refine .get (Closure.within_apply hev ?_ (w.closed hid (.captured id)) hframe hoperands)
      intro value hvalue _ hitem
      exact w.closed hid (.body hvalue hitem)
  | _ => exact .fail hprocedure.describes

theorem within_evalStepGiven
    {expression : Value}
    (hev : Confined given ev)
    (hexpression : w.Has expression)
    (hframe : frame ∈ w.homes) :
    Within (evalStepGiven given ev expression frame) w World.Has := by
  cases expression with
  | nil => exact .fail trivial
  | int number => exact .pure hexpression
  | bool truth => exact .pure hexpression
  | sym name =>
      refine .get ?_
      have hheld := w.homes_held hframe
      cases h : w.store.lookup frame name with
      | none => exact .fail ⟨hexpression _ rfl, frame, hheld, h⟩
      | some value => exact .pure (World.has_of_lookup hheld h)
  | pair id =>
      refine .get ?_
      have hid := World.pair_mem hexpression
      refine .bind (hev (World.has_first hid) hframe) ?_
      intro w₁ procedure h₁ hprocedure
      refine .bind (within_elements (h₁.has (World.has_second hid))) ?_
      intro w₂ operands h₂ ⟨hoperands, _⟩
      exact within_applyGiven hev (h₂.has hprocedure) ((h₁.trans h₂).homes_subset hframe) hoperands
  | closure id => exact .fail trivial
  | primitive primitive => exact .fail trivial

end Evaluators

theorem evalGiven_confined (fuel : Nat) : Confined given (evalGiven given fuel) := by
  induction fuel with
  | zero => exact fun _ _ => .unfinished
  | succ fuel ih => exact within_evalStepGiven ih

/-- Code comes to apply only primitives that it has got hold of. -/
theorem outcome_evalGiven
    {w : World given}
    {expression : Value}
    {frame : FrameId}
    (fuel : Nat)
    (hexpression : w.Has expression)
    (hframe : frame ∈ w.homes) :
    outcome (evalGiven given fuel expression frame) w.store =
      outcome (eval fuel expression frame) w.store := by
  refine (evalGiven_agrees fuel expression frame w.store).resolve_left ?_
  intro hstuck
  obtain ⟨w', -, -, hend⟩ := evalGiven_confined fuel hexpression hframe
  rw [hstuck] at hend
  exact hend

/-- Evaluation with any fuel is confined. -/
theorem eval_confined (fuel : Nat) : Confined given (eval fuel) := by
  intro w expression frame hexpression hframe
  have h := evalGiven_confined fuel hexpression hframe
  unfold Within at h ⊢
  rw [outcome_evalGiven fuel hexpression hframe] at h
  exact h

end SmallLisp
