import SmallLisp.Proofs.CallFrames

/-!
# Lexical scoping

A closure sees its caller through its operands only, and its body sees the frame in which the closure was made.
The frame of the call is there while the operands are evaluated, and is filled meanwhile. No operand can notice
it or change it.

* `Store.FillsUnseen` says what is there at each operand, and `Store.Hosts.fillsUnseen` that it is so;
* `scoping_is_lexical` is the main result.
-/

namespace SmallLisp

/-- While the operands of a call are evaluated, the frame of the call is filled. When `operand` is to be evaluated
next, the arguments of those in `front` are bound in it, and nothing leads to it. Evaluating `operand` neither
notices the frame nor changes it. -/
def Store.FillsUnseen
    (store : Store)
    (closure : Closure)
    (fuel : Nat)
    (caller : FrameId)
    (front : List Value)
    (operand : Value) :
    Prop :=
  ∀ arguments before,
    outcome (evalAll (eval fuel) caller front) store = (.ok arguments, before) →
    ∃ filling,
      outcome (bindInTurn (eval fuel) caller ⟨store.frames.size⟩ (closure.parameters.zip front))
          (store.newFrame ⟨some closure.frame, []⟩).2 = (.ok (), filling) ∧
        before.HasSpare store.frames.size filling ∧
        filling.frame ⟨store.frames.size⟩ = Frame.ofArguments closure.frame closure.parameters arguments ∧
        let without := outcome (eval fuel operand caller) before
        let ending := outcome (eval fuel operand caller) filling
        ending.1 = without.1 ∧
          without.2.HasSpare store.frames.size ending.2 ∧
          ending.2.frame ⟨store.frames.size⟩ = filling.frame ⟨store.frames.size⟩

/-- While operands are evaluated, the frame of the call is neither noticed nor changed. -/
theorem Store.Hosts.fillsUnseen
    {store : Store}
    {caller : FrameId}
    {id : ClosureId}
    (h : store.Hosts caller)
    (hclosure : store.Holds (.closure id))
    {front back : List Value}
    {operand : Value}
    (hoperands : ∀ value ∈ front ++ operand :: back, store.Holds value)
    (hcount : (front ++ operand :: back).length = (store.closure id).parameters.length)
    (fuel : Nat) :
    store.FillsUnseen (store.closure id) fuel caller front operand := by
  intro arguments before hbefore
  have hfront : ∀ value ∈ front, store.Holds value :=
    fun value hvalue => hoperands value (List.mem_append_left _ hvalue)
  have hoperand : store.Holds operand :=
    hoperands operand (List.mem_append_right _ List.mem_cons_self)
  have hshort : front.length ≤ (store.closure id).parameters.length := by
    rw [← hcount, List.length_append]
    exact Nat.le_add_right _ _
  obtain ⟨hresult, hspare, hframe⟩ := h.bindInTurn_alike hclosure hfront hshort fuel
  rcases hbound : outcome (bindInTurn (eval fuel) caller ⟨store.frames.size⟩
      ((store.closure id).parameters.zip front))
      (store.newFrame ⟨some (store.closure id).frame, []⟩).2 with ⟨result, filling⟩
  rw [hbound, hbefore] at hresult hspare
  rw [hbound] at hframe
  obtain rfl : result = .ok () := hresult
  obtain ⟨hhosts, hgrows⟩ := h.after_operands hfront hbefore
  have hheld : before.Holds operand := fun item hitem => (hoperand item hitem).mono hgrows
  have hsame := hspare.eval_alike hhosts hheld fuel
  have hkept := hspare.frame_eval hhosts hheld fuel
  rw [Renaming.frame_leavingOut h.frame_lt] at hsame hkept
  exact ⟨filling, rfl, hspare, hframe arguments (congrArg Prod.fst hbefore), hsame.1, hsame.2, hkept⟩

/-- Scoping is lexical.

* A closure sees its caller only through its operands: if evaluating the operands ends in the same way for two
  callers, then so does the call, with the same store in the end. If an operand fails, there is nothing in the end
  but what the operands leave and the frame of the call, to which nothing leads; the stores are then the same if
  this frame is, which binds the values of the operands before.
* The body is evaluated in order in the frame of the call, of which `Store.IsCallFrame` says that it is new, that
  it stands inside the frame in which the closure was made, and that it binds the parameters, a repeated one to
  its last argument.
* The frame is made before the operands are evaluated and filled meanwhile. No operand notices it or changes it. -/
theorem scoping_is_lexical :
    (∀ {store : Store} {id : ClosureId} {operands : List Value} {caller caller' : FrameId},
      store.Hosts caller →
      store.Hosts caller' →
      store.Holds (.closure id) →
      (∀ operand ∈ operands, store.Holds operand) →
      (∀ result middle,
        Concludes (fun fuel => evalAll (eval fuel) caller operands) store result middle ↔
          Concludes (fun fuel => evalAll (eval fuel) caller' operands) store result middle) →
      ∀ result last,
        Concludes (fun fuel => apply fuel (.closure id) operands caller) store result last →
        ∃ last',
          Concludes (fun fuel => apply fuel (.closure id) operands caller') store result last' ∧
            (last' = last ∨
              ∃ halt middle,
                Concludes (fun fuel => evalAll (eval fuel) caller operands) store (.error halt) middle ∧
                  middle.HasSpare store.frames.size last ∧
                  middle.HasSpare store.frames.size last' ∧
                  (last'.frame ⟨store.frames.size⟩ = last.frame ⟨store.frames.size⟩ → last' = last))) ∧
    ∀ {store : Store} {caller : FrameId} {id : ClosureId} {operands : List Value},
      store.Hosts caller →
      store.Holds (.closure id) →
      (∀ operand ∈ operands, store.Holds operand) →
      operands.length = (store.closure id).parameters.length →
      ∀ fuel,
        (∀ arguments after,
          outcome (evalAll (eval fuel) caller operands) store = (.ok arguments, after) →
          ∃ scope started,
            store.IsCallFrame after (store.closure id) arguments scope started ∧
            let body := outcome (evalAll (eval fuel) scope (store.closure id).body) started
            outcome (apply fuel (.closure id) operands caller) store =
              (body.1.map fun values => values.getLastD .nil, body.2)) ∧
        ∀ front operand back,
          operands = front ++ operand :: back →
          store.FillsUnseen (store.closure id) fuel caller front operand := by
  refine ⟨?_, ?_⟩
  · intro store id operands caller caller' hhosts hhosts' hclosure hoperands hsame result last
    exact hhosts.concludes_apply hhosts' hclosure hoperands fun result middle => (hsame result middle).mp
  · intro store caller id operands hhosts hclosure hoperands hcount fuel
    refine ⟨?_, ?_⟩
    · intro arguments after harguments
      obtain ⟨started, hcallFrame, hbody⟩ := hhosts.isCallFrame hclosure hoperands hcount harguments
      refine ⟨_, started, hcallFrame, ?_⟩
      rw [hbody, outcome_evalBody]
    · rintro front operand back rfl
      exact hhosts.fillsUnseen hclosure hoperands hcount fuel

/-- The procedure `f` takes two arguments under one name. It is called from the root frame and from the frame of a
call of `g`, in which `y` is hidden. Both calls end alike: with the last argument, and with the `y` of the root
frame. -/
theorem scoping_is_lexical_for_two_callers :
    let defined := (Session.start.evaluate 3 "(define y 1)").2.evaluate 3 "(define (f x x) (cons x y))"
    let store := ((defined.2.evaluate 3 "(define (g y) y)").2.evaluate 4 "(g 5)").2.store
    let operands : List Value := [.sym "f", .int 4]
    let call := outcome (apply 3 (.closure ⟨0⟩) operands ⟨1⟩) store
    store.lookup ⟨0⟩ "y" = some (.int 1) ∧
      store.lookup ⟨1⟩ "y" = some (.int 5) ∧
      call.1.bind call.2.print = .ok "(4 . 1)" ∧
      Concludes (fun fuel => apply fuel (.closure ⟨0⟩) operands ⟨0⟩) store call.1 call.2 ∧
      (∃ scope started, store.IsCallFrame store (store.closure ⟨0⟩) [.closure ⟨0⟩, .int 4] scope started ∧
        (started.frame scope).get? "x" = some (.int 4)) ∧
      store.FillsUnseen (store.closure ⟨0⟩) 3 ⟨1⟩ [.sym "f"] (.int 4) := by
  intro defined store operands call
  have hreachable : Session.Reachable ((defined.2.evaluate 3 "(define (g y) y)").2.evaluate 4 "(g 5)").2 :=
    .evaluate (.evaluate (.evaluate (.evaluate .start 3 _) 3 _) 3 _) 4 _
  have hwellFormed := hreachable.wellFormed
  have hhosts : store.Hosts ⟨1⟩ := ⟨hwellFormed.sound, hwellFormed.forest, by decide +kernel⟩
  have hhostsRoot : store.Hosts ⟨0⟩ := ⟨hwellFormed.sound, hwellFormed.forest, by decide +kernel⟩
  have hclosure : store.Holds (.closure ⟨0⟩) := by
    rintro _ ⟨⟩
    show 0 < store.closures.size
    decide +kernel
  have hoperands : ∀ operand ∈ operands, store.Holds operand := by
    intro operand hoperand item hitem
    rcases List.mem_pair.mp hoperand with rfl | rfl <;> cases hitem
    trivial
  have hroot : Concludes (fun fuel => evalAll (eval fuel) ⟨0⟩ operands) store
      (.ok [.closure ⟨0⟩, .int 4]) store := ⟨nofun, 1, by decide +kernel⟩
  have hinner : Concludes (fun fuel => evalAll (eval fuel) ⟨1⟩ operands) store
      (.ok [.closure ⟨0⟩, .int 4]) store := ⟨nofun, 1, by decide +kernel⟩
  have hparameters : (store.closure ⟨0⟩).parameters = ["x", "x"] := by decide +kernel
  have hcall : call.1 = .ok (.pair ⟨19⟩) := by decide +kernel
  have hsame : ∀ result middle,
      Concludes (fun fuel => evalAll (eval fuel) ⟨1⟩ operands) store result middle ↔
        Concludes (fun fuel => evalAll (eval fuel) ⟨0⟩ operands) store result middle :=
    fun result middle => (concludes_evalAll_iff hinner result middle).trans
      (concludes_evalAll_iff hroot result middle).symm
  obtain ⟨hcallers, hcalls⟩ := scoping_is_lexical
  obtain ⟨hbody, hfills⟩ := hcalls hhosts hclosure hoperands (by rw [hparameters]; rfl) 3
  obtain ⟨scope, started, hframe, -⟩ := hbody [.closure ⟨0⟩, .int 4] store (by decide +kernel)
  refine ⟨by decide +kernel, by decide +kernel, by decide +kernel, ?_, ⟨scope, started, hframe, ?_⟩,
    hfills [.sym "f"] (.int 4) [] rfl⟩
  · obtain ⟨last', hconcludes, hlast⟩ :=
      hcallers hhosts hhostsRoot hclosure hoperands hsame call.1 call.2 ⟨hcall ▸ nofun, 3, rfl⟩
    -- No operand fails, so the stores are the same.
    rcases hlast with rfl | ⟨halt, middle, hfails, -⟩
    · exact hconcludes
    · cases ((concludes_evalAll_iff hinner (.error halt) middle).mp hfails).1
  · refine hframe.last 1 "x" (.int 4) (by rw [hparameters]; rfl) rfl ?_
    intro later hlater
    rw [hparameters, List.getElem?_eq_none (show 2 ≤ later from hlater)]
    nofun

end SmallLisp
