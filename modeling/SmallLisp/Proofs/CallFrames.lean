import SmallLisp.Proofs.Answering
import SmallLisp.Proofs.Operands
import SmallLisp.Proofs.SpareFrames

/-!
# The frame of a call

The frame of a call is made first and filled while the operands are evaluated. Nothing leads to it before the
body starts, so the operands are evaluated as if it were not there. A call of a closure therefore depends on its
caller through the operands only, and its body runs in a frame of its own that stands inside the frame in which
the closure was made.

* `Store.HasSpare.bindInTurn_alike`: to bind operands in turn in a spare frame is to evaluate them and to bind
  their values;
* `Store.Hosts.exists_started` and `Store.Hosts.outcome_apply_of_halt` say what a call comes to, given what the
  operands come to without the frame of the call;
* `Concludes` says what an evaluation ends with if it gets enough fuel, and `Store.Hosts.concludes_apply`
  compares two callers;
* `Store.IsCallFrame` describes the frame in which a body starts, and `Store.Hosts.isCallFrame` finds it.
-/

namespace SmallLisp

/-- The frame of a call when its body starts: each parameter is bound to its argument, a repeated one to the
last. -/
def Frame.ofArguments (parent : FrameId) (parameters : List String) (arguments : List Value) : Frame :=
  (parameters.zip arguments).foldl
    (fun frame entry => frame.insert entry.1 entry.2) ⟨some parent, []⟩

section Arguments

variable {frame : Frame} {entries : List (String × Value)} {name : String} {value : Value}

theorem Frame.parent_foldl_insert :
    (entries.foldl (fun frame entry => frame.insert entry.1 entry.2) frame).parent = frame.parent := by
  induction entries generalizing frame with
  | nil => rfl
  | cons entry entries ih => exact ih.trans (frame.parent_insert entry.1 entry.2)

theorem Frame.get?_foldl_insert_of_not_mem
    (h : name ∉ entries.map Prod.fst) :
    (entries.foldl (fun frame entry => frame.insert entry.1 entry.2) frame).get? name = frame.get? name := by
  induction entries generalizing frame with
  | nil => rfl
  | cons entry entries ih =>
      obtain ⟨hentry, hentries⟩ := not_or.mp (mt List.mem_cons.mpr h)
      rw [List.foldl_cons, ih hentries, Frame.get?_insert, if_neg hentry]

theorem Frame.binds_foldl_insert :
    (entries.foldl (fun frame entry => frame.insert entry.1 entry.2) frame).binds name = true ↔
      name ∈ entries.map Prod.fst ∨ frame.binds name = true := by
  induction entries generalizing frame with
  | nil => simp
  | cons entry entries ih =>
      rw [List.foldl_cons, ih, Frame.binds_insert, List.map_cons, List.mem_cons, Bool.or_eq_true,
        decide_eq_true_eq]
      tauto

/-- The last binding of a name counts. -/
theorem Frame.get?_foldl_insert
    {number : Nat}
    (hentry : entries[number]? = some (name, value))
    (hlast : ∀ later, number < later → (entries.map Prod.fst)[later]? ≠ some name) :
    (entries.foldl (fun frame entry => frame.insert entry.1 entry.2) frame).get? name = some value := by
  obtain ⟨hlt, hget⟩ := List.getElem?_eq_some_iff.mp hentry
  have hsplit : entries = entries.take number ++ (name, value) :: entries.drop (number + 1) := by
    rw [← hget, ← List.drop_eq_getElem_cons hlt, List.take_append_drop]
  have hback : name ∉ (entries.drop (number + 1)).map Prod.fst := by
    intro hmem
    rw [List.map_drop] at hmem
    obtain ⟨index, hindex⟩ := List.mem_iff_getElem?.mp hmem
    rw [List.getElem?_drop] at hindex
    exact hlast _ (by omega) hindex
  rw [hsplit, List.foldl_append, List.foldl_cons, Frame.get?_foldl_insert_of_not_mem hback,
    Frame.get?_insert, if_pos rfl]

end Arguments

namespace Store

/-- To bind operands in turn in a spare frame is to evaluate them without it and to bind their values. -/
theorem HasSpare.bindInTurn_alike
    {number : Nat}
    {store store' : Store}
    {frame : FrameId}
    (h : store.HasSpare number store')
    (hhosts : store.Hosts frame)
    (fuel : Nat)
    {parameters : List String}
    {operands : List Value}
    (hoperands : ∀ operand ∈ operands, store.Holds operand)
    (hcount : operands.length ≤ parameters.length) :
    let without := outcome (evalAll (eval fuel) frame operands) store
    let ending := outcome (bindInTurn (eval fuel) ((Renaming.leavingOut number).frame frame)
      ⟨number⟩ (parameters.zip operands)) store'
    ending.1 = without.1.map (fun _ => ()) ∧
      without.2.HasSpare number ending.2 ∧
      ∀ arguments, without.1 = .ok arguments →
        ending.2.frame ⟨number⟩ =
          (parameters.zip arguments).foldl (fun frame entry => frame.insert entry.1 entry.2)
            (store'.frame ⟨number⟩) := by
  induction operands generalizing parameters store store' with
  | nil =>
      rw [List.zip_nil_right]
      refine ⟨rfl, h, ?_⟩
      rintro _ ⟨⟩
      rw [List.zip_nil_right]
      rfl
  | cons operand operands ih =>
      cases parameters with
      | nil => exact (Nat.not_succ_le_zero _ hcount).elim
      | cons name parameters =>
          obtain ⟨hoperand, hrest⟩ := List.forall_mem_cons.mp hoperands
          obtain ⟨hsame, hspare⟩ := h.eval_alike hhosts hoperand fuel
          have hframe := h.frame_eval hhosts hoperand fuel
          obtain ⟨hmiddle, hgrows⟩ :=
            hhosts.of_within (eval_confined fuel hoperand (Set.mem_singleton frame))
          rw [List.zip_cons_cons]
          rcases hending : outcome (eval fuel operand ((Renaming.leavingOut number).frame frame)) store' with
            ⟨result, middle'⟩
          rcases hwithout : outcome (eval fuel operand frame) store with ⟨halt | value, middle⟩
          · rw [hending, hwithout] at hsame hspare
            obtain rfl : result = .error halt := hsame
            rw [outcome_evalAll_of_halt hwithout, outcome_bindInTurn_of_halt hending]
            refine ⟨rfl, hspare, ?_⟩
            rintro _ ⟨⟩
          · rw [hending, hwithout] at hsame hspare
            rw [hending] at hframe
            rw [show outcome _ _ = _ from hwithout] at hmiddle hgrows
            obtain rfl : result = .ok value := hsame
            rw [outcome_evalAll_of_value hwithout, outcome_bindInTurn_of_value hending]
            obtain ⟨hresult, hspareLater, hframeLater⟩ := ih (hspare.define name value) hmiddle
              (fun other hother item hitem => (hrest other hother item hitem).mono hgrows)
              (Nat.le_of_succ_le_succ hcount)
            rcases hvalues : outcome (evalAll (eval fuel) frame operands) middle with ⟨halt | values, after⟩
            · rw [hvalues] at hresult hspareLater
              refine ⟨hresult, hspareLater, ?_⟩
              rintro _ ⟨⟩
            · rw [hvalues] at hresult hspareLater
              refine ⟨hresult, hspareLater, ?_⟩
              rintro _ ⟨⟩
              rw [hframeLater values (congrArg Prod.fst hvalues),
                Store.frame_define _ _ _ _ _ hspare.number_lt, if_pos rfl, hframe]
              rfl

/-- The frames from a frame outward are this frame and those from its parent outward. -/
theorem LineEnds.scopes_eq_cons
    {store : Store}
    {id parent : FrameId}
    (h : store.LineEnds id)
    (hparent : (store.frame id).parent = some parent) :
    store.scopes id = id :: store.scopes parent := by
  rw [← h.scopesUpTo_eq (Nat.le_succ _), store.scopesUpTo_of_parent hparent]
  rfl

end Store

section Calls

variable {store after : Store} {caller caller' : FrameId} {id : ClosureId} {operands arguments : List Value}
variable {fuel : Nat}

/-- Operands leave a store in which the caller may go on. -/
theorem Store.Hosts.after_operands
    (h : store.Hosts caller)
    (hoperands : ∀ operand ∈ operands, store.Holds operand)
    {result : Except Halt (List Value)}
    (hresult : outcome (evalAll (eval fuel) caller operands) store = (result, after)) :
    after.Hosts caller ∧ store.Grows after := by
  have hafter := h.of_within (within_evalAll (eval_confined fuel) (Set.mem_singleton caller) hoperands)
  rwa [hresult] at hafter

/-- The frame in which a closure was made is there. -/
theorem Store.Hosts.captured_present
    (h : store.Hosts caller)
    (hclosure : store.Holds (.closure id)) :
    (store.closure id).frame.index < store.frames.size := by
  have hpresent : (Item.closure id).PresentIn store := hclosure _ rfl
  exact h.sound hpresent (.captured id)

/-- The frame of a call is spare while the operands are evaluated, and binds their values in the end. -/
theorem Store.Hosts.bindInTurn_alike
    (h : store.Hosts caller)
    (hclosure : store.Holds (.closure id))
    (hoperands : ∀ operand ∈ operands, store.Holds operand)
    (hcount : operands.length ≤ (store.closure id).parameters.length)
    (fuel : Nat) :
    let closure := store.closure id
    let without := outcome (evalAll (eval fuel) caller operands) store
    let ending := outcome (bindInTurn (eval fuel) caller ⟨store.frames.size⟩ (closure.parameters.zip operands))
      (store.newFrame ⟨some closure.frame, []⟩).2
    ending.1 = without.1.map (fun _ => ()) ∧
      without.2.HasSpare store.frames.size ending.2 ∧
      ∀ arguments, without.1 = .ok arguments →
        ending.2.frame ⟨store.frames.size⟩ = Frame.ofArguments closure.frame closure.parameters arguments := by
  intro closure without ending
  have hspare := HasSpare.of_newFrame h.sound (h.captured_present hclosure)
  have hbind := hspare.bindInTurn_alike h fuel hoperands hcount
  rw [Renaming.frame_leavingOut h.frame_lt] at hbind
  obtain ⟨hresult, hspareLater, hframe⟩ := hbind
  refine ⟨hresult, hspareLater, ?_⟩
  intro arguments harguments
  rw [hframe arguments harguments, frame_newFrame, if_pos rfl]
  rfl

section Counted

variable
  (h : store.Hosts caller)
  (hclosure : store.Holds (.closure id))
  (hoperands : ∀ operand ∈ operands, store.Holds operand)
  (hcount : operands.length = (store.closure id).parameters.length)
include h hclosure hoperands hcount

/-- When the operands of a call have values, the call is its body. -/
theorem Store.Hosts.exists_started
    (harguments : outcome (evalAll (eval fuel) caller operands) store = (.ok arguments, after)) :
    let closure := store.closure id
    ∃ started,
      outcome (bindInTurn (eval fuel) caller ⟨store.frames.size⟩ (closure.parameters.zip operands))
          (store.newFrame ⟨some closure.frame, []⟩).2 = (.ok (), started) ∧
        after.HasSpare store.frames.size started ∧
        started.frame ⟨store.frames.size⟩ = Frame.ofArguments closure.frame closure.parameters arguments ∧
        outcome (apply fuel (.closure id) operands caller) store =
          outcome (evalBody (eval fuel) ⟨store.frames.size⟩ .nil closure.body) started := by
  intro closure
  obtain ⟨hresult, hspare, hframe⟩ := h.bindInTurn_alike hclosure hoperands (Nat.le_of_eq hcount) fuel
  rcases hbound : outcome (bindInTurn (eval fuel) caller ⟨store.frames.size⟩ (closure.parameters.zip operands))
      (store.newFrame ⟨some closure.frame, []⟩).2 with ⟨result, started⟩
  rw [hbound, harguments] at hresult hspare
  rw [hbound] at hframe
  obtain rfl : result = .ok () := hresult
  refine ⟨started, rfl, hspare, hframe arguments (congrArg Prod.fst harguments), ?_⟩
  rw [apply, outcome_apply_closure, Closure.outcome_apply hcount, outcome_bind_ok hbound]

/-- A call halts where one of its operands does. The frame of the call stays behind, and nothing leads to it. -/
theorem Store.Hosts.outcome_apply_of_halt
    {halt : Halt}
    (hhalt : outcome (evalAll (eval fuel) caller operands) store = (.error halt, after)) :
    ∃ last, outcome (apply fuel (.closure id) operands caller) store = (.error halt, last) ∧
      after.HasSpare store.frames.size last := by
  obtain ⟨hresult, hspare, -⟩ := h.bindInTurn_alike hclosure hoperands (Nat.le_of_eq hcount) fuel
  rcases hbound : outcome (bindInTurn (eval fuel) caller ⟨store.frames.size⟩
      ((store.closure id).parameters.zip operands))
      (store.newFrame ⟨some (store.closure id).frame, []⟩).2 with ⟨result, last⟩
  rw [hbound, hhalt] at hresult hspare
  obtain rfl : result = .error halt := hresult
  refine ⟨last, ?_, hspare⟩
  rw [apply, outcome_apply_closure, Closure.outcome_apply hcount, outcome_bind, hbound]

end Counted

theorem outcome_apply_of_count
    (hcount : operands.length ≠ (store.closure id).parameters.length) :
    outcome (apply fuel (.closure id) operands caller) store =
      (.error (Fault.argumentCount (store.closure id).parameters.length operands.length).halt, store) := by
  rw [apply, outcome_apply_closure, Closure.outcome_apply_of_count hcount]

end Calls

section Callers

/-- With enough fuel, an evaluation ends with a result and leaves a store. -/
def Concludes {α : Type} (run : Nat → EvalM α) (store : Store) (result : Except Halt α) (last : Store) : Prop :=
  result ≠ .error .unfinished ∧ ∃ fuel, outcome (run fuel) store = (result, last)

variable {store last : Store} {caller caller' : FrameId} {operands : List Value}

/-- Operands that are evaluated are evaluated alike with more fuel. -/
theorem outcome_evalAll_of_le
    {fuel more : Nat}
    (h : fuel ≤ more)
    {result : Except Halt (List Value)}
    (hfinishes : result ≠ .error .unfinished)
    (hrun : outcome (evalAll (eval fuel) caller operands) store = (result, last)) :
    outcome (evalAll (eval more) caller operands) store = (result, last) := by
  rcases evalAll_agrees (eval_agrees_of_le h) operands store with hhalt | hsame
  · rw [hrun] at hhalt
    exact (hfinishes hhalt).elim
  · rw [← hsame, hrun]

/-- Operands that are evaluated are evaluated in one way only. -/
theorem concludes_evalAll_iff
    {result : Except Halt (List Value)}
    (h : Concludes (fun fuel => evalAll (eval fuel) caller operands) store result last)
    (other : Except Halt (List Value))
    (otherLast : Store) :
    Concludes (fun fuel => evalAll (eval fuel) caller operands) store other otherLast ↔
      other = result ∧ otherLast = last := by
  constructor
  · rintro ⟨hother, more, hmore⟩
    obtain ⟨hresult, fuel, hfuel⟩ := h
    have hone := outcome_evalAll_of_le (Nat.le_max_left fuel more) hresult hfuel
    have htwo := outcome_evalAll_of_le (Nat.le_max_right fuel more) hother hmore
    exact Prod.mk.inj (htwo.symm.trans hone)
  · rintro ⟨rfl, rfl⟩
    exact h

/-- What a call ends with for one caller it ends with for each caller for whom the operands come to the same. The
stores in the end are the same, too. Only if an operand fails, the frames that the calls have made may bind other
values, and nothing leads to these frames. -/
theorem Store.Hosts.concludes_apply
    {id : ClosureId}
    (h : store.Hosts caller)
    (h' : store.Hosts caller')
    (hclosure : store.Holds (.closure id))
    (hoperands : ∀ operand ∈ operands, store.Holds operand)
    (hsame : ∀ result middle,
      Concludes (fun fuel => evalAll (eval fuel) caller operands) store result middle →
      Concludes (fun fuel => evalAll (eval fuel) caller' operands) store result middle)
    {result : Except Halt Value}
    (hcall : Concludes (fun fuel => apply fuel (.closure id) operands caller) store result last) :
    ∃ last',
      Concludes (fun fuel => apply fuel (.closure id) operands caller') store result last' ∧
        (last' = last ∨
          ∃ halt middle,
            Concludes (fun fuel => evalAll (eval fuel) caller operands) store (.error halt) middle ∧
              middle.HasSpare store.frames.size last ∧
              middle.HasSpare store.frames.size last' ∧
              (last'.frame ⟨store.frames.size⟩ = last.frame ⟨store.frames.size⟩ → last' = last)) := by
  obtain ⟨hfinishes, fuel, hrun⟩ := hcall
  change outcome (apply fuel (.closure id) operands caller) store = _ at hrun
  by_cases hcount : operands.length = (store.closure id).parameters.length
  · rcases hevaluated : outcome (evalAll (eval fuel) caller operands) store with ⟨halt | arguments, middle⟩
    · obtain ⟨_, hhalts, hspare⟩ := h.outcome_apply_of_halt hclosure hoperands hcount hevaluated
      cases hrun.symm.trans hhalts
      have hhalt : (Except.error halt : Except Halt (List Value)) ≠ .error .unfinished := by
        intro hunfinished
        cases hunfinished
        exact hfinishes rfl
      have hconcludes : Concludes (fun fuel => evalAll (eval fuel) caller operands) store (.error halt) middle :=
        ⟨hhalt, fuel, hevaluated⟩
      obtain ⟨-, more, hmore⟩ := hsame (.error halt) middle hconcludes
      obtain ⟨last', hhalts', hspare'⟩ := h'.outcome_apply_of_halt hclosure hoperands hcount hmore
      exact ⟨last', ⟨hfinishes, more, hhalts'⟩,
        .inr ⟨halt, middle, hconcludes, hspare, hspare', hspare.eq_of_frame hspare'⟩⟩
    · obtain ⟨started, -, hspare, hframe, hbody⟩ := h.exists_started hclosure hoperands hcount hevaluated
      obtain ⟨hvalues, more, hmore⟩ := hsame (.ok arguments) middle ⟨nofun, fuel, hevaluated⟩
      -- The larger one of two fuels does for the operands and for the body.
      have hlonger := outcome_evalAll_of_le (Nat.le_max_right fuel more) hvalues hmore
      obtain ⟨started', -, hspare', hframe', hbody'⟩ := h'.exists_started hclosure hoperands hcount hlonger
      obtain rfl := hspare.eq_of_frame hspare' (hframe'.trans hframe.symm)
      refine ⟨last, ⟨hfinishes, max fuel more, hbody'.trans ?_⟩, .inl rfl⟩
      rw [hbody] at hrun
      rcases evalBody_agrees (eval_agrees_of_le (Nat.le_max_left fuel more)) .nil (store.closure id).body
        started' with hhalt | hagrees
      · rw [hrun] at hhalt
        exact (hfinishes hhalt).elim
      · exact hagrees.symm.trans hrun
  · rw [outcome_apply_of_count hcount] at hrun
    exact ⟨last, ⟨hfinishes, fuel, (outcome_apply_of_count hcount).trans hrun⟩, .inl rfl⟩

end Callers

/-- Evaluating a body is evaluating its expressions in order and keeping the last value. -/
theorem outcome_evalBody
    (ev : Evaluator)
    (frame : FrameId)
    (last : Value)
    (body : List Value)
    (store : Store) :
    outcome (evalBody ev frame last body) store =
      ((outcome (evalAll ev frame body) store).1.map fun values => values.getLastD last,
        (outcome (evalAll ev frame body) store).2) := by
  induction body generalizing last store with
  | nil => rfl
  | cons expression body ih =>
      rw [evalBody]
      rcases hfirst : outcome (ev expression frame) store with ⟨halt | value, middle⟩
      · rw [outcome_evalAll_of_halt hfirst, outcome_bind, hfirst]
        rfl
      · rw [outcome_evalAll_of_value hfirst, outcome_bind_ok hfirst, ih value middle]
        rcases outcome (evalAll ev frame body) middle with ⟨halt | values, after⟩
        · rfl
        · show (Except.ok (values.getLastD value), after) =
            (Except.ok ((value :: values).getLastD last), after)
          rw [List.getLastD_cons]

/-- The frame in which the body of a procedure starts, in the store that holds it: `older` is the store when the
call began and `after` the one that the operands leave. -/
structure Store.IsCallFrame
    (older after : Store)
    (closure : Closure)
    (arguments : List Value)
    (scope : FrameId)
    (started : Store) :
    Prop where
  /-- It is the first one that has been made since the call began. -/
  fresh : scope.index = older.frames.size
  present : scope.index < started.frames.size
  /-- Besides it there is what the operands leave, and nothing leads to it. -/
  rest : after.HasSpare scope.index started
  parent : (started.frame scope).parent = some closure.frame
  depth : started.depth scope = older.depth closure.frame + 1
  binds_iff : ∀ name, (started.frame scope).binds name = true ↔ name ∈ closure.parameters
  /-- A parameter is bound to the argument at its last place. -/
  last : ∀ (place : Nat) (name : String) (value : Value),
    closure.parameters[place]? = some name →
    arguments[place]? = some value →
    (∀ later : Nat, place < later → closure.parameters[later]? ≠ some name) →
    (started.frame scope).get? name = some value

section Bodies

variable {store after started : Store} {caller : FrameId} {id : ClosureId} {operands arguments : List Value}
variable {fuel : Nat}

/-- The body of a procedure that is called starts in the frame of the call. -/
theorem Store.Hosts.isCallFrame
    (h : store.Hosts caller)
    (hclosure : store.Holds (.closure id))
    (hoperands : ∀ operand ∈ operands, store.Holds operand)
    (hcount : operands.length = (store.closure id).parameters.length)
    (harguments : outcome (evalAll (eval fuel) caller operands) store = (.ok arguments, after)) :
    ∃ started,
      store.IsCallFrame after (store.closure id) arguments ⟨store.frames.size⟩ started ∧
        outcome (apply fuel (.closure id) operands caller) store =
          outcome (evalBody (eval fuel) ⟨store.frames.size⟩ .nil (store.closure id).body) started := by
  obtain ⟨started, hbound, hspare, hframe, hbody⟩ := h.exists_started hclosure hoperands hcount harguments
  have hcaptured := h.captured_present hclosure
  obtain ⟨w, hchanges, hstore, hpresent⟩ :=
    exists_changes_bindInTurn h.sound h.frame_lt fuel hcaptured hoperands hbound
  have hgrowsAt : store.GrowsAt started caller := hstore ▸ hchanges.growsAt h.forest
  have hparent : (started.frame ⟨store.frames.size⟩).parent = some (store.closure id).frame := by
    rw [hframe]
    exact Frame.parent_foldl_insert
  have hlength : arguments.length = (store.closure id).parameters.length := by
    rw [← hcount]
    exact length_of_evalAll harguments
  have hnames : ((store.closure id).parameters.zip arguments).map Prod.fst = (store.closure id).parameters :=
    List.map_fst_zip (by omega)
  refine ⟨started, ?_, hbody⟩
  constructor
  · rfl
  · exact hpresent
  · exact hspare
  · exact hparent
  · have hpos := started.length_scopesUpTo_pos started.frames.size (store.closure id).frame
    rw [← hgrowsAt.depth _ hcaptured, Store.depth_eq, Store.depth_eq,
      (hgrowsAt.lineEnds _).scopes_eq_cons hparent, List.length_cons]
    unfold Store.scopes
    omega
  · intro name
    rw [hframe]
    refine Frame.binds_foldl_insert.trans ?_
    rw [hnames]
    exact or_iff_left nofun
  · intro place name value hname hvalue hlast
    rw [hframe]
    refine Frame.get?_foldl_insert ?_ (hnames ▸ hlast)
    rw [List.getElem?_zip_eq_some]
    exact ⟨hname, hvalue⟩

end Bodies

end SmallLisp
