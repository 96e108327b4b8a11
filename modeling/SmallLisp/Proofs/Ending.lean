import SmallLisp.Proofs.Answering
import SmallLisp.Proofs.Locality

/-!
# Code without closures comes to an end

Where no closure is within reach, and no primitive that makes closures or overwrites pairs, the only code to
run are the parts of the expression. They stay as they are, and going through slots leads to smaller ones,
unless it leads in a circle. So an expression without a cycle is evaluated to an end, whatever its names are
bound to and however they are rebound on the way. Circular data do no harm, since no such data are run.

* `Settles` says of an evaluation that it ends and makes no closure; its rules follow the ways in which
  evaluations are put together;
* `World.Ready` is what has to hold where some expressions are evaluated;
* `Primitive.settles_apply` and `settles_evalStep` go from an evaluator to what is built over it, and
  `settles_eval` follows by induction on how deep an expression nests;
* `code_without_closures_ends` is the main result.
-/

namespace SmallLisp

/-- Whether there may be other code to run once a primitive has been applied: it makes a closure or
overwrites a pair. -/
def Primitive.changesCode : Primitive → Bool
  | strict .setCar => true
  | strict .setCdr => true
  | special .define => true
  | special .lambda => true
  | _ => false

/-- Code that stays what it is. -/
def withFixedCode (p : Primitive) : Bool :=
  !p.changesCode

/-- An evaluation that starts in a store comes to an end and makes no closure. -/
structure Settles {α : Type} (run : EvalM α) (store : Store) : Prop where
  finishes : (outcome run store).1 ≠ .error .unfinished
  closures : (outcome run store).2.closures.size = store.closures.size

namespace Settles

variable {α β : Type} {store : Store}

theorem pure (value : α) : Settles (Pure.pure value) store :=
  ⟨nofun, rfl⟩

theorem fail (fault : Fault) : Settles (SmallLisp.fail fault : EvalM α) store :=
  ⟨nofun, rfl⟩

theorem bind
    {run : EvalM β}
    {next : β → EvalM α}
    (hrun : Settles run store)
    (hnext : ∀ value after, outcome run store = (.ok value, after) → Settles (next value) after) :
    Settles (run >>= next) store := by
  have hclosures := hrun.closures
  have hfinishes := hrun.finishes
  constructor <;> rw [outcome_bind]
  · rcases h : outcome run store with ⟨halt | value, after⟩ <;> rw [h] at hfinishes
    · exact fun hhalt => hfinishes (congrArg Except.error (Except.error.inj hhalt))
    · exact (hnext value after h).finishes
  · rcases h : outcome run store with ⟨halt | value, after⟩ <;> rw [h] at hclosures
    · exact hclosures
    · exact (hnext value after h).closures.trans hclosures

/-- An evaluation that looks at the store. -/
theorem get
    {next : Store → EvalM α}
    (h : Settles (next store) store) :
    Settles (MonadState.get >>= next) store :=
  .bind ⟨nofun, rfl⟩ fun _ _ hrun => by
    cases hrun
    exact h

/-- A result that needs no store. -/
theorem lift
    {result : Except Halt β}
    {next : β → EvalM α}
    (hresult : result ≠ .error .unfinished)
    (hnext : ∀ value, Settles (next value) store) :
    Settles (liftM result >>= next) store :=
  .bind ⟨hresult, rfl⟩ fun value _ hrun => by
    cases (Prod.mk.inj hrun).2
    exact hnext value

theorem modifyGet
    {make : Store → α × Store}
    (h : (make store).2.closures.size = store.closures.size) :
    Settles (MonadStateOf.modifyGet make) store :=
  ⟨nofun, h⟩

theorem getOperand
    (operands : List Value)
    (number : Nat) :
    Settles (SmallLisp.operand operands number) store := by
  constructor <;> rw [outcome_operand]
  cases operands[number]? <;> nofun

/-- An evaluation that starts from one of some operands. -/
theorem operand
    {operands : List Value}
    {number : Nat}
    {next : Value → EvalM α}
    (hnext : ∀ value ∈ operands, Settles (next value) store) :
    Settles (SmallLisp.operand operands number >>= next) store := by
  refine .bind (.getOperand operands number) fun value after hrun => ?_
  rw [outcome_operand] at hrun
  cases h : operands[number]? with
  | none =>
      rw [h] at hrun
      cases hrun
  | some found =>
      rw [h] at hrun
      cases hrun
      exact hnext value (List.mem_of_getElem? h)

/-- An evaluation that starts from the elements of a chain that has an end. -/
theorem elements
    {chain : Value}
    {values : List Value}
    {next : List Value → EvalM α}
    (hchain : store.elements? chain = some values)
    (hnext : Settles (next values) store) :
    Settles (SmallLisp.elements chain >>= next) store := by
  have hrun : outcome (SmallLisp.elements chain) store = (.ok values, store) := by
    rw [outcome_elements, hchain, Option.elim_some]
  have hsettles : Settles (SmallLisp.elements chain) store := by
    constructor <;> rw [hrun]
    nofun
  refine .bind hsettles fun value after hafter => ?_
  cases hrun.symm.trans hafter
  exact hnext

end Settles

/-- Making a chain makes no closure. -/
theorem Store.closures_newChain
    (store : Store)
    (values : List Value)
    (tail : Value) :
    (store.newChain values tail).2.closures.size = store.closures.size := by
  induction values with
  | nil => rfl
  | cons first values ih => exact ih

/-- An assignment makes no closure. -/
theorem Store.closures_assign
    (store : Store)
    (frame : FrameId)
    (name : String)
    (value : Value) :
    (store.assign frame name value).2.closures.size = store.closures.size := by
  rw [assign_eq]
  split <;> rfl

section Strict

variable {store : Store} {operation : String}

theorem toNumber_ne_unfinished (value : Value) :
    toNumber operation value ≠ .error .unfinished := by
  cases value <;> nofun

theorem toNumbers_ne_unfinished (values : List Value) :
    toNumbers operation values ≠ .error .unfinished := by
  intro h
  rcases mapM_cases (toNumber operation) values with
    ⟨results, hresults, -⟩ | ⟨value, -, e, hfail, hresults⟩
  · cases hresults.symm.trans h
  · cases hresults.symm.trans h
    exact toNumber_ne_unfinished value hfail

theorem toPair_ne_unfinished (value : Value) :
    toPair operation value ≠ .error .unfinished := by
  cases value <;> nofun

theorem toPlace_ne_unfinished (index : Value) :
    toPlace operation index ≠ .error .unfinished := by
  intro h
  cases index with
  | int number =>
      change (if number < 0 then _ else _) = _ at h
      split at h <;> cases h
  | _ => cases h

theorem Arithmetic.result_ne_unfinished
    (operation : Arithmetic)
    (numbers : List Int64) :
    operation.result numbers ≠ .error .unfinished := by
  intro h
  rcases operation.result_cases numbers with ⟨-, hstuck⟩ | ⟨-, -, hfail⟩ | ⟨-, result, hresult⟩
  · cases h.symm.trans hstuck
  · cases h.symm.trans hfail
  · cases h.symm.trans hresult

theorem settles_tailAt (chain : Value) (place : Int64) :
    Settles (tailAt operation chain place) store := by
  refine .get ?_
  split
  · exact .pure _
  · exact .fail _

theorem settles_elementAt (chain : Value) (place : Int64) :
    Settles (elementAt operation chain place) store := by
  refine .bind (settles_tailAt chain place) fun tail after _ => .get ?_
  split
  · exact .pure _
  · split
    · exact .pure _
    · exact .fail _

/-- The pair that the first argument is. -/
theorem Settles.pairOperand
    {α : Type}
    {arguments : List Value}
    {next : PairId → EvalM α}
    (hnext : ∀ id, Settles (next id) store) :
    Settles (do next (← toPair operation (← SmallLisp.operand arguments 0))) store :=
  .operand fun value _ => .lift (toPair_ne_unfinished value) hnext

/-- The chain that the first argument is, and the place in it that the second one means. -/
theorem Settles.placeOperands
    {α : Type}
    {arguments : List Value}
    {next : Value → Int64 → EvalM α}
    (hnext : ∀ chain place, Settles (next chain place) store) :
    Settles (do
      let chain ← SmallLisp.operand arguments 0
      let _ ← toPair operation chain
      let place ← toPlace operation (← SmallLisp.operand arguments 1)
      next chain place) store := by
  refine .operand fun chain _ => .lift (toPair_ne_unfinished chain) fun _ => ?_
  exact .operand fun index _ => .lift (toPlace_ne_unfinished index) (hnext chain)

theorem Strict.settles_apply
    (procedure : Strict)
    (arguments : List Value) :
    Settles (procedure.apply arguments) store := by
  cases procedure with
  | arithmetic operation =>
      refine .lift (toNumbers_ne_unfinished arguments) fun numbers => ?_
      exact .lift (operation.result_ne_unfinished numbers) fun result => .pure _
  | isA kind => exact .operand fun value _ => .get (.pure _)
  | car => exact .pairOperand fun id => .get (.pure _)
  | cdr => exact .pairOperand fun id => .get (.pure _)
  | cons => exact .operand fun first _ => .operand fun second _ => .modifyGet rfl
  | listRef => exact .placeOperands settles_elementAt
  | listTail => exact .placeOperands settles_tailAt
  | setCar =>
      refine .pairOperand fun id => .operand fun value _ => ?_
      exact .bind (.modifyGet rfl) fun _ _ _ => .pure _
  | setCdr =>
      refine .pairOperand fun id => .operand fun value _ => ?_
      exact .bind (.modifyGet rfl) fun _ _ _ => .pure _

end Strict

section Worlds

variable {w w' : World withFixedCode}

/-- Code that stays what it is leaves alone the pairs that are there. -/
theorem Change.pair_eq_of_withFixedCode
    (h : Change w w')
    {id : PairId}
    (hid : id.index < w.store.pairs.size) :
    w'.store.pair id = w.store.pair id := by
  cases h with
  | newPair => exact (Store.pair_newPair _ _ _ id).trans (if_neg (Nat.ne_of_lt hid))
  | setFirst hsetter => cases w.primitive_given hsetter
  | setSecond hsetter => cases w.primitive_given hsetter
  | _ => rfl

theorem Changes.pair_eq_of_withFixedCode
    (h : Changes w w')
    {id : PairId}
    (hid : id.index < w.store.pairs.size) :
    w'.store.pair id = w.store.pair id := by
  induction h with
  | refl => rfl
  | tail hfirst hlast ih =>
      rw [← ih]
      exact hlast.pair_eq_of_withFixedCode (Nat.lt_of_lt_of_le hid (Changes.grows hfirst).pairs)

/-- A value nests no deeper after changes by code that has got hold of it. -/
theorem Store.NestsWithin.changes
    {bound : Nat}
    {value : Value}
    (h : w.store.NestsWithin bound value)
    (hchanges : Changes w w')
    (hw : w.Present)
    (hvalue : w.Has value) :
    w'.store.NestsWithin bound value := by
  induction h with
  | atom hatom => exact .atom hatom
  | @pair bound id _ _ ihFirst ihSecond =>
      have hid := World.pair_mem hvalue
      have hsame := hchanges.pair_eq_of_withFixedCode (hw _ hid)
      refine .pair ?_ ?_ <;> rw [hsame]
      · exact ihFirst (World.has_first hid)
      · exact ihSecond (World.has_second hid)

/-- The elements of a chain nest no deeper than the chain, and a chain that nests has an end. -/
theorem Store.NestsWithin.chainUpTo
    {store : Store}
    {bound : Nat}
    {value : Value}
    (h : store.NestsWithin bound value) :
    ∃ chain,
      store.chainUpTo bound value = some chain ∧
      (∀ element ∈ chain.1, store.NestsWithin bound element) ∧
      store.NestsWithin bound chain.2 := by
  induction h with
  | atom hatom => exact ⟨_, store.chainUpTo_atom _ hatom, List.forall_mem_nil _, .atom hatom⟩
  | pair hfirst _ _ ihSecond =>
      obtain ⟨⟨elements, last⟩, hchain, helements, hlast⟩ := ihSecond
      refine ⟨_, Option.map_eq_some_iff.mpr ⟨_, hchain, rfl⟩, ?_, hlast.succ⟩
      exact List.forall_mem_cons.mpr ⟨hfirst.succ, fun element h => (helements element h).succ⟩

/-- A value that nests as deep as some bound, seen as a chain, has operands that nest no deeper. -/
theorem Store.NestsWithin.elements?
    {store : Store}
    {bound : Nat}
    {value : Value}
    (h : store.NestsWithin bound value) :
    ∃ operands,
      store.elements? value = some operands ∧
      ∀ operand ∈ operands, store.NestsWithin bound operand := by
  obtain ⟨⟨front, last⟩, hchain, hfront, hlast⟩ := h.chainUpTo
  have hlong := store.chainUpTo_mono (Nat.le_max_left bound (store.pairs.size + 1)) hchain
  rw [store.chainUpTo_eq (Nat.le_max_right _ _)] at hlong
  refine ⟨_, Option.map_eq_some_iff.mpr ⟨_, hlong, rfl⟩, ?_⟩
  intro operand hoperand
  cases last with
  | nil => exact hfront operand hoperand
  | _ =>
      rcases List.mem_append.mp hoperand with hmember | hend
      · exact hfront operand hmember
      · exact List.mem_singleton.mp hend ▸ hlast

/-- A world in which expressions can be evaluated in a frame: no closure is within reach, and the expressions
nest no deeper than `bound`. -/
structure World.Ready
    (w : World withFixedCode)
    (frame : FrameId)
    (bound : Nat)
    (expressions : List Value) :
    Prop where
  present : w.Present
  closureless : ∀ id, .closure id ∉ w.items
  home : frame ∈ w.homes
  has : w.HasAll expressions
  nests : ∀ expression ∈ expressions, w.store.NestsWithin bound expression

/-- The world stays ready as long as no closure is made. -/
theorem World.Ready.later
    {frame : FrameId}
    {bound : Nat}
    {expressions : List Value}
    (h : w.Ready frame bound expressions)
    (hchanges : Changes w w')
    (hclosures : w'.store.closures.size = w.store.closures.size) :
    w'.Ready frame bound expressions where
  present := hchanges.present h.present
  closureless id hid := by
    rcases hchanges.made hid with hold | ⟨hle, hlt⟩
    · exact h.closureless id hold
    · exact Nat.not_lt_of_le (hclosures ▸ hle) hlt
  home := hchanges.homes_subset h.home
  has := hchanges.hasAll h.has
  nests expression hmem := (h.nests expression hmem).changes hchanges h.present (h.has expression hmem)

/-- A world that is ready for a chain is ready for its elements. -/
theorem World.Ready.elements
    {frame : FrameId}
    {bound : Nat}
    {expressions : List Value}
    (h : w.Ready frame bound expressions)
    {chain : Value}
    (hmem : chain ∈ expressions) :
    ∃ operands, w.store.elements? chain = some operands ∧ w.Ready frame bound operands := by
  obtain ⟨operands, hoperands, hnests⟩ := (h.nests chain hmem).elements?
  exact ⟨operands, hoperands,
    { present := h.present
      closureless := h.closureless
      home := h.home
      has := World.hasAll_of_elements? (h.has chain hmem) hoperands
      nests := hnests }⟩

/-- A world that is ready for a pair is ready for its slots, which nest one level less. -/
theorem World.Ready.slots
    {frame : FrameId}
    {bound : Nat}
    {expressions : List Value}
    (h : w.Ready frame (bound + 1) expressions)
    {id : PairId}
    (hmem : .pair id ∈ expressions) :
    w.Ready frame bound [(w.store.pair id).first, (w.store.pair id).second] := by
  have hid := World.pair_mem (h.has _ hmem)
  cases h.nests _ hmem with
  | atom hatom => cases hatom
  | pair hfirst hsecond =>
      exact
        { present := h.present
          closureless := h.closureless
          home := h.home
          has := World.hasAll_cons.mpr ⟨World.has_first hid,
            World.hasAll_cons.mpr ⟨World.has_second hid, World.hasAll_nil⟩⟩
          nests := by simp [hfirst, hsecond] }

end Worlds

theorem settles_evalStep_atom
    {ev : Evaluator}
    {frame : FrameId}
    {store : Store}
    {expression : Value}
    (hatom : expression.isPair = false) :
    Settles (evalStep ev expression frame) store := by
  cases expression with
  | pair id => cases hatom
  | sym name =>
      refine .get ?_
      split
      · exact .pure _
      · exact .fail _
  | int number => exact .pure _
  | bool truth => exact .pure _
  | _ => exact .fail _

/-- Evaluation with `ev` settles for expressions that nest no deeper than `bound`. -/
def Evaluator.SettlesWithin (frame : FrameId) (bound : Nat) (ev : Evaluator) : Prop :=
  ∀ {w : World withFixedCode} {expressions : List Value},
    w.Ready frame bound expressions →
    ∀ expression ∈ expressions, Settles (ev expression frame) w.store

section Evaluators

variable
  {w : World withFixedCode}
  {ev : Evaluator}
  {frame : FrameId}
  {bound : Nat}
  {expressions : List Value}
  (hconfined : Confined withFixedCode ev)
  (hev : ev.SettlesWithin frame bound)
include hconfined hev

/-- After one of the expressions has been evaluated the world is ready for all of them again. -/
theorem Settles.evalBind
    {α : Type}
    {next : Value → EvalM α}
    (hready : w.Ready frame bound expressions)
    {expression : Value}
    (hmem : expression ∈ expressions)
    (hnext : ∀ w' : World withFixedCode, ∀ value,
      w'.Ready frame bound expressions → w'.Has value → Settles (next value) w'.store) :
    Settles (ev expression frame >>= next) w.store := by
  have hrun := hev hready expression hmem
  refine hrun.bind fun value after hafter => ?_
  obtain ⟨w', hchanges, hstore, hend⟩ := hconfined (hready.has expression hmem) hready.home
  have hclosures := hrun.closures
  rw [hafter] at hstore hend hclosures
  obtain rfl : after = w'.store := hstore
  exact hnext w' value (hready.later hchanges hclosures) hend

theorem settles_evalAll
    (hready : w.Ready frame bound expressions)
    {operands : List Value}
    (hoperands : operands ⊆ expressions) :
    Settles (evalAll ev frame operands) w.store := by
  induction operands generalizing w with
  | nil => exact .pure _
  | cons operand operands ih =>
      obtain ⟨hmem, hrest⟩ := List.cons_subset.mp hoperands
      refine .evalBind hconfined hev hready hmem fun w' value hready' _ => ?_
      exact .bind (ih hready' hrest) fun values after _ => .pure _

theorem Comparison.settles_apply
    (relation : Comparison)
    (hready : w.Ready frame bound expressions)
    {operands : List Value}
    (hoperands : operands ⊆ expressions)
    (previous : Option Int64) :
    Settles (relation.apply ev frame previous operands) w.store := by
  induction operands generalizing w previous with
  | nil => exact .pure _
  | cons operand operands ih =>
      obtain ⟨hmem, hrest⟩ := List.cons_subset.mp hoperands
      refine .evalBind hconfined hev hready hmem fun w' value hready' _ => ?_
      refine .lift (toNumber_ne_unfinished value) fun number => ?_
      cases previous with
      | none => exact ih hready' hrest _
      | some before =>
          dsimp only
          split
          · exact ih hready' hrest _
          · exact .pure _

theorem Connective.settles_apply
    (junction : Connective)
    (hready : w.Ready frame bound expressions)
    {operands : List Value}
    (hoperands : operands ⊆ expressions)
    (last : Value) :
    Settles (junction.apply ev frame last operands) w.store := by
  induction operands generalizing w last with
  | nil => exact .pure _
  | cons operand operands ih =>
      obtain ⟨hmem, hrest⟩ := List.cons_subset.mp hoperands
      refine .evalBind hconfined hev hready hmem fun w' value hready' _ => ?_
      split
      · exact .pure _
      · exact ih hready' hrest _

theorem settles_evalBranch
    (hready : w.Ready frame bound expressions) :
    Settles (evalBranch ev expressions frame) w.store := by
  refine .operand fun test htest => .evalBind hconfined hev hready htest fun w' decision hready' _ => ?_
  split
  · exact .operand fun branch hbranch => hev hready' branch hbranch
  · split
    · rename_i alternative halternative
      exact hev hready' alternative (List.mem_of_getElem? halternative)
    · exact .pure _
  · exact .fail _

theorem settles_evalAssign
    (hready : w.Ready frame bound expressions) :
    Settles (evalAssign ev expressions frame) w.store := by
  refine .operand fun target _ => ?_
  cases target with
  | sym name =>
      refine .operand fun expression hmem => ?_
      refine .evalBind hconfined hev hready hmem fun w' value _ _ => ?_
      refine .bind (.modifyGet (w'.store.closures_assign frame name value)) fun found after _ => ?_
      split
      · exact .pure _
      · exact .fail _
  | _ => exact .fail _

theorem Primitive.settles_apply
    {primitive : Primitive}
    (hfixed : withFixedCode primitive = true)
    (hready : w.Ready frame bound expressions) :
    Settles (primitive.apply ev expressions frame) w.store := by
  unfold Primitive.apply
  split
  · cases primitive with
    | strict procedure =>
        refine .bind (settles_evalAll hconfined hev hready (List.Subset.refl _)) ?_
        exact fun arguments after _ => procedure.settles_apply arguments
    | comparison relation =>
        exact relation.settles_apply hconfined hev hready (List.Subset.refl _) none
    | connective junction =>
        exact junction.settles_apply hconfined hev hready (List.Subset.refl _) junction.neutral
    | negation => exact .operand fun value _ => .pure _
    | quote => exact .getOperand expressions 0
    | list => exact .modifyGet (w.store.closures_newChain expressions .nil)
    | special form =>
        cases form with
        | branch => exact settles_evalBranch hconfined hev hready
        | assign => exact settles_evalAssign hconfined hev hready
        | define => cases hfixed
        | lambda => cases hfixed
  · exact .fail _

theorem settles_applyValue
    {procedure : Value}
    (hprocedure : w.Has procedure)
    (hready : w.Ready frame bound expressions) :
    Settles (applyValue ev procedure expressions frame) w.store := by
  cases procedure with
  | primitive primitive =>
      exact primitive.settles_apply hconfined hev (w.primitive_given (hprocedure _ rfl)) hready
  | closure id => exact (hready.closureless id (hprocedure _ rfl)).elim
  | _ => exact .fail _

/-- One level of evaluation settles for expressions that nest one level deeper. -/
theorem settles_evalStep : Evaluator.SettlesWithin frame (bound + 1) (evalStep ev) := by
  intro w expressions hready expression hmem
  cases expression with
  | pair id =>
      refine .get (.evalBind hconfined hev (hready.slots hmem) List.mem_cons_self ?_)
      intro w' procedure hready' hprocedure
      obtain ⟨operands, hoperands, hreadyOperands⟩ :=
        hready'.elements (List.mem_cons_of_mem _ List.mem_cons_self)
      exact .elements hoperands (settles_applyValue hconfined hev hprocedure hreadyOperands)
  | _ => exact settles_evalStep_atom rfl

end Evaluators

/-- Evaluation settles with one level of fuel more than the expressions nest. -/
theorem settles_eval
    (frame : FrameId)
    (bound : Nat) :
    Evaluator.SettlesWithin frame bound (eval (bound + 1)) := by
  induction bound with
  | zero =>
      intro w expressions hready expression hmem
      cases hready.nests expression hmem with
      | atom hatom => exact settles_evalStep_atom hatom
  | succ bound ih => exact settles_evalStep (eval_confined (bound + 1)) ih

/-- Evaluating an expression without a cycle comes to an end, with a value or with an error, if neither a
closure nor a primitive that makes closures or overwrites pairs is within reach of it and of the frame. Calls
nest no deeper than pairs in the expression, so two levels more than there are pairs are enough. Searching
outward from the frame comes to an end before and after, and passes the same frames. -/
theorem code_without_closures_ends
    {store : Store}
    {expression : Value}
    {frame : FrameId}
    (hsound : store.Sound)
    (hexpression : store.Holds expression)
    (hframe : frame.index < store.frames.size)
    (hacyclic : store.Acyclic expression)
    (hline : store.LineEnds frame)
    (hclosures : ∀ id, ¬store.ReachedFrom expression frame (.closure id))
    (hprimitives : ∀ p, p.changesCode = true → ¬store.ReachedFrom expression frame (.primitive p)) :
    ∃ result after,
      (∀ fuel, store.pairs.size + 2 ≤ fuel →
        outcome (eval fuel expression frame) store = (result, after)) ∧
      ((∃ value, result = .ok value) ∨ ∃ e, result = .error (.error e)) ∧
      after.LineEnds frame ∧
      after.scopes frame = store.scopes frame := by
  have hgiven : ∀ p, store.ReachedFrom expression frame (.primitive p) → withFixedCode p = true := by
    intro p hreached
    cases hp : p.changesCode with
    | true => exact (hprimitives p hp hreached).elim
    | false => simp [withFixedCode, hp]
  let w : World withFixedCode := .reached store expression frame hgiven
  have hpresent : w.Present := World.reached_present hsound hexpression hframe hgiven
  have hhas : w.Has expression := fun item hitem => .inl ⟨item, hitem, .refl⟩
  have hready : w.Ready frame (store.pairs.size + 1) [expression] :=
    { present := hpresent
      closureless := hclosures
      home := Set.mem_singleton frame
      has := World.hasAll_cons.mpr ⟨hhas, World.hasAll_nil⟩
      nests := List.forall_mem_singleton.mpr hacyclic.nestsWithin }
  have hfinishes := (settles_eval frame _ hready expression List.mem_cons_self).finishes
  obtain ⟨w', hchanges, hstore, hend⟩ := eval_confined (store.pairs.size + 2) hhas (Set.mem_singleton frame)
  have hsame : ∀ fuel, store.pairs.size + 2 ≤ fuel → _ := fun fuel hfuel =>
    ((eval_agrees_of_le hfuel expression frame store).resolve_left hfinishes).symm
  rw [show w.store = store from rfl] at hfinishes hstore hend
  rcases hrun : outcome (eval (store.pairs.size + 2) expression frame) store with ⟨result, after⟩
  rw [hrun] at hfinishes hstore hend
  obtain rfl : after = w'.store := hstore
  refine ⟨result, w'.store, fun fuel hfuel => (hsame fuel hfuel).trans hrun, ?_, ?_, ?_⟩
  · cases result with
    | ok value => exact .inl ⟨value, rfl⟩
    | error halt =>
        cases halt with
        | error e => exact .inr ⟨e, rfl⟩
        | stuck => exact hend.elim
        | unfinished => exact (hfinishes rfl).elim
  · exact hchanges.lineEnds hpresent (w.homes_held rfl) hline
  · exact hchanges.scopes_eq hpresent (w.homes_held rfl) hline

/-- The expression `(and (set! f list-tail) (f c 3))` and a frame in which `f` is bound to the primitive that
tests for lists and `c` to a pair that is its own second slot. -/
def rebindingStore : Store where
  pairs := #[
    ⟨.int 1, .pair ⟨0⟩⟩,
    ⟨.sym "and", .pair ⟨2⟩⟩, ⟨.pair ⟨4⟩, .pair ⟨3⟩⟩, ⟨.pair ⟨7⟩, .nil⟩,
    ⟨.sym "set!", .pair ⟨5⟩⟩, ⟨.sym "f", .pair ⟨6⟩⟩, ⟨.sym "list-tail", .nil⟩,
    ⟨.sym "f", .pair ⟨8⟩⟩, ⟨.sym "c", .pair ⟨9⟩⟩, ⟨.int 3, .nil⟩]
  closures := #[]
  frames := #[⟨none, [
    ("and", .primitive (.connective .conjunction)), ("set!", .primitive (.special .assign)),
    ("list-tail", .primitive (.strict .listTail)), ("f", .primitive (.strict (.isA .list))),
    ("c", .pair ⟨0⟩)]⟩]

/-- What occurs in the store: its pairs and its frame, and primitives that leave code as it is. -/
def occursInRebinding : Item → Bool
  | .pair id => id.index < 10
  | .closure _ => false
  | .frame id => id.index < 1
  | .primitive p => withFixedCode p
  | .symbol _ => true

theorem occursInRebinding_of_link
    {item next : Item}
    (h : rebindingStore.Link item next) :
    occursInRebinding next = true := by
  cases h with
  | @first id _ h =>
      match id with
      | ⟨1⟩ | ⟨2⟩ | ⟨3⟩ | ⟨4⟩ | ⟨5⟩ | ⟨6⟩ | ⟨7⟩ | ⟨8⟩ =>
          cases h
          rfl
      | ⟨0⟩ | ⟨9⟩ | ⟨_ + 10⟩ => cases h
  | @second id _ h =>
      match id with
      | ⟨0⟩ | ⟨1⟩ | ⟨2⟩ | ⟨4⟩ | ⟨5⟩ | ⟨7⟩ | ⟨8⟩ =>
          cases h
          rfl
      | ⟨3⟩ | ⟨6⟩ | ⟨9⟩ | ⟨_ + 10⟩ => cases h
  | body hbody _ => cases hbody
  | captured => rfl
  | @parent id _ h =>
      match id with
      | ⟨0⟩ | ⟨_ + 1⟩ => cases h
  | @bound id name value _ hbound h =>
      match id with
      | ⟨0⟩ =>
          have hmember := Frame.mem_bindings_of_get? hbound
          change _ ∈ [_, _, _, _, _] at hmember
          simp only [List.mem_cons, List.not_mem_nil, or_false, Prod.mk.injEq] at hmember
          rcases hmember with ⟨-, rfl⟩ | ⟨-, rfl⟩ | ⟨-, rfl⟩ | ⟨-, rfl⟩ | ⟨-, rfl⟩ <;> cases h <;> rfl
      | ⟨_ + 1⟩ => cases hbound

theorem occursInRebinding_of_reached
    {item : Item}
    (h : rebindingStore.ReachedFrom (.pair ⟨1⟩) ⟨0⟩ item) :
    occursInRebinding item = true := by
  rcases h with ⟨first, hfirst, h⟩ | h
  · rcases Relation.ReflTransGen.cases_tail h with rfl | ⟨other, -, hlink⟩
    · cases hfirst
      rfl
    · exact occursInRebinding_of_link hlink
  · rcases Relation.ReflTransGen.cases_tail h with rfl | ⟨other, -, hlink⟩
    · rfl
    · exact occursInRebinding_of_link hlink

theorem rebindingStore_sound : rebindingStore.Sound := by
  intro item next _ hlink
  have hoccurs := occursInRebinding_of_link hlink
  cases next with
  | pair id => exact of_decide_eq_true (p := id.index < 10) hoccurs
  | closure id => cases hoccurs
  | frame id => exact of_decide_eq_true (p := id.index < 1) hoccurs
  | _ => trivial

/-- The expression itself has no cycle. -/
theorem rebindingStore_acyclic : rebindingStore.Acyclic (.pair ⟨1⟩) := by
  have hdenotes : rebindingStore.Denotes (.pair ⟨1⟩)
      (.list [.sym "and", .list [.sym "set!", .sym "f", .sym "list-tail"],
        .list [.sym "f", .sym "c", .int 3]]) :=
    Store.denotes_iff_datum.mpr (by decide)
  exact hdenotes.acyclic

/-- The expression comes to an end although `f` is rebound on the way and `c` is circular. -/
theorem code_without_closures_ends_at_a_rebinding :
    rebindingStore.Acyclic (.pair ⟨1⟩) ∧
      ¬rebindingStore.Acyclic (.pair ⟨0⟩) ∧
      ∃ after : Store,
        (∀ fuel, 12 ≤ fuel →
          outcome (eval fuel (.pair ⟨1⟩) ⟨0⟩) rebindingStore = (.ok (.pair ⟨0⟩), after)) ∧
        (after.frame ⟨0⟩).get? "f" = some (.primitive (.strict .listTail)) := by
  have hholds : rebindingStore.Holds (.pair ⟨1⟩) := by
    rintro _ ⟨⟩
    show 1 < 10
    decide
  have hcircle : rebindingStore.Slot (.pair ⟨0⟩) (.pair ⟨0⟩) := .second ⟨0⟩
  obtain ⟨result, after, hends, -⟩ := code_without_closures_ends rebindingStore_sound hholds
    (show 0 < 1 by decide) rebindingStore_acyclic ⟨⟨0⟩, by decide, rfl⟩
    (fun id h => by cases occursInRebinding_of_reached h)
    (fun p hp h => by
      have hfixed : withFixedCode p = true := occursInRebinding_of_reached h
      simp [withFixedCode, hp] at hfixed)
  have hresult : outcome (eval 12 (.pair ⟨1⟩) ⟨0⟩) rebindingStore = (result, after) := hends 12 (by decide)
  have hvalue : result = .ok (.pair ⟨0⟩) := (congrArg Prod.fst hresult).symm.trans (by decide)
  refine ⟨rebindingStore_acyclic, fun h => h _ .refl (.single hcircle), after, ?_, ?_⟩
  · exact hvalue ▸ hends
  · have hafter : (outcome (eval 12 (.pair ⟨1⟩) ⟨0⟩) rebindingStore).2 = after := congrArg Prod.snd hresult
    rw [← hafter]
    decide

end SmallLisp
