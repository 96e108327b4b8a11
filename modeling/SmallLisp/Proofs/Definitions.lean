import SmallLisp.Proofs.Resolution
import SmallLisp.Proofs.Signatures

/-!
# Two ways of defining a procedure

A procedure is defined by a signature with its name and its parameters, or by a procedure expression as the value
of a variable. The one tests and flattens the signature as a whole, the other does this with the parameters alone,
in an evaluation of its own. They agree for every value that stands where the parameters are expected.

* `Store.SymbolList` says which values are lists of symbols;
* `Store.DefinesEitherWay` says what the two forms are that are compared;
* `outcome_of_isCall`: a form that starts with the name of a primitive is an application of it;
* `definitions_of_a_procedure_agree` is the main result.
-/

namespace SmallLisp

variable {store : Store} {frame : FrameId} {name keyword : String} {names : List String}
variable {parameters expression short long : Value} {body operands : List Value}

namespace Store

/-- A value is a list of symbols. It has an end, and no element of it is anything else. -/
inductive SymbolList (store : Store) : Value → List String → Prop
  | nil :
      SymbolList store .nil []
  | cons
      {id : PairId}
      {name : String}
      {names : List String}
      (hfirst : (store.pair id).first = .sym name)
      (hrest : SymbolList store (store.pair id).second names) :
      SymbolList store (.pair id) (name :: names)

/-- A form that starts with a symbol, followed by the operands as written. -/
def IsCall (store : Store) (form : Value) (keyword : String) (operands : List Value) : Prop :=
  ∃ id, form = .pair id ∧
    (store.pair id).first = .sym keyword ∧
    store.elements? (store.pair id).second = some operands

/-- The two forms that define a procedure: the short one is `(define (name . parameters) body ..)`, the long one
is `(define name (lambda parameters body ..))`. -/
structure DefinesEitherWay
    (store : Store)
    (short long : Value)
    (name : String)
    (parameters : Value)
    (body : List Value) : Prop where
  short : ∃ signature,
    store.pair signature = ⟨.sym name, parameters⟩ ∧ store.IsCall short "define" (.pair signature :: body)
  long : ∃ expression,
    store.IsCall expression "lambda" (parameters :: body) ∧ store.IsCall long "define" [.sym name, expression]

/-- The chain from a pair on is its first slot and the chain in its second slot. -/
theorem chain?_pair (store : Store) (id : PairId) :
    store.chain? (.pair id) =
      (store.chain? (store.pair id).second).map fun chain => ((store.pair id).first :: chain.1, chain.2) := by
  rw [← store.chainUpTo_eq (Nat.le_succ (store.pairs.size + 1)), chain?]
  rfl

/-- Of the values that are no pairs, only the empty list lists names, namely none. -/
theorem listsNames_atom_iff
    {value : Value}
    (hatom : value.isPair = false) :
    store.ListsNames value names ↔ value = .nil ∧ names = [] := by
  have hchain : store.chain? value = some ([], value) := store.chainUpTo_atom _ hatom
  rw [ListsNames, hchain]
  cases names <;> simp

/-- A signature lists its name and then what the rest of it lists. -/
theorem listsNames_pair_iff {id : PairId} :
    store.ListsNames (.pair id) names ↔
      ∃ name rest, names = name :: rest ∧ (store.pair id).first = .sym name ∧
        store.ListsNames (store.pair id).second rest := by
  rw [ListsNames, chain?_pair, Option.map_eq_some_iff]
  constructor
  · rintro ⟨⟨elements, last⟩, hchain, hpair⟩
    obtain ⟨helements, rfl⟩ := Prod.mk.inj hpair
    cases names with
    | nil => cases helements
    | cons name rest =>
        obtain ⟨hfirst, rfl⟩ := List.cons.inj helements
        exact ⟨name, rest, rfl, hfirst, hchain⟩
  · rintro ⟨name, rest, rfl, hfirst, hrest⟩
    exact ⟨_, hrest, by rw [hfirst]; rfl⟩

/-- A list of symbols is a chain with an end whose elements are the symbols. -/
theorem symbolList_iff_listsNames {value : Value} :
    store.SymbolList value names ↔ store.ListsNames value names := by
  constructor
  · intro h
    induction h with
    | nil => exact (listsNames_atom_iff rfl).mpr ⟨rfl, rfl⟩
    | cons hfirst _ ih => exact listsNames_pair_iff.mpr ⟨_, _, rfl, hfirst, ih⟩
  · intro h
    induction names generalizing value with
    | nil =>
        cases value with
        | nil => exact .nil
        | pair id =>
            obtain ⟨_, _, hnames, -⟩ := listsNames_pair_iff.mp h
            cases hnames
        | _ => cases ((listsNames_atom_iff rfl).mp h).1
    | cons name rest ih =>
        cases value with
        | pair id =>
            obtain ⟨_, _, hnames, hfirst, hrest⟩ := listsNames_pair_iff.mp h
            obtain ⟨rfl, rfl⟩ := List.cons.inj hnames
            exact .cons hfirst (ih hrest)
        | _ => cases ((listsNames_atom_iff rfl).mp h).2

/-- A frame from which a name is seen is there. -/
theorem index_lt_of_lookup
    {value : Value}
    (h : store.lookup frame name = some value) :
    frame.index < store.frames.size := by
  by_contra hframe
  have hempty : store.frame frame = ⟨none, []⟩ := by
    simp [Store.frame, Array.getD_eq_getD_getElem?, Nat.le_of_not_lt hframe]
  rw [lookup, lookupUpTo, hempty] at h
  cases h

end Store

section Calls

/-- A form that starts with the name of a procedure is an application of it. -/
theorem outcome_of_isCall
    {procedure : Value}
    (hcall : store.IsCall expression keyword operands)
    (hkeyword : store.lookup frame keyword = some procedure)
    (fuel : Nat) :
    outcome (eval (fuel + 2) expression frame) store =
      outcome (apply (fuel + 1) procedure operands frame) store := by
  obtain ⟨id, rfl, hfirst, helements⟩ := hcall
  have hprocedure : outcome (eval (fuel + 1) (store.pair id).first frame) store = (.ok procedure, store) := by
    rw [hfirst, eval_succ]
    simp only [evalStep, outcome_bind, outcome_get, hkeyword, outcome_pure]
  have hoperands : outcome (elements (store.pair id).second) store = (.ok operands, store) := by
    rw [outcome_elements, helements, Option.elim_some]
  rw [eval_succ, evalStep, outcome_bind, outcome_get]
  exact (outcome_bind_ok hprocedure).trans (outcome_bind_ok hoperands)

/-- A definition of a variable is an evaluation of the expression and then a binding of the variable. -/
theorem apply_define_of_symbol
    (fuel : Nat)
    (name : String)
    (expression : Value)
    (frame : FrameId) :
    apply fuel (.primitive (.special .define)) [.sym name, expression] frame =
      (do
        let value ← eval fuel expression frame
        modify (Store.define frame name value)
        pure (.sym name)) :=
  rfl

end Calls

section Ways

variable (h : store.DefinesEitherWay short long name parameters body)
variable (hdefine : store.lookup frame "define" = some (.primitive (.special .define)))
variable (hlambda : store.lookup frame "lambda" = some (.primitive (.special .lambda)))
variable (hbody : body ≠ [])
include h hdefine hbody

theorem Store.DefinesEitherWay.outcome_short
    (hnames : store.ListsNames parameters names)
    (fuel : Nat) :
    outcome (eval (fuel + 2) short frame) store =
      (.ok (.sym name),
        (store.newClosure ⟨names, body, frame⟩).2.define frame name (.closure ⟨store.closures.size⟩)) := by
  obtain ⟨signature, hpair, hcall⟩ := h.short
  have hsignature : store.ListsNames (.pair signature) (name :: names) :=
    listsNames_pair_iff.mpr ⟨name, names, rfl, by rw [hpair], by rw [hpair]; exact hnames⟩
  rw [outcome_of_isCall hcall hdefine, apply_define_of_pair]
  exact outcome_defineProcedure frame hbody hsignature

theorem Store.DefinesEitherWay.refused_short
    (hnames : ∀ names, ¬store.ListsNames parameters names)
    (fuel : Nat) :
    FailsAs .malformed (eval (fuel + 2) short frame) store := by
  obtain ⟨signature, hpair, hcall⟩ := h.short
  have hsignature : ∀ first rest, ¬store.ListsNames (.pair signature) (first :: rest) := by
    intro first rest hlists
    obtain ⟨_, names, -, -, hrest⟩ := listsNames_pair_iff.mp hlists
    rw [hpair] at hrest
    exact hnames names hrest
  obtain ⟨fault, hkind, hfault⟩ := refused_defineProcedure frame hbody rfl hsignature
  refine ⟨fault, hkind, ?_⟩
  rw [outcome_of_isCall hcall hdefine, apply_define_of_pair]
  exact hfault

include hlambda

/-- The long form is an evaluation of a procedure expression and then a binding. -/
theorem Store.DefinesEitherWay.outcome_long_eq (fuel : Nat) :
    outcome (eval (fuel + 3) long frame) store =
      outcome (do
        let value ← evalLambda (parameters :: body) frame
        modify (Store.define frame name value)
        pure (.sym name)) store := by
  obtain ⟨expression, hexpression, hcall⟩ := h.long
  obtain ⟨first, rest, rfl⟩ := List.exists_cons_of_ne_nil hbody
  rw [outcome_of_isCall hcall hdefine, apply_define_of_symbol, outcome_bind, outcome_of_isCall hexpression hlambda,
    apply_lambda, ← outcome_bind]

theorem Store.DefinesEitherWay.outcome_long
    (hnames : store.ListsNames parameters names)
    (fuel : Nat) :
    outcome (eval (fuel + 3) long frame) store =
      (.ok (.sym name),
        (store.newClosure ⟨names, body, frame⟩).2.define frame name (.closure ⟨store.closures.size⟩)) := by
  rw [h.outcome_long_eq hdefine hlambda hbody, outcome_bind_ok (outcome_evalLambda frame body hnames)]
  rfl

theorem Store.DefinesEitherWay.refused_long
    (hnames : ∀ names, ¬store.ListsNames parameters names)
    (fuel : Nat) :
    FailsAs .malformed (eval (fuel + 3) long frame) store := by
  obtain ⟨fault, hkind, hfault⟩ := refused_evalLambda frame body hnames
  refine ⟨fault, hkind, ?_⟩
  rw [h.outcome_long_eq hdefine hlambda hbody, outcome_bind, hfault]

end Ways

/-- A procedure may be defined by a signature or by a procedure expression. If the parameters are a list of symbols,
both forms have the name as their value and lead to the same store: there is a new closure with these parameters,
these body forms and the frame of the definition, and the name is bound to it in this frame. For everything else
that may stand where the parameters are expected, both forms are refused as malformed and leave the store alone. -/
theorem definitions_of_a_procedure_agree
    (h : store.DefinesEitherWay short long name parameters body)
    (hdefine : store.lookup frame "define" = some (.primitive (.special .define)))
    (hlambda : store.lookup frame "lambda" = some (.primitive (.special .lambda)))
    (hbody : body ≠ []) :
    (∀ names, store.SymbolList parameters names →
      let made : ClosureId := ⟨store.closures.size⟩
      let after := (store.newClosure ⟨names, body, frame⟩).2.define frame name (.closure made)
      after.closure made = ⟨names, body, frame⟩ ∧
        (after.frame frame).get? name = some (.closure made) ∧
        ∀ fuel,
          outcome (eval (fuel + 2) short frame) store = (.ok (.sym name), after) ∧
          outcome (eval (fuel + 3) long frame) store = (.ok (.sym name), after)) ∧
    ((∀ names, ¬store.SymbolList parameters names) →
      ∀ fuel,
        FailsAs .malformed (eval (fuel + 2) short frame) store ∧
        FailsAs .malformed (eval (fuel + 3) long frame) store) := by
  refine ⟨?_, ?_⟩
  · intro names hsymbols made after
    have hnames := Store.symbolList_iff_listsNames.mp hsymbols
    have hframe : frame.index < store.frames.size := Store.index_lt_of_lookup hdefine
    refine ⟨?_, ?_, ?_⟩
    · exact (store.closure_newClosure _ _).trans (if_pos rfl)
    · exact (Store.get?_define hframe _ _).trans (if_pos ⟨rfl, rfl⟩)
    · intro fuel
      exact ⟨h.outcome_short hdefine hbody hnames fuel, h.outcome_long hdefine hlambda hbody hnames fuel⟩
  · intro hsymbols fuel
    have hnames := fun names hnames => hsymbols names (Store.symbolList_iff_listsNames.mpr hnames)
    exact ⟨h.refused_short hdefine hbody hnames fuel, h.refused_long hdefine hlambda hbody hnames fuel⟩

/-- The two definitions of `f` with the parameters `(x x)`, and those with the circular chain of `y` in their
place, all with the body `x`. -/
def definitionsStore : Store where
  pairs := #[
    ⟨.sym "define", .pair ⟨1⟩⟩, ⟨.pair ⟨2⟩, .pair ⟨5⟩⟩, ⟨.sym "f", .pair ⟨3⟩⟩, ⟨.sym "x", .pair ⟨4⟩⟩,
    ⟨.sym "x", .nil⟩, ⟨.sym "x", .nil⟩,
    ⟨.sym "define", .pair ⟨7⟩⟩, ⟨.sym "f", .pair ⟨8⟩⟩, ⟨.pair ⟨9⟩, .nil⟩, ⟨.sym "lambda", .pair ⟨10⟩⟩,
    ⟨.pair ⟨3⟩, .pair ⟨5⟩⟩,
    ⟨.sym "y", .pair ⟨11⟩⟩,
    ⟨.sym "define", .pair ⟨13⟩⟩, ⟨.pair ⟨14⟩, .pair ⟨5⟩⟩, ⟨.sym "f", .pair ⟨11⟩⟩,
    ⟨.sym "define", .pair ⟨16⟩⟩, ⟨.sym "f", .pair ⟨17⟩⟩, ⟨.pair ⟨18⟩, .nil⟩, ⟨.sym "lambda", .pair ⟨19⟩⟩,
    ⟨.pair ⟨11⟩, .pair ⟨5⟩⟩]
  closures := #[]
  frames := #[
    ⟨none, [("define", .primitive (.special .define)), ("lambda", .primitive (.special .lambda))]⟩]

theorem definitionsStore_symbols : definitionsStore.SymbolList (.pair ⟨3⟩) ["x", "x"] :=
  .cons rfl (.cons rfl .nil)

theorem definitionsStore_circle (names : List String) : ¬definitionsStore.SymbolList (.pair ⟨11⟩) names := by
  induction names with
  | nil => nofun
  | cons name names ih =>
      rintro (_ | ⟨_, hrest⟩)
      exact ih hrest

theorem definitionsStore_forms :
    definitionsStore.DefinesEitherWay (.pair ⟨0⟩) (.pair ⟨6⟩) "f" (.pair ⟨3⟩) [.sym "x"] ∧
      definitionsStore.DefinesEitherWay (.pair ⟨12⟩) (.pair ⟨15⟩) "f" (.pair ⟨11⟩) [.sym "x"] where
  left :=
    { short := ⟨⟨2⟩, rfl, ⟨0⟩, rfl, rfl, by decide⟩
      long := ⟨.pair ⟨9⟩, ⟨⟨9⟩, rfl, rfl, by decide⟩, ⟨6⟩, rfl, rfl, by decide⟩ }
  right :=
    { short := ⟨⟨14⟩, rfl, ⟨12⟩, rfl, rfl, by decide⟩
      long := ⟨.pair ⟨18⟩, ⟨⟨18⟩, rfl, rfl, by decide⟩, ⟨15⟩, rfl, rfl, by decide⟩ }

/-- A name may be repeated among the parameters, and a circular chain is refused. -/
theorem definitions_of_a_procedure_agree_on_two_values :
    (∃ after : Store,
      after.closure ⟨0⟩ = ⟨["x", "x"], [.sym "x"], ⟨0⟩⟩ ∧
      (after.frame ⟨0⟩).get? "f" = some (.closure ⟨0⟩) ∧
      outcome (eval 2 (.pair ⟨0⟩) ⟨0⟩) definitionsStore = (.ok (.sym "f"), after) ∧
      outcome (eval 3 (.pair ⟨6⟩) ⟨0⟩) definitionsStore = (.ok (.sym "f"), after)) ∧
    FailsAs .malformed (eval 2 (.pair ⟨12⟩) ⟨0⟩) definitionsStore ∧
    FailsAs .malformed (eval 3 (.pair ⟨15⟩) ⟨0⟩) definitionsStore := by
  obtain ⟨hforms, hcircular⟩ := definitionsStore_forms
  have hdefine : definitionsStore.lookup ⟨0⟩ "define" = some (.primitive (.special .define)) := by decide
  have hlambda : definitionsStore.lookup ⟨0⟩ "lambda" = some (.primitive (.special .lambda)) := by decide
  have hbody : [Value.sym "x"] ≠ [] := List.cons_ne_nil _ _
  obtain ⟨hmade, -⟩ := definitions_of_a_procedure_agree hforms hdefine hlambda hbody
  obtain ⟨-, hrefused⟩ := definitions_of_a_procedure_agree hcircular hdefine hlambda hbody
  obtain ⟨hclosure, hbound, hboth⟩ := hmade _ definitionsStore_symbols
  exact ⟨⟨_, hclosure, hbound, hboth 0⟩, hrefused definitionsStore_circle 0⟩

end SmallLisp
