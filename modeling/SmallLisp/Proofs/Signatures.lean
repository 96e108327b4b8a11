import SmallLisp.Proofs.Operands
import SmallLisp.Proofs.ListTest

/-!
# Signatures

The names of a procedure and its parameters are given as a list of symbols. Procedure expressions and definitions
test whether they have got a list before they take its elements, so they end for every chain, circular ones
included. What lists no names is refused as malformed.

* `Store.ListsNames` says which names a value lists;
* `outcome_evalLambda` and `outcome_defineProcedure` say which closure is made and where it is bound;
* `refused_evalLambda` and `refused_defineProcedure` are about values that list no names;
* `list_test_is_right_and_ends` is what follows, together with what the test for lists finds out.
-/

namespace SmallLisp

variable {store : Store} {signature : Value} {names parameters : List String} {name operation : String}

section Names

theorem toNames_symbols
    (operation : String)
    (names : List String) :
    toNames operation (names.map .sym) = .ok names := by
  induction names with
  | nil => rfl
  | cons name names ih =>
      unfold toNames at ih ⊢
      rw [List.map_cons, List.mapM_cons, ih]
      rfl

theorem exists_name_or_toName_error
    (operation : String)
    (value : Value) :
    (∃ name, value = .sym name) ∨
      ∃ got, toName operation value = .error (Fault.notSymbol operation got).halt := by
  cases value with
  | sym name => exact .inl ⟨name, rfl⟩
  | _ => exact .inr ⟨_, rfl⟩

/-- Values that are not all symbols are refused at the first one that is none. -/
theorem exists_names_or_toNames_error
    (operation : String)
    (values : List Value) :
    (∃ names : List String, values = names.map .sym) ∨
      ∃ got, toNames operation values = .error (Fault.notSymbol operation got).halt := by
  induction values with
  | nil => exact .inl ⟨[], rfl⟩
  | cons value values ih =>
      unfold toNames at ih ⊢
      rw [List.mapM_cons]
      rcases exists_name_or_toName_error operation value with ⟨name, rfl⟩ | ⟨got, hgot⟩
      · rcases ih with ⟨names, rfl⟩ | ⟨got, hgot⟩
        · exact .inl ⟨name :: names, rfl⟩
        · exact .inr ⟨got, by rw [hgot]; rfl⟩
      · exact .inr ⟨got, by rw [hgot]; rfl⟩

end Names

namespace Store

/-- The value is a list of the symbols with the given names. -/
def ListsNames (store : Store) (value : Value) (names : List String) : Prop :=
  store.chain? value = some (names.map .sym, .nil)

theorem ListsNames.isList (h : store.ListsNames signature names) : store.isList signature = true := by
  rw [isList_eq, h]

theorem ListsNames.elements? (h : store.ListsNames signature names) :
    store.elements? signature = some (names.map .sym) := by
  rw [Store.elements?, h]
  rfl

/-- A list has elements, and they end in the empty list. -/
theorem exists_elements_of_isList (h : store.isList signature = true) :
    ∃ elements,
      store.chain? signature = some (elements, .nil) ∧ store.elements? signature = some elements := by
  obtain ⟨count, hnil⟩ := isList_iff.mp h
  obtain ⟨elements, hchain⟩ := exists_chain_of_follow hnil rfl
  refine ⟨elements, hchain, ?_⟩
  rw [Store.elements?, hchain]
  rfl

theorem elements_ne_nil_of_pair
    {chain : List Value × Value}
    (hpair : signature.isPair = true)
    (h : store.chain? signature = some chain) :
    chain.1 ≠ [] := by
  cases signature with
  | pair id =>
      obtain ⟨rest, -, rfl⟩ := Option.map_eq_some_iff.mp h
      exact List.cons_ne_nil _ _
  | _ => cases hpair

end Store

section Expressions

variable (frame : FrameId)

/-- A procedure expression makes a closure from the names that its first operand lists. -/
theorem outcome_evalLambda
    (body : List Value)
    (h : store.ListsNames signature names) :
    outcome (evalLambda (signature :: body) frame) store =
      (.ok (.closure ⟨store.closures.size⟩), (store.newClosure ⟨names, body, frame⟩).2) := by
  simp [evalLambda, outcome_bind, h.isList, h.elements?, toNames_symbols, Store.newClosure]

/-- A procedure expression whose first operand lists no names is refused. -/
theorem refused_evalLambda
    (body : List Value)
    (h : ∀ names, ¬store.ListsNames signature names) :
    FailsAs .malformed (evalLambda (signature :: body) frame) store := by
  cases hlist : store.isList signature with
  | false => exact ⟨.notParameterList "lambda" signature.describe, rfl, by simp [evalLambda, outcome_bind, hlist]⟩
  | true =>
      obtain ⟨elements, hchain, helements⟩ := Store.exists_elements_of_isList hlist
      rcases exists_names_or_toNames_error "lambda" elements with ⟨names, rfl⟩ | ⟨got, hgot⟩
      · exact (h names hchain).elim
      · exact ⟨.notSymbol "lambda" got, rfl, by simp [evalLambda, outcome_bind, hlist, helements, hgot]⟩

end Expressions

section Definitions

variable {body : List Value} (frame : FrameId)

theorem not_length_lt_two (hbody : body ≠ []) : ¬body.length + 1 < 2 := by
  have hpos := List.length_pos_iff.mpr hbody
  omega

/-- A definition of a procedure makes a closure from the names behind the first one, and binds it to that one. -/
theorem outcome_defineProcedure
    (hbody : body ≠ [])
    (h : store.ListsNames signature (name :: parameters)) :
    outcome (defineProcedure signature (signature :: body) frame) store =
      (.ok (.sym name),
        (store.newClosure ⟨parameters, body, frame⟩).2.define frame name (.closure ⟨store.closures.size⟩)) := by
  simp [defineProcedure, outcome_bind, not_length_lt_two hbody, h.isList, h.elements?, toName, toNames_symbols,
    Store.newClosure, -bind_pure_comp]

/-- A definition of a procedure whose signature lists no names is refused. -/
theorem refused_defineProcedure
    (hbody : body ≠ [])
    (hpair : signature.isPair = true)
    (h : ∀ name parameters, ¬store.ListsNames signature (name :: parameters)) :
    FailsAs .malformed (defineProcedure signature (signature :: body) frame) store := by
  have hlength := not_length_lt_two hbody
  cases hlist : store.isList signature with
  | false =>
      refine ⟨.malformedSignature signature.describe, rfl, ?_⟩
      simp [defineProcedure, outcome_bind, hlength, hlist]
  | true =>
      obtain ⟨elements, hchain, helements⟩ := Store.exists_elements_of_isList hlist
      cases elements with
      | nil => exact (Store.elements_ne_nil_of_pair hpair hchain rfl).elim
      | cons first rest =>
          rcases exists_name_or_toName_error "define" first with ⟨name, rfl⟩ | ⟨got, hgot⟩
          · rcases exists_names_or_toNames_error "define" rest with ⟨parameters, rfl⟩ | ⟨got, hgot⟩
            · exact (h name parameters hchain).elim
            · refine ⟨.notSymbol "define" got, rfl, ?_⟩
              simp [defineProcedure, outcome_bind, hlength, hlist, helements, toName, hgot]
          · refine ⟨.notSymbol "define" got, rfl, ?_⟩
            simp [defineProcedure, outcome_bind, hlength, hlist, helements, hgot]

end Definitions

section Applications

theorem apply_lambda
    (fuel : Nat)
    (signature expression : Value)
    (body : List Value)
    (frame : FrameId) :
    apply fuel (.primitive (.special .lambda)) (signature :: expression :: body) frame =
      evalLambda (signature :: expression :: body) frame := by
  have hcount : (Primitive.special .lambda).arity.accepts (signature :: expression :: body).length = true := by
    simp [Primitive.arity, SpecialForm.arity, Arity.accepts]
  rw [apply, applyValue, Primitive.apply_eq_applyChecked hcount]
  rfl

theorem apply_define_of_pair
    (fuel : Nat)
    (id : PairId)
    (body : List Value)
    (frame : FrameId) :
    apply fuel (.primitive (.special .define)) (.pair id :: body) frame =
      defineProcedure (.pair id) (.pair id :: body) frame := by
  have hcount : (Primitive.special .define).arity.accepts (.pair id :: body).length = true := by
    simp [Primitive.arity, SpecialForm.arity, Arity.accepts]
  rw [apply, applyValue, Primitive.apply_eq_applyChecked hcount]
  rfl

variable (store : Store) (fuel : Nat) (signature : Value) (body : List Value) (frame : FrameId)

/-- A procedure expression makes a closure if it has a list of symbols and a body, and is refused otherwise. -/
theorem lambda_makes_or_refused :
    (∃ names, body ≠ [] ∧ store.ListsNames signature names ∧
      outcome (apply fuel (.primitive (.special .lambda)) (signature :: body) frame) store =
        (.ok (.closure ⟨store.closures.size⟩), (store.newClosure ⟨names, body, frame⟩).2)) ∨
      (body = [] ∨ ∀ names, ¬store.ListsNames signature names) ∧
        FailsAs .malformed (apply fuel (.primitive (.special .lambda)) (signature :: body) frame) store := by
  cases body with
  | nil => exact .inr ⟨.inl rfl, .operandCount (.special .lambda) 1, rfl, rfl⟩
  | cons expression body =>
      rw [apply_lambda]
      by_cases h : ∃ names, store.ListsNames signature names
      · obtain ⟨names, hnames⟩ := h
        exact .inl ⟨names, List.cons_ne_nil _ _, hnames, outcome_evalLambda frame _ hnames⟩
      · have hnames := not_exists.mp h
        exact .inr ⟨.inr hnames, refused_evalLambda frame _ hnames⟩

/-- A definition with a signature makes a closure and binds it if the signature is a list of symbols. All other
definitions that define no variable are refused, except those that have a signature and no body. -/
theorem define_makes_or_refused
    (hsignature : ∀ name, signature ≠ .sym name)
    (hbody : signature.isPair = true → body ≠ []) :
    (∃ name parameters, store.ListsNames signature (name :: parameters) ∧
      outcome (apply fuel (.primitive (.special .define)) (signature :: body) frame) store =
        (.ok (.sym name),
          (store.newClosure ⟨parameters, body, frame⟩).2.define frame name (.closure ⟨store.closures.size⟩))) ∨
      (∀ name parameters, ¬store.ListsNames signature (name :: parameters)) ∧
        FailsAs .malformed (apply fuel (.primitive (.special .define)) (signature :: body) frame) store := by
  cases signature with
  | sym name => exact (hsignature name rfl).elim
  | pair id =>
      rw [apply_define_of_pair]
      by_cases h : ∃ name parameters, store.ListsNames (.pair id) (name :: parameters)
      · obtain ⟨name, parameters, hnames⟩ := h
        exact .inl ⟨name, parameters, hnames, outcome_defineProcedure frame (hbody rfl) hnames⟩
      · have hnames : ∀ name parameters, ¬store.ListsNames (.pair id) (name :: parameters) :=
          fun name parameters hlists => h ⟨name, parameters, hlists⟩
        exact .inr ⟨hnames, refused_defineProcedure frame (hbody rfl) rfl hnames⟩
  | _ => exact .inr ⟨nofun, .notDefinable _, rfl, rfl⟩

end Applications

/-- The two walkers decide whether a value is a list within one round more than there are pairs, and they decide
rightly: a list is what leads to the empty list, and neither a chain with another end nor one that comes back to
a pair is a list. So procedure expressions and definitions end for every value that stands where the names are
expected, with a closure or because the value is refused; only definitions without a body fail before the test. -/
theorem list_test_is_right_and_ends (store : Store) (value : Value) :
    (∀ rounds, store.pairs.size < rounds → store.race rounds value value = some (store.isList value)) ∧
      (store.isList value = true ↔ ∃ count, store.Behind value count .nil) ∧
      (∀ count last, store.Behind value count last → last.isPair = false → last ≠ .nil →
        store.isList value = false) ∧
      (store.Circular value → store.isList value = false) ∧
      outcome (Strict.apply (.isA .list) [value]) store = (.ok (.bool (store.isList value)), store) ∧
      ∀ fuel body frame,
        ((∃ names, body ≠ [] ∧ store.ListsNames value names ∧
            outcome (apply fuel (.primitive (.special .lambda)) (value :: body) frame) store =
              (.ok (.closure ⟨store.closures.size⟩), (store.newClosure ⟨names, body, frame⟩).2)) ∨
          (body = [] ∨ ∀ names, ¬store.ListsNames value names) ∧
            FailsAs .malformed (apply fuel (.primitive (.special .lambda)) (value :: body) frame) store) ∧
        ((∀ name, value ≠ .sym name) → (value.isPair = true → body ≠ []) →
          (∃ name parameters, store.ListsNames value (name :: parameters) ∧
              outcome (apply fuel (.primitive (.special .define)) (value :: body) frame) store =
                (.ok (.sym name), (store.newClosure ⟨parameters, body, frame⟩).2.define frame name
                  (.closure ⟨store.closures.size⟩))) ∨
            (∀ name parameters, ¬store.ListsNames value (name :: parameters)) ∧
              FailsAs .malformed (apply fuel (.primitive (.special .define)) (value :: body) frame) store) ∧
        (value.isPair = true →
          outcome (apply fuel (.primitive (.special .define)) [value] frame) store =
            (.error Fault.missingBody.halt, store)) := by
  have hlist : store.isList value = true ↔ ∃ count, store.follow count value = some .nil := Store.isList_iff
  refine ⟨?_, ?_, ?_, ?_, rfl, ?_⟩
  · intro rounds hrounds
    exact Store.race_mono hrounds (store.race_eq_isList value)
  · simp only [Store.behind_iff_follow]
    exact hlist
  · intro count last hlast hatom hne
    rw [← Bool.not_eq_true, hlist]
    rintro ⟨further, hnil⟩
    exact hne (Store.end_unique (Store.behind_iff_follow.mp hlast) hnil hatom rfl)
  · intro hcircular
    rw [← Bool.not_eq_true, hlist]
    rintro ⟨further, hnil⟩
    exact hcircular.follow_ne rfl hnil
  · intro fuel body frame
    refine ⟨lambda_makes_or_refused store fuel value body frame,
      define_makes_or_refused store fuel value body frame, ?_⟩
    intro hpair
    cases value with
    | pair id => rw [apply_define_of_pair]; rfl
    | _ => cases hpair

/-- A store in which a pair leads into a circle of two others. -/
def lassoStore : Store :=
  ⟨#[⟨.sym "f", .pair ⟨1⟩⟩, ⟨.sym "x", .pair ⟨2⟩⟩, ⟨.sym "y", .pair ⟨1⟩⟩], #[], #[⟨none, []⟩]⟩

/-- A chain that runs into a circle is no list, and as a signature it is refused. -/
theorem list_test_is_right_and_ends_at_a_circle :
    lassoStore.Circular (.pair ⟨0⟩) ∧ lassoStore.isList (.pair ⟨0⟩) = false ∧
      FailsAs .malformed (apply 1 (.primitive (.special .define)) [.pair ⟨0⟩, .int 1] ⟨0⟩) lassoStore := by
  obtain ⟨-, -, -, hcircle, -, hforms⟩ := list_test_is_right_and_ends lassoStore (.pair ⟨0⟩)
  have hled : lassoStore.Behind (.pair ⟨0⟩) 1 (.pair ⟨1⟩) := .next .here
  have hacross : lassoStore.Behind (.pair ⟨1⟩) 1 (.pair ⟨2⟩) := .next .here
  have hround : lassoStore.Behind (.pair ⟨1⟩) 2 (.pair ⟨1⟩) := .next hacross
  have hcircular : lassoStore.Circular (.pair ⟨0⟩) := ⟨1, 2, ⟨1⟩, by decide, hled, hround⟩
  have hlist := hcircle hcircular
  refine ⟨hcircular, hlist, ?_⟩
  obtain ⟨-, hdefine, -⟩ := hforms 1 [.int 1] ⟨0⟩
  rcases hdefine nofun (fun _ => List.cons_ne_nil _ _) with ⟨name, parameters, hnames, -⟩ | ⟨-, hrefused⟩
  · cases hlist.symm.trans hnames.isList
  · exact hrefused

/-- A store with the signature `(f)`. -/
def signatureStore : Store :=
  ⟨#[⟨.sym "f", .nil⟩], #[], #[⟨none, []⟩]⟩

/-- Without a body a definition of a procedure has no value, and yet it is not refused as malformed. -/
theorem definition_without_body_is_not_refused :
    ¬((∃ answer after,
        outcome (apply 1 (.primitive (.special .define)) [.pair ⟨0⟩] ⟨0⟩) signatureStore = (.ok answer, after)) ∨
      FailsAs .malformed (apply 1 (.primitive (.special .define)) [.pair ⟨0⟩] ⟨0⟩) signatureStore) := by
  have hfails :
      outcome (apply 1 (.primitive (.special .define)) [.pair ⟨0⟩] ⟨0⟩) signatureStore =
        (.error Fault.missingBody.halt, signatureStore) :=
    rfl
  rintro (⟨answer, after, hanswer⟩ | ⟨fault, hkind, hfault⟩)
  · rw [hfails] at hanswer
    cases hanswer
  · rw [hfails] at hfault
    obtain rfl : Fault.missingBody = fault := by
      injection hfault with herror
      cases herror
      rfl
    cases hkind

end SmallLisp
