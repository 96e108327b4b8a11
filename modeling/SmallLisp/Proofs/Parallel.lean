import SmallLisp.Proofs.Confinement
import SmallLisp.Proofs.Lockstep

/-!
# Evaluation in lockstep

The same expression under new identities, evaluated in a store that looks like the one before, runs in
lockstep with it. An evaluator for which this holds is called parallel. Each procedure of the language runs
in lockstep with itself if the evaluator that it calls is parallel; so evaluation with any fuel is parallel.

* `toNumber_rename` and its siblings: conversions see no identities;
* `Strict.lockstep_apply` and its siblings follow one procedure each;
* `lockstep_evalStep` is one level of evaluation;
* `eval_parallel` follows by induction on the fuel.
-/

namespace SmallLisp

/-- Evaluation with `ev` runs in lockstep with itself on stores that look alike. -/
def Parallel
    (given : Primitive → Bool)
    (r : Renaming)
    (instead : FrameId → String → Option Value)
    (also : Set Item)
    (ev : Evaluator) :
    Prop :=
  ∀ {t : Twins given r instead also} {expression : Value} {frame : FrameId},
    t.world.Has expression → frame ∈ t.world.homes →
      Lockstep t (Value.rename r) (ev expression frame) (ev (expression.rename r) (r.frame frame))
        World.Has

section Conversions

variable {r : Renaming} {operation : String} {value : Value} {values : List Value}

@[simp]
theorem toNumber_rename : toNumber operation (value.rename r) = toNumber operation value := by
  cases value <;> rfl

@[simp]
theorem toNumbers_rename :
    toNumbers operation (values.map (Value.rename r)) = toNumbers operation values := by
  unfold toNumbers
  rw [List.mapM_map]
  exact congrArg (List.mapM · values) (funext fun _ => toNumber_rename)

@[simp]
theorem toName_rename : toName operation (value.rename r) = toName operation value := by
  cases value <;> rfl

@[simp]
theorem toNames_rename :
    toNames operation (values.map (Value.rename r)) = toNames operation values := by
  unfold toNames
  rw [List.mapM_map]
  exact congrArg (List.mapM · values) (funext fun _ => toName_rename)

@[simp]
theorem toPlace_rename : toPlace operation (value.rename r) = toPlace operation value := by
  cases value <;> rfl

theorem toPair_rename : toPair operation (value.rename r) = (toPair operation value).map r.pair := by
  cases value <;> rfl

end Conversions

variable
  {given : Primitive → Bool}
  {r : Renaming}
  {instead : FrameId → String → Option Value}
  {also : Set Item}
  {t : Twins given r instead also}

section Operands

variable {operands : List Value}

theorem lockstep_operand
    (hoperands : t.world.HasAll operands)
    (number : Nat) :
    Lockstep t (Value.rename r) (operand operands number)
      (operand (operands.map (Value.rename r)) number) World.Has := by
  unfold operand
  rw [List.getElem?_map]
  cases hvalue : operands[number]? with
  | none => exact .throw
  | some value => exact .pure rfl (hoperands value (List.mem_of_getElem? hvalue))

theorem lockstep_operandsFrom
    (hoperands : t.world.HasAll operands)
    (number : Nat) :
    Lockstep t (List.map (Value.rename r)) (operandsFrom operands number)
      (operandsFrom (operands.map (Value.rename r)) number) World.HasAll := by
  unfold operandsFrom
  rw [List.length_map]
  split
  · exact .pure List.map_drop.symm (hoperands.drop number)
  · exact .throw

theorem lockstep_elements
    {value : Value}
    (hvalue : t.world.Has value) :
    Lockstep t (List.map (Value.rename r)) (elements value) (elements (value.rename r))
      World.HasAll := by
  refine .get ?_
  rw [t.mirrors.elements? hvalue]
  cases helements : t.world.store.elements? value with
  | none => exact .throw
  | some values => exact .pure rfl (World.hasAll_of_elements? hvalue helements)

/-- A conversion that sees no identities. -/
theorem lockstep_convert
    {α : Type}
    {result result' : Except Halt α}
    (hsame : result' = result) :
    Lockstep t id (liftM result) (liftM result') fun _ _ => True :=
  .lift (by rw [hsame, Except.map_id]; rfl) fun _ _ => trivial

theorem lockstep_toName
    {operation : String}
    {value : Value}
    (hvalue : t.world.Has value) :
    Lockstep t id (liftM (toName operation value)) (liftM (toName operation (value.rename r)))
      fun w' name => .symbol name ∈ w'.items := by
  refine .lift (by rw [toName_rename, Except.map_id]; rfl) ?_
  intro name hname
  cases value <;> cases hname
  exact hvalue _ rfl

theorem lockstep_toPair
    {operation : String}
    {value : Value}
    (hvalue : t.world.Has value) :
    Lockstep t r.pair (liftM (toPair operation value)) (liftM (toPair operation (value.rename r)))
      fun w' id => .pair id ∈ w'.items := by
  refine .lift toPair_rename ?_
  intro id hid
  cases value <;> cases hid
  exact hvalue _ rfl

end Operands

section Strict

variable {arguments : List Value}

theorem lockstep_tailAt
    {operation : String}
    {chain : Value}
    {place : Int64}
    (hchain : t.world.Has chain) :
    Lockstep t (Value.rename r) (tailAt operation chain place)
      (tailAt operation (chain.rename r) place) World.Has := by
  refine .get ?_
  rw [t.mirrors.follow hchain]
  cases htail : t.world.store.follow place.toInt.toNat chain with
  | none => exact .fail
  | some tail => exact .pure rfl (World.has_of_follow hchain htail)

theorem lockstep_elementAt
    {operation : String}
    {chain : Value}
    {place : Int64}
    (hchain : t.world.Has chain) :
    Lockstep t (Value.rename r) (elementAt operation chain place)
      (elementAt operation (chain.rename r) place) World.Has := by
  refine .bind (lockstep_tailAt hchain) ?_
  intro t₁ tail _ htail
  refine .get ?_
  rw [t₁.mirrors.first? htail]
  cases hfirst : t₁.world.store.first? tail with
  | none =>
      dsimp only [Option.map]
      simp only [ne_eq, Value.rename_eq_nil_iff]
      split
      · exact .pure rfl htail
      · exact .fail
  | some element => exact .pure rfl (World.has_of_first? htail hfirst)

theorem Mirrors.holds
    {w : World given}
    {store : Store}
    (h : Mirrors r instead also w store)
    {value : Value}
    (hvalue : w.Has value)
    (kind : Kind) :
    kind.holds store (value.rename r) = kind.holds w.store value := by
  cases kind with
  | list => exact h.isList hvalue
  | _ => cases value <;> rfl

/-- The pair that the first operand is. -/
theorem lockstep_pairOperand
    {α α' : Type}
    {image : α → α'}
    {operation : String}
    {next : PairId → EvalM α}
    {next' : PairId → EvalM α'}
    {post : World given → α → Prop}
    (harguments : t.world.HasAll arguments)
    (hnext : ∀ (t' : Twins given r instead also) id,
      Changes t.world t'.world → .pair id ∈ t'.world.items →
        Lockstep t' image (next id) (next' (r.pair id)) post) :
    Lockstep t image
      (do next (← toPair operation (← operand arguments 0)))
      (do next' (← toPair operation (← operand (arguments.map (Value.rename r)) 0))) post := by
  refine .bind (lockstep_operand harguments 0) ?_
  intro t₁ value h₁ hvalue
  refine .bind (lockstep_toPair hvalue) ?_
  intro t₂ id h₂ hid
  exact hnext t₂ id (h₁.trans h₂) hid

/-- The chain that the first operand is, and the place in it that the second one means. -/
theorem lockstep_placeOperands
    {α α' : Type}
    {image : α → α'}
    {operation : String}
    {next : Value → Int64 → EvalM α}
    {next' : Value → Int64 → EvalM α'}
    {post : World given → α → Prop}
    (harguments : t.world.HasAll arguments)
    (hnext : ∀ (t' : Twins given r instead also) chain place,
      t'.world.Has chain → Lockstep t' image (next chain place) (next' (chain.rename r) place) post) :
    Lockstep t image
      (do
        let chain ← operand arguments 0
        let _ ← toPair operation chain
        let place ← toPlace operation (← operand arguments 1)
        next chain place)
      (do
        let chain ← operand (arguments.map (Value.rename r)) 0
        let _ ← toPair operation chain
        let place ← toPlace operation (← operand (arguments.map (Value.rename r)) 1)
        next' chain place) post := by
  refine .bind (lockstep_operand harguments 0) ?_
  intro t₁ chain h₁ hchain
  refine .bind (lockstep_toPair hchain) ?_
  intro t₂ _ h₂ _
  refine .bind (lockstep_operand ((h₁.trans h₂).hasAll harguments) 1) ?_
  intro t₃ index h₃ _
  refine .andThen (lockstep_convert toPlace_rename) ?_
  intro t₄ place h₄
  exact hnext t₄ chain place ((h₂.trans (h₃.trans h₄)).has hchain)

theorem Strict.lockstep_apply
    {procedure : Strict}
    (hprocedure : .primitive (.strict procedure) ∈ t.world.items)
    (harguments : t.world.HasAll arguments) :
    Lockstep t (Value.rename r) (procedure.apply arguments)
      (procedure.apply (arguments.map (Value.rename r))) World.Has := by
  cases procedure with
  | arithmetic operation =>
      refine .andThen (lockstep_convert toNumbers_rename) ?_
      intro t₁ numbers _
      refine .andThen (lockstep_convert rfl) ?_
      intro t₂ result _
      exact .pure rfl (World.has_int result)
  | isA kind =>
      refine .bind (lockstep_operand harguments 0) ?_
      intro t₁ value _ hvalue
      exact .get (.pure (congrArg Value.bool (t₁.mirrors.holds hvalue kind)) (World.has_bool _))
  | car =>
      refine lockstep_pairOperand harguments ?_
      intro t₁ id _ hid
      exact .get (.pure (congrArg Pair.first (t₁.mirrors.pair hid)) (World.has_first hid))
  | cdr =>
      refine lockstep_pairOperand harguments ?_
      intro t₁ id _ hid
      exact .get (.pure (congrArg Pair.second (t₁.mirrors.pair hid)) (World.has_second hid))
  | cons =>
      refine .bind (lockstep_operand harguments 0) ?_
      intro t₁ first h₁ hfirst
      refine .bind (lockstep_operand (h₁.hasAll harguments) 1) ?_
      intro t₂ second h₂ hsecond
      let made : Twins given r instead also := ⟨_, _, t₂.mirrors.newPair (h₂.has hfirst) hsecond⟩
      have hmade : Change t₂.world made.world := .newPair (h₂.has hfirst) hsecond
      exact .modifyGet made (.single hmade) rfl rfl (t₂.mirrors.fst_newPair _ _ _ _)
        (World.has_of_item rfl (Set.mem_insert _ _))
  | listRef =>
      refine lockstep_placeOperands harguments ?_
      intro t₁ chain place hchain
      exact lockstep_elementAt hchain
  | listTail =>
      refine lockstep_placeOperands harguments ?_
      intro t₁ chain place hchain
      exact lockstep_tailAt hchain
  | setCar =>
      refine lockstep_pairOperand harguments ?_
      intro t₁ id h₁ hid
      refine .bind (lockstep_operand (h₁.hasAll harguments) 1) ?_
      intro t₂ value h₂ hvalue
      let set : Twins given r instead also := ⟨_, _, t₂.mirrors.setFirst id hvalue⟩
      have hset : Change t₂.world set.world :=
        .setFirst ((h₁.trans h₂).items_subset hprocedure) (h₂.items_subset hid) hvalue
      refine .andThen (.modify set (.single hset) rfl rfl trivial) ?_
      intro t₃ _ _
      exact .pure rfl World.has_nil
  | setCdr =>
      refine lockstep_pairOperand harguments ?_
      intro t₁ id h₁ hid
      refine .bind (lockstep_operand (h₁.hasAll harguments) 1) ?_
      intro t₂ value h₂ hvalue
      let set : Twins given r instead also := ⟨_, _, t₂.mirrors.setSecond id hvalue⟩
      have hset : Change t₂.world set.world :=
        .setSecond ((h₁.trans h₂).items_subset hprocedure) (h₂.items_subset hid) hvalue
      refine .andThen (.modify set (.single hset) rfl rfl trivial) ?_
      intro t₃ _ _
      exact .pure rfl World.has_nil

end Strict

section Evaluators

variable {ev : Evaluator} {frame : FrameId} {operands : List Value}

theorem lockstep_evalAll
    (hev : Parallel given r instead also ev)
    (hframe : frame ∈ t.world.homes)
    (hoperands : t.world.HasAll operands) :
    Lockstep t (List.map (Value.rename r)) (evalAll ev frame operands)
      (evalAll ev (r.frame frame) (operands.map (Value.rename r))) World.HasAll := by
  induction operands generalizing t with
  | nil => exact .pure rfl World.hasAll_nil
  | cons expression expressions ih =>
      obtain ⟨hexpression, hexpressions⟩ := World.hasAll_cons.mp hoperands
      refine .bind (hev hexpression hframe) ?_
      intro t₁ value h₁ hvalue
      refine .bind (ih (h₁.homes_subset hframe) (h₁.hasAll hexpressions)) ?_
      intro t₂ values h₂ hvalues
      exact .pure rfl (World.hasAll_cons.mpr ⟨h₂.has hvalue, hvalues⟩)

theorem lockstep_evalBody
    (hev : Parallel given r instead also ev)
    (hframe : frame ∈ t.world.homes)
    {last : Value}
    (hlast : t.world.Has last)
    (hoperands : t.world.HasAll operands) :
    Lockstep t (Value.rename r) (evalBody ev frame last operands)
      (evalBody ev (r.frame frame) (last.rename r) (operands.map (Value.rename r))) World.Has := by
  induction operands generalizing t last with
  | nil => exact .pure rfl hlast
  | cons expression expressions ih =>
      obtain ⟨hexpression, hexpressions⟩ := World.hasAll_cons.mp hoperands
      refine .bind (hev hexpression hframe) ?_
      intro t₁ value h₁ hvalue
      exact ih (h₁.homes_subset hframe) hvalue (h₁.hasAll hexpressions)

theorem Comparison.lockstep_apply
    {relation : Comparison}
    (hev : Parallel given r instead also ev)
    (hframe : frame ∈ t.world.homes)
    {previous : Option Int64}
    (hoperands : t.world.HasAll operands) :
    Lockstep t (Value.rename r) (relation.apply ev frame previous operands)
      (relation.apply ev (r.frame frame) previous (operands.map (Value.rename r))) World.Has := by
  induction operands generalizing t previous with
  | nil => exact .pure rfl (World.has_bool _)
  | cons expression expressions ih =>
      obtain ⟨hexpression, hexpressions⟩ := World.hasAll_cons.mp hoperands
      refine .bind (hev hexpression hframe) ?_
      intro t₁ value h₁ _
      refine .andThen (lockstep_convert toNumber_rename) ?_
      intro t₂ number h₂
      have hrest := h₁.trans h₂
      cases previous with
      | none => exact ih (hrest.homes_subset hframe) (hrest.hasAll hexpressions)
      | some before =>
          dsimp only [id_eq]
          split
          · exact ih (hrest.homes_subset hframe) (hrest.hasAll hexpressions)
          · exact .pure rfl (World.has_bool _)

theorem Connective.decidedBy_rename
    (junction : Connective)
    (value : Value) :
    junction.decidedBy (value.rename r) = junction.decidedBy value := by
  cases junction <;> simp [decidedBy]

theorem Connective.lockstep_apply
    {junction : Connective}
    (hev : Parallel given r instead also ev)
    (hframe : frame ∈ t.world.homes)
    {last : Value}
    (hlast : t.world.Has last)
    (hoperands : t.world.HasAll operands) :
    Lockstep t (Value.rename r) (junction.apply ev frame last operands)
      (junction.apply ev (r.frame frame) (last.rename r) (operands.map (Value.rename r)))
      World.Has := by
  induction operands generalizing t last with
  | nil => exact .pure rfl hlast
  | cons expression expressions ih =>
      obtain ⟨hexpression, hexpressions⟩ := World.hasAll_cons.mp hoperands
      refine .bind (hev hexpression hframe) ?_
      intro t₁ value h₁ hvalue
      rw [junction.decidedBy_rename]
      split
      · exact .pure rfl hvalue
      · exact ih (h₁.homes_subset hframe) hvalue (h₁.hasAll hexpressions)

theorem lockstep_evalBranch
    (hev : Parallel given r instead also ev)
    (hframe : frame ∈ t.world.homes)
    (hoperands : t.world.HasAll operands) :
    Lockstep t (Value.rename r) (evalBranch ev operands frame)
      (evalBranch ev (operands.map (Value.rename r)) (r.frame frame)) World.Has := by
  refine .bind (lockstep_operand hoperands 0) ?_
  intro t₁ test h₁ htest
  refine .bind (hev htest (h₁.homes_subset hframe)) ?_
  intro t₂ decision h₂ _
  have hboth := h₁.trans h₂
  cases decision with
  | bool truth =>
      cases truth with
      | true =>
          refine .bind (lockstep_operand (hboth.hasAll hoperands) 1) ?_
          intro t₃ branch h₃ hbranch
          exact hev hbranch ((hboth.trans h₃).homes_subset hframe)
      | false =>
          dsimp only [Value.rename]
          rw [List.getElem?_map]
          cases halternative : operands[2]? with
          | none => exact .pure rfl World.has_nil
          | some alternative =>
              have hmember := List.mem_of_getElem? halternative
              exact hev (hboth.has (hoperands _ hmember)) (hboth.homes_subset hframe)
  | _ => exact .fail

/-- Bindings whose results are the symbol that was bound. -/
theorem lockstep_binding
    {name : String}
    {value : Value}
    (hframe : frame ∈ t.world.homes)
    (hdefine : .primitive (.special .define) ∈ t.world.items)
    (hname : .symbol name ∈ t.world.items)
    (hvalue : t.world.Has value) :
    Lockstep t (Value.rename r)
      (do
        modify (Store.define frame name value)
        pure (.sym name))
      (do
        modify (Store.define (r.frame frame) name (value.rename r))
        pure (.sym name)) World.Has := by
  let bound : Twins given r instead also :=
    ⟨_, _, t.mirrors.bind frame (t.mirrors.instead_eq_none hname frame) hvalue⟩
  have hchange : Change t.world bound.world := .define hdefine hframe hname hvalue
  refine .andThen (.modify bound (.single hchange) rfl rfl trivial) ?_
  intro t' _ h
  exact .pure rfl (World.has_of_item rfl (h.items_subset hname))

theorem lockstep_defineVariable
    (hev : Parallel given r instead also ev)
    (hframe : frame ∈ t.world.homes)
    (hdefine : .primitive (.special .define) ∈ t.world.items)
    {name : String}
    (hname : .symbol name ∈ t.world.items)
    (hoperands : t.world.HasAll operands) :
    Lockstep t (Value.rename r) (defineVariable ev name operands frame)
      (defineVariable ev name (operands.map (Value.rename r)) (r.frame frame)) World.Has := by
  unfold defineVariable
  rw [List.length_map]
  split
  · refine .bind (lockstep_operand hoperands 1) ?_
    intro t₁ expression h₁ hexpression
    refine .bind (hev hexpression (h₁.homes_subset hframe)) ?_
    intro t₂ value h₂ hvalue
    have h₁₂ := h₁.trans h₂
    exact lockstep_binding (h₁₂.homes_subset hframe) (h₁₂.items_subset hdefine)
      (h₁₂.items_subset hname) hvalue
  · exact .fail

theorem lockstep_newClosure
    {parameters : List String}
    {body : List Value}
    (hframe : frame ∈ t.world.homes)
    (hbody : t.world.HasAll body) :
    Lockstep t (Value.rename r) (modifyGet (Store.newClosure ⟨parameters, body, frame⟩))
      (modifyGet (Store.newClosure ⟨parameters, body.map (Value.rename r), r.frame frame⟩))
      World.Has := by
  let closure : Closure := ⟨parameters, body, frame⟩
  have hbodyHeld : ∀ value ∈ closure.body, t.world.Has value := hbody
  have hframeHeld : .frame closure.frame ∈ t.world.items := t.world.homes_held hframe
  let made : Twins given r instead also := ⟨_, _, t.mirrors.newClosure hbodyHeld hframeHeld⟩
  have hmade : Change t.world made.world := .newClosure hbodyHeld hframeHeld
  refine .modifyGet made (.single hmade) rfl rfl ?_ (World.has_of_item rfl (Set.mem_insert _ _))
  show Value.closure ⟨t.copy.closures.size⟩ = .closure ⟨r.closures t.world.store.closures.size⟩
  rw [t.mirrors.closures_next.at_size]

theorem lockstep_defineProcedure
    (hframe : frame ∈ t.world.homes)
    (hdefine : .primitive (.special .define) ∈ t.world.items)
    {signature : Value}
    (hsignature : t.world.Has signature)
    (hoperands : t.world.HasAll operands) :
    Lockstep t (Value.rename r) (defineProcedure signature operands frame)
      (defineProcedure (signature.rename r) (operands.map (Value.rename r)) (r.frame frame))
      World.Has := by
  unfold defineProcedure
  rw [List.length_map]
  split
  · exact .fail
  · refine .get ?_
    rw [t.mirrors.isList hsignature]
    split
    · refine .bind (lockstep_elements hsignature) ?_
      intro t₁ names h₁ hnames
      refine .bind (lockstep_operand hnames 0) ?_
      intro t₂ signed h₂ hsigned
      refine .bind (lockstep_toName hsigned) ?_
      intro t₃ name h₃ hname
      have h₂₃ := h₂.trans h₃
      refine .bind (lockstep_operandsFrom (h₂₃.hasAll hnames) 1) ?_
      intro t₄ parameterNames h₄ _
      refine .andThen (lockstep_convert toNames_rename) ?_
      intro t₅ parameters h₅
      have h₃₅ := h₄.trans h₅
      have h₁₅ := h₁.trans (h₂₃.trans h₃₅)
      refine .bind (lockstep_operandsFrom (h₁₅.hasAll hoperands) 1) ?_
      intro t₆ body h₆ hbody
      have h₁₆ := h₁₅.trans h₆
      refine .bind (lockstep_newClosure (h₁₆.homes_subset hframe) hbody) ?_
      intro t₇ closure h₇ hclosure
      have h₁₇ := h₁₆.trans h₇
      exact lockstep_binding (h₁₇.homes_subset hframe) (h₁₇.items_subset hdefine)
        ((h₃₅.trans (h₆.trans h₇)).items_subset hname) hclosure
    · rw [Value.describe_rename]
      exact .fail

theorem lockstep_evalDefine
    (hev : Parallel given r instead also ev)
    (hframe : frame ∈ t.world.homes)
    (hdefine : .primitive (.special .define) ∈ t.world.items)
    (hoperands : t.world.HasAll operands) :
    Lockstep t (Value.rename r) (evalDefine ev operands frame)
      (evalDefine ev (operands.map (Value.rename r)) (r.frame frame)) World.Has := by
  refine .bind (lockstep_operand hoperands 0) ?_
  intro t₁ target h₁ htarget
  cases target with
  | sym name =>
      exact lockstep_defineVariable hev (h₁.homes_subset hframe) (h₁.items_subset hdefine)
        (htarget _ rfl) (h₁.hasAll hoperands)
  | pair id =>
      exact lockstep_defineProcedure (h₁.homes_subset hframe) (h₁.items_subset hdefine) htarget
        (h₁.hasAll hoperands)
  | _ => exact .fail

/-- Assignments find the same binding in both stores, or none. -/
theorem lockstep_assignment
    {name : String}
    {value : Value}
    (hframe : .frame frame ∈ t.world.items)
    (hassign : .primitive (.special .assign) ∈ t.world.items)
    (hname : .symbol name ∈ t.world.items)
    (hvalue : t.world.Has value) :
    Lockstep t id (modifyGet (Store.assign frame name value))
      (modifyGet (Store.assign (r.frame frame) name (value.rename r))) fun _ _ => True := by
  have hbinder := t.mirrors.binder? hframe hname
  cases hscope : t.world.store.binder? frame name with
  | none =>
      rw [hscope] at hbinder
      have hassigned : t.world.store.assign frame name value = (false, t.world.store) := by
        rw [Store.assign_eq, hscope]
      have hassigned' : t.copy.assign (r.frame frame) name (value.rename r) = (false, t.copy) := by
        rw [Store.assign_eq, hbinder]
        rfl
      exact .modifyGet t .refl (congrArg Prod.snd hassigned) (congrArg Prod.snd hassigned')
        ((congrArg Prod.fst hassigned').trans (congrArg Prod.fst hassigned).symm) trivial
  | some scope =>
      rw [hscope] at hbinder
      obtain ⟨hheld, hbinds⟩ := World.binder?_mem hframe hscope
      have hassigned : t.world.store.assign frame name value =
          (true, t.world.store.define scope name value) := by
        rw [Store.assign_eq, hscope]
      have hassigned' : t.copy.assign (r.frame frame) name (value.rename r) =
          (true, t.copy.define (r.frame scope) name (value.rename r)) := by
        rw [Store.assign_eq, hbinder]
        rfl
      let bound : Twins given r instead also :=
        ⟨_, _, t.mirrors.bind scope (t.mirrors.instead_eq_none hname scope) hvalue⟩
      have hchange : Change t.world bound.world := .assign hassign hheld hbinds hname hvalue
      exact .modifyGet bound (.single hchange) (congrArg Prod.snd hassigned)
        (congrArg Prod.snd hassigned')
        ((congrArg Prod.fst hassigned').trans (congrArg Prod.fst hassigned).symm) trivial

theorem lockstep_evalAssign
    (hev : Parallel given r instead also ev)
    (hframe : frame ∈ t.world.homes)
    (hassign : .primitive (.special .assign) ∈ t.world.items)
    (hoperands : t.world.HasAll operands) :
    Lockstep t (Value.rename r) (evalAssign ev operands frame)
      (evalAssign ev (operands.map (Value.rename r)) (r.frame frame)) World.Has := by
  refine .bind (lockstep_operand hoperands 0) ?_
  intro t₁ target h₁ htarget
  cases target with
  | sym name =>
      refine .bind (lockstep_operand (h₁.hasAll hoperands) 1) ?_
      intro t₂ expression h₂ hexpression
      have h₁₂ := h₁.trans h₂
      refine .bind (hev hexpression (h₁₂.homes_subset hframe)) ?_
      intro t₃ value h₃ hvalue
      have h₁₃ := h₁₂.trans h₃
      have hheld := t₃.world.homes_held (h₁₃.homes_subset hframe)
      have hname := (h₂.trans h₃).items_subset (htarget _ rfl)
      refine .andThen (lockstep_assignment hheld (h₁₃.items_subset hassign) hname hvalue) ?_
      intro t₄ found h₄
      cases found with
      | true => exact .pure rfl (h₄.has hvalue)
      | false => exact .fail
  | _ => exact .fail

theorem lockstep_evalLambda
    (hframe : frame ∈ t.world.homes)
    (hoperands : t.world.HasAll operands) :
    Lockstep t (Value.rename r) (evalLambda operands frame)
      (evalLambda (operands.map (Value.rename r)) (r.frame frame)) World.Has := by
  refine .bind (lockstep_operand hoperands 0) ?_
  intro t₁ signature h₁ hsignature
  refine .get ?_
  rw [t₁.mirrors.isList hsignature]
  split
  · refine .bind (lockstep_elements hsignature) ?_
    intro t₂ names h₂ _
    refine .andThen (lockstep_convert toNames_rename) ?_
    intro t₃ parameters h₃
    have h₁₃ := h₁.trans (h₂.trans h₃)
    refine .bind (lockstep_operandsFrom (h₁₃.hasAll hoperands) 1) ?_
    intro t₄ body h₄ hbody
    exact lockstep_newClosure ((h₁₃.trans h₄).homes_subset hframe) hbody
  · rw [Value.describe_rename]
    exact .fail

theorem SpecialForm.lockstep_apply
    {form : SpecialForm}
    (hev : Parallel given r instead also ev)
    (hform : .primitive (.special form) ∈ t.world.items)
    (hframe : frame ∈ t.world.homes)
    (hoperands : t.world.HasAll operands) :
    Lockstep t (Value.rename r) (form.apply ev operands frame)
      (form.apply ev (operands.map (Value.rename r)) (r.frame frame)) World.Has := by
  cases form with
  | branch => exact lockstep_evalBranch hev hframe hoperands
  | define => exact lockstep_evalDefine hev hframe hform hoperands
  | assign => exact lockstep_evalAssign hev hframe hform hoperands
  | lambda => exact lockstep_evalLambda hframe hoperands

theorem Primitive.lockstep_apply
    {primitive : Primitive}
    (hev : Parallel given r instead also ev)
    (hprimitive : .primitive primitive ∈ t.world.items)
    (hframe : frame ∈ t.world.homes)
    (hoperands : t.world.HasAll operands) :
    Lockstep t (Value.rename r) (primitive.apply ev operands frame)
      (primitive.apply ev (operands.map (Value.rename r)) (r.frame frame)) World.Has := by
  unfold Primitive.apply
  rw [List.length_map]
  split
  · cases primitive with
    | strict procedure =>
        refine .bind (lockstep_evalAll hev hframe hoperands) ?_
        intro t₁ arguments h₁ harguments
        exact Strict.lockstep_apply (h₁.items_subset hprimitive) harguments
    | comparison relation => exact Comparison.lockstep_apply hev hframe hoperands
    | connective junction =>
        cases junction <;> exact Connective.lockstep_apply hev hframe (World.has_bool _) hoperands
    | negation =>
        refine .bind (lockstep_operand hoperands 0) ?_
        intro t₁ value _ _
        exact .pure (by rw [Value.isTrue_rename]; rfl) (World.has_bool _)
    | quote => exact lockstep_operand hoperands 0
    | list =>
        obtain ⟨w', hchanges, hstore, hhas, hmirrors, hvalue⟩ :=
          t.mirrors.exists_newChain hoperands World.has_nil
        exact .modifyGet ⟨w', _, hmirrors⟩ hchanges hstore rfl hvalue hhas
    | special form => exact SpecialForm.lockstep_apply hev hprimitive hframe hoperands
  · exact .fail

theorem lockstep_newFrame
    {parent : FrameId}
    (hparent : .frame parent ∈ t.world.items) :
    Lockstep t r.frame (modifyGet (Store.newFrame ⟨some parent, []⟩))
      (modifyGet (Store.newFrame ⟨some (r.frame parent), []⟩)) fun w' scope =>
        scope ∈ w'.calls ∧ scope ∈ w'.homes := by
  let made : Frame := ⟨some parent, []⟩
  have hinside : ∀ other, made.parent = some other → .frame other ∈ t.world.items :=
    fun other h => Option.some.inj h ▸ hparent
  have hrenamed : made.RenamedTo r (fun _ => none) ⟨some (r.frame parent), []⟩ := ⟨rfl, fun _ => rfl⟩
  let after : Twins given r instead also := ⟨_, _, t.mirrors.newFrame hrenamed rfl hinside nofun⟩
  have hmade : Change t.world after.world := .newFrame ⟨parent, rfl⟩ hinside nofun
  refine .modifyGet after (.single hmade) rfl rfl ?_ ⟨.inr rfl, .inr rfl⟩
  show (⟨t.copy.frames.size⟩ : FrameId) = ⟨r.frames t.world.store.frames.size⟩
  rw [t.mirrors.frames_next.at_size]

theorem lockstep_bindInTurn
    {scope : FrameId}
    {entries : List (String × Value)}
    (hev : Parallel given r instead also ev)
    (hframe : frame ∈ t.world.homes)
    (hcall : scope ∈ t.world.calls)
    (hscope : scope ∈ t.world.homes)
    (hentries : ∀ entry ∈ entries, t.world.Has entry.2) :
    Lockstep t id (bindInTurn ev frame scope entries)
      (bindInTurn ev (r.frame frame) (r.frame scope) (renameBindings r entries)) fun _ _ => True := by
  induction entries generalizing t with
  | nil => exact .pure rfl trivial
  | cons entry entries ih =>
      obtain ⟨hentry, hrest⟩ := List.forall_mem_cons.mp hentries
      refine .bind (hev hentry hframe) ?_
      intro t₁ argument h₁ hargument
      have hcall₁ := h₁.calls_subset hcall
      let filled : Twins given r instead also :=
        ⟨_, _, t₁.mirrors.bind scope (t₁.mirrors.instead_call_eq_none hcall₁ entry.1) hargument⟩
      have hfill : Change t₁.world filled.world := .fill hcall₁ (h₁.homes_subset hscope) hargument
      refine .andThen (.modify filled (.single hfill) rfl rfl trivial) ?_
      intro t₂ _ h₂
      have h₁₂ := h₁.trans h₂
      exact ih (h₁₂.homes_subset hframe) (h₁₂.calls_subset hcall) (h₁₂.homes_subset hscope)
        fun other hother => h₁₂.has (hrest other hother)

theorem Closure.lockstep_apply
    {closure : Closure}
    (hev : Parallel given r instead also ev)
    (hbody : t.world.HasAll closure.body)
    (hcaptured : .frame closure.frame ∈ t.world.items)
    (hframe : frame ∈ t.world.homes)
    (hoperands : t.world.HasAll operands) :
    Lockstep t (Value.rename r) (closure.apply ev operands frame)
      ((closure.rename r).apply ev (operands.map (Value.rename r)) (r.frame frame)) World.Has := by
  have hiff : (operands.map (Value.rename r)).length = (closure.rename r).parameters.length ↔
      operands.length = closure.parameters.length := by
    rw [List.length_map]
    rfl
  by_cases hcount : operands.length = closure.parameters.length
  · rw [Closure.apply, if_pos hcount, Closure.apply, if_pos (hiff.mpr hcount)]
    refine .bind (lockstep_newFrame hcaptured) ?_
    intro t₁ scope h₁ ⟨hcall, hscope⟩
    rw [List.zip_map_right]
    refine .andThen (lockstep_bindInTurn hev (h₁.homes_subset hframe) hcall hscope ?_) ?_
    · intro entry hentry
      exact h₁.has (hoperands _ (List.of_mem_zip hentry).2)
    · intro t₂ _ h₂
      exact lockstep_evalBody hev (h₂.homes_subset hscope) World.has_nil
        ((h₁.trans h₂).hasAll hbody)
  · rw [Closure.apply, if_neg hcount, Closure.apply, if_neg (mt hiff.mp hcount), List.length_map]
    exact .fail

theorem lockstep_applyValue
    {procedure : Value}
    (hev : Parallel given r instead also ev)
    (hprocedure : t.world.Has procedure)
    (hframe : frame ∈ t.world.homes)
    (hoperands : t.world.HasAll operands) :
    Lockstep t (Value.rename r) (applyValue ev procedure operands frame)
      (applyValue ev (procedure.rename r) (operands.map (Value.rename r)) (r.frame frame))
      World.Has := by
  cases procedure with
  | primitive primitive => exact Primitive.lockstep_apply hev (hprocedure _ rfl) hframe hoperands
  | closure id =>
      have hid := hprocedure _ rfl
      refine .get ?_
      rw [t.mirrors.closure hid]
      refine Closure.lockstep_apply hev ?_ (t.world.closed hid (.captured id)) hframe hoperands
      intro value hvalue _ hitem
      exact t.world.closed hid (.body hvalue hitem)
  | _ => exact .fail

/-- Names are found alike. Only the depth of a line that does not end is not. -/
theorem lockstep_variable
    {name : String}
    (hname : .symbol name ∈ t.world.items)
    (hframe : .frame frame ∈ t.world.items) :
    Lockstep t (Value.rename r) (evalStep ev (.sym name) frame)
      (evalStep ev (.sym name) (r.frame frame)) World.Has := by
  refine .get ?_
  rw [t.mirrors.lookup hframe hname]
  cases hvalue : t.world.store.lookup frame name with
  | some value => exact .pure rfl (World.has_of_lookup hframe hvalue)
  | none =>
      refine ⟨t, .refl, rfl, rfl, ?_⟩
      by_cases hends : t.copy.frames.size = t.world.store.frames.size ∨ t.world.store.LineEnds frame
      · exact .inl (by rw [t.mirrors.depth hframe hends])
      · obtain ⟨hsize, hcircle⟩ := not_or.mp hends
        exact .inr ⟨hsize, name, frame, hcircle, rfl⟩

theorem lockstep_evalStep
    {expression : Value}
    (hev : Parallel given r instead also ev)
    (hexpression : t.world.Has expression)
    (hframe : frame ∈ t.world.homes) :
    Lockstep t (Value.rename r) (evalStep ev expression frame)
      (evalStep ev (expression.rename r) (r.frame frame)) World.Has := by
  cases expression with
  | nil => exact .fail
  | int number => exact .pure rfl hexpression
  | bool truth => exact .pure rfl hexpression
  | sym name => exact lockstep_variable (hexpression _ rfl) (t.world.homes_held hframe)
  | pair id =>
      have hid := World.pair_mem hexpression
      refine .get ?_
      rw [t.mirrors.pair hid]
      refine .bind (hev (World.has_first hid) hframe) ?_
      intro t₁ procedure h₁ hprocedure
      refine .bind (lockstep_elements (h₁.has (World.has_second hid))) ?_
      intro t₂ operands h₂ hoperands
      exact lockstep_applyValue hev (h₂.has hprocedure) ((h₁.trans h₂).homes_subset hframe) hoperands
  | closure id => exact .fail
  | primitive primitive => exact .fail

end Evaluators

/-- Evaluation with any fuel is parallel. -/
theorem eval_parallel (fuel : Nat) : Parallel given r instead also (eval fuel) := by
  induction fuel with
  | zero => exact fun _ _ => .throw
  | succ fuel ih => exact lockstep_evalStep ih

end SmallLisp
