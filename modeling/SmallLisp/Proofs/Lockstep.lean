import SmallLisp.Proofs.Mirrors
import SmallLisp.Proofs.Within

/-!
# Evaluations in lockstep

Two evaluations that start from stores that look alike run in lockstep if they make the same changes to both
of them and end alike: with the same value under new identities, or with the same halt. There is one thing
that may tell the stores apart. A line of frames that runs in a circle has no depth; the number of frames is
reported instead.

* `Lockstep` says this of two evaluations;
* its rules follow the ways in which evaluations are put together, as those of `Within` do.
-/

namespace SmallLisp

/-- A world, and a store that looks like its store. -/
structure Twins
    (given : Primitive → Bool)
    (r : Renaming)
    (instead : FrameId → String → Option Value)
    (also : Set Item) where
  world : World given
  copy : Store
  mirrors : Mirrors r instead also world copy

/-- What is reported is a depth along a line of frames that does not end. -/
def Store.Circles (store : Store) (halt : Halt) : Prop :=
  ∃ name id, ¬store.LineEnds id ∧ halt = (Fault.unboundVariable name (store.depth id)).halt

variable
  {given : Primitive → Bool}
  {r : Renaming}
  {instead : FrameId → String → Option Value}
  {also : Set Item}

/-- Evaluations halt alike, unless they report depths in stores with different numbers of frames. -/
def Twins.HaltAlike (t : Twins given r instead also) (halt halt' : Halt) : Prop :=
  halt' = halt ∨ t.copy.frames.size ≠ t.world.store.frames.size ∧ t.world.store.Circles halt

/-- Two evaluations have ended alike: the value of the first one, for which `post` holds, has the value of the
second one as its image. -/
def Twins.EndAlike
    {α β : Type}
    (t : Twins given r instead also)
    (image : α → β)
    (post : World given → α → Prop) :
    Except Halt α → Except Halt β → Prop
  | .ok value, .ok value' => value' = image value ∧ post t.world value
  | .error halt, .error halt' => t.HaltAlike halt halt'
  | _, _ => False

/-- The second evaluation does to the copy what the first one does in the world, and they end alike. -/
def Lockstep
    {α β : Type}
    (t : Twins given r instead also)
    (image : α → β)
    (run : EvalM α)
    (run' : EvalM β)
    (post : World given → α → Prop) :
    Prop :=
  ∃ t' : Twins given r instead also,
    Changes t.world t'.world ∧
    (outcome run t.world.store).2 = t'.world.store ∧
    (outcome run' t.copy).2 = t'.copy ∧
    t'.EndAlike image post (outcome run t.world.store).1 (outcome run' t.copy).1

/-- Unless a depth is reported along a line that does not end, what the second evaluation ends with is the
image of what the first one ends with. -/
theorem Twins.EndAlike.eq_map
    {α β : Type}
    {t : Twins given r instead also}
    {image : α → β}
    {post : World given → α → Prop}
    {result : Except Halt α}
    {result' : Except Halt β}
    (h : t.EndAlike image post result result')
    (hdepth : t.copy.frames.size = t.world.store.frames.size ∨
      ∀ halt, result = .error halt → ¬t.world.store.Circles halt) :
    result' = result.map image := by
  cases result with
  | ok value =>
      cases result' with
      | ok value' => exact congrArg Except.ok h.1
      | error halt' => exact h.elim
  | error halt =>
      cases result' with
      | ok value' => exact h.elim
      | error halt' =>
          rcases h with rfl | ⟨hsize, hcircles⟩
          · rfl
          · rcases hdepth with hsame | hdepth
            · exact (hsize hsame).elim
            · exact (hdepth halt rfl hcircles).elim

theorem Twins.EndAlike.post
    {α β : Type}
    {t : Twins given r instead also}
    {image : α → β}
    {post : World given → α → Prop}
    {result : Except Halt α}
    {result' : Except Halt β}
    (h : t.EndAlike image post result result')
    {value : α}
    (hvalue : result = .ok value) :
    post t.world value := by
  subst hvalue
  cases result' with
  | ok value' => exact h.2
  | error halt' => exact h.elim

namespace Lockstep

variable
  {α α' β β' : Type}
  {t : Twins given r instead also}
  {image : α → α'}
  {post : World given → α → Prop}

theorem pure
    {value : α}
    {value' : α'}
    (himage : value' = image value)
    (h : post t.world value) :
    Lockstep t image (Pure.pure value) (Pure.pure value') post :=
  ⟨t, .refl, rfl, rfl, himage, h⟩

theorem fail {fault : Fault} : Lockstep t image (SmallLisp.fail fault) (SmallLisp.fail fault) post :=
  ⟨t, .refl, rfl, rfl, .inl rfl⟩

theorem throw {halt : Halt} : Lockstep t image (MonadExcept.throw halt) (MonadExcept.throw halt) post :=
  ⟨t, .refl, rfl, rfl, .inl rfl⟩

/-- Two evaluations in two parts: the second parts start from where the first ones lead. -/
theorem bind
    {first : β → β'}
    {run : EvalM β}
    {run' : EvalM β'}
    {next : β → EvalM α}
    {next' : β' → EvalM α'}
    {middle : World given → β → Prop}
    (hrun : Lockstep t first run run' middle)
    (hnext : ∀ (t' : Twins given r instead also) value,
      Changes t.world t'.world → middle t'.world value →
        Lockstep t' image (next value) (next' (first value)) post) :
    Lockstep t image (run >>= next) (run' >>= next') post := by
  obtain ⟨t', hchanges, hstore, hcopy, hend⟩ := hrun
  rcases hout : outcome run t.world.store with ⟨result, store⟩
  rcases hout' : outcome run' t.copy with ⟨result', copy⟩
  rw [hout] at hstore hend
  rw [hout'] at hcopy hend
  obtain rfl : store = t'.world.store := hstore
  obtain rfl : copy = t'.copy := hcopy
  cases result with
  | ok value =>
      cases result' with
      | ok value' =>
          obtain ⟨rfl, hmiddle⟩ := hend
          obtain ⟨t'', hchanges', hstore', hcopy', hend'⟩ := hnext t' value hchanges hmiddle
          refine ⟨t'', hchanges.trans hchanges', ?_, ?_, ?_⟩
          · rw [outcome_bind, hout]
            exact hstore'
          · rw [outcome_bind, hout']
            exact hcopy'
          · rw [outcome_bind, hout, outcome_bind, hout']
            exact hend'
      | error halt' => exact hend.elim
  | error halt =>
      cases result' with
      | ok value' => exact hend.elim
      | error halt' =>
          refine ⟨t', hchanges, ?_, ?_, ?_⟩
          · rw [outcome_bind, hout]
          · rw [outcome_bind, hout']
          · rw [outcome_bind, hout, outcome_bind, hout']
            exact hend

/-- Two evaluations in two parts, where nothing needs to be known about the values of the first ones. -/
theorem andThen
    {first : β → β'}
    {run : EvalM β}
    {run' : EvalM β'}
    {next : β → EvalM α}
    {next' : β' → EvalM α'}
    (hrun : Lockstep t first run run' fun _ _ => True)
    (hnext : ∀ (t' : Twins given r instead also) value,
      Changes t.world t'.world → Lockstep t' image (next value) (next' (first value)) post) :
    Lockstep t image (run >>= next) (run' >>= next') post :=
  .bind hrun fun t' value hchanges _ => hnext t' value hchanges

/-- Two evaluations that look at the stores. -/
theorem get
    {next : Store → EvalM α}
    {next' : Store → EvalM α'}
    (h : Lockstep t image (next t.world.store) (next' t.copy) post) :
    Lockstep t image (MonadState.get >>= next) (MonadState.get >>= next') post := by
  obtain ⟨t', hchanges, hstore, hcopy, hend⟩ := h
  refine ⟨t', hchanges, ?_, ?_, ?_⟩
  · rw [outcome_bind, outcome_get]
    exact hstore
  · rw [outcome_bind, outcome_get]
    exact hcopy
  · rw [outcome_bind, outcome_get, outcome_bind, outcome_get]
    exact hend

/-- Two evaluations that make changes and give a value. -/
theorem modifyGet
    {make : Store → α × Store}
    {make' : Store → α' × Store}
    (t' : Twins given r instead also)
    (hchanges : Changes t.world t'.world)
    (hstore : (make t.world.store).2 = t'.world.store)
    (hcopy : (make' t.copy).2 = t'.copy)
    (himage : (make' t.copy).1 = image (make t.world.store).1)
    (h : post t'.world (make t.world.store).1) :
    Lockstep t image (MonadStateOf.modifyGet make) (MonadStateOf.modifyGet make') post :=
  ⟨t', hchanges, hstore, hcopy, himage, h⟩

/-- Two evaluations that make changes. -/
theorem modify
    {change change' : Store → Store}
    {post : World given → Unit → Prop}
    (t' : Twins given r instead also)
    (hchanges : Changes t.world t'.world)
    (hstore : change t.world.store = t'.world.store)
    (hcopy : change' t.copy = t'.copy)
    (h : post t'.world ()) :
    Lockstep t id (modify change) (modify change') post :=
  ⟨t', hchanges, hstore, hcopy, rfl, h⟩

/-- Results that need no store. -/
theorem lift
    {result : Except Halt α}
    {result' : Except Halt α'}
    (himage : result' = result.map image)
    (hpost : ∀ value, result = .ok value → post t.world value) :
    Lockstep t image (liftM result) (liftM result') post := by
  subst himage
  refine ⟨t, .refl, rfl, rfl, ?_⟩
  cases result with
  | ok value => exact ⟨rfl, hpost value rfl⟩
  | error halt => exact .inl rfl

end Lockstep

end SmallLisp
