import SmallLisp.Proofs.Confinement
import SmallLisp.Proofs.Presence

/-!
# Evaluation is local

An expression that is evaluated in a frame can be affected by, and can affect, only what is reached from
the two. The main result is `eval_is_local`. It looks at evaluation with any fuel, so at evaluations that
end with a value, that fail, and that do not finish.

The world in which an evaluation starts holds what is reached from the expression and the frame, and
names may be bound in that frame only.
-/

namespace SmallLisp

variable {given : Primitive → Bool}

/-- The world of code that evaluates an expression in a frame. -/
def World.reached
    (store : Store)
    (expression : Value)
    (frame : FrameId)
    (hgiven : ∀ p, store.ReachedFrom expression frame (.primitive p) → given p = true) :
    World given where
  store := store
  items := {item | store.ReachedFrom expression frame item}
  homes := {frame}
  closed := by
    rintro item next (⟨first, hfirst, hitem⟩ | hitem) hlink
    · exact .inl ⟨first, hfirst, hitem.tail hlink⟩
    · exact .inr (hitem.tail hlink)
  homes_held := by
    rintro _ rfl
    exact .inr .refl
  primitive_given h := hgiven _ h

/-- What is reached in a sound store from what is there is there. -/
theorem World.reached_present
    {store : Store}
    (hsound : store.Sound)
    {expression : Value}
    {frame : FrameId}
    (hexpression : store.Holds expression)
    (hframe : frame.index < store.frames.size)
    (hgiven : ∀ p, store.ReachedFrom expression frame (.primitive p) → given p = true) :
    (World.reached store expression frame hgiven).Present :=
  fun _ hitem => World.mem_of_reachedFrom (w := .everything store hsound hframe) hexpression hframe hitem

/-- Evaluating an expression in a frame leaves alone the pairs and the frames that are not reached from
the two. What is reached afterwards from them or from the value was reached before or is new. Primitives
are not new, and those that are not reached are never applied. -/
theorem eval_is_local
    (fuel : Nat)
    (store : Store)
    (expression : Value)
    (frame : FrameId) :
    let ending := outcome (eval fuel expression frame) store
    let ReachedAfterwards := fun item =>
      ending.2.ReachedFrom expression frame item ∨
        ∃ value, ending.1 = .ok value ∧ ending.2.ReachedFromValue value item
    store.Grows ending.2 ∧
      (∀ id, id.index < store.pairs.size →
        ¬store.ReachedFrom expression frame (.pair id) → ending.2.pair id = store.pair id) ∧
      (∀ id, id.index < store.frames.size →
        ¬store.ReachedFrom expression frame (.frame id) → ending.2.frame id = store.frame id) ∧
      (∀ item, ReachedAfterwards item →
        store.ReachedFrom expression frame item ∨ item.Made store ending.2) ∧
      (∀ p, ReachedAfterwards (.primitive p) → store.ReachedFrom expression frame (.primitive p)) ∧
      ∀ given : Primitive → Bool,
        (∀ p, store.ReachedFrom expression frame (.primitive p) → given p = true) →
          outcome (evalGiven given fuel expression frame) store = ending := by
  intro ending ReachedAfterwards
  let w : World fun _ => true := .reached store expression frame fun _ _ => rfl
  have hexpression : w.Has expression := fun item hitem => .inl ⟨item, hitem, .refl⟩
  obtain ⟨w', hchanges, hstore, hend⟩ := eval_confined fuel hexpression (Set.mem_singleton frame)
  change ending.2 = w'.store at hstore
  have hheld : ∀ item, ReachedAfterwards item → item ∈ w'.items := by
    rintro item ((⟨first, hfirst, hreaches⟩ | hreaches) | ⟨value, hvalue, first, hfirst, hreaches⟩) <;>
      rw [hstore] at hreaches
    · exact w'.reaches (hchanges.has hexpression first hfirst) hreaches
    · exact w'.reaches (w'.homes_held (hchanges.homes_subset (Set.mem_singleton frame))) hreaches
    · have hok : (outcome (eval fuel expression frame) w.store).1 = .ok value := hvalue
      rw [hok] at hend
      exact w'.reaches (hend first hfirst) hreaches
  refine ⟨?_, ?_, ?_, ?_, ?_, ?_⟩
  · exact hstore ▸ hchanges.grows
  · intro id hid hnot
    exact hstore ▸ hchanges.pair_eq hid hnot
  · intro id hid hnot
    exact hstore ▸ hchanges.frame_eq hid hnot
  · intro item hitem
    exact hstore ▸ hchanges.made (hheld item hitem)
  · intro p hp
    exact (hchanges.made (hheld _ hp)).resolve_right id
  · intro given hgiven
    let w : World given := .reached store expression frame hgiven
    have hexpression : w.Has expression := fun item hitem => .inl ⟨item, hitem, .refl⟩
    exact outcome_evalGiven fuel hexpression (Set.mem_singleton frame)

/-- The list `(set-car! a 1)`, the pair that `a` is bound to, and a pair that is not reached. -/
def setterStore : Store where
  pairs := #[
    ⟨.sym "set-car!", .pair ⟨1⟩⟩, ⟨.sym "a", .pair ⟨2⟩⟩, ⟨.int 1, .nil⟩,
    ⟨.nil, .nil⟩, ⟨.nil, .nil⟩]
  closures := #[]
  frames := #[⟨none, [("set-car!", .primitive (.strict .setCar)), ("a", .pair ⟨3⟩)]⟩]

theorem setterStore_not_reached :
    ¬setterStore.ReachedFrom (.pair ⟨0⟩) ⟨0⟩ (.pair ⟨4⟩) := by
  have hlink : ∀ item, ¬setterStore.Link item (.pair ⟨4⟩) := by
    intro item h
    cases h with
    | @first id _ h =>
        match id with
        | ⟨0⟩ | ⟨1⟩ | ⟨2⟩ | ⟨3⟩ | ⟨4⟩ | ⟨_ + 5⟩ => cases h
    | @second id _ h =>
        match id with
        | ⟨0⟩ | ⟨1⟩ | ⟨2⟩ | ⟨3⟩ | ⟨4⟩ | ⟨_ + 5⟩ => cases h
    | @body id _ _ hbody _ => cases hbody
    | @bound id name value _ hbound h =>
        match id with
        | ⟨0⟩ =>
            change List.lookup name [("set-car!", _), ("a", _)] = some value at hbound
            simp only [List.lookup_cons] at hbound
            split at hbound
            · cases hbound
              cases h
            · split at hbound <;> cases hbound
              cases h
        | ⟨_ + 1⟩ => cases hbound
  rintro (⟨first, hfirst, h⟩ | h)
  · cases hfirst
    rcases Relation.ReflTransGen.cases_tail h with h | ⟨item, -, h⟩
    · cases h
    · exact hlink item h
  · rcases Relation.ReflTransGen.cases_tail h with h | ⟨item, -, h⟩
    · cases h
    · exact hlink item h

theorem eval_is_local_at_a_setter :
    let ending := outcome (eval 2 (.pair ⟨0⟩) ⟨0⟩) setterStore
    ending.1 = .ok .nil ∧
      ending.2.pair ⟨3⟩ = ⟨.int 1, .nil⟩ ∧
      ending.2.pair ⟨4⟩ = setterStore.pair ⟨4⟩ := by
  refine ⟨by decide, by decide, ?_⟩
  obtain ⟨-, hpairs, -⟩ := eval_is_local 2 setterStore (.pair ⟨0⟩) ⟨0⟩
  exact hpairs ⟨4⟩ (by decide) setterStore_not_reached

end SmallLisp
