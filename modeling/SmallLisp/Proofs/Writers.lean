import SmallLisp.Proofs.Locality
import SmallLisp.Proofs.Presence

/-!
# Code that cannot write

Four primitives change what is already in the store: the one that defines, the one that assigns and the two
that overwrite a slot of a pair. Code that reaches none of them makes new objects and changes no others.
Since code comes to reach primitives only by being given them, this goes on however long it runs and
whatever it calls. The main result is `without_writers_the_store_only_grows`.
-/

namespace SmallLisp

/-- Whether a primitive changes what is already in the store. -/
def Primitive.writes : Primitive → Bool
  | strict .setCar => true
  | strict .setCdr => true
  | special .define => true
  | special .assign => true
  | _ => false

/-- Code without a writing primitive. -/
def withoutWriters (p : Primitive) : Bool :=
  !p.writes

theorem withoutWriters_ne_true
    {p : Primitive}
    (hp : p.writes = true) :
    withoutWriters p ≠ true := by
  simp [withoutWriters, hp]

section Changes

variable {w w' : World withoutWriters}

theorem World.not_mem_of_writes
    {p : Primitive}
    (hp : p.writes = true) :
    .primitive p ∉ w.items :=
  fun hmem => withoutWriters_ne_true hp (w.primitive_given hmem)

/-- Without a writing primitive a change makes an object, or it binds a parameter in the frame of a call. -/
theorem Change.same_of_withoutWriters
    (h : Change w w')
    {item : Item}
    (hpresent : item.PresentIn w.store)
    (hcall : ∀ id ∈ w.calls, item ≠ .frame id) :
    item.SameIn w.store w'.store := by
  cases h with
  | newPair hfirst hsecond =>
      cases item with
      | pair id => exact (Store.pair_newPair _ _ _ id).trans (if_neg (Nat.ne_of_lt hpresent))
      | _ => trivial
  | newClosure =>
      cases item with
      | closure id => exact (Store.closure_newClosure _ _ id).trans (if_neg (Nat.ne_of_lt hpresent))
      | _ => trivial
  | newFrame =>
      cases item with
      | frame id => exact (Store.frame_newFrame _ _ id).trans (if_neg (Nat.ne_of_lt hpresent))
      | _ => trivial
  | setFirst hsetter => exact (World.not_mem_of_writes rfl hsetter).elim
  | setSecond hsetter => exact (World.not_mem_of_writes rfl hsetter).elim
  | define hdefine => exact (World.not_mem_of_writes rfl hdefine).elim
  | assign hassign => exact (World.not_mem_of_writes rfl hassign).elim
  | @fill changed name value hchanged =>
      cases item with
      | frame id =>
          rcases w.store.frame_define_cases changed id name value with hsame | ⟨rfl, -⟩
          · exact hsame
          · exact (hcall id hchanged rfl).elim
      | primitive p => trivial
      | symbol name => trivial
      | _ => rfl

/-- Without a writing primitive what is there stays as it is. Frames of calls that are there may still be
filled. -/
theorem Changes.same_of_withoutWriters
    (h : Changes w w')
    {item : Item}
    (hpresent : item.PresentIn w.store)
    (hcall : ∀ id ∈ w.calls, item ≠ .frame id) :
    item.SameIn w.store w'.store := by
  induction h with
  | refl => cases item <;> trivial
  | @tail middle _ hfirst hlast ih =>
      refine ih.trans (hlast.same_of_withoutWriters (hpresent.mono (Changes.grows hfirst)) ?_)
      rintro id hmiddle rfl
      rcases Changes.call_or_new hfirst hmiddle with hold | hnew
      · exact hcall id hold rfl
      · exact Nat.not_lt_of_le hnew hpresent

end Changes

/-- Code that reaches no writing primitive leaves every object as it was: evaluating an expression in a frame
makes new objects only, and afterwards a writing primitive is reached neither from the expression and the
frame nor from the value. -/
theorem without_writers_the_store_only_grows
    (fuel : Nat)
    (store : Store)
    (expression : Value)
    (frame : FrameId)
    (h : ∀ p, p.writes = true → ¬store.ReachedFrom expression frame (.primitive p)) :
    let ending := outcome (eval fuel expression frame) store
    store.Grows ending.2 ∧
      (∀ id, id.index < store.pairs.size → ending.2.pair id = store.pair id) ∧
      (∀ id, id.index < store.closures.size → ending.2.closure id = store.closure id) ∧
      (∀ id, id.index < store.frames.size → ending.2.frame id = store.frame id) ∧
      ∀ p, p.writes = true →
        ¬ending.2.ReachedFrom expression frame (.primitive p) ∧
        ∀ value, ending.1 = .ok value → ¬ending.2.ReachedFromValue value (.primitive p) := by
  intro ending
  have hgiven : ∀ p, store.ReachedFrom expression frame (.primitive p) → withoutWriters p = true := by
    intro p hreached
    cases hp : p.writes with
    | true => exact (h p hp hreached).elim
    | false => simp [withoutWriters, hp]
  let w : World withoutWriters := .reached store expression frame hgiven
  have hexpression : w.Has expression := fun item hitem => .inl ⟨item, hitem, .refl⟩
  have hframe : frame ∈ w.homes := Set.mem_singleton frame
  obtain ⟨w', hchanges, hstore, hend⟩ := eval_confined fuel hexpression hframe
  change ending.2 = w'.store at hstore
  rw [hstore]
  have hsame : ∀ item : Item, item.PresentIn store → item.SameIn store w'.store :=
    fun _ hpresent => hchanges.same_of_withoutWriters hpresent nofun
  refine ⟨hchanges.grows, ?_, ?_, ?_, ?_⟩
  · intro id hid
    exact hsame (.pair id) hid
  · intro id hid
    exact hsame (.closure id) hid
  · intro id hid
    exact hsame (.frame id) hid
  · intro p hp
    have hnot : .primitive p ∉ w'.items := World.not_mem_of_writes hp
    constructor
    · intro hreached
      exact hnot (World.mem_of_reachedFrom (hchanges.has hexpression)
        (w'.homes_held (hchanges.homes_subset hframe)) hreached)
    · intro value hvalue hreached
      have hok : (outcome (eval fuel expression frame) w.store).1 = .ok value := hvalue
      rw [hok] at hend
      exact hnot (World.mem_of_reachedFromValue hend hreached)

/-- The call `(f 7)` of a closure that makes a pair, where only the primitive for making pairs is bound. -/
def callerStore : Store where
  pairs := #[
    ⟨.sym "f", .pair ⟨1⟩⟩, ⟨.int 7, .nil⟩,
    ⟨.sym "cons", .pair ⟨3⟩⟩, ⟨.sym "x", .pair ⟨4⟩⟩, ⟨.sym "x", .nil⟩]
  closures := #[⟨["x"], [.pair ⟨2⟩], ⟨0⟩⟩]
  frames := #[⟨none, [("cons", .primitive (.strict .cons)), ("f", .closure ⟨0⟩)]⟩]

/-- There are three names in the call, and no writing primitive. -/
def occursInCall : Item → Bool
  | .symbol name => ["f", "cons", "x"].contains name
  | .primitive p => withoutWriters p
  | _ => true

theorem occursInCall_of_link
    {item next : Item}
    (h : callerStore.Link item next) :
    occursInCall next = true := by
  cases h with
  | @first id _ h =>
      match id with
      | ⟨0⟩ | ⟨2⟩ | ⟨3⟩ | ⟨4⟩ =>
          cases h
          rfl
      | ⟨1⟩ | ⟨_ + 5⟩ => cases h
  | @second id _ h =>
      match id with
      | ⟨0⟩ | ⟨2⟩ | ⟨3⟩ =>
          cases h
          rfl
      | ⟨1⟩ | ⟨4⟩ | ⟨_ + 5⟩ => cases h
  | @body id value _ hbody h =>
      match id with
      | ⟨0⟩ =>
          cases List.mem_singleton.mp hbody
          cases h
          rfl
      | ⟨_ + 1⟩ => cases hbody
  | captured | parent => rfl
  | @bound id name value _ hbound h =>
      match id with
      | ⟨0⟩ =>
          change List.lookup name [("cons", _), ("f", _)] = some value at hbound
          simp only [List.lookup_cons] at hbound
          split at hbound
          · cases hbound
            cases h
            rfl
          · split at hbound <;> cases hbound
            cases h
            rfl
      | ⟨_ + 1⟩ => cases hbound

theorem not_writes_of_reached_callerStore
    (p : Primitive)
    (hp : p.writes = true) :
    ¬callerStore.ReachedFrom (.pair ⟨0⟩) ⟨0⟩ (.primitive p) := by
  refine Store.not_reachedFrom nofun nofun ?_
  intro item h
  exact withoutWriters_ne_true hp (occursInCall_of_link h)

theorem without_writers_the_store_only_grows_at_a_call :
    (∀ p, p.writes = true → ¬callerStore.ReachedFrom (.pair ⟨0⟩) ⟨0⟩ (.primitive p)) ∧
      let ending := outcome (eval 3 (.pair ⟨0⟩) ⟨0⟩) callerStore
      ending.1 = .ok (.pair ⟨5⟩) ∧
        ending.2.pair ⟨5⟩ = ⟨.int 7, .int 7⟩ ∧
        ending.2.frame ⟨1⟩ = ⟨some ⟨0⟩, [("x", .int 7)]⟩ ∧
        ∀ id, id.index < 5 → ending.2.pair id = callerStore.pair id := by
  refine ⟨not_writes_of_reached_callerStore, by decide, by decide, by decide, ?_⟩
  obtain ⟨-, hpairs, -⟩ := without_writers_the_store_only_grows 3 callerStore (.pair ⟨0⟩) ⟨0⟩
    not_writes_of_reached_callerStore
  exact hpairs

end SmallLisp
