import SmallLisp.Proofs.Commuting
import SmallLisp.Proofs.Forest

/-!
# Sessions side by side

Two sessions may live in one store, each with a root frame of its own. Nothing that code of the one reaches is
reached by code of the other, so each of them is served as if it were alone, however their requests are
mixed.

* `SharedStore.serve` serves requests of both sessions in one store, `Session.serve` those of one session;
* `Follows` is the invariant: a session of its own keeps up with one of the two sessions;
* `Follows.serve` carries it through all requests;
* `evaluations_apart_commute` is the main result.
-/

namespace SmallLisp

/-- A form as text, for one of two sessions, and the fuel for evaluating it. -/
structure Request where
  side : Bool
  fuel : Nat
  text : String

/-- A store, and the root frames of two sessions in it. -/
structure SharedStore where
  store : Store
  root : Bool → FrameId

/-- The answers to requests that one session serves in order. -/
def Session.serve : List Request → Session → List Answer
  | [], _ => []
  | request :: requests, session =>
    match session.evaluate request.fuel request.text with
    | (answer, session) => answer :: serve requests session

namespace SharedStore

/-- Makes two root frames, both of which bind every primitive to its name. -/
def start (store : Store) : SharedStore :=
  match store.newFrame Frame.primitives with
  | (one, store) =>
    match store.newFrame Frame.primitives with
    | (other, store) => ⟨store, fun side => if side then other else one⟩

/-- One of the two sessions. -/
def session (shared : SharedStore) (side : Bool) : Session :=
  ⟨shared.store, shared.root side⟩

/-- The answers to requests that are served in order, each with the session that has made it. -/
def serve : List Request → SharedStore → List (Bool × Answer)
  | [], _ => []
  | request :: requests, shared =>
    match (shared.session request.side).evaluate request.fuel request.text with
    | (answer, session) => (request.side, answer) :: serve requests ⟨session.store, shared.root⟩

end SharedStore

/-- The requests that one of the sessions makes, in order. -/
def requestsOf (side : Bool) (requests : List Request) : List Request :=
  requests.filter fun request => request.side == side

/-- The answers that one of the sessions gets, in order. -/
def answersOf (side : Bool) (answers : List (Bool × Answer)) : List Answer :=
  (answers.filter fun answer => answer.1 == side).map Prod.snd

section Sides

variable {side : Bool} {request : Request}

theorem Session.serve_cons
    (requests : List Request)
    (session : Session) :
    session.serve (request :: requests) =
      (session.evaluate request.fuel request.text).1 ::
        (session.evaluate request.fuel request.text).2.serve requests :=
  rfl

theorem SharedStore.serve_cons
    (requests : List Request)
    (shared : SharedStore) :
    shared.serve (request :: requests) =
      (request.side, ((shared.session request.side).evaluate request.fuel request.text).1) ::
        SharedStore.serve requests
          ⟨((shared.session request.side).evaluate request.fuel request.text).2.store, shared.root⟩ :=
  rfl

theorem requestsOf_cons_self
    (requests : List Request) :
    requestsOf request.side (request :: requests) = request :: requestsOf request.side requests := by
  simp [requestsOf]

theorem requestsOf_cons_of_ne
    (h : request.side ≠ side)
    (requests : List Request) :
    requestsOf side (request :: requests) = requestsOf side requests := by
  simp [requestsOf, h]

theorem answersOf_cons_self
    (answer : Answer)
    (answers : List (Bool × Answer)) :
    answersOf side ((side, answer) :: answers) = answer :: answersOf side answers := by
  simp [answersOf]

theorem answersOf_cons_of_ne
    {other : Bool}
    (h : other ≠ side)
    (answer : Answer)
    (answers : List (Bool × Answer)) :
    answersOf side ((other, answer) :: answers) = answersOf side answers := by
  simp [answersOf, h]

end Sides

/-- A world in which the code of a session runs. Forms can bring any symbol with them. -/
structure World.Serves {given : Primitive → Bool} (w : World given) (session : Session) : Prop where
  store : w.store = session.store
  root : session.root ∈ w.homes
  names : ∀ name, .symbol name ∈ w.items
  present : w.Present

namespace World.Serves

variable {given : Primitive → Bool} {w : World given} {session : Session}

theorem evaluateForm
    (h : w.Serves session)
    (fuel : Nat)
    (form : Datum) :
    ∃ w', Changes w w' ∧ w'.Serves (session.evaluateForm fuel form).2 := by
  obtain ⟨w', hchanges, hstore, -⟩ :=
    Session.exists_changes_valueOf h.store h.root (fun name _ => h.names name) fuel
  rw [Session.evaluateForm_eq]
  exact ⟨w', hchanges, hstore.symm, hchanges.homes_subset h.root,
    fun name => hchanges.items_subset (h.names name), hchanges.present h.present⟩

theorem evaluate
    (h : w.Serves session)
    (fuel : Nat)
    (text : String) :
    ∃ w', Changes w w' ∧ w'.Serves (session.evaluate fuel text).2 := by
  unfold Session.evaluate
  cases readForm text with
  | error e => exact ⟨w, .refl, h⟩
  | ok form => exact h.evaluateForm fuel form

theorem moveTo
    (h : w.Serves session)
    {store : Store}
    (hgrows : w.store.Grows store)
    (hsame : ∀ item ∈ w.items, item.SameIn w.store store) :
    (w.moveTo store hsame).Serves ⟨store, session.root⟩ :=
  ⟨rfl, h.root, h.names, h.present.moveTo hgrows hsame⟩

end World.Serves

/-- A form has the same value in the store of a session and in a store that looks like it. -/
theorem Copies.exists_valueOf
    {r : Renaming}
    {w : World fun _ => true}
    {store : Store}
    (h : Copies r w store)
    {root : FrameId}
    (hroot : root ∈ w.homes)
    (hnames : ∀ name, .symbol name ∈ w.items)
    (fuel : Nat)
    (form : Datum) :
    ∃ t : Twins (fun _ => true) r (fun _ _ => none) ∅,
      Changes w t.world ∧
      (Session.valueOf fuel form ⟨w.store, root⟩).2 = t.world.store ∧
      (Session.valueOf fuel form ⟨store, r.frame root⟩).2 = t.copy ∧
      t.EndAlike (Value.rename r) World.Has (Session.valueOf fuel form ⟨w.store, root⟩).1
        (Session.valueOf fuel form ⟨store, r.frame root⟩).1 := by
  obtain ⟨w₁, h₁, hstore₁, hexpression, hcopies, hrename⟩ := h.exists_install form fun name _ => hnames name
  obtain ⟨t, h₂, hstore₂, hcopy, hend⟩ :=
    eval_parallel fuel (t := ⟨w₁, _, hcopies⟩) hexpression (h₁.homes_subset hroot)
  dsimp only at hstore₂ hcopy hend
  rw [← hrename] at hcopy hend
  rw [← hstore₁] at hstore₂ hend
  exact ⟨t, h₁.trans h₂, hstore₂, hcopy, hend⟩

/-- A form is evaluated alike in the store of a session and in a store that looks like it. -/
theorem Copies.evaluateForm
    {r : Renaming}
    {w : World fun _ => true}
    {store : Store}
    (h : Copies r w store)
    {alone : Session}
    (hserves : w.Serves alone)
    (hwellFormed : alone.WellFormed)
    (fuel : Nat)
    (form : Datum) :
    let after := (⟨store, r.frame alone.root⟩ : Session).evaluateForm fuel form
    after.1 = (alone.evaluateForm fuel form).1 ∧
      ∃ w', Changes w w' ∧ w'.Serves (alone.evaluateForm fuel form).2 ∧ Copies r w' after.2.store := by
  intro after
  obtain ⟨t, hchanges, hstore, hcopy, hend⟩ := h.exists_valueOf hserves.root hserves.names fuel form
  rw [hserves.store] at hstore hend
  have hforest : t.world.store.Forest := by
    have hafter := (hwellFormed.evaluateForm fuel form).1.forest
    rw [Session.evaluateForm_eq] at hafter
    exact hstore ▸ hafter
  have hresult := hend.eq_map <| .inr <| by
    rintro _ - ⟨name, id, hcircle, -⟩
    exact hcircle (hforest.lineEnds id)
  simp only [after, Session.evaluateForm_eq]
  refine ⟨?_, t.world, hchanges, ⟨hstore.symm, hchanges.homes_subset hserves.root,
    fun name => hchanges.items_subset (hserves.names name), hchanges.present hserves.present⟩, ?_⟩
  · rw [hcopy, hresult, hstore]
    exact t.mirrors.answer fun value => hend.post
  · rw [hcopy]
    exact t.mirrors

/-- A text is evaluated alike in the store of a session and in a store that looks like it. -/
theorem Copies.evaluate
    {r : Renaming}
    {w : World fun _ => true}
    {store : Store}
    (h : Copies r w store)
    {alone : Session}
    (hserves : w.Serves alone)
    (hwellFormed : alone.WellFormed)
    (fuel : Nat)
    (text : String) :
    let after := (⟨store, r.frame alone.root⟩ : Session).evaluate fuel text
    after.1 = (alone.evaluate fuel text).1 ∧
      ∃ w', Changes w w' ∧ w'.Serves (alone.evaluate fuel text).2 ∧ Copies r w' after.2.store := by
  unfold Session.evaluate
  cases readForm text with
  | error e => exact ⟨rfl, w, .refl, hserves, h⟩
  | ok form => exact h.evaluateForm hserves hwellFormed fuel form

namespace Session

variable (session : Session) (fuel : Nat) (text : String)

/-- A session keeps its root frame. -/
theorem snd_evaluate :
    (session.evaluate fuel text).2 = ⟨(session.evaluate fuel text).2.store, session.root⟩ := by
  unfold evaluate
  cases readForm text with
  | error e => rfl
  | ok form =>
      dsimp only
      rw [evaluateForm_eq]

theorem WellFormed.evaluate
    {session : Session}
    (h : session.WellFormed) :
    (session.evaluate fuel text).2.WellFormed := by
  unfold Session.evaluate
  cases readForm text with
  | error e => exact h
  | ok form => exact (h.evaluateForm fuel form).1

end Session

/-- A session of its own keeps up with one of two sessions in a shared store. Code of the session of its own
runs in `w`, code of the two sessions in `own` and in `others`. -/
structure Follows
    (alone : Session)
    (shared : SharedStore)
    (side : Bool)
    (r : Renaming)
    (w own others : World fun _ => true) :
    Prop where
  wellFormed : alone.WellFormed
  alone_serves : w.Serves alone
  own_serves : own.Serves (shared.session side)
  others_serves : others.Serves (shared.session !side)
  apart : own.Apart others
  copies : Copies r w shared.store
  root : r.frame alone.root = shared.root side
  image : ∀ item ∈ w.items, item.rename r ∈ own.items

namespace Follows

variable
  {alone : Session}
  {shared : SharedStore}
  {side : Bool}
  {r : Renaming}
  {w own others : World fun _ => true}
  (h : Follows alone shared side r w own others)
  (fuel : Nat)
  (text : String)

include h

/-- The session that is followed serves a request, and so does the session of its own. -/
theorem step_own :
    let after := (shared.session side).evaluate fuel text
    after.1 = (alone.evaluate fuel text).1 ∧
      ∃ w' own' others',
        Follows (alone.evaluate fuel text).2 ⟨after.2.store, shared.root⟩ side r w' own' others' := by
  intro after
  have hcopies := h.copies.evaluate h.alone_serves h.wellFormed fuel text
  rw [h.root] at hcopies
  obtain ⟨hanswer, w', hw', hwServes, hcopies⟩ := hcopies
  obtain ⟨own', hown', hownServes⟩ := h.own_serves.evaluate fuel text
  have hbase : own.store = others.store := h.own_serves.store.trans h.others_serves.store.symm
  have hsame := hown'.same_apart hbase h.others_serves.present h.apart
  have hothersServes := h.others_serves.moveTo (hbase ▸ hown'.grows) hsame
  have hapart : own'.Apart others := hown'.apart hbase h.others_serves.present h.apart
  have hmade : ∀ item : Item, item.Made w.store w'.store → (item.rename r).Made own.store own'.store := by
    intro item hmade
    rw [h.own_serves.store, hownServes.store]
    exact h.copies.made_rename hcopies hmade
  refine ⟨hanswer, w', own', others.moveTo own'.store hsame, ?_⟩
  exact
    { wellFormed := h.wellFormed.evaluate fuel text
      alone_serves := hwServes
      own_serves := (shared.session side).snd_evaluate fuel text ▸ hownServes
      others_serves := hownServes.store ▸ hothersServes
      apart := hapart
      copies := hcopies
      root := by
        rw [alone.snd_evaluate fuel text]
        exact h.root
      image := by
        intro item hitem
        rcases hw'.made hitem with hold | hnew
        · exact hown'.items_subset (h.image item hold)
        · exact hown'.holds_made (hmade item hnew) }

/-- The other session serves a request. -/
theorem step_others :
    let after := (shared.session !side).evaluate fuel text
    ∃ r' own' others', Follows alone ⟨after.2.store, shared.root⟩ side r' w own' others' := by
  intro after
  obtain ⟨others', hothers', hothersServes⟩ := h.others_serves.evaluate fuel text
  have hbase : others.store = own.store := h.others_serves.store.trans h.own_serves.store.symm
  have hsame := hothers'.same_apart hbase h.own_serves.present h.apart.symm
  have hownServes := h.own_serves.moveTo (hbase ▸ hothers'.grows) hsame
  have hapart : others'.Apart own := hothers'.apart hbase h.own_serves.present h.apart.symm
  have hgrows : shared.store.Grows after.2.store := by
    have hgrows := hothers'.grows
    rwa [h.others_serves.store, hothersServes.store] at hgrows
  obtain ⟨r', hagree, hcopies⟩ := h.copies.exists_rebase h.alone_serves.present hgrows <| by
    intro item hitem
    have hkept := hsame _ (h.image item hitem)
    rwa [h.own_serves.store, hothersServes.store] at hkept
  have hheld : ∀ item ∈ w.items, item.rename r' = item.rename r :=
    fun item hitem => hagree item (h.alone_serves.present item hitem)
  refine ⟨r', own.moveTo others'.store hsame, others', ?_⟩
  exact
    { wellFormed := h.wellFormed
      alone_serves := h.alone_serves
      own_serves := hothersServes.store ▸ hownServes
      others_serves := (shared.session !side).snd_evaluate fuel text ▸ hothersServes
      apart := hapart.symm
      copies := hcopies
      root := by
        have hframe := hheld _ (w.homes_held h.alone_serves.root)
        exact (Item.frame.inj hframe).trans h.root
      image := by
        intro item hitem
        rw [hheld item hitem]
        exact h.image item hitem }

end Follows

/-- Through all requests, the session that is followed gets the answers that the session of its own gives. -/
theorem Follows.serve
    {alone : Session}
    {shared : SharedStore}
    {side : Bool}
    {r : Renaming}
    {w own others : World fun _ => true}
    (h : Follows alone shared side r w own others)
    (requests : List Request) :
    answersOf side (shared.serve requests) = alone.serve (requestsOf side requests) := by
  induction requests generalizing alone shared r w own others with
  | nil => rfl
  | cons request requests ih =>
      rw [SharedStore.serve_cons]
      by_cases hside : request.side = side
      · subst hside
        obtain ⟨hanswer, w', own', others', hafter⟩ := h.step_own request.fuel request.text
        rw [answersOf_cons_self, requestsOf_cons_self, Session.serve_cons, hanswer, ih hafter]
      · obtain ⟨r', own', others', hafter⟩ := h.step_others request.fuel request.text
        rw [← Bool.eq_not_of_ne hside] at hafter
        rw [answersOf_cons_of_ne hside, requestsOf_cons_of_ne hside, ih hafter]

/-- The world of code that has got hold of a root frame that binds primitives only. -/
def World.room
    (store : Store)
    (root : FrameId)
    (hroot : store.frame root = Frame.primitives) :
    World fun _ => true where
  store := store
  items := {item | item.IsObject → item = .frame root}
  homes := {root}
  closed := by
    intro item next hitem hlink hobject
    cases hlink with
    | first | second | body | captured => cases hitem trivial
    | parent hparent =>
        cases hitem trivial
        rw [hroot] at hparent
        cases hparent
    | bound hbound hvalue =>
        cases hitem trivial
        rw [hroot] at hbound
        obtain ⟨p, rfl⟩ := Frame.exists_primitive_of_get? hbound
        cases hvalue
        exact hobject.elim
  homes_held := by
    rintro _ rfl _
    rfl
  primitive_given _ := rfl

theorem World.room_serves
    {store : Store}
    {root : FrameId}
    (hroot : store.frame root = Frame.primitives)
    (hpresent : root.index < store.frames.size) :
    (World.room store root hroot).Serves ⟨store, root⟩ where
  store := rfl
  root := Set.mem_singleton root
  names _ hobject := hobject.elim
  present := by
    intro item hitem
    cases item with
    | frame id =>
        cases hitem trivial
        exact hpresent
    | pair id => cases hitem trivial
    | closure id => cases hitem trivial
    | primitive p => trivial
    | symbol name => trivial

/-- Primitives have no identities that could be other ones. -/
theorem Frame.primitives_renamedTo (r : Renaming) :
    Frame.primitives.RenamedTo r (fun _ => none) Frame.primitives := by
  refine ⟨rfl, fun name => ?_⟩
  rw [Option.none_or]
  cases hvalue : Frame.primitives.get? name with
  | none => rfl
  | some value =>
      obtain ⟨p, rfl⟩ := Frame.exists_primitive_of_get? hvalue
      rfl

/-- A root frame that binds primitives looks like that of a session at its start. -/
theorem exists_copies_start
    {store : Store}
    {root : FrameId}
    (hroot : store.frame root = Frame.primitives)
    (hpresent : root.index < store.frames.size) :
    ∃ r : Renaming,
      r.frame Session.start.root = root ∧
      Copies r (World.room Session.start.store Session.start.root rfl) store := by
  have hshift : Function.Injective (· + root.index) := fun _ _ => Nat.add_right_cancel
  let r : Renaming :=
    { pairs := renumber id 0 store.pairs.size
      closures := renumber id 0 store.closures.size
      frames := renumber (· + root.index) 1 store.frames.size
      pairs_injective := renumber_injective Function.injective_id nofun
      closures_injective := renumber_injective Function.injective_id nofun
      frames_injective := renumber_injective hshift fun index hindex => by omega }
  have hr : r.frame Session.start.root = root := by
    show FrameId.mk (renumber (· + root.index) 1 store.frames.size 0) = root
    rw [renumber_of_lt Nat.zero_lt_one, Nat.zero_add]
  refine ⟨r, hr, ?_⟩
  constructor
  · intro item hitem
    have hheld := hitem.resolve_right id
    cases item with
    | frame id =>
        cases hheld trivial
        show Frame.RenamedTo r _ Frame.primitives (store.frame (r.frame Session.start.root))
        rw [hr, hroot]
        exact Frame.primitives_renamedTo r
    | pair id => cases hheld trivial
    | closure id => cases hheld trivial
    | primitive p => trivial
    | symbol name => trivial
  · exact False.elim
  · exact fun hne => (hne rfl).elim
  · exact fun hne => (hne rfl).elim
  · exact fun hne => (hne rfl).elim
  · show Continues (renumber id 0 store.pairs.size) 0 store.pairs.size
    exact renumber_continues
  · show Continues (renumber id 0 store.closures.size) 0 store.closures.size
    exact renumber_continues
  · exact renumber_continues
  · exact Nat.zero_le _
  · exact Nat.lt_of_le_of_lt (Nat.zero_le _) hpresent

namespace SharedStore

theorem frame_start
    (store : Store)
    (side : Bool) :
    (start store).store.frame ((start store).root side) = Frame.primitives := by
  let one := (store.newFrame Frame.primitives).2
  cases side with
  | false =>
      have hne : store.frames.size ≠ one.frames.size := by simp [one, Store.newFrame]
      have hold : (start store).store.frame ⟨store.frames.size⟩ = one.frame ⟨store.frames.size⟩ :=
        (one.frame_newFrame _ _).trans (if_neg hne)
      exact hold.trans ((store.frame_newFrame _ _).trans (if_pos rfl))
  | true => exact (one.frame_newFrame _ _).trans (if_pos rfl)

theorem root_start_lt
    (store : Store)
    (side : Bool) :
    ((start store).root side).index < (start store).store.frames.size := by
  cases side with
  | false =>
      simp only [start, Store.newFrame, Array.size_push, Bool.false_eq_true, if_false]
      omega
  | true => simp [start, Store.newFrame]

theorem root_start_ne
    (store : Store)
    (side : Bool) :
    (start store).root side ≠ (start store).root !side := by
  cases side <;> simp [start, Store.newFrame]

end SharedStore

/-- At the start a session of its own keeps up with either of two sessions. -/
theorem exists_follows_start
    (store : Store)
    (side : Bool) :
    ∃ r w own others, Follows Session.start (SharedStore.start store) side r w own others := by
  let shared := SharedStore.start store
  have hown : shared.store.frame (shared.root side) = Frame.primitives := SharedStore.frame_start store side
  have hothers : shared.store.frame (shared.root !side) = Frame.primitives :=
    SharedStore.frame_start store !side
  have hpresent : (shared.root side).index < shared.store.frames.size :=
    SharedStore.root_start_lt store side
  obtain ⟨r, hroot, hcopies⟩ := exists_copies_start hown hpresent
  refine ⟨r, World.room Session.start.store Session.start.root rfl, World.room _ _ hown,
    World.room _ _ hothers, ?_⟩
  exact
    { wellFormed := Session.start_wellFormed
      alone_serves := World.room_serves rfl Nat.zero_lt_one
      own_serves := World.room_serves hown hpresent
      others_serves := World.room_serves hothers (SharedStore.root_start_lt store !side)
      apart := by
        intro item hobject hitem hmem
        have hsame := Item.frame.inj ((hitem hobject).symm.trans (hmem hobject))
        exact SharedStore.root_start_ne store side hsame
      copies := hcopies
      root := hroot
      image := by
        intro item hitem hobject
        cases item with
        | frame id =>
            cases hitem trivial
            exact congrArg Item.frame hroot
        | pair id => cases hitem trivial
        | closure id => cases hitem trivial
        | primitive p => exact hobject.elim
        | symbol name => exact hobject.elim }

/-- Two evaluations of which no object is within reach of both, in a sound store, may be done in either order:
each ends in the same way and with the same answer, and in the end the store holds the same objects, where
those that were there keep their identities and those that are new change places. Left out are evaluations
that report a depth along a line of frames that runs in a circle, since searching such a line never ends.

In particular two sessions in one store get the answers that each of them would get alone, in whatever order
their requests are served. -/
theorem evaluations_apart_commute :
    (∀ {store : Store} {expression₁ expression₂ : Value} {frame₁ frame₂ : FrameId},
      store.Sound → store.Holds expression₁ → store.Holds expression₂ →
      frame₁.index < store.frames.size → frame₂.index < store.frames.size →
      (∀ item : Item, item.IsObject →
        store.ReachedFrom expression₁ frame₁ item → ¬store.ReachedFrom expression₂ frame₂ item) →
      ∀ fuel₁ fuel₂,
        let first₁ := outcome (eval fuel₁ expression₁ frame₁) store
        let second₂ := outcome (eval fuel₂ expression₂ frame₂) first₁.2
        let first₂ := outcome (eval fuel₂ expression₂ frame₂) store
        let second₁ := outcome (eval fuel₁ expression₁ frame₁) first₂.2
        (∀ halt, first₁.1 = .error halt → ¬first₁.2.Circles halt) →
        (∀ halt, first₂.1 = .error halt → ¬first₂.2.Circles halt) →
        ∃ ρ : Renaming,
          (∀ item : Item, item.PresentIn store → item.rename ρ = item) ∧
          second₂.2.Isomorphic ρ second₁.2 ∧
          second₁.1 = first₁.1.map (Value.rename ρ) ∧
          first₂.1 = second₂.1.map (Value.rename ρ) ∧
          second₁.1.bind second₁.2.print = first₁.1.bind first₁.2.print ∧
          second₂.1.bind second₂.2.print = first₂.1.bind first₂.2.print) ∧
    ∀ store requests side,
      answersOf side ((SharedStore.start store).serve requests) =
        Session.start.serve (requestsOf side requests) := by
  refine ⟨?_, ?_⟩
  · intro store expression₁ expression₂ frame₁ frame₂ hsound hexpression₁ hexpression₂ hframe₁ hframe₂ hapart
      fuel₁ fuel₂ first₁ second₂ first₂ second₁ hdepth₁ hdepth₂
    exact evaluations_commute hsound hexpression₁ hexpression₂ hframe₁ hframe₂ hapart rfl rfl rfl rfl
      hdepth₁ hdepth₂
  · intro store requests side
    obtain ⟨r, w, own, others, hfollows⟩ := exists_follows_start store side
    exact hfollows.serve requests

/-- The calls `(cons 1 1)` and `(cons 2 2)`, and two frames that bind the primitive for making pairs. -/
def twoCalls : Store where
  pairs := #[
    ⟨.sym "cons", .pair ⟨1⟩⟩, ⟨.int 1, .pair ⟨2⟩⟩, ⟨.int 1, .nil⟩,
    ⟨.sym "cons", .pair ⟨4⟩⟩, ⟨.int 2, .pair ⟨5⟩⟩, ⟨.int 2, .nil⟩]
  closures := #[]
  frames := #[
    ⟨none, [("cons", .primitive (.strict .cons))]⟩, ⟨none, [("cons", .primitive (.strict .cons))]⟩]

/-- Whether an object belongs to the first call. -/
def belongsToFirst : Item → Bool
  | .pair id => id.index < 3
  | .frame id => id.index < 1
  | _ => true

theorem link_twoCalls
    {item next : Item}
    (h : twoCalls.Link item next) :
    item.IsObject ∧ next.PresentIn twoCalls ∧
      (next.IsObject → belongsToFirst next = belongsToFirst item) := by
  cases h with
  | @first id _ h =>
      match id with
      | ⟨0⟩ | ⟨3⟩ =>
          cases h
          exact ⟨trivial, trivial, False.elim⟩
      | ⟨1⟩ | ⟨2⟩ | ⟨4⟩ | ⟨5⟩ | ⟨_ + 6⟩ => cases h
  | @second id _ h =>
      match id with
      | ⟨0⟩ | ⟨1⟩ | ⟨3⟩ | ⟨4⟩ =>
          cases h
          exact ⟨trivial, by show _ < 6; decide, fun _ => rfl⟩
      | ⟨2⟩ | ⟨5⟩ | ⟨_ + 6⟩ => cases h
  | body hbody _ => cases hbody
  | captured id => exact ⟨trivial, by show 0 < 2; decide, fun _ => rfl⟩
  | @parent id _ h =>
      match id with
      | ⟨0⟩ | ⟨1⟩ | ⟨_ + 2⟩ => cases h
  | @bound id name value _ hbound h =>
      match id with
      | ⟨0⟩ | ⟨1⟩ =>
          change List.lookup name [("cons", _)] = some value at hbound
          simp only [List.lookup_cons, List.lookup_nil] at hbound
          split at hbound <;> cases hbound
          cases h
          exact ⟨trivial, trivial, False.elim⟩
      | ⟨_ + 2⟩ => cases hbound

theorem belongsToFirst_of_reaches
    {first item : Item}
    (h : twoCalls.Reaches first item)
    (hobject : item.IsObject) :
    belongsToFirst item = belongsToFirst first := by
  induction h with
  | refl => rfl
  | tail _ hlink ih =>
      obtain ⟨hsource, -, hsame⟩ := link_twoCalls hlink
      exact (hsame hobject).trans (ih hsource)

theorem twoCalls_apart
    {item : Item}
    (hobject : item.IsObject)
    (h : twoCalls.ReachedFrom (.pair ⟨0⟩) ⟨0⟩ item) :
    ¬twoCalls.ReachedFrom (.pair ⟨3⟩) ⟨1⟩ item := by
  have hfirst : belongsToFirst item = true := by
    rcases h with ⟨first, hfirst, h⟩ | h
    · cases hfirst
      exact belongsToFirst_of_reaches h hobject
    · exact belongsToFirst_of_reaches h hobject
  rintro (⟨first, hitem, h⟩ | h)
  · cases hitem
    cases hfirst.symm.trans (belongsToFirst_of_reaches h hobject)
  · cases hfirst.symm.trans (belongsToFirst_of_reaches h hobject)

/-- The two calls make two pairs, which change places if the calls do. -/
theorem evaluations_apart_commute_at_two_calls :
    let first₁ := outcome (eval 2 (.pair ⟨0⟩) ⟨0⟩) twoCalls
    let second₂ := outcome (eval 2 (.pair ⟨3⟩) ⟨1⟩) first₁.2
    let first₂ := outcome (eval 2 (.pair ⟨3⟩) ⟨1⟩) twoCalls
    let second₁ := outcome (eval 2 (.pair ⟨0⟩) ⟨0⟩) first₂.2
    first₁.1 = .ok (.pair ⟨6⟩) ∧
      second₁.1.bind second₁.2.print = .ok "(1 . 1)" ∧
      ∃ ρ : Renaming,
        second₂.2.Isomorphic ρ second₁.2 ∧ ρ.pair ⟨6⟩ = ⟨7⟩ ∧ ρ.pair ⟨7⟩ = ⟨6⟩ := by
  intro first₁ second₂ first₂ second₁
  have hsound : twoCalls.Sound := fun _ hlink => (link_twoCalls hlink).2.1
  have hholds₁ : twoCalls.Holds (.pair ⟨0⟩) := by
    rintro _ ⟨⟩
    show 0 < 6
    decide
  have hholds₂ : twoCalls.Holds (.pair ⟨3⟩) := by
    rintro _ ⟨⟩
    show 3 < 6
    decide
  have hfirst₁ : first₁.1 = .ok (.pair ⟨6⟩) := by decide
  have hfirst₂ : first₂.1 = .ok (.pair ⟨6⟩) := by decide
  have hsecond₁ : second₁.1 = .ok (.pair ⟨7⟩) := by decide
  have hsecond₂ : second₂.1 = .ok (.pair ⟨7⟩) := by decide
  obtain ⟨ρ, -, hisomorphic, hvalue₁, hvalue₂, hanswer₁, -⟩ :=
    evaluations_apart_commute.1 hsound hholds₁ hholds₂ (by decide) (by decide)
      (fun _ hobject h => twoCalls_apart hobject h) 2 2 (fun _ h => nomatch hfirst₁.symm.trans h)
      (fun _ h => nomatch hfirst₂.symm.trans h)
  rw [hfirst₁, hsecond₁] at hvalue₁
  rw [hfirst₂, hsecond₂] at hvalue₂
  have hthere : Value.pair ⟨7⟩ = .pair (ρ.pair ⟨6⟩) := Except.ok.inj hvalue₁
  have hback : Value.pair ⟨6⟩ = .pair (ρ.pair ⟨7⟩) := Except.ok.inj hvalue₂
  exact ⟨hfirst₁, hanswer₁.trans (by decide), ρ, hisomorphic, (Value.pair.inj hthere).symm,
    (Value.pair.inj hback).symm⟩

end SmallLisp
