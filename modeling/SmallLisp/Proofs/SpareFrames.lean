import SmallLisp.Proofs.Forest
import SmallLisp.Proofs.Parallel
import SmallLisp.Proofs.Renumbering

/-!
# Frames that nothing leads to

A frame that is there but that nothing leads to cannot be noticed. With it and without it code does the same;
the only difference is that the frames behind it have other numbers. The frame itself stays as it is, whatever
it binds, and nothing comes to lead to it.

* `Renaming.leavingOut` changes the numbers of frames to leave out one;
* `Store.HasSpare` says that a store holds one more frame than another one, to which nothing leads; what the store
  holds is then known but for what this frame binds, by `Store.HasSpare.eq_of_frame`;
* `Store.Hosts` is about stores in which code may run in a frame; `Store.Hosts.of_within` says that they stay so;
* `Store.HasSpare.eval_alike` and `Store.HasSpare.frame_eval`: the frame is neither noticed nor changed.
-/

namespace SmallLisp

namespace Renaming

/-- Leaves out a number of frames. -/
def leavingOut (number : Nat) : Renaming where
  pairs := id
  closures := id
  frames index := if index < number then index else index + 1
  pairs_injective := Function.injective_id
  closures_injective := Function.injective_id
  frames_injective := by
    intro one other hsame
    dsimp only at hsame
    split at hsame <;> split at hsame <;> omega

/-- The numbers below stay as they are. -/
theorem frame_leavingOut
    {number : Nat}
    {id : FrameId}
    (h : id.index < number) :
    (leavingOut number).frame id = id :=
  congrArg FrameId.mk (if_pos h)

end Renaming

/-- No value is a frame, so new numbers for frames leave values as they are. -/
@[simp]
theorem Value.rename_leavingOut
    {number : Nat}
    (value : Value) :
    value.rename (.leavingOut number) = value := by
  cases value <;> rfl

@[simp]
theorem renameBindings_leavingOut
    {number : Nat}
    (bindings : List (String × Value)) :
    renameBindings (.leavingOut number) bindings = bindings := by
  simp [renameBindings]

/-- No value is a frame. -/
theorem Value.item?_ne_frame
    {value : Value}
    {id : FrameId} :
    value.item? ≠ some (.frame id) := by
  cases value <;> nofun

theorem Value.item?_rename
    (r : Renaming)
    (value : Value) :
    (value.rename r).item? = value.item?.map (Item.rename r) := by
  cases value <;> rfl

/-- What is left out is nowhere. -/
theorem Item.rename_leavingOut_ne
    (number : Nat)
    (item : Item) :
    item.rename (.leavingOut number) ≠ .frame ⟨number⟩ := by
  cases item with
  | frame id =>
      intro hsame
      have hindex : (if id.index < number then id.index else id.index + 1) = number :=
        congrArg FrameId.index (Item.frame.inj hsame)
      split at hindex <;> omega
  | _ => nofun

theorem Item.rename_leavingOut_of_present
    {store : Store}
    {item : Item}
    (h : item.PresentIn store) :
    item.rename (.leavingOut store.frames.size) = item := by
  cases item with
  | frame id => exact congrArg (fun index => Item.frame ⟨index⟩) (if_pos h)
  | _ => rfl

/-- Making a frame leaves alone what is there. -/
theorem Item.sameIn_newFrame
    {store : Store}
    {item : Item}
    (h : item.PresentIn store)
    (made : Frame) :
    item.SameIn store (store.newFrame made).2 := by
  cases item with
  | frame id => exact (Store.frame_newFrame store made id).trans (if_neg (Nat.ne_of_lt h))
  | primitive p => trivial
  | symbol name => trivial
  | _ => rfl

/-- Under new identities an object leads to what it led to. -/
theorem Renaming.Carries.exists_link
    {r : Renaming}
    {store store' : Store}
    {item next : Item}
    (h : r.Carries (fun _ _ => none) store store' item)
    (hlink : store'.Link (item.rename r) next) :
    ∃ before, store.Link item before ∧ before.rename r = next := by
  have hvalue : ∀ {value : Value}, (value.rename r).item? = some next →
      ∃ before, value.item? = some before ∧ before.rename r = next := by
    intro value hitem
    rw [Value.item?_rename] at hitem
    exact Option.map_eq_some_iff.mp hitem
  cases item with
  | pair id =>
      cases hlink with
      | first hfirst =>
          rw [show store'.pair (r.pair id) = _ from h] at hfirst
          obtain ⟨before, hbefore, hrename⟩ := hvalue hfirst
          exact ⟨before, .first hbefore, hrename⟩
      | second hsecond =>
          rw [show store'.pair (r.pair id) = _ from h] at hsecond
          obtain ⟨before, hbefore, hrename⟩ := hvalue hsecond
          exact ⟨before, .second hbefore, hrename⟩
  | closure id =>
      have hclosure : store'.closure (r.closure id) = (store.closure id).rename r := h
      cases hlink with
      | body hbody hitem =>
          rw [hclosure] at hbody
          obtain ⟨value, hmember, rfl⟩ := List.mem_map.mp hbody
          obtain ⟨before, hbefore, hrename⟩ := hvalue hitem
          exact ⟨before, .body hmember hbefore, hrename⟩
      | captured =>
          rw [hclosure]
          exact ⟨_, .captured id, rfl⟩
  | frame id =>
      cases hlink with
      | parent hparent =>
          rw [h.parent] at hparent
          obtain ⟨before, hbefore, rfl⟩ := Option.map_eq_some_iff.mp hparent
          exact ⟨_, .parent hbefore, rfl⟩
      | bound hbound hitem =>
          rw [h.get?, Option.none_or] at hbound
          obtain ⟨value, hget, rfl⟩ := Option.map_eq_some_iff.mp hbound
          obtain ⟨before, hbefore, hrename⟩ := hvalue hitem
          exact ⟨before, .bound hget hbefore, hrename⟩
  | primitive p => cases hlink
  | symbol name => cases hlink

/-- Code that has got hold of all there is has got hold of all that there is afterwards. -/
theorem Changes.mem_of_present
    {store : Store}
    {hsound : store.Sound}
    {frame : FrameId}
    {hframe : frame.index < store.frames.size}
    {w : World fun _ => true}
    (h : Changes (World.everything store hsound hframe) w)
    {item : Item}
    (hitem : item.PresentIn w.store) :
    item ∈ w.items := by
  rcases hitem.older_or_made store with hold | hmade
  · exact h.items_subset hold
  · exact h.holds_made hmade

namespace Store

/-- Where no frames stand in a circle, no depth is reported along one. -/
theorem Forest.not_circles
    {store : Store}
    (h : store.Forest)
    (halt : Halt) :
    ¬store.Circles halt := by
  rintro ⟨name, id, hcircle, -⟩
  exact hcircle (h.lineEnds id)

/-- What is no frame of the store reads as an empty frame. -/
theorem frame_of_size_le
    {store : Store}
    {id : FrameId}
    (h : store.frames.size ≤ id.index) :
    store.frame id = ⟨none, []⟩ := by
  rw [frame, Array.getD_eq_getD_getElem?, Array.getElem?_eq_none h, Option.getD_none]

/-- Stores of the same sizes that hold the same are the same. -/
theorem eq_of_sameIn
    {one other : Store}
    (hpairs : other.pairs.size = one.pairs.size)
    (hclosures : other.closures.size = one.closures.size)
    (hframes : other.frames.size = one.frames.size)
    (h : ∀ item : Item, item.PresentIn one → item.SameIn one other) :
    other = one := by
  obtain ⟨pairs, closures, frames⟩ := one
  obtain ⟨pairs', closures', frames'⟩ := other
  congr 1
  · refine Array.ext hpairs fun index hindex' hindex => ?_
    simpa [Item.SameIn, pair, hindex, hindex'] using h (.pair ⟨index⟩) hindex
  · refine Array.ext hclosures fun index hindex' hindex => ?_
    simpa [Item.SameIn, closure, hindex, hindex'] using h (.closure ⟨index⟩) hindex
  · refine Array.ext hframes fun index hindex' hindex => ?_
    simpa [Item.SameIn, frame, hindex, hindex'] using h (.frame ⟨index⟩) hindex

/-- The second store holds all that the first one holds, and a frame with the given number that is not in the
first one. Nothing leads to that frame. -/
structure HasSpare (number : Nat) (store store' : Store) : Prop where
  pairs : store'.pairs.size = store.pairs.size
  closures : store'.closures.size = store.closures.size
  frames : store'.frames.size = store.frames.size + 1
  number_le : number ≤ store.frames.size
  carries : ∀ item : Item, item.PresentIn store →
    (Renaming.leavingOut number).Carries (fun _ _ => none) store store' item
  /-- A frame has its bindings in the same order. -/
  bindings : ∀ id : FrameId, id.index < store.frames.size →
    (store'.frame ((Renaming.leavingOut number).frame id)).bindings = (store.frame id).bindings
  unlinked : ∀ item : Item, item.PresentIn store' → ¬store'.Link item (.frame ⟨number⟩)

/-- A store in which code may run in a frame: it is sound, its frames stand in no circle, and the frame is one
of them. -/
structure Hosts (store : Store) (frame : FrameId) : Prop where
  sound : store.Sound
  forest : store.Forest
  frame_lt : frame.index < store.frames.size

/-- The world of code that runs in the frame and has got hold of all there is. -/
abbrev Hosts.world
    {store : Store}
    {frame : FrameId}
    (h : store.Hosts frame) :
    World fun _ => true :=
  .everything store h.sound h.frame_lt

/-- Code leaves a store in which code may run. -/
theorem Hosts.of_within
    {α : Type}
    {run : EvalM α}
    {post : World (fun _ => true) → α → Prop}
    {store : Store}
    {frame : FrameId}
    (h : store.Hosts frame)
    (hrun : Within run h.world post) :
    (outcome run store).2.Hosts frame ∧ store.Grows (outcome run store).2 := by
  obtain ⟨w, hchanges, hstore, -⟩ := hrun
  change (outcome run store).2 = w.store at hstore
  rw [hstore]
  exact ⟨⟨hchanges.sound, hchanges.forest h.forest, Nat.lt_of_lt_of_le h.frame_lt hchanges.grows.frames⟩,
    hchanges.grows⟩

namespace HasSpare

variable {number : Nat} {store store' : Store} {frame : FrameId}

/-- A new frame that stands inside another one is spare. -/
theorem of_newFrame
    (hsound : store.Sound)
    {parent : FrameId}
    (hparent : parent.index < store.frames.size) :
    store.HasSpare store.frames.size (store.newFrame ⟨some parent, []⟩).2 where
  pairs := rfl
  closures := rfl
  frames := Array.size_push _
  number_le := Nat.le_refl _
  carries := by
    intro item hitem
    have hsame : (item.rename .same).SameIn store (store.newFrame ⟨some parent, []⟩).2 := by
      rw [Item.rename_same]
      exact Item.sameIn_newFrame hitem _
    refine ((Renaming.Carries.refl store item).of_target hsame).congr ?_ ?_
    · rw [Item.rename_same, Item.rename_leavingOut_of_present hitem]
    · intro next hlink
      rw [Item.rename_same, Item.rename_leavingOut_of_present (hsound hitem hlink)]
  bindings := by
    intro id hid
    rw [Renaming.frame_leavingOut hid, frame_newFrame, if_neg (Nat.ne_of_lt hid)]
  unlinked := by
    intro item hitem hlink
    rcases hlink.of_newFrame with ⟨hother, hold⟩ | ⟨outer, houter, hsame⟩ | ⟨name, value, hbound, -⟩
    · rcases hitem.older_or_made store with hpresent | hmade
      · exact Nat.lt_irrefl _ (hsound hpresent hold)
      · exact hother (Item.eq_of_made_newFrame hmade)
    · cases houter
      exact Nat.lt_irrefl _ (Item.frame.inj hsame ▸ hparent)
    · cases hbound

section Spare

variable (h : store.HasSpare number store')
include h

theorem number_lt : number < store'.frames.size := by
  rw [h.frames]
  exact Nat.lt_succ_of_le h.number_le

/-- What is there besides the spare frame is there without it. -/
theorem exists_original
    {item : Item}
    (hitem : item.PresentIn store')
    (hne : item ≠ .frame ⟨number⟩) :
    ∃ original : Item, original.PresentIn store ∧ original.rename (.leavingOut number) = item := by
  cases item with
  | pair id => exact ⟨.pair id, Nat.lt_of_lt_of_eq hitem h.pairs, rfl⟩
  | closure id => exact ⟨.closure id, Nat.lt_of_lt_of_eq hitem h.closures, rfl⟩
  | frame id =>
      obtain ⟨index⟩ := id
      have hlt : index < store.frames.size + 1 := Nat.lt_of_lt_of_eq hitem h.frames
      have hother : index ≠ number := by
        rintro rfl
        exact hne rfl
      have hle := h.number_le
      rcases Nat.lt_or_ge index number with hbefore | hbehind
      · refine ⟨.frame ⟨index⟩, ?_, congrArg Item.frame (Renaming.frame_leavingOut hbefore)⟩
        show index < store.frames.size
        omega
      · refine ⟨.frame ⟨index - 1⟩, ?_, ?_⟩
        · show index - 1 < store.frames.size
          omega
        · refine congrArg (fun number => Item.frame ⟨number⟩) ((if_neg ?_).trans ?_) <;> dsimp only <;> omega
  | primitive p => exact ⟨.primitive p, trivial, rfl⟩
  | symbol name => exact ⟨.symbol name, trivial, rfl⟩

/-- In a sound store nothing else reaches the spare frame. -/
theorem not_reaches
    (hsound : store.Sound)
    {item : Item}
    (hitem : item.PresentIn store')
    (hne : item ≠ .frame ⟨number⟩) :
    ¬store'.Reaches item (.frame ⟨number⟩) := by
  have hreached : ∀ {next : Item}, store'.Reaches item next →
      ∃ original : Item, original.PresentIn store ∧ original.rename (.leavingOut number) = next := by
    intro next hreaches
    induction hreaches with
    | refl => exact h.exists_original hitem hne
    | tail _ hlink ih =>
        obtain ⟨original, hpresent, rfl⟩ := ih
        obtain ⟨before, hbefore, hrename⟩ := (h.carries original hpresent).exists_link hlink
        exact ⟨before, hsound hpresent hbefore, hrename⟩
  intro hreaches
  obtain ⟨original, -, hrename⟩ := hreached hreaches
  exact original.rename_leavingOut_ne number hrename

/-- All is known of a store with a spare frame but what the spare frame is like. -/
theorem eq_of_frame
    {other : Store}
    (h' : store.HasSpare number other)
    (hframe : other.frame ⟨number⟩ = store'.frame ⟨number⟩) :
    other = store' := by
  refine eq_of_sameIn (h'.pairs.trans h.pairs.symm) (h'.closures.trans h.closures.symm)
    (h'.frames.trans h.frames.symm) ?_
  intro item hitem
  by_cases hspare : item = .frame ⟨number⟩
  · subst hspare
    exact hframe
  · obtain ⟨original, hpresent, rfl⟩ := h.exists_original hitem hspare
    have hone := h.carries original hpresent
    have hother := h'.carries original hpresent
    cases original with
    | pair id => exact hother.trans hone.symm
    | closure id => exact hother.trans hone.symm
    | frame id =>
        have hparent := hother.parent.trans hone.parent.symm
        have hbindings := (h'.bindings id hpresent).trans (h.bindings id hpresent).symm
        show other.frame _ = store'.frame _
        exact congrArg₂ Frame.mk hparent hbindings
    | primitive p => trivial
    | symbol name => trivial

/-- A frame that is not there is not there under its new number. -/
theorem frame_absent
    {id : FrameId}
    (hid : ¬id.index < store.frames.size) :
    store'.frame ((Renaming.leavingOut number).frame id) = store.frame id := by
  have hle := h.number_le
  have hnumber : ((Renaming.leavingOut number).frame id).index = id.index + 1 := if_neg (by omega)
  have hsize : store'.frames.size ≤ ((Renaming.leavingOut number).frame id).index := by
    rw [h.frames, hnumber]
    omega
  rw [frame_of_size_le hsize, frame_of_size_le (Nat.le_of_not_lt hid)]

/-- A store with a spare frame looks like the store without. -/
theorem mirrors
    {w : World fun _ => true}
    (hstore : w.store = store)
    (hw : w.Present) :
    Mirrors (.leavingOut number) (fun _ _ => none) (Set.range Item.frame) w store' where
  carries := by
    intro item hitem
    rw [hstore]
    by_cases hpresent : item.PresentIn store
    · exact h.carries item hpresent
    · rcases hitem with hheld | ⟨id, rfl⟩
      · exact (hpresent (hstore ▸ hw item hheld)).elim
      · show Frame.RenamedTo _ _ (store.frame id) _
        rw [h.frame_absent hpresent, frame_of_size_le (Nat.le_of_not_lt hpresent)]
        exact ⟨rfl, fun _ => rfl⟩
  bindings := by
    intro id _ _
    rw [hstore, renameBindings_leavingOut]
    by_cases hid : id.index < store.frames.size
    · exact h.bindings id hid
    · exact congrArg Frame.bindings (h.frame_absent hid)
  instead_old hne := (hne rfl).elim
  instead_unheld hne := (hne rfl).elim
  instead_calls hne := (hne rfl).elim
  pairs_next count := by rw [hstore, h.pairs]; rfl
  closures_next count := by rw [hstore, h.closures]; rfl
  frames_next := by
    intro count
    have hle := h.number_le
    rw [hstore, h.frames]
    show (if _ < number then _ else _) = _
    rw [if_neg (by omega)]
    omega
  pairs_le := by rw [hstore, h.pairs]
  frames_le := by
    rw [hstore, h.frames]
    exact Nat.le_succ _

/-- The spare frame may be overwritten. -/
theorem define
    (name : String)
    (value : Value) :
    store.HasSpare number (store'.define ⟨number⟩ name value) where
  pairs := h.pairs
  closures := h.closures
  frames := (Array.size_modify ..).trans h.frames
  number_le := h.number_le
  carries := by
    intro item hitem
    refine (h.carries item hitem).of_target ?_
    have hne := item.rename_leavingOut_ne number
    revert hne
    generalize item.rename (.leavingOut number) = renamed
    intro hne
    cases renamed with
    | frame id =>
        refine (frame_define store' ⟨number⟩ id name value h.number_lt).trans (if_neg ?_)
        rintro rfl
        exact hne rfl
    | primitive p => trivial
    | symbol name => trivial
    | _ => rfl
  bindings := by
    intro id hid
    have hne : (Renaming.leavingOut number).frame id ≠ ⟨number⟩ :=
      fun hsame => (Item.frame id).rename_leavingOut_ne number (congrArg Item.frame hsame)
    rw [frame_define _ _ _ _ _ h.number_lt, if_neg hne]
    exact h.bindings id hid
  unlinked := by
    intro item hitem hlink
    have hpresent : item.PresentIn store' := by
      refine hitem.mono ⟨Nat.le_refl _, Nat.le_refl _, ?_⟩
      exact Nat.le_of_eq (Array.size_modify ..)
    rcases hlink.of_define with hlink | hvalue
    · exact h.unlinked item hpresent hlink
    · exact Value.item?_ne_frame hvalue

/-- The world of code that has got hold of all there is but the spare frame. -/
def world (hhosts : store.Hosts frame) : World fun _ => true where
  store := store'
  items := {item | ∃ original : Item, original.PresentIn store ∧
    original.rename (.leavingOut number) = item}
  homes := {(Renaming.leavingOut number).frame frame}
  closed := by
    rintro _ next ⟨original, hpresent, rfl⟩ hlink
    obtain ⟨before, hbefore, rfl⟩ := (h.carries original hpresent).exists_link hlink
    exact ⟨before, hhosts.sound hpresent hbefore, rfl⟩
  homes_held := by
    rintro _ rfl
    exact ⟨.frame frame, hhosts.frame_lt, rfl⟩
  primitive_given _ := rfl

/-- A value is held in both stores. -/
theorem world_has
    (hhosts : store.Hosts frame)
    {value : Value}
    (hvalue : store.Holds value) :
    (h.world hhosts).Has value := by
  intro item hitem
  refine ⟨item, hvalue item hitem, ?_⟩
  have hrename := value.item?_rename (.leavingOut number)
  rw [Value.rename_leavingOut, hitem] at hrename
  exact (Option.some.inj hrename).symm

/-- Code leaves the spare frame as it is, and nothing comes to lead to it. -/
theorem unlinked_of_within
    {α : Type}
    {run : EvalM α}
    {post : World (fun _ => true) → α → Prop}
    (hhosts : store.Hosts frame)
    (hrun : Within run (h.world hhosts) post) :
    let ending := (outcome run store').2
    ending.frame ⟨number⟩ = store'.frame ⟨number⟩ ∧
      ∀ item : Item, item.PresentIn ending → ¬ending.Link item (.frame ⟨number⟩) := by
  intro ending
  obtain ⟨w, hchanges, hstore, -⟩ := hrun
  change ending = w.store at hstore
  have hnot : .frame ⟨number⟩ ∉ (h.world hhosts).items := by
    rintro ⟨original, -, hrename⟩
    exact original.rename_leavingOut_ne number hrename
  have hspare : .frame ⟨number⟩ ∉ w.items := by
    intro hitem
    rcases hchanges.made hitem with hold | hmade
    · exact hnot hold
    · exact Nat.not_lt_of_le hmade.1 h.number_lt
  have hframe : ending.frame ⟨number⟩ = store'.frame ⟨number⟩ :=
    hstore ▸ hchanges.frame_eq h.number_lt hnot
  refine ⟨hframe, ?_⟩
  intro item hitem hlink
  by_cases hself : item = .frame ⟨number⟩
  · subst hself
    have hsame : (Item.frame ⟨number⟩).SameIn store' ending := hframe
    exact h.unlinked (.frame ⟨number⟩) h.number_lt (hsame.link hlink)
  · rw [hstore] at hitem hlink
    refine hspare (w.closed ?_ hlink)
    rcases hitem.older_or_made store' with hold | hmade
    · exact hchanges.items_subset (h.exists_original hold hself)
    · exact hchanges.holds_made hmade

/-- The spare frame stays as it is. -/
theorem frame_eval
    (hhosts : store.Hosts frame)
    {expression : Value}
    (hexpression : store.Holds expression)
    (fuel : Nat) :
    (outcome (eval fuel expression ((Renaming.leavingOut number).frame frame)) store').2.frame ⟨number⟩ =
      store'.frame ⟨number⟩ :=
  (h.unlinked_of_within hhosts
    (eval_confined fuel (h.world_has hhosts hexpression) (Set.mem_singleton _))).1

/-- With the spare frame code does what it does without, in stores that go on to differ in this frame only. -/
theorem eval_alike
    (hhosts : store.Hosts frame)
    {expression : Value}
    (hexpression : store.Holds expression)
    (fuel : Nat) :
    let without := outcome (eval fuel expression frame) store
    let ending := outcome (eval fuel expression ((Renaming.leavingOut number).frame frame)) store'
    ending.1 = without.1 ∧ without.2.HasSpare number ending.2 := by
  intro without ending
  have hunlinked := (h.unlinked_of_within hhosts
    (eval_confined fuel (h.world_has hhosts hexpression) (Set.mem_singleton _))).2
  have hmirrors := h.mirrors (w := hhosts.world) rfl fun _ hitem => hitem
  obtain ⟨t, hchanges, hstore, hcopy, hend⟩ :=
    eval_parallel fuel (t := ⟨hhosts.world, store', hmirrors⟩) hexpression (Set.mem_singleton frame)
  rw [Value.rename_leavingOut] at hcopy hend
  change Changes hhosts.world t.world at hchanges
  change without.2 = t.world.store at hstore
  change ending.2 = t.copy at hcopy
  change t.EndAlike _ _ without.1 ending.1 at hend
  have hforest := hchanges.forest hhosts.forest
  constructor
  · rw [hend.eq_map (.inr fun halt _ => hforest.not_circles halt),
      show Value.rename (.leavingOut number) = id from funext Value.rename_leavingOut, Except.map_id]
    rfl
  · change ∀ item : Item, item.PresentIn ending.2 → ¬ending.2.Link item _ at hunlinked
    rw [hcopy] at hunlinked
    rw [hstore, hcopy]
    have hle : number ≤ t.world.store.frames.size := Nat.le_trans h.number_le hchanges.grows.frames
    exact
      { pairs := t.mirrors.pairs_next.at_size.symm
        closures := t.mirrors.closures_next.at_size.symm
        frames := t.mirrors.frames_next.at_size.symm.trans (if_neg (Nat.not_lt_of_le hle))
        number_le := hle
        carries := fun item hitem => t.mirrors.carries item (.inl (hchanges.mem_of_present hitem))
        bindings := by
          intro id _
          rw [t.mirrors.bindings ⟨id, rfl⟩ fun _ => rfl, renameBindings_leavingOut]
        unlinked := hunlinked }

end Spare

end HasSpare

end Store

end SmallLisp
