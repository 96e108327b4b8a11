import SmallLisp.Proofs.World

/-!
# Objects that a store holds

Identities are given out in order, so an identity can be written down before there is an object for it.
In a sound store this does not happen: whatever its objects lead to is there. Evaluation keeps a store
sound, and it holds on to everything that it makes.

* `Store.Sound` and `World.Present` say that there are no identities without an object;
* `Changes.same`: an object that code has not got hold of stays as it is;
* `Changes.holds_made`: code has got hold of everything that it has made;
* `World.everything` is the world of code that has got hold of all there is.
-/

namespace SmallLisp

variable {given : Primitive → Bool}

/-- Whether a store holds an item. Primitives and symbols are in no need of a store. -/
def Item.PresentIn (store : Store) : Item → Prop
  | .pair id => id.index < store.pairs.size
  | .closure id => id.index < store.closures.size
  | .frame id => id.index < store.frames.size
  | .primitive _ => True
  | .symbol _ => True

/-- Whether an item is the same in two stores. -/
def Item.SameIn (older newer : Store) : Item → Prop
  | .pair id => newer.pair id = older.pair id
  | .closure id => newer.closure id = older.closure id
  | .frame id => newer.frame id = older.frame id
  | .primitive _ => True
  | .symbol _ => True

namespace Store

/-- The objects of the store lead to nothing that is not there. -/
def Sound (store : Store) : Prop :=
  ∀ {item next}, item.PresentIn store → store.Link item next → next.PresentIn store

theorem Sound.parent
    {store : Store}
    (h : store.Sound)
    {id parent : FrameId}
    (hid : id.index < store.frames.size)
    (hparent : (store.frame id).parent = some parent) :
    parent.index < store.frames.size := by
  have hpresent : (Item.frame id).PresentIn store := hid
  exact h hpresent (.parent hparent)

/-- What the value leads to is there. -/
def Holds (store : Store) (value : Value) : Prop :=
  ∀ item, value.item? = some item → item.PresentIn store

end Store

namespace Item

variable {older newer : Store} {item : Item}

theorem PresentIn.mono
    (h : item.PresentIn older)
    (hgrows : older.Grows newer) :
    item.PresentIn newer := by
  cases item with
  | pair id => exact Nat.lt_of_lt_of_le h hgrows.pairs
  | closure id => exact Nat.lt_of_lt_of_le h hgrows.closures
  | frame id => exact Nat.lt_of_lt_of_le h hgrows.frames
  | primitive p => trivial
  | symbol name => trivial

theorem Made.presentIn (h : item.Made older newer) : item.PresentIn newer := by
  cases item with
  | pair id => exact h.2
  | closure id => exact h.2
  | frame id => exact h.2
  | primitive p => trivial
  | symbol name => trivial

theorem Made.not_presentIn (h : item.Made older newer) : ¬item.PresentIn older := by
  cases item with
  | pair id => exact Nat.not_lt_of_le h.1
  | closure id => exact Nat.not_lt_of_le h.1
  | frame id => exact Nat.not_lt_of_le h.1
  | primitive p => exact h.elim
  | symbol name => exact h.elim

/-- What is there now was there before or has been made. -/
theorem PresentIn.older_or_made
    (h : item.PresentIn newer)
    (older : Store) :
    item.PresentIn older ∨ item.Made older newer := by
  cases item with
  | pair id => exact (Nat.lt_or_ge id.index older.pairs.size).imp_right fun hle => ⟨hle, h⟩
  | closure id => exact (Nat.lt_or_ge id.index older.closures.size).imp_right fun hle => ⟨hle, h⟩
  | frame id => exact (Nat.lt_or_ge id.index older.frames.size).imp_right fun hle => ⟨hle, h⟩
  | primitive p => exact .inl trivial
  | symbol name => exact .inl trivial

theorem SameIn.trans
    {newest : Store}
    (h : item.SameIn older newer)
    (h' : item.SameIn newer newest) :
    item.SameIn older newest := by
  cases item with
  | pair id => exact Eq.trans h' h
  | closure id => exact Eq.trans h' h
  | frame id => exact Eq.trans h' h
  | primitive p => trivial
  | symbol name => trivial

/-- An item that is the same in two stores leads to the same in both. -/
theorem SameIn.link
    {next : Item}
    (h : item.SameIn older newer)
    (hlink : newer.Link item next) :
    older.Link item next := by
  cases hlink with
  | first hfirst => exact .first (congrArg Pair.first h ▸ hfirst)
  | second hsecond => exact .second (congrArg Pair.second h ▸ hsecond)
  | body hbody hvalue => exact .body (congrArg Closure.body h ▸ hbody) hvalue
  | @captured id =>
      rw [show newer.closure id = older.closure id from h]
      exact .captured id
  | parent hparent => exact .parent (congrArg Frame.parent h ▸ hparent)
  | @bound id name value _ hbound hvalue =>
      exact .bound (congrArg (Frame.get? · name) h ▸ hbound) hvalue

end Item

namespace World

/-- What code has got hold of is there. -/
def Present (w : World given) : Prop :=
  ∀ item ∈ w.items, item.PresentIn w.store

theorem mem_of_reachedFromValue
    {w : World given}
    {value : Value}
    {item : Item}
    (hvalue : w.Has value)
    (h : w.store.ReachedFromValue value item) :
    item ∈ w.items := by
  obtain ⟨first, hfirst, hreaches⟩ := h
  exact w.reaches (hvalue first hfirst) hreaches

/-- What code can reach from an expression and a frame that it has got hold of, it has got hold of. -/
theorem mem_of_reachedFrom
    {w : World given}
    {expression : Value}
    {frame : FrameId}
    {item : Item}
    (hexpression : w.Has expression)
    (hframe : .frame frame ∈ w.items)
    (h : w.store.ReachedFrom expression frame item) :
    item ∈ w.items := by
  rcases h with hreached | hreaches
  · exact mem_of_reachedFromValue hexpression hreached
  · exact w.reaches hframe hreaches

/-- The world of code that has got hold of all there is, and may bind names in one frame. -/
def everything
    (store : Store)
    (hsound : store.Sound)
    {frame : FrameId}
    (hframe : frame.index < store.frames.size) :
    World fun _ => true where
  store := store
  items := {item | item.PresentIn store}
  homes := {frame}
  closed := hsound
  homes_held := by
    rintro _ rfl
    exact hframe
  primitive_given _ := rfl

end World

/-- Closures never change. -/
theorem Change.closure_eq
    {w w' : World given}
    (h : Change w w')
    {id : ClosureId}
    (hid : id.index < w.store.closures.size) :
    w'.store.closure id = w.store.closure id := by
  cases h with
  | newClosure =>
      exact (Store.closure_newClosure _ _ id).trans (if_neg (Nat.ne_of_lt hid))
  | _ => rfl

namespace Item

variable {store : Store} {item : Item}

theorem eq_of_made_newPair
    {first second : Value}
    (h : item.Made store (store.newPair first second).2) :
    item = .pair ⟨store.pairs.size⟩ := by
  cases item with
  | pair id =>
      obtain ⟨hle, hlt⟩ := h
      simp only [Store.newPair, Array.size_push] at hlt
      exact congrArg (fun index => Item.pair ⟨index⟩) (by omega)
  | closure id => exact (Nat.not_lt_of_le h.1 h.2).elim
  | frame id => exact (Nat.not_lt_of_le h.1 h.2).elim
  | primitive p => exact h.elim
  | symbol name => exact h.elim

theorem eq_of_made_newClosure
    {made : Closure}
    (h : item.Made store (store.newClosure made).2) :
    item = .closure ⟨store.closures.size⟩ := by
  cases item with
  | pair id => exact (Nat.not_lt_of_le h.1 h.2).elim
  | closure id =>
      obtain ⟨hle, hlt⟩ := h
      simp only [Store.newClosure, Array.size_push] at hlt
      exact congrArg (fun index => Item.closure ⟨index⟩) (by omega)
  | frame id => exact (Nat.not_lt_of_le h.1 h.2).elim
  | primitive p => exact h.elim
  | symbol name => exact h.elim

theorem eq_of_made_newFrame
    {made : Frame}
    (h : item.Made store (store.newFrame made).2) :
    item = .frame ⟨store.frames.size⟩ := by
  cases item with
  | pair id => exact (Nat.not_lt_of_le h.1 h.2).elim
  | closure id => exact (Nat.not_lt_of_le h.1 h.2).elim
  | frame id =>
      obtain ⟨hle, hlt⟩ := h
      simp only [Store.newFrame, Array.size_push] at hlt
      exact congrArg (fun index => Item.frame ⟨index⟩) (by omega)
  | primitive p => exact h.elim
  | symbol name => exact h.elim

/-- Nothing is made while the store does not grow. -/
theorem not_made_of_grows
    {older newer : Store}
    (h : newer.Grows older) :
    ¬item.Made older newer := by
  intro hmade
  cases item with
  | pair id => exact Nat.not_lt_of_le (Nat.le_trans h.pairs hmade.1) hmade.2
  | closure id => exact Nat.not_lt_of_le (Nat.le_trans h.closures hmade.1) hmade.2
  | frame id => exact Nat.not_lt_of_le (Nat.le_trans h.frames hmade.1) hmade.2
  | primitive p => exact hmade.elim
  | symbol name => exact hmade.elim

end Item

/-- Code gets hold of what it makes. -/
theorem Change.holds_made
    {w w' : World given}
    (h : Change w w')
    {item : Item}
    (hmade : item.Made w.store w'.store) :
    item ∈ w'.items := by
  cases h with
  | newPair => exact Item.eq_of_made_newPair hmade ▸ Set.mem_insert _ _
  | newClosure => exact Item.eq_of_made_newClosure hmade ▸ Set.mem_insert _ _
  | newFrame => exact Item.eq_of_made_newFrame hmade ▸ Set.mem_insert _ _
  | setFirst | setSecond | define | assign | fill =>
      refine (Item.not_made_of_grows ?_ hmade).elim
      constructor <;>
        simp [World.setFirst, World.setSecond, World.bind, World.write, Store.setFirst,
          Store.setSecond, Store.define]

namespace Changes

variable {w w' : World given}

theorem closure_eq
    (h : Changes w w')
    {id : ClosureId}
    (hid : id.index < w.store.closures.size) :
    w'.store.closure id = w.store.closure id := by
  induction h with
  | refl => rfl
  | tail hfirst hlast ih =>
      rw [← ih]
      exact hlast.closure_eq (Nat.lt_of_lt_of_le hid (grows hfirst).closures)

/-- Code has got hold of everything that it has made. -/
theorem holds_made
    (h : Changes w w')
    {item : Item}
    (hmade : item.Made w.store w'.store) :
    item ∈ w'.items := by
  induction h with
  | refl => exact (Item.not_made_of_grows (.refl _) hmade).elim
  | @tail middle _ hfirst hlast ih =>
      rcases hmade.presentIn.older_or_made middle.store with hpresent | hmade'
      · rcases hpresent.older_or_made w.store with hold | hmade'
        · exact (hmade.not_presentIn hold).elim
        · exact hlast.items_subset (ih hmade')
      · exact hlast.holds_made hmade'

/-- Code leaves alone what it has not got hold of. -/
theorem same
    (h : Changes w w')
    {item : Item}
    (hpresent : item.PresentIn w.store)
    (hnot : item ∉ w.items) :
    item.SameIn w.store w'.store := by
  cases item with
  | pair id => exact h.pair_eq hpresent hnot
  | closure id => exact h.closure_eq hpresent
  | frame id => exact h.frame_eq hpresent hnot
  | primitive p => trivial
  | symbol name => trivial

theorem present
    (h : Changes w w')
    (hw : w.Present) :
    w'.Present := by
  intro item hitem
  rcases h.made hitem with hitem | hmade
  · exact (hw item hitem).mono h.grows
  · exact hmade.presentIn

/-- Code that has got hold of all there is keeps a store sound. -/
theorem sound
    {store : Store}
    {hsound : store.Sound}
    {frame : FrameId}
    {hframe : frame.index < store.frames.size}
    {w : World fun _ => true}
    (h : Changes (World.everything store hsound hframe) w) :
    w.store.Sound := by
  intro item next hitem hlink
  have hpresent : (World.everything store hsound hframe).Present := fun _ h => h
  refine h.present hpresent next (w.closed ?_ hlink)
  rcases hitem.older_or_made store with hold | hmade
  · exact h.items_subset hold
  · exact h.holds_made hmade

end Changes

end SmallLisp
