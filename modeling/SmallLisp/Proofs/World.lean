import SmallLisp.Proofs.Reach

/-!
# What code has got hold of

A world is a store together with the items that running code has got hold of. They lead to no others, so
code finds nothing else by reading the store. The primitives among them are given from the start: no
change adds one. There are eight ways in which code changes the store: it makes a pair, a closure or a
frame, it overwrites a slot of a pair, it binds a name in a frame of its own, it assigns to a name that is
bound, and it binds a parameter in a frame that it has made for a call. What it puts into the store it has
got hold of before, and what it makes it has got hold of afterwards. To overwrite, to bind a name and to
assign it needs the primitive for it; to bind a parameter it needs none.

* `Change` is one change of the store, `Changes` any number of them;
* `Changes.made`: code gets hold of new items only by making them;
* `Changes.pair_eq` and `Changes.frame_eq`: it leaves alone what it has not got hold of.

The statements about `Changes` follow from those about `Change` by induction on the number of changes.
-/

namespace SmallLisp

/-- A store and what code has got hold of in it, where all of its primitives are given ones. -/
structure World (given : Primitive → Bool) where
  store : Store
  /-- The items that code has got hold of. -/
  items : Set Item
  /-- The frames in which it may bind names. -/
  homes : Set FrameId
  /-- The frames that it has made for calls. -/
  calls : Set FrameId := ∅
  /-- The items lead to no others. -/
  closed : ∀ {item next}, item ∈ items → store.Link item next → next ∈ items
  homes_held : ∀ {id}, id ∈ homes → .frame id ∈ items
  primitive_given : ∀ {p}, .primitive p ∈ items → given p = true

variable {given : Primitive → Bool}

namespace World

/-- Code has got hold of a value. -/
def Has (w : World given) (value : Value) : Prop :=
  ∀ item, value.item? = some item → item ∈ w.items

/-- Overwrites a part of the store with what code has got hold of. -/
def write
    (w : World given)
    (store : Store)
    (hlink : ∀ item next,
      store.Link item next → w.store.Link item next ∨ next ∈ w.items) :
    World given where
  store := store
  items := w.items
  homes := w.homes
  calls := w.calls
  closed := by
    intro item next hitem h
    rcases hlink item next h with h | hnext
    · exact w.closed hitem h
    · exact hnext
  homes_held := w.homes_held
  primitive_given := w.primitive_given

/-- Makes an object out of what code has got hold of. A frame that code makes is there for a call. -/
def make
    (w : World given)
    (store : Store)
    (made : Item)
    (hmade : ∀ p, made ≠ .primitive p)
    (hlink : ∀ item next,
      store.Link item next → item ≠ made ∧ w.store.Link item next ∨ next ∈ w.items) :
    World given where
  store := store
  items := insert made w.items
  homes := {id | id ∈ w.homes ∨ made = .frame id}
  calls := {id | id ∈ w.calls ∨ made = .frame id}
  closed := by
    intro item next hitem h
    rcases hlink item next h with ⟨hold, h⟩ | hnext
    · exact Set.mem_insert_of_mem _ (w.closed (Set.mem_of_mem_insert_of_ne hitem hold) h)
    · exact Set.mem_insert_of_mem _ hnext
  homes_held := by
    rintro id (h | rfl)
    · exact Set.mem_insert_of_mem _ (w.homes_held h)
    · exact Set.mem_insert _ _
  primitive_given h := w.primitive_given (Set.mem_of_mem_insert_of_ne h (hmade _).symm)

/-- Makes a pair. -/
def newPair
    (w : World given)
    {first second : Value}
    (hfirst : w.Has first)
    (hsecond : w.Has second) :
    World given :=
  w.make (w.store.newPair first second).2 (.pair ⟨w.store.pairs.size⟩) nofun <| by
    intro item next h
    rcases h.of_newPair with hold | hnext | hnext
    · exact .inl hold
    · exact .inr (hfirst next hnext)
    · exact .inr (hsecond next hnext)

/-- Makes a closure. -/
def newClosure
    (w : World given)
    {made : Closure}
    (hbody : ∀ value ∈ made.body, w.Has value)
    (hframe : .frame made.frame ∈ w.items) :
    World given :=
  w.make (w.store.newClosure made).2 (.closure ⟨w.store.closures.size⟩) nofun <| by
    intro item next h
    rcases h.of_newClosure with hold | ⟨value, hvalue, hnext⟩ | rfl
    · exact .inl hold
    · exact .inr (hbody value hvalue next hnext)
    · exact .inr hframe

/-- Makes a frame. -/
def newFrame
    (w : World given)
    {made : Frame}
    (hparent : ∀ parent, made.parent = some parent → .frame parent ∈ w.items)
    (hbound : ∀ name value, made.get? name = some value → w.Has value) :
    World given :=
  w.make (w.store.newFrame made).2 (.frame ⟨w.store.frames.size⟩) nofun <| by
    intro item next h
    rcases h.of_newFrame with hold | ⟨parent, hmade, rfl⟩ | ⟨name, value, hmade, hnext⟩
    · exact .inl hold
    · exact .inr (hparent parent hmade)
    · exact .inr (hbound name value hmade next hnext)

/-- Overwrites the first slot of a pair. -/
def setFirst
    (w : World given)
    (id : PairId)
    {value : Value}
    (hvalue : w.Has value) :
    World given :=
  w.write (w.store.setFirst id value) fun _ next h => h.of_setFirst.imp_right (hvalue next)

/-- Overwrites the second slot of a pair. -/
def setSecond
    (w : World given)
    (id : PairId)
    {value : Value}
    (hvalue : w.Has value) :
    World given :=
  w.write (w.store.setSecond id value) fun _ next h => h.of_setSecond.imp_right (hvalue next)

/-- Binds a name in a frame. -/
def bind
    (w : World given)
    (id : FrameId)
    (name : String)
    {value : Value}
    (hvalue : w.Has value) :
    World given :=
  w.write (w.store.define id name value) fun _ next h => h.of_define.imp_right (hvalue next)

end World

/-- One change that code makes to the store. -/
inductive Change : World given → World given → Prop
  | newPair
      {w : World given}
      {first second : Value}
      (hfirst : w.Has first)
      (hsecond : w.Has second) :
      Change w (w.newPair hfirst hsecond)
  | newClosure
      {w : World given}
      {made : Closure}
      (hbody : ∀ value ∈ made.body, w.Has value)
      (hframe : .frame made.frame ∈ w.items) :
      Change w (w.newClosure hbody hframe)
  | newFrame
      {w : World given}
      {made : Frame}
      (hinside : ∃ parent, made.parent = some parent)
      (hparent : ∀ parent, made.parent = some parent → .frame parent ∈ w.items)
      (hbound : ∀ name value, made.get? name = some value → w.Has value) :
      Change w (w.newFrame hparent hbound)
  | setFirst
      {w : World given}
      {id : PairId}
      {value : Value}
      (hsetter : .primitive (.strict .setCar) ∈ w.items)
      (hpair : .pair id ∈ w.items)
      (hvalue : w.Has value) :
      Change w (w.setFirst id hvalue)
  | setSecond
      {w : World given}
      {id : PairId}
      {value : Value}
      (hsetter : .primitive (.strict .setCdr) ∈ w.items)
      (hpair : .pair id ∈ w.items)
      (hvalue : w.Has value) :
      Change w (w.setSecond id hvalue)
  | define
      {w : World given}
      {id : FrameId}
      {name : String}
      {value : Value}
      (hdefine : .primitive (.special .define) ∈ w.items)
      (hhome : id ∈ w.homes)
      (hname : .symbol name ∈ w.items)
      (hvalue : w.Has value) :
      Change w (w.bind id name hvalue)
  | assign
      {w : World given}
      {id : FrameId}
      {name : String}
      {value : Value}
      (hassign : .primitive (.special .assign) ∈ w.items)
      (hframe : .frame id ∈ w.items)
      (hbinds : (w.store.frame id).binds name = true)
      (hname : .symbol name ∈ w.items)
      (hvalue : w.Has value) :
      Change w (w.bind id name hvalue)
  | fill
      {w : World given}
      {id : FrameId}
      {name : String}
      {value : Value}
      (hcall : id ∈ w.calls)
      (hhome : id ∈ w.homes)
      (hvalue : w.Has value) :
      Change w (w.bind id name hvalue)

/-- Any number of changes. -/
def Changes : World given → World given → Prop :=
  Relation.ReflTransGen Change

/-- A store holds at least as many objects as an older one. -/
structure Store.Grows (older newer : Store) : Prop where
  pairs : older.pairs.size ≤ newer.pairs.size
  closures : older.closures.size ≤ newer.closures.size
  frames : older.frames.size ≤ newer.frames.size

theorem Store.Grows.refl (store : Store) : store.Grows store :=
  ⟨Nat.le_refl _, Nat.le_refl _, Nat.le_refl _⟩

theorem Store.Grows.trans
    {first second third : Store}
    (h : first.Grows second)
    (h' : second.Grows third) :
    first.Grows third :=
  ⟨Nat.le_trans h.pairs h'.pairs, Nat.le_trans h.closures h'.closures,
    Nat.le_trans h.frames h'.frames⟩

/-- What was made in a part of a time was made in that time. -/
theorem Item.Made.mono
    {older old new newer : Store}
    {item : Item}
    (h : item.Made old new)
    (hold : older.Grows old)
    (hnew : new.Grows newer) :
    item.Made older newer := by
  cases item with
  | pair id => exact ⟨Nat.le_trans hold.pairs h.1, Nat.lt_of_lt_of_le h.2 hnew.pairs⟩
  | closure id => exact ⟨Nat.le_trans hold.closures h.1, Nat.lt_of_lt_of_le h.2 hnew.closures⟩
  | frame id => exact ⟨Nat.le_trans hold.frames h.1, Nat.lt_of_lt_of_le h.2 hnew.frames⟩
  | primitive p => exact h
  | symbol name => exact h

namespace Change

variable {w w' : World given}

theorem grows (h : Change w w') : w.store.Grows w'.store := by
  cases h <;> constructor <;>
    simp [World.newPair, World.newClosure, World.newFrame, World.make, World.setFirst,
      World.setSecond, World.bind, World.write, Store.newPair, Store.newClosure, Store.newFrame,
      Store.setFirst, Store.setSecond, Store.define]

theorem items_subset (h : Change w w') : w.items ⊆ w'.items := by
  cases h with
  | newPair | newClosure | newFrame => exact Set.subset_insert _ _
  | _ => exact subset_rfl

theorem homes_subset (h : Change w w') : w.homes ⊆ w'.homes := by
  cases h with
  | newPair | newClosure | newFrame => exact fun _ hid => .inl hid
  | _ => exact subset_rfl

theorem calls_subset (h : Change w w') : w.calls ⊆ w'.calls := by
  cases h with
  | newPair | newClosure | newFrame => exact fun _ hid => .inl hid
  | _ => exact subset_rfl

/-- A frame of a call was one before, or it is new. -/
theorem call_or_new
    (h : Change w w')
    {id : FrameId}
    (hid : id ∈ w'.calls) :
    id ∈ w.calls ∨ w.store.frames.size ≤ id.index := by
  cases h with
  | newPair | newClosure => exact .inl (hid.resolve_right nofun)
  | newFrame =>
      rcases hid with hid | hmade
      · exact .inl hid
      · cases hmade
        exact .inr (Nat.le_refl _)
  | _ => exact .inl hid

theorem made
    (h : Change w w')
    {item : Item}
    (hitem : item ∈ w'.items) :
    item ∈ w.items ∨ item.Made w.store w'.store := by
  cases h with
  | newPair | newClosure | newFrame =>
      rcases Set.mem_insert_iff.mp hitem with rfl | hitem
      · refine .inr ⟨Nat.le_refl _, ?_⟩
        simp [World.newPair, World.newClosure, World.newFrame, World.make, Store.newPair,
          Store.newClosure, Store.newFrame]
      · exact .inl hitem
  | _ => exact .inl hitem

/-- A change leaves alone the pairs that code has not got hold of. -/
theorem pair_eq
    (h : Change w w')
    {id : PairId}
    (hid : id.index < w.store.pairs.size)
    (hnot : .pair id ∉ w.items) :
    w'.store.pair id = w.store.pair id := by
  cases h with
  | newPair hfirst hsecond =>
      exact (Store.pair_newPair _ _ _ id).trans (if_neg (Nat.ne_of_lt hid))
  | @setFirst changed value _ hpair =>
      rcases w.store.pair_setFirst_cases changed id value with
        hsame | ⟨rfl, -⟩
      · exact hsame
      · exact (hnot hpair).elim
  | @setSecond changed value _ hpair =>
      rcases w.store.pair_setSecond_cases changed id value with
        hsame | ⟨rfl, -⟩
      · exact hsame
      · exact (hnot hpair).elim
  | _ => rfl

/-- A change leaves alone the frames that code has not got hold of. -/
theorem frame_eq
    (h : Change w w')
    {id : FrameId}
    (hid : id.index < w.store.frames.size)
    (hnot : .frame id ∉ w.items) :
    w'.store.frame id = w.store.frame id := by
  cases h with
  | newFrame =>
      exact (Store.frame_newFrame _ _ id).trans (if_neg (Nat.ne_of_lt hid))
  | @define changed name value _ hhome =>
      rcases w.store.frame_define_cases changed id name value with
        hsame | ⟨rfl, -⟩
      · exact hsame
      · exact (hnot (w.homes_held hhome)).elim
  | @assign changed name value _ hframe =>
      rcases w.store.frame_define_cases changed id name value with
        hsame | ⟨rfl, -⟩
      · exact hsame
      · exact (hnot hframe).elim
  | @fill changed name value _ hhome =>
      rcases w.store.frame_define_cases changed id name value with
        hsame | ⟨rfl, -⟩
      · exact hsame
      · exact (hnot (w.homes_held hhome)).elim
  | _ => rfl

end Change

namespace Changes

variable {w w' w'' : World given}

theorem trans
    (h : Changes w w')
    (h' : Changes w' w'') :
    Changes w w'' :=
  Relation.ReflTransGen.trans h h'

theorem grows (h : Changes w w') : w.store.Grows w'.store := by
  induction h with
  | refl => exact .refl _
  | tail _ hlast ih => exact ih.trans hlast.grows

theorem items_subset (h : Changes w w') : w.items ⊆ w'.items := by
  induction h with
  | refl => exact subset_rfl
  | tail _ hlast ih => exact ih.trans hlast.items_subset

theorem homes_subset (h : Changes w w') : w.homes ⊆ w'.homes := by
  induction h with
  | refl => exact subset_rfl
  | tail _ hlast ih => exact ih.trans hlast.homes_subset

theorem calls_subset (h : Changes w w') : w.calls ⊆ w'.calls := by
  induction h with
  | refl => exact subset_rfl
  | tail _ hlast ih => exact ih.trans hlast.calls_subset

/-- A frame of a call was one before, or it has been made since. -/
theorem call_or_new
    (h : Changes w w')
    {id : FrameId}
    (hid : id ∈ w'.calls) :
    id ∈ w.calls ∨ w.store.frames.size ≤ id.index := by
  induction h with
  | refl => exact .inl hid
  | tail hfirst hlast ih =>
      rcases hlast.call_or_new hid with hid | hnew
      · exact ih hid
      · exact .inr (Nat.le_trans (grows hfirst).frames hnew)

theorem has
    (h : Changes w w')
    {value : Value}
    (hvalue : w.Has value) :
    w'.Has value :=
  fun item hitem => h.items_subset (hvalue item hitem)

/-- Code gets hold of new items only by making them. -/
theorem made
    (h : Changes w w')
    {item : Item}
    (hitem : item ∈ w'.items) :
    item ∈ w.items ∨ item.Made w.store w'.store := by
  induction h with
  | refl => exact .inl hitem
  | tail hfirst hlast ih =>
      rcases hlast.made hitem with hitem | hmade
      · rcases ih hitem with hitem | hmade
        · exact .inl hitem
        · exact .inr (hmade.mono (.refl _) hlast.grows)
      · exact .inr (hmade.mono (grows hfirst) (.refl _))

/-- Code leaves alone the pairs that it has not got hold of. -/
theorem pair_eq
    (h : Changes w w')
    {id : PairId}
    (hid : id.index < w.store.pairs.size)
    (hnot : .pair id ∉ w.items) :
    w'.store.pair id = w.store.pair id := by
  induction h with
  | refl => rfl
  | @tail middle _ hfirst hlast ih =>
      have hmiddle : .pair id ∉ middle.items := by
        intro hitem
        rcases made hfirst hitem with hitem | hmade
        · exact hnot hitem
        · exact Nat.not_lt_of_le hmade.1 hid
      rw [← ih]
      exact hlast.pair_eq (Nat.lt_of_lt_of_le hid (grows hfirst).pairs) hmiddle

/-- Code leaves alone the frames that it has not got hold of. -/
theorem frame_eq
    (h : Changes w w')
    {id : FrameId}
    (hid : id.index < w.store.frames.size)
    (hnot : .frame id ∉ w.items) :
    w'.store.frame id = w.store.frame id := by
  induction h with
  | refl => rfl
  | @tail middle _ hfirst hlast ih =>
      have hmiddle : .frame id ∉ middle.items := by
        intro hitem
        rcases made hfirst hitem with hitem | hmade
        · exact hnot hitem
        · exact Nat.not_lt_of_le hmade.1 hid
      rw [← ih]
      exact hlast.frame_eq (Nat.lt_of_lt_of_le hid (grows hfirst).frames) hmiddle

end Changes

/-- What code can reach from what it has got hold of, it has got hold of. -/
theorem World.reaches
    (w : World given)
    {item next : Item}
    (hitem : item ∈ w.items)
    (h : w.store.Reaches item next) :
    next ∈ w.items := by
  induction h with
  | refl => exact hitem
  | tail _ hlink ih => exact w.closed ih hlink

end SmallLisp
