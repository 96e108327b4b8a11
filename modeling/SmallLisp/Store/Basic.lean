import SmallLisp.Value

/-!
# The store

Pairs, closures and frames, each kind numbered in the order in which they are made. Pairs and frames
can be changed; a closure never changes. An identity that names nothing reads as a pair of empty
slots, as a closure without parameters and body, or as a frame without parent and bindings.

The statements here say what can be read after each write, and that making an object leaves the
objects that exist as they are.
-/

namespace SmallLisp

/-- The two slots of a pair. -/
structure Pair where
  first : Value
  second : Value
deriving DecidableEq, Repr

/-- A procedure made by a program. -/
structure Closure where
  /-- The names of its parameters, in order. -/
  parameters : List String
  /-- Its expressions, in the order in which they are evaluated. -/
  body : List Value
  /-- The frame in which it was made. -/
  frame : FrameId
deriving DecidableEq, Repr

/-- A frame of bindings. -/
structure Frame where
  /-- The frame around it. -/
  parent : Option FrameId
  /-- The names that it binds, in the order in which they were first bound. -/
  bindings : List (String × Value)
deriving DecidableEq, Repr

/-- Binds a name, in the place of its binding if there is one. -/
def insertBinding (name : String) (value : Value) : List (String × Value) → List (String × Value)
  | [] => [(name, value)]
  | entry :: entries =>
    if entry.1 = name then (name, value) :: entries
    else entry :: insertBinding name value entries

namespace Frame

/-- The value of a name in the frame itself. -/
def get? (frame : Frame) (name : String) : Option Value :=
  frame.bindings.lookup name

/-- Whether the frame itself binds a name. -/
def binds (frame : Frame) (name : String) : Bool :=
  (frame.get? name).isSome

/-- Binds a name in the frame. -/
def insert (frame : Frame) (name : String) (value : Value) : Frame :=
  { frame with bindings := insertBinding name value frame.bindings }

/-- The value of a name is that of one of the bindings. -/
theorem mem_bindings_of_get?
    {frame : Frame}
    {name : String}
    {value : Value}
    (h : frame.get? name = some value) :
    (name, value) ∈ frame.bindings := by
  obtain ⟨front, back, hentries, -⟩ := List.lookup_eq_some_iff.mp h
  rw [hentries]
  exact List.mem_append_right _ List.mem_cons_self

/-- A name that was bound has its value; all others keep theirs. -/
theorem get?_insert
    (frame : Frame)
    (name other : String)
    (value : Value) :
    (frame.insert name value).get? other =
      if other = name then some value else frame.get? other := by
  obtain ⟨parent, entries⟩ := frame
  simp only [insert, get?]
  induction entries with
  | nil =>
      by_cases h : other = name
      · simp [insertBinding, h]
      · simp [insertBinding, List.lookup_cons, beq_false_of_ne h, h]
  | cons entry entries ih =>
      obtain ⟨key, old⟩ := entry
      by_cases hname : key = name
      · by_cases h : other = name
        · simp [insertBinding, hname, h]
        · simp [insertBinding, hname, List.lookup_cons, beq_false_of_ne h, h]
      · rw [insertBinding, if_neg hname]
        by_cases hother : other = key
        · simp [hother, hname]
        · simp [List.lookup_cons, beq_false_of_ne hother, ih]

/-- Binding a name binds it and no other. -/
theorem binds_insert
    (frame : Frame)
    (name other : String)
    (value : Value) :
    (frame.insert name value).binds other = (decide (other = name) || frame.binds other) := by
  unfold binds
  rw [get?_insert]
  by_cases h : other = name <;> simp [h]

/-- Binding a name leaves the parent alone. -/
@[simp]
theorem parent_insert (frame : Frame) (name : String) (value : Value) :
    (frame.insert name value).parent = frame.parent :=
  rfl

end Frame

/-- All pairs, closures and frames. -/
structure Store where
  pairs : Array Pair
  closures : Array Closure
  frames : Array Frame
deriving DecidableEq, Repr

namespace Store

/-- The store without any object. -/
def empty : Store :=
  ⟨#[], #[], #[]⟩

/-- The pair of an identity. -/
def pair (store : Store) (id : PairId) : Pair :=
  store.pairs.getD id.index ⟨.nil, .nil⟩

/-- The closure of an identity. -/
def closure (store : Store) (id : ClosureId) : Closure :=
  store.closures.getD id.index ⟨[], [], ⟨0⟩⟩

/-- The frame of an identity. -/
def frame (store : Store) (id : FrameId) : Frame :=
  store.frames.getD id.index ⟨none, []⟩

/-- Makes a pair. -/
def newPair (first second : Value) (store : Store) : Value × Store :=
  (.pair ⟨store.pairs.size⟩, { store with pairs := store.pairs.push ⟨first, second⟩ })

/-- Makes a closure. -/
def newClosure (closure : Closure) (store : Store) : Value × Store :=
  (.closure ⟨store.closures.size⟩, { store with closures := store.closures.push closure })

/-- Makes a frame. -/
def newFrame (frame : Frame) (store : Store) : FrameId × Store :=
  (⟨store.frames.size⟩, { store with frames := store.frames.push frame })

/-- Overwrites the first slot of a pair. -/
def setFirst (id : PairId) (value : Value) (store : Store) : Store :=
  { store with pairs := store.pairs.modify id.index fun pair => { pair with first := value } }

/-- Overwrites the second slot of a pair. -/
def setSecond (id : PairId) (value : Value) (store : Store) : Store :=
  { store with pairs := store.pairs.modify id.index fun pair => { pair with second := value } }

/-- Binds a name in a frame. -/
def define (id : FrameId) (name : String) (value : Value) (store : Store) : Store :=
  { store with frames := store.frames.modify id.index fun frame => frame.insert name value }

/-- The first slot of a value that is a pair. -/
def first? (store : Store) : Value → Option Value
  | .pair id => some (store.pair id).first
  | _ => none

/-- The second slot of a value that is a pair. -/
def second? (store : Store) : Value → Option Value
  | .pair id => some (store.pair id).second
  | _ => none

/-- A new pair has the slots that it was made with, and all older pairs keep theirs. -/
theorem pair_newPair
    (store : Store)
    (first second : Value)
    (id : PairId) :
    (store.newPair first second).2.pair id =
      if id.index = store.pairs.size then ⟨first, second⟩ else store.pair id := by
  simp only [newPair, pair, Array.getD_eq_getD_getElem?, Array.getElem?_push]
  split <;> simp

/-- A new closure is the one that was made, and all older closures stay. -/
theorem closure_newClosure
    (store : Store)
    (made : Closure)
    (id : ClosureId) :
    (store.newClosure made).2.closure id =
      if id.index = store.closures.size then made else store.closure id := by
  simp only [newClosure, closure, Array.getD_eq_getD_getElem?, Array.getElem?_push]
  split <;> simp

/-- A new frame is the one that was made, and all older frames stay. -/
theorem frame_newFrame
    (store : Store)
    (made : Frame)
    (id : FrameId) :
    (store.newFrame made).2.frame id =
      if id.index = store.frames.size then made else store.frame id := by
  simp only [newFrame, frame, Array.getD_eq_getD_getElem?, Array.getElem?_push]
  split <;> simp

/-- Overwriting a first slot changes nothing else. -/
theorem pair_setFirst
    (store : Store)
    (id other : PairId)
    (value : Value)
    (h : id.index < store.pairs.size) :
    (store.setFirst id value).pair other =
      if other = id then { store.pair id with first := value } else store.pair other := by
  obtain ⟨i⟩ := id
  obtain ⟨j⟩ := other
  simp only [setFirst, pair, Array.getD_eq_getD_getElem?, Array.getElem?_modify, PairId.mk.injEq]
  by_cases hij : i = j
  · subst hij
    simp [Array.getElem?_eq_getElem h]
  · have hji : ¬ j = i := fun e => hij e.symm
    simp [hij, hji]

/-- Overwriting a second slot changes nothing else. -/
theorem pair_setSecond
    (store : Store)
    (id other : PairId)
    (value : Value)
    (h : id.index < store.pairs.size) :
    (store.setSecond id value).pair other =
      if other = id then { store.pair id with second := value } else store.pair other := by
  obtain ⟨i⟩ := id
  obtain ⟨j⟩ := other
  simp only [setSecond, pair, Array.getD_eq_getD_getElem?, Array.getElem?_modify, PairId.mk.injEq]
  by_cases hij : i = j
  · subst hij
    simp [Array.getElem?_eq_getElem h]
  · have hji : ¬ j = i := fun e => hij e.symm
    simp [hij, hji]

/-- Binding a name changes the frame it is bound in and no other. -/
theorem frame_define
    (store : Store)
    (id other : FrameId)
    (name : String)
    (value : Value)
    (h : id.index < store.frames.size) :
    (store.define id name value).frame other =
      if other = id then (store.frame id).insert name value else store.frame other := by
  obtain ⟨i⟩ := id
  obtain ⟨j⟩ := other
  simp only [define, frame, Array.getD_eq_getD_getElem?, Array.getElem?_modify, FrameId.mk.injEq]
  by_cases hij : i = j
  · subst hij
    simp [Array.getElem?_eq_getElem h]
  · have hji : ¬ j = i := fun e => hij e.symm
    simp [hij, hji]

end Store

end SmallLisp
