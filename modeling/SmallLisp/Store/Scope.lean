import SmallLisp.Store.Basic

/-!
# Scopes

A name means what the nearest frame that binds it says, going outward from a frame through its
parents. Looking a name up and assigning to it are two searches of their own, and the depth of a
frame is counted by a third.

The walks outward are bounded by one step more than there are frames, which every acyclic line of
parents fits into. The list `Store.scopes` is the line of frames that they all go along, and
`lookup_eq_findSome?`, `assign_eq` and `depth_eq` say what each makes of it.
-/

namespace SmallLisp

namespace Store

/-- The value of a name in the nearest of the first `count` frames from a frame outward. -/
def lookupUpTo (store : Store) (name : String) : Nat → FrameId → Option Value
  | 0, _ => none
  | count + 1, id =>
    match (store.frame id).get? name with
    | some value => some value
    | none =>
      match (store.frame id).parent with
      | none => none
      | some parent => lookupUpTo store name count parent

/-- The value of a name. -/
def lookup (store : Store) (id : FrameId) (name : String) : Option Value :=
  store.lookupUpTo name (store.frames.size + 1) id

/-- Whether a name is bound. -/
def contains (store : Store) (id : FrameId) (name : String) : Bool :=
  (store.lookup id name).isSome

/-- Changes the binding of a name in the nearest of the first `count` frames from a frame outward. -/
def assignUpTo (store : Store) (name : String) (value : Value) : Nat → FrameId → Bool × Store
  | 0, _ => (false, store)
  | count + 1, id =>
    if (store.frame id).binds name then (true, store.define id name value)
    else
      match (store.frame id).parent with
      | none => (false, store)
      | some parent => assignUpTo store name value count parent

/-- Changes the nearest binding of a name, and says whether there is one. -/
def assign (id : FrameId) (name : String) (value : Value) (store : Store) : Bool × Store :=
  store.assignUpTo name value (store.frames.size + 1) id

/-- The number of frames around a frame, counted up to `count`. -/
def depthUpTo (store : Store) : Nat → FrameId → Nat
  | 0, _ => 0
  | count + 1, id =>
    match (store.frame id).parent with
    | none => 0
    | some parent => depthUpTo store count parent + 1

/-- The number of frames around a frame. -/
def depth (store : Store) (id : FrameId) : Nat :=
  store.depthUpTo store.frames.size id

/-- The first `count` frames from a frame outward. -/
def scopesUpTo (store : Store) : Nat → FrameId → List FrameId
  | 0, _ => []
  | count + 1, id =>
    match (store.frame id).parent with
    | none => [id]
    | some parent => id :: scopesUpTo store count parent

/-- The frames from a frame outward, the frame itself first. -/
def scopes (store : Store) (id : FrameId) : List FrameId :=
  store.scopesUpTo (store.frames.size + 1) id

/-- The nearest frame that binds a name. -/
def binder? (store : Store) (id : FrameId) (name : String) : Option FrameId :=
  (store.scopes id).find? fun scope => (store.frame scope).binds name

/-- A search for a value goes along the line of frames. -/
theorem lookupUpTo_eq
    (store : Store)
    (name : String)
    (count : Nat)
    (id : FrameId) :
    store.lookupUpTo name count id =
      (store.scopesUpTo count id).findSome? fun scope => (store.frame scope).get? name := by
  induction count generalizing id with
  | zero => rfl
  | succ count ih =>
      unfold lookupUpTo scopesUpTo
      cases hparent : (store.frame id).parent with
      | none =>
          rw [List.findSome?_singleton]
          cases (store.frame id).get? name <;> rfl
      | some parent =>
          rw [List.findSome?_cons]
          cases (store.frame id).get? name with
          | none => exact ih parent
          | some value => rfl

/-- The value of a name is the first one along the line of frames. -/
theorem lookup_eq_findSome?
    (store : Store)
    (id : FrameId)
    (name : String) :
    store.lookup id name =
      (store.scopes id).findSome? fun scope => (store.frame scope).get? name :=
  store.lookupUpTo_eq name (store.frames.size + 1) id

/-- A search for a binding to change goes along the line of frames. -/
theorem assignUpTo_eq
    (store : Store)
    (name : String)
    (value : Value)
    (count : Nat)
    (id : FrameId) :
    store.assignUpTo name value count id =
      match (store.scopesUpTo count id).find? fun scope => (store.frame scope).binds name with
      | some scope => (true, store.define scope name value)
      | none => (false, store) := by
  induction count generalizing id with
  | zero => rfl
  | succ count ih =>
      unfold assignUpTo scopesUpTo
      cases hparent : (store.frame id).parent with
      | none =>
          rw [List.find?_singleton]
          cases (store.frame id).binds name <;> rfl
      | some parent =>
          rw [List.find?_cons]
          cases (store.frame id).binds name with
          | false => exact ih parent
          | true => rfl

/-- An assignment changes the binding in the first frame of the line that has one. -/
theorem assign_eq
    (store : Store)
    (id : FrameId)
    (name : String)
    (value : Value) :
    store.assign id name value =
      match store.binder? id name with
      | some scope => (true, store.define scope name value)
      | none => (false, store) :=
  store.assignUpTo_eq name value (store.frames.size + 1) id

/-- A walk outward has at least the frame where it starts. -/
theorem length_scopesUpTo_pos
    (store : Store)
    (count : Nat)
    (id : FrameId) :
    0 < (store.scopesUpTo (count + 1) id).length := by
  unfold scopesUpTo
  split <;> exact Nat.succ_pos _

/-- The frames of a line are counted without the first. -/
theorem depth_eq
    (store : Store)
    (id : FrameId) :
    store.depth id = (store.scopes id).length - 1 := by
  unfold depth scopes
  induction store.frames.size generalizing id with
  | zero =>
      unfold scopesUpTo
      split <;> rfl
  | succ count ih =>
      unfold depthUpTo scopesUpTo
      cases hparent : (store.frame id).parent with
      | none => rfl
      | some parent =>
          have hpos := store.length_scopesUpTo_pos count parent
          dsimp only
          rw [ih parent, List.length_cons]
          omega

/-- A name has the value that its binder gives it. -/
theorem lookup_eq_binder
    (store : Store)
    (id : FrameId)
    (name : String) :
    store.lookup id name =
      (store.binder? id name).bind fun scope => (store.frame scope).get? name := by
  rw [lookup_eq_findSome?]
  unfold binder?
  induction store.scopes id with
  | nil => rfl
  | cons scope scopes ih =>
      cases h : (store.frame scope).get? name with
      | none => simp [Frame.binds, h, ih]
      | some value => simp [Frame.binds, h]

/-- An assignment succeeds exactly for the names that are bound. -/
theorem fst_assign
    (store : Store)
    (id : FrameId)
    (name : String)
    (value : Value) :
    (store.assign id name value).1 = store.contains id name := by
  unfold contains
  rw [lookup_eq_binder, assign_eq]
  cases h : store.binder? id name with
  | none => rfl
  | some scope =>
      have bound : (store.frame scope).binds name = true := by
        have found := List.find?_some h
        exact found
      simpa [Frame.binds] using bound.symm

/-- An assignment to a name without a binding writes nothing. -/
theorem assign_of_unbound
    {store : Store}
    {id : FrameId}
    {name : String}
    (value : Value)
    (h : store.lookup id name = none) :
    store.assign id name value = (false, store) := by
  have hassigned : (store.assign id name value).1 = false := by
    rw [fst_assign, contains, h]
    rfl
  rw [assign_eq] at hassigned ⊢
  split
  case h_1 scope hscope =>
      rw [hscope] at hassigned
      cases hassigned
  case h_2 => rfl

end Store

end SmallLisp
