import Mathlib.Data.List.Find
import SmallLisp.Proofs.Holding
import SmallLisp.Proofs.ListTest
import SmallLisp.Proofs.Presence

/-!
# Stores that look alike

Identities carry no meaning: code cannot tell two stores apart of which one holds the same objects as the
other under different identities. What two such stores have in common is said for the part of the first one
that code has got hold of.

* `Renaming` gives new identities, `Value.rename` and its siblings put them in;
* `Renaming.Carries` says that an object is the same under its new identity;
* `Mirrors` says that a store looks like the store of a world. It may bind other values in `instead` of some,
  under names that code has not got hold of, and may have more in common with the store of the world than
  code has got hold of, namely the items in `also`, of which frames have their bindings in the same order;
* `Mirrors.lookup` and its siblings: reading finds the same in both stores.
-/

namespace SmallLisp

/-- New numbers for objects, different ones for different objects. -/
structure Renaming where
  pairs : Nat → Nat
  closures : Nat → Nat
  frames : Nat → Nat
  pairs_injective : Function.Injective pairs
  closures_injective : Function.Injective closures
  frames_injective : Function.Injective frames

namespace Renaming

/-- The renaming that changes nothing. -/
def same : Renaming :=
  ⟨id, id, id, Function.injective_id, Function.injective_id, Function.injective_id⟩

/-- The new identity of a pair. -/
def pair (r : Renaming) (id : PairId) : PairId :=
  ⟨r.pairs id.index⟩

/-- The new identity of a closure. -/
def closure (r : Renaming) (id : ClosureId) : ClosureId :=
  ⟨r.closures id.index⟩

/-- The new identity of a frame. -/
def frame (r : Renaming) (id : FrameId) : FrameId :=
  ⟨r.frames id.index⟩

theorem pair_injective (r : Renaming) : Function.Injective r.pair :=
  fun _ _ h => PairId.index_injective (r.pairs_injective (congrArg PairId.index h))

theorem frame_injective (r : Renaming) : Function.Injective r.frame :=
  fun _ _ h => FrameId.index_injective (r.frames_injective (congrArg FrameId.index h))

end Renaming

/-- The numbers from `size` on become the numbers from `size'` on. -/
def Continues (number : Nat → Nat) (size size' : Nat) : Prop :=
  ∀ count, number (size + count) = size' + count

namespace Continues

variable {number : Nat → Nat} {size size' : Nat}

theorem at_size (h : Continues number size size') : number size = size' :=
  h 0

theorem succ (h : Continues number size size') : Continues number (size + 1) (size' + 1) := by
  intro count
  rw [Nat.add_assoc, h, Nat.add_assoc]

theorem lt_iff
    (h : Continues number size size')
    (hinjective : Function.Injective number)
    (index : Nat) :
    number index < size' ↔ index < size := by
  constructor
  · intro hlt
    by_contra hge
    have hnext := h (index - size)
    rw [show size + (index - size) = index by omega] at hnext
    omega
  · intro hlt
    by_contra hge
    have hnext := h (number index - size')
    rw [show size' + (number index - size') = number index by omega] at hnext
    have hindex := hinjective hnext
    omega

theorem eq_iff
    (h : Continues number size size')
    (hinjective : Function.Injective number)
    (index : Nat) :
    number index = size' ↔ index = size := by
  rw [← h.at_size]
  exact hinjective.eq_iff

end Continues

/-- A value under new identities. -/
def Value.rename (r : Renaming) : Value → Value
  | .pair id => .pair (r.pair id)
  | .closure id => .closure (r.closure id)
  | value => value

/-- A pair under new identities. -/
def Pair.rename (r : Renaming) (pair : Pair) : Pair :=
  ⟨pair.first.rename r, pair.second.rename r⟩

/-- A closure under new identities. -/
def Closure.rename (r : Renaming) (closure : Closure) : Closure :=
  ⟨closure.parameters, closure.body.map (Value.rename r), r.frame closure.frame⟩

/-- Bindings under new identities. -/
def renameBindings (r : Renaming) (bindings : List (String × Value)) : List (String × Value) :=
  bindings.map fun entry => (entry.1, entry.2.rename r)

/-- A frame is another one under new identities, but for the values that it binds in `instead`. -/
structure Frame.RenamedTo
    (r : Renaming)
    (instead : String → Option Value)
    (frame frame' : Frame) : Prop where
  parent : frame'.parent = frame.parent.map r.frame
  get? : ∀ name, frame'.get? name = (instead name).or ((frame.get? name).map (Value.rename r))

/-- An item is the same in the second store under its new identity. -/
def Renaming.Carries
    (r : Renaming)
    (instead : FrameId → String → Option Value)
    (store store' : Store) :
    Item → Prop
  | .pair id => store'.pair (r.pair id) = (store.pair id).rename r
  | .closure id => store'.closure (r.closure id) = (store.closure id).rename r
  | .frame id => (store.frame id).RenamedTo r (instead id) (store'.frame (r.frame id))
  | .primitive _ => True
  | .symbol _ => True

/-- A store looks like the store of a world, and what is made next gets its new identity in it. -/
structure Mirrors
    {given : Primitive → Bool}
    (r : Renaming)
    (instead : FrameId → String → Option Value)
    (also : Set Item)
    (w : World given)
    (store : Store) : Prop where
  carries : ∀ item, item ∈ w.items ∨ item ∈ also → r.Carries instead w.store store item
  bindings : ∀ {id}, .frame id ∈ also → (∀ name, instead id name = none) →
    (store.frame (r.frame id)).bindings = renameBindings r (w.store.frame id).bindings
  instead_old : ∀ {id name}, instead id name ≠ none → id.index < w.store.frames.size
  instead_unheld : ∀ {id name}, instead id name ≠ none → .symbol name ∉ w.items
  instead_calls : ∀ {id name}, instead id name ≠ none → id ∉ w.calls
  pairs_next : Continues r.pairs w.store.pairs.size store.pairs.size
  closures_next : Continues r.closures w.store.closures.size store.closures.size
  frames_next : Continues r.frames w.store.frames.size store.frames.size
  pairs_le : w.store.pairs.size ≤ store.pairs.size
  frames_le : w.store.frames.size ≤ store.frames.size

namespace Value

variable {r : Renaming} {value : Value}

@[simp]
theorem rename_same (value : Value) : value.rename .same = value := by
  cases value <;> rfl

theorem rename_same_eq_id : Value.rename .same = id :=
  funext rename_same

@[simp]
theorem isTrue_rename : (value.rename r).isTrue = value.isTrue := by
  cases value <;> rfl

/-- A text never shows an identity. -/
@[simp]
theorem describe_rename : (value.rename r).describe = value.describe := by
  cases value <;> rfl

theorem rename_eq_nil_iff : value.rename r = .nil ↔ value = .nil := by
  cases value <;> simp [rename]

end Value

/-- Under the identities that the objects have, a pair is what it is. -/
theorem Pair.rename_same (pair : Pair) : pair.rename .same = pair := by
  rw [Pair.rename, Value.rename_same, Value.rename_same]

theorem Closure.rename_same (closure : Closure) : closure.rename .same = closure := by
  rw [Closure.rename, Value.rename_same_eq_id, List.map_id]
  rfl

theorem renameBindings_same (bindings : List (String × Value)) : renameBindings .same bindings = bindings := by
  simp [renameBindings]

theorem Frame.renamedTo_same_iff
    {instead : String → Option Value}
    {frame frame' : Frame} :
    frame.RenamedTo .same instead frame' ↔
      frame'.parent = frame.parent ∧ ∀ other, frame'.get? other = (instead other).or (frame.get? other) := by
  have hframe : Renaming.same.frame = id := rfl
  constructor
  · rintro ⟨hparent, hget⟩
    rw [hframe, Option.map_id] at hparent
    simp only [Value.rename_same_eq_id, Option.map_id, id_eq] at hget
    exact ⟨hparent, hget⟩
  · rintro ⟨hparent, hget⟩
    refine ⟨by rw [hframe, Option.map_id]; exact hparent, ?_⟩
    simp only [Value.rename_same_eq_id, Option.map_id, id_eq]
    exact hget

variable
  {given : Primitive → Bool}
  {r : Renaming}
  {instead : FrameId → String → Option Value}
  {also : Set Item}
  {w : World given}
  {store : Store}

namespace Mirrors

section Reading

variable (h : Mirrors r instead also w store)
include h

theorem pair
    {id : PairId}
    (hid : .pair id ∈ w.items) :
    store.pair (r.pair id) = (w.store.pair id).rename r :=
  h.carries (.pair id) (.inl hid)

theorem closure
    {id : ClosureId}
    (hid : .closure id ∈ w.items) :
    store.closure (r.closure id) = (w.store.closure id).rename r :=
  h.carries (.closure id) (.inl hid)

theorem parent
    {id : FrameId}
    (hid : .frame id ∈ w.items) :
    (store.frame (r.frame id)).parent = (w.store.frame id).parent.map r.frame :=
  (h.carries (.frame id) (.inl hid)).parent

theorem instead_eq_none
    {name : String}
    (hname : .symbol name ∈ w.items)
    (id : FrameId) :
    instead id name = none := by
  by_contra hne
  exact h.instead_unheld hne hname

theorem instead_call_eq_none
    {id : FrameId}
    (hcall : id ∈ w.calls)
    (name : String) :
    instead id name = none := by
  by_contra hne
  exact h.instead_calls hne hcall

/-- What a frame binds under a name that code has got hold of. -/
theorem get?
    {id : FrameId}
    {name : String}
    (hid : .frame id ∈ w.items)
    (hname : .symbol name ∈ w.items) :
    (store.frame (r.frame id)).get? name = ((w.store.frame id).get? name).map (Value.rename r) := by
  rw [(h.carries (.frame id) (.inl hid)).get? name, h.instead_eq_none hname, Option.none_or]

theorem binds
    {id : FrameId}
    {name : String}
    (hid : .frame id ∈ w.items)
    (hname : .symbol name ∈ w.items) :
    (store.frame (r.frame id)).binds name = (w.store.frame id).binds name := by
  rw [Frame.binds, Frame.binds, h.get? hid hname, Option.isSome_map]

theorem first?
    {value : Value}
    (hvalue : w.Has value) :
    store.first? (value.rename r) = (w.store.first? value).map (Value.rename r) := by
  cases value with
  | pair id => exact congrArg (some ∘ Pair.first) (h.pair (World.pair_mem hvalue))
  | _ => rfl

theorem second?
    {value : Value}
    (hvalue : w.Has value) :
    store.second? (value.rename r) = (w.store.second? value).map (Value.rename r) := by
  cases value with
  | pair id => exact congrArg (some ∘ Pair.second) (h.pair (World.pair_mem hvalue))
  | _ => rfl

theorem follow
    {value : Value}
    (hvalue : w.Has value)
    (count : Nat) :
    store.follow count (value.rename r) = (w.store.follow count value).map (Value.rename r) := by
  induction count generalizing value with
  | zero => rfl
  | succ count ih =>
      rw [Store.follow, Store.follow, h.second? hvalue]
      cases hsecond : w.store.second? value with
      | none => rfl
      | some second => exact ih (World.has_of_second? hvalue hsecond)

theorem chainUpTo
    {value : Value}
    (hvalue : w.Has value)
    (bound : Nat) :
    store.chainUpTo bound (value.rename r) =
      (w.store.chainUpTo bound value).map fun chain =>
        (chain.1.map (Value.rename r), chain.2.rename r) := by
  induction bound generalizing value with
  | zero => cases value <;> rfl
  | succ bound ih =>
      cases value with
      | pair id =>
          have hid := World.pair_mem hvalue
          rw [Value.rename, Store.chainUpTo, Store.chainUpTo, h.pair hid]
          dsimp only [Pair.rename]
          rw [ih (World.has_second hid), Option.map_map, Option.map_map]
          rfl
      | _ => rfl

theorem chain?
    {value : Value}
    (hvalue : w.Has value) :
    store.chain? (value.rename r) =
      (w.store.chain? value).map fun chain =>
        (chain.1.map (Value.rename r), chain.2.rename r) := by
  rw [Store.chain?, h.chainUpTo hvalue, w.store.chainUpTo_eq (Nat.succ_le_succ h.pairs_le)]

theorem isList
    {value : Value}
    (hvalue : w.Has value) :
    store.isList (value.rename r) = w.store.isList value := by
  rw [Store.isList_eq, Store.isList_eq, h.chain? hvalue]
  rcases w.store.chain? value with _ | ⟨front, _ | _ | _ | _ | _ | _ | _⟩ <;> rfl

theorem elements?
    {value : Value}
    (hvalue : w.Has value) :
    store.elements? (value.rename r) = (w.store.elements? value).map (List.map (Value.rename r)) := by
  rw [Store.elements?, Store.elements?, h.chain? hvalue]
  rcases w.store.chain? value with _ | ⟨front, _ | _ | _ | _ | _ | _ | _⟩ <;>
    simp [Value.rename]

theorem scopesUpTo
    {id : FrameId}
    (hid : .frame id ∈ w.items)
    (bound : Nat) :
    store.scopesUpTo bound (r.frame id) = (w.store.scopesUpTo bound id).map r.frame := by
  induction bound generalizing id with
  | zero => rfl
  | succ bound ih =>
      have hsame := h.parent hid
      cases hparent : (w.store.frame id).parent with
      | none =>
          rw [hparent] at hsame
          rw [w.store.scopesUpTo_of_outermost hparent, store.scopesUpTo_of_outermost hsame]
          rfl
      | some parent =>
          rw [hparent] at hsame
          rw [w.store.scopesUpTo_of_parent hparent, store.scopesUpTo_of_parent hsame,
            ih (w.closed hid (.parent hparent))]
          rfl

theorem binder?
    {id : FrameId}
    {name : String}
    (hid : .frame id ∈ w.items)
    (hname : .symbol name ∈ w.items) :
    store.binder? (r.frame id) name = (w.store.binder? id name).map r.frame := by
  have hsame : ∀ scope ∈ w.store.scopesUpTo (store.frames.size + 1) id,
      (store.frame (r.frame scope)).binds name = (w.store.frame scope).binds name :=
    fun scope hscope => h.binds (World.frame_mem_of_mem_scopesUpTo hid hscope) hname
  calc
    store.binder? (r.frame id) name
        = ((w.store.scopesUpTo (store.frames.size + 1) id).find?
            fun scope => (store.frame (r.frame scope)).binds name).map r.frame := by
      rw [Store.binder?, Store.scopes, h.scopesUpTo hid, List.find?_map]
      rfl
    _ = ((w.store.scopesUpTo (store.frames.size + 1) id).find?
            fun scope => (w.store.frame scope).binds name).map r.frame := by
      rw [List.find?_congr hsame]
    _ = (w.store.binder? id name).map r.frame := by
      rw [Store.binder?, w.store.find?_scopesUpTo (Nat.succ_le_succ h.frames_le)]

theorem lookup
    {id : FrameId}
    {name : String}
    (hid : .frame id ∈ w.items)
    (hname : .symbol name ∈ w.items) :
    store.lookup (r.frame id) name = (w.store.lookup id name).map (Value.rename r) := by
  rw [Store.lookup_eq_binder, Store.lookup_eq_binder, h.binder? hid hname]
  cases hscope : w.store.binder? id name with
  | none => rfl
  | some scope => exact h.get? (World.binder?_mem hid hscope).1 hname

/-- A line that runs in a circle is cut off after as many steps as there are frames, so its depth may be
another one. -/
theorem depth
    {id : FrameId}
    (hid : .frame id ∈ w.items)
    (hends : store.frames.size = w.store.frames.size ∨ w.store.LineEnds id) :
    store.depth (r.frame id) = w.store.depth id := by
  rw [Store.depth_eq, Store.scopes, h.scopesUpTo hid, List.length_map, Store.depth_eq]
  rcases hends with hsize | hends
  · rw [hsize]
    rfl
  · rw [hends.scopesUpTo_eq (Nat.succ_le_succ h.frames_le)]

theorem datumUpTo
    {value : Value}
    (hvalue : w.Has value)
    (bound : Nat) :
    store.datumUpTo bound (value.rename r) = w.store.datumUpTo bound value := by
  induction bound generalizing value with
  | zero => cases value <;> rfl
  | succ bound ih =>
      cases value with
      | pair id =>
          have hid := World.pair_mem hvalue
          rw [Value.rename, Store.datumUpTo, Store.datumUpTo, h.pair hid]
          dsimp only [Pair.rename]
          rw [ih (World.has_first hid), ih (World.has_second hid)]
      | _ => rfl

/-- Printing shows no identities. -/
theorem print
    {value : Value}
    (hvalue : w.Has value) :
    store.print (value.rename r) = w.store.print value := by
  rw [Store.print, Store.datum, h.datumUpTo hvalue,
    w.store.datumUpTo_eq (Nat.succ_le_succ h.pairs_le), Store.print]

/-- What is said of a result is the same in both stores. -/
theorem answer
    {result : Except Halt Value}
    (hvalue : ∀ value, result = .ok value → w.Has value) :
    (result.map (Value.rename r)).bind store.print = result.bind w.store.print := by
  cases result with
  | ok value => exact h.print (hvalue value rfl)
  | error halt => rfl

end Reading

end Mirrors

end SmallLisp
