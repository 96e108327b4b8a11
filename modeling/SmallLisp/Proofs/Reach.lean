import Mathlib.Data.Set.Insert
import Mathlib.Logic.Relation
import SmallLisp.Store.Chain
import SmallLisp.Store.Scope

/-!
# Reaching through the store

A pair leads to what is in its slots, a closure to its body and to the frame in which it was made, a
frame to its parent and to what it binds. What code can get hold of is what it reaches in this way.

* `Item` is what values lead to, `Store.Link` one step of leading, `Store.Reaches` any number of them;
* `Store.Link.of_newPair` and its siblings say which links a change of the store can add: only such that
  lead to what was put there.
-/

namespace SmallLisp

/-- What a value can lead to: the objects of the store, the primitives and the symbols. -/
inductive Item where
  | pair (id : PairId)
  | closure (id : ClosureId)
  | frame (id : FrameId)
  | primitive (primitive : Primitive)
  | symbol (name : String)

/-- What a value is besides an atom without identity or name. -/
def Value.item? : Value → Option Item
  | .sym name => some (.symbol name)
  | .pair id => some (.pair id)
  | .closure id => some (.closure id)
  | .primitive p => some (.primitive p)
  | _ => none

/-- Whether an item was made after `older` and before `newer`. Primitives and symbols are not made. -/
def Item.Made (older newer : Store) : Item → Prop
  | .pair id => older.pairs.size ≤ id.index ∧ id.index < newer.pairs.size
  | .closure id => older.closures.size ≤ id.index ∧ id.index < newer.closures.size
  | .frame id => older.frames.size ≤ id.index ∧ id.index < newer.frames.size
  | .primitive _ => False
  | .symbol _ => False

namespace Store

/-- What an object of the store leads to directly. -/
inductive Link (store : Store) : Item → Item → Prop
  | first
      {id : PairId}
      {item : Item}
      (h : (store.pair id).first.item? = some item) :
      Link store (.pair id) item
  | second
      {id : PairId}
      {item : Item}
      (h : (store.pair id).second.item? = some item) :
      Link store (.pair id) item
  | body
      {id : ClosureId}
      {value : Value}
      {item : Item}
      (hbody : value ∈ (store.closure id).body)
      (h : value.item? = some item) :
      Link store (.closure id) item
  | captured
      (id : ClosureId) :
      Link store (.closure id) (.frame (store.closure id).frame)
  | parent
      {id parent : FrameId}
      (h : (store.frame id).parent = some parent) :
      Link store (.frame id) (.frame parent)
  | bound
      {id : FrameId}
      {name : String}
      {value : Value}
      {item : Item}
      (hbound : (store.frame id).get? name = some value)
      (h : value.item? = some item) :
      Link store (.frame id) item

/-- What an item leads to. -/
def Reaches (store : Store) : Item → Item → Prop :=
  Relation.ReflTransGen store.Link

/-- What can be reached from a value. -/
def ReachedFromValue (store : Store) (value : Value) (item : Item) : Prop :=
  ∃ first, value.item? = some first ∧ store.Reaches first item

/-- What code that evaluates an expression in a frame can reach. -/
def ReachedFrom (store : Store) (expression : Value) (frame : FrameId) (item : Item) : Prop :=
  store.ReachedFromValue expression item ∨ store.Reaches (.frame frame) item

variable {store : Store}

/-- What nothing leads to is reached from itself only. -/
theorem not_reachedFrom
    {expression : Value}
    {frame : FrameId}
    {item : Item}
    (hexpression : expression.item? ≠ some item)
    (hframe : .frame frame ≠ item)
    (hlink : ∀ other, ¬store.Link other item) :
    ¬store.ReachedFrom expression frame item := by
  rintro (⟨first, hfirst, hreaches⟩ | hreaches)
  · rcases Relation.ReflTransGen.cases_tail hreaches with rfl | ⟨other, -, h⟩
    · exact hexpression hfirst
    · exact hlink other h
  · rcases Relation.ReflTransGen.cases_tail hreaches with hsame | ⟨other, -, h⟩
    · exact hframe hsame.symm
    · exact hlink other h

theorem modify_of_size_le
    {α : Type}
    {objects : Array α}
    {index : Nat}
    (h : objects.size ≤ index)
    (change : α → α) :
    objects.modify index change = objects := by
  apply Array.ext
  · simp
  · intro other _ hother
    rw [Array.getElem_modify_of_ne (by omega)]

/-- Overwriting a first slot changes that slot, or nothing if there is no such pair. -/
theorem pair_setFirst_cases
    (store : Store)
    (id other : PairId)
    (value : Value) :
    (store.setFirst id value).pair other = store.pair other ∨
      other = id ∧ (store.setFirst id value).pair other = { store.pair id with first := value } := by
  by_cases hid : id.index < store.pairs.size
  · rw [pair_setFirst _ _ _ _ hid]
    by_cases hother : other = id
    · exact .inr ⟨hother, if_pos hother⟩
    · exact .inl (if_neg hother)
  · rw [setFirst, modify_of_size_le (Nat.le_of_not_lt hid)]
    exact .inl rfl

/-- Overwriting a second slot changes that slot, or nothing if there is no such pair. -/
theorem pair_setSecond_cases
    (store : Store)
    (id other : PairId)
    (value : Value) :
    (store.setSecond id value).pair other = store.pair other ∨
      other = id ∧ (store.setSecond id value).pair other = { store.pair id with second := value } := by
  by_cases hid : id.index < store.pairs.size
  · rw [pair_setSecond _ _ _ _ hid]
    by_cases hother : other = id
    · exact .inr ⟨hother, if_pos hother⟩
    · exact .inl (if_neg hother)
  · rw [setSecond, modify_of_size_le (Nat.le_of_not_lt hid)]
    exact .inl rfl

/-- Binding a name changes the frame it is bound in, or nothing if there is no such frame. -/
theorem frame_define_cases
    (store : Store)
    (id other : FrameId)
    (name : String)
    (value : Value) :
    (store.define id name value).frame other = store.frame other ∨
      other = id ∧ (store.define id name value).frame other = (store.frame id).insert name value := by
  by_cases hid : id.index < store.frames.size
  · rw [frame_define _ _ _ _ _ hid]
    by_cases hother : other = id
    · exact .inr ⟨hother, if_pos hother⟩
    · exact .inl (if_neg hother)
  · rw [define, modify_of_size_le (Nat.le_of_not_lt hid)]
    exact .inl rfl

namespace Link

variable {item next : Item}

theorem of_newPair
    {first second : Value}
    (h : (store.newPair first second).2.Link item next) :
    item ≠ .pair ⟨store.pairs.size⟩ ∧ store.Link item next ∨
      first.item? = some next ∨
      second.item? = some next := by
  cases h with
  | first h =>
      rw [pair_newPair] at h
      split at h
      · exact .inr (.inl h)
      · rename_i hold
        exact .inl ⟨by rintro ⟨⟩; exact hold rfl, .first h⟩
  | second h =>
      rw [pair_newPair] at h
      split at h
      · exact .inr (.inr h)
      · rename_i hold
        exact .inl ⟨by rintro ⟨⟩; exact hold rfl, .second h⟩
  | body hbody h => exact .inl ⟨nofun, .body hbody h⟩
  | captured id => exact .inl ⟨nofun, .captured id⟩
  | parent h => exact .inl ⟨nofun, .parent h⟩
  | bound hbound h => exact .inl ⟨nofun, .bound hbound h⟩

theorem of_newClosure
    {made : Closure}
    (h : (store.newClosure made).2.Link item next) :
    item ≠ .closure ⟨store.closures.size⟩ ∧ store.Link item next ∨
      (∃ value ∈ made.body, value.item? = some next) ∨
      next = .frame made.frame := by
  cases h with
  | first h => exact .inl ⟨nofun, .first h⟩
  | second h => exact .inl ⟨nofun, .second h⟩
  | body hbody h =>
      rw [closure_newClosure] at hbody
      split at hbody
      · exact .inr (.inl ⟨_, hbody, h⟩)
      · rename_i hold
        exact .inl ⟨by rintro ⟨⟩; exact hold rfl, .body hbody h⟩
  | captured id =>
      rw [closure_newClosure]
      split
      · exact .inr (.inr rfl)
      · rename_i hold
        exact .inl ⟨by rintro ⟨⟩; exact hold rfl, .captured id⟩
  | parent h => exact .inl ⟨nofun, .parent h⟩
  | bound hbound h => exact .inl ⟨nofun, .bound hbound h⟩

theorem of_newFrame
    {made : Frame}
    (h : (store.newFrame made).2.Link item next) :
    item ≠ .frame ⟨store.frames.size⟩ ∧ store.Link item next ∨
      (∃ parent, made.parent = some parent ∧ next = .frame parent) ∨
      ∃ name value, made.get? name = some value ∧ value.item? = some next := by
  cases h with
  | first h => exact .inl ⟨nofun, .first h⟩
  | second h => exact .inl ⟨nofun, .second h⟩
  | body hbody h => exact .inl ⟨nofun, .body hbody h⟩
  | captured id => exact .inl ⟨nofun, .captured id⟩
  | parent h =>
      rw [frame_newFrame] at h
      split at h
      · exact .inr (.inl ⟨_, h, rfl⟩)
      · rename_i hold
        exact .inl ⟨by rintro ⟨⟩; exact hold rfl, .parent h⟩
  | bound hbound h =>
      rw [frame_newFrame] at hbound
      split at hbound
      · exact .inr (.inr ⟨_, _, hbound, h⟩)
      · rename_i hold
        exact .inl ⟨by rintro ⟨⟩; exact hold rfl, .bound hbound h⟩

theorem of_setFirst
    {id : PairId}
    {value : Value}
    (h : (store.setFirst id value).Link item next) :
    store.Link item next ∨ value.item? = some next := by
  cases h with
  | @first other _ h =>
      rcases store.pair_setFirst_cases id other value with hsame | ⟨rfl, hchanged⟩
      · exact .inl (.first (hsame ▸ h))
      · rw [hchanged] at h
        exact .inr h
  | @second other _ h =>
      rcases store.pair_setFirst_cases id other value with hsame | ⟨rfl, hchanged⟩
      · exact .inl (.second (hsame ▸ h))
      · rw [hchanged] at h
        exact .inl (.second h)
  | body hbody h => exact .inl (.body hbody h)
  | captured id => exact .inl (.captured id)
  | parent h => exact .inl (.parent h)
  | bound hbound h => exact .inl (.bound hbound h)

theorem of_setSecond
    {id : PairId}
    {value : Value}
    (h : (store.setSecond id value).Link item next) :
    store.Link item next ∨ value.item? = some next := by
  cases h with
  | @first other _ h =>
      rcases store.pair_setSecond_cases id other value with hsame | ⟨rfl, hchanged⟩
      · exact .inl (.first (hsame ▸ h))
      · rw [hchanged] at h
        exact .inl (.first h)
  | @second other _ h =>
      rcases store.pair_setSecond_cases id other value with hsame | ⟨rfl, hchanged⟩
      · exact .inl (.second (hsame ▸ h))
      · rw [hchanged] at h
        exact .inr h
  | body hbody h => exact .inl (.body hbody h)
  | captured id => exact .inl (.captured id)
  | parent h => exact .inl (.parent h)
  | bound hbound h => exact .inl (.bound hbound h)

theorem of_define
    {id : FrameId}
    {name : String}
    {value : Value}
    (h : (store.define id name value).Link item next) :
    store.Link item next ∨ value.item? = some next := by
  cases h with
  | first h => exact .inl (.first h)
  | second h => exact .inl (.second h)
  | body hbody h => exact .inl (.body hbody h)
  | captured id => exact .inl (.captured id)
  | @parent other _ h =>
      rcases store.frame_define_cases id other name value with hsame | ⟨rfl, hchanged⟩
      · exact .inl (.parent (hsame ▸ h))
      · rw [hchanged] at h
        exact .inl (.parent h)
  | @bound other found _ _ hbound h =>
      rcases store.frame_define_cases id other name value with hsame | ⟨rfl, hchanged⟩
      · exact .inl (.bound (hsame ▸ hbound) h)
      · rw [hchanged, Frame.get?_insert] at hbound
        split at hbound
        · cases hbound
          exact .inr h
        · exact .inl (.bound hbound h)

end Link

end Store

end SmallLisp
