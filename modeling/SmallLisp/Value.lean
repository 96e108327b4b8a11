import SmallLisp.Datum.Printer
import SmallLisp.Primitive

/-!
# Values

What an expression evaluates to, and what expressions are made of. Pairs and closures live in a store
and are values by identity, so equality of values is identity of pairs and closures.
-/

namespace SmallLisp

/-- The identity of a pair. -/
structure PairId where
  /-- The number of pairs made before it. -/
  index : Nat
deriving DecidableEq, Repr

/-- The identity of a closure. -/
structure ClosureId where
  /-- The number of closures made before it. -/
  index : Nat
deriving DecidableEq, Repr

/-- The identity of a frame of bindings. -/
structure FrameId where
  /-- The number of frames made before it. -/
  index : Nat
deriving DecidableEq, Repr

/-- Pairs are told apart by their numbers. -/
theorem PairId.index_injective : Function.Injective PairId.index := by
  rintro ⟨one⟩ ⟨other⟩ rfl
  rfl

/-- Frames are told apart by their numbers. -/
theorem FrameId.index_injective : Function.Injective FrameId.index := by
  rintro ⟨one⟩ ⟨other⟩ rfl
  rfl

/-- A value: an atom, a pair or a closure in the store, or a primitive. -/
inductive Value where
  | nil
  | int (value : Int64)
  | bool (value : Bool)
  | sym (name : String)
  | pair (id : PairId)
  | closure (id : ClosureId)
  | primitive (primitive : Primitive)
deriving DecidableEq, Repr

namespace Value

/-- Every value but false counts as true. -/
def isTrue : Value → Bool
  | bool false => false
  | _ => true

/-- Whether a value is a pair. -/
def isPair : Value → Bool
  | pair _ => true
  | _ => false

/-- Short words for a value in an error text. Pairs are not followed, since a chain may be
circular. -/
def describe : Value → String
  | nil => Datum.nil.print
  | int value => (Datum.int value).print
  | bool value => (Datum.bool value).print
  | sym name => name
  | pair _ => "#<pair>"
  | closure _ => "#<procedure>"
  | primitive p => s!"#<procedure {p.name}>"

end Value

end SmallLisp
