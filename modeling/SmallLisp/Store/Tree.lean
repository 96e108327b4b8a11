import SmallLisp.Error
import SmallLisp.Store.Basic

/-!
# Data in the store

Reading a datum makes fresh pairs for it; printing a value looks at the tree of data that it stands
for.

* `Datum.install` puts a datum into a store;
* `Store.datum` takes the datum out again. It goes through the first slot of each pair before the
  second and fails at the first procedure. Its depth is bounded by one more than there are pairs,
  which suffices for every value without a cycle.
-/

namespace SmallLisp

/-- Puts a datum into a store, with a new pair for each of its pairs. -/
def Datum.install : Datum → Store → Value × Store
  | .nil, store => (.nil, store)
  | .int value, store => (.int value, store)
  | .bool value, store => (.bool value, store)
  | .sym name, store => (.sym name, store)
  | .cons first second, store =>
    let (first, store) := first.install store
    let (second, store) := second.install store
    store.newPair first second

namespace Store

/-- The datum of a value whose pairs are nested at most `bound` deep. -/
def datumUpTo (store : Store) : Nat → Value → Except Halt Datum
  | _, .nil => .ok .nil
  | _, .int value => .ok (.int value)
  | _, .bool value => .ok (.bool value)
  | _, .sym name => .ok (.sym name)
  | _, .closure _ => .error (.error (.evaluating .unprintable))
  | _, .primitive _ => .error (.error (.evaluating .unprintable))
  | 0, .pair _ => .error .unfinished
  | bound + 1, .pair id => do
    let first ← datumUpTo store bound (store.pair id).first
    let second ← datumUpTo store bound (store.pair id).second
    pure (.cons first second)

/-- The datum that a value stands for. -/
def datum (store : Store) (value : Value) : Except Halt Datum :=
  store.datumUpTo (store.pairs.size + 1) value

/-- The text of a value. -/
def print (store : Store) (value : Value) : Except Halt String :=
  (store.datum value).map Datum.print

end Store

end SmallLisp
