import SmallLisp.Store.Basic

/-!
# Chains of pairs

A chain goes from pair to pair through the second slots. It is a list if it ends in the empty list;
it may also end in another value, or run in a circle.

The walk along a chain is bounded by one step more than there are pairs. A chain that ends meets no
pair twice, so the bound never cuts one off.

* `Store.chain?` gives the elements of a chain and the value that it ends in;
* `Store.isList` sends two walkers along a chain, one of them twice as fast, to see whether it ends;
* `Store.follow` goes a number of links along it;
* `Store.newChain` makes one.
-/

namespace SmallLisp

namespace Store

/-- The elements and the end of a chain of at most `count` pairs. -/
def chainUpTo (store : Store) : Nat → Value → Option (List Value × Value)
  | 0, .pair _ => none
  | count + 1, .pair id =>
    (chainUpTo store count (store.pair id).second).map fun chain =>
      ((store.pair id).first :: chain.1, chain.2)
  | _, value => some ([], value)

/-- The elements of a chain and the value that it ends in, unless it is circular. -/
def chain? (store : Store) (value : Value) : Option (List Value × Value) :=
  store.chainUpTo (store.pairs.size + 1) value

/-- The next link of a chain, or at its end whether that is the empty list. -/
def onward (store : Store) (value : Value) : Except Bool Value :=
  match store.second? value with
  | some next => .ok next
  | none => .error (value = .nil)

/-- One round of two walkers along a chain: the fast one goes two links, then the slow one goes one.
The round decides whether the chain is a list if a walker is at its end or if they meet at a pair. -/
def raceRound (store : Store) (slow fast : Value) : Except Bool (Value × Value) := do
  let fast ← store.onward fast
  let fast ← store.onward fast
  let slow ← store.onward slow
  if slow.isPair ∧ slow = fast then .error false else .ok (slow, fast)

/-- What two walkers find out within a number of rounds. -/
def race (store : Store) : Nat → Value → Value → Option Bool
  | 0, _, _ => none
  | rounds + 1, slow, fast =>
    match store.raceRound slow fast with
    | .error answer => some answer
    | .ok (slow, fast) => race store rounds slow fast

/-- Whether a value is a list. The walkers find out in at most one round more than there are pairs. -/
def isList (store : Store) (value : Value) : Bool :=
  (store.race (store.pairs.size + 1) value value).getD false

/-- The elements of a chain as a vector of operands. An end that is not the empty list counts as the
last element. -/
def elements? (store : Store) (value : Value) : Option (List Value) :=
  (store.chain? value).map fun chain =>
    match chain.2 with
    | .nil => chain.1
    | last => chain.1 ++ [last]

/-- The value reached after `count` links. -/
def follow (store : Store) : Nat → Value → Option Value
  | 0, value => some value
  | count + 1, value => (store.second? value).bind (follow store count)

/-- Makes the chain of the given elements that ends in `tail`. -/
def newChain : List Value → Value → Store → Value × Store
  | [], tail, store => (tail, store)
  | first :: elements, tail, store =>
    let (second, store) := newChain elements tail store
    store.newPair first second

/-- A value that is no pair is a chain without elements. -/
theorem chainUpTo_atom
    (store : Store)
    (count : Nat)
    {value : Value}
    (h : value.isPair = false) :
    store.chainUpTo count value = some ([], value) := by
  cases value with
  | pair id => cases h
  | _ => cases count <;> rfl

/-- Longer bounds find the same chain. -/
theorem chainUpTo_succ
    (store : Store)
    {count : Nat}
    {value : Value}
    {chain : List Value × Value}
    (h : store.chainUpTo count value = some chain) :
    store.chainUpTo (count + 1) value = some chain := by
  induction count generalizing value chain with
  | zero =>
      cases value with
      | pair id => cases h
      | _ => exact h
  | succ count ih =>
      cases value with
      | pair id =>
          obtain ⟨rest, hrest, rfl⟩ := Option.map_eq_some_iff.1 h
          exact Option.map_eq_some_iff.2 ⟨rest, ih hrest, rfl⟩
      | _ => exact h

/-- The end of a chain is reached after as many links as the chain has elements. -/
theorem follow_of_chainUpTo
    (store : Store)
    {count : Nat}
    {value : Value}
    {chain : List Value × Value}
    (h : store.chainUpTo count value = some chain) :
    store.follow chain.1.length value = some chain.2 := by
  induction count generalizing value chain with
  | zero =>
      cases value with
      | pair id => cases h
      | _ => cases h; rfl
  | succ count ih =>
      cases value with
      | pair id =>
          obtain ⟨rest, hrest, rfl⟩ := Option.map_eq_some_iff.1 h
          show store.follow rest.1.length (store.pair id).second = some rest.2
          exact ih hrest
      | _ => cases h; rfl

end Store

end SmallLisp
