/-!
# Data

The finite trees that texts denote: atoms, and pairs of data. A list is a chain of pairs that ends
in the empty list.
-/

namespace SmallLisp

/-- A datum: the empty list, an integer, a truth value, a symbol or a pair. -/
inductive Datum where
  | nil
  | int (value : Int64)
  | bool (value : Bool)
  | sym (name : String)
  | cons (first second : Datum)
deriving DecidableEq, Repr

namespace Datum

/-- The chain of the given elements that ends in `tail`. -/
def chain (elements : List Datum) (tail : Datum) : Datum :=
  elements.foldr cons tail

/-- The list of the given elements. -/
def list (elements : List Datum) : Datum :=
  chain elements nil

/-- What a quote mark before `datum` stands for. -/
def quoted (datum : Datum) : Datum :=
  list [sym "quote", datum]

/-- A chain without elements is its tail. -/
@[simp]
theorem chain_nil (tail : Datum) : chain [] tail = tail :=
  rfl

/-- The first element of a chain is the first slot of its first pair. -/
@[simp]
theorem chain_cons (first : Datum) (elements : List Datum) (tail : Datum) :
    chain (first :: elements) tail = cons first (chain elements tail) :=
  rfl

/-- Appending elements lengthens the tail. -/
theorem chain_append (front back : List Datum) (tail : Datum) :
    chain (front ++ back) tail = chain front (chain back tail) := by
  simp [chain]

end Datum

end SmallLisp
