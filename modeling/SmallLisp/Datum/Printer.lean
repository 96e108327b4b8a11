import SmallLisp.Datum.Basic

/-!
# Printing data

A chain of pairs is written as its elements between brackets, with the tail after a dot unless it is
the empty list. Truth values are `#t` and `#f`, integers are decimal, and a quoted datum is written
out as the list that it is.
-/

namespace SmallLisp

/-- An integer in decimal. -/
def integerChars (value : Int64) : List Char :=
  let digits := Nat.toDigits 10 value.toInt.natAbs
  if value.toInt < 0 then '-' :: digits else digits

namespace Datum

mutual

/-- The characters of a datum. -/
def chars : Datum → List Char
  | nil => ['(', ')']
  | int value => integerChars value
  | bool true => ['#', 't']
  | bool false => ['#', 'f']
  | sym name => name.toList
  | cons first second => '(' :: (chars first ++ tailChars second)

/-- The characters of the rest of a chain, from behind its first element to the closing bracket. -/
def tailChars : Datum → List Char
  | nil => [')']
  | cons first second => ' ' :: (chars first ++ tailChars second)
  | int value => " . ".toList ++ integerChars value ++ [')']
  | bool true => " . #t)".toList
  | bool false => " . #f)".toList
  | sym name => " . ".toList ++ name.toList ++ [')']

end

/-- The text of a datum. -/
def print (datum : Datum) : String :=
  String.ofList datum.chars

end Datum

/-- A chain shows its tail after a dot. -/
example : (Datum.chain [.sym "a", .int (-1)] (.bool true)).print = "(a -1 . #t)" := by decide +kernel

/-- A quote mark is written out. -/
example : (Datum.quoted (.list [.nil])).print = "(quote (()))" := by decide +kernel

end SmallLisp
