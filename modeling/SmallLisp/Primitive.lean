/-!
# Primitive procedures

The procedures and special forms that a session starts with, grouped by what they do with their
operands:

* a `Strict` one takes the values of all its operands;
* a `Comparison` or a `Connective` evaluates its operands one at a time and may stop early;
* negation, quoting and listing take their operands as written;
* a `SpecialForm` decides itself which operands are evaluated.
-/

namespace SmallLisp

/-- Integer arithmetic. -/
inductive Arithmetic where
  | add
  | multiply
  | subtract
  | divide
  | maximum
  | minimum
  | absolute
deriving DecidableEq, Repr

/-- The classes of values that a program can test for. -/
inductive Kind where
  | number
  | boolean
  | pair
  | symbol
  | null
  | list
deriving DecidableEq, Repr

/-- Primitives that take the values of all their operands. -/
inductive Strict where
  | arithmetic (operation : Arithmetic)
  | isA (kind : Kind)
  | car
  | cdr
  | cons
  | listRef
  | listTail
  | setCar
  | setCdr
deriving DecidableEq, Repr

/-- Comparisons of adjacent integers. -/
inductive Comparison where
  | less
  | greater
  | equal
  | lessEqual
  | greaterEqual
deriving DecidableEq, Repr

/-- Connectives that stop at the first operand that decides them. -/
inductive Connective where
  | conjunction
  | disjunction
deriving DecidableEq, Repr

/-- Special forms. -/
inductive SpecialForm where
  | branch
  | define
  | assign
  | lambda
deriving DecidableEq, Repr

/-- A primitive procedure or special form. -/
inductive Primitive where
  | strict (procedure : Strict)
  | comparison (relation : Comparison)
  | connective (junction : Connective)
  | negation
  | quote
  | list
  | special (form : SpecialForm)
deriving DecidableEq, Repr

/-- How many operands a primitive takes. -/
inductive Arity where
  | exactly (count : Nat)
  | atLeast (count : Nat)
  | between (least most : Nat)
deriving DecidableEq, Repr

namespace Arity

/-- Whether a number of operands is right. -/
def accepts : Arity → Nat → Bool
  | exactly count, n => n = count
  | atLeast count, n => count ≤ n
  | between least most, n => least ≤ n ∧ n ≤ most

/-- The words for an arity in an error text. -/
def describe : Arity → String
  | exactly count => s!"exactly {count}"
  | atLeast count => s!"at least {count}"
  | between least most => s!"{least} to {most}"

end Arity

/-- The name that an arithmetic operation is bound to. -/
def Arithmetic.name : Arithmetic → String
  | add => "+"
  | multiply => "*"
  | subtract => "-"
  | divide => "/"
  | maximum => "max"
  | minimum => "min"
  | absolute => "abs"

/-- Sums and products may be empty. -/
def Arithmetic.arity : Arithmetic → Arity
  | add => .atLeast 0
  | multiply => .atLeast 0
  | subtract => .atLeast 1
  | divide => .atLeast 1
  | maximum => .atLeast 1
  | minimum => .atLeast 1
  | absolute => .exactly 1

/-- The name that a test is bound to. -/
def Kind.name : Kind → String
  | number => "number?"
  | boolean => "boolean?"
  | pair => "pair?"
  | symbol => "symbol?"
  | null => "null?"
  | list => "list?"

/-- The name that a strict primitive is bound to. -/
def Strict.name : Strict → String
  | arithmetic operation => operation.name
  | isA kind => kind.name
  | car => "car"
  | cdr => "cdr"
  | cons => "cons"
  | listRef => "list-ref"
  | listTail => "list-tail"
  | setCar => "set-car!"
  | setCdr => "set-cdr!"

/-- Tests and the two slot readers take one operand, the rest two. -/
def Strict.arity : Strict → Arity
  | arithmetic operation => operation.arity
  | isA _ => .exactly 1
  | car => .exactly 1
  | cdr => .exactly 1
  | cons => .exactly 2
  | listRef => .exactly 2
  | listTail => .exactly 2
  | setCar => .exactly 2
  | setCdr => .exactly 2

/-- The name that a comparison is bound to. -/
def Comparison.name : Comparison → String
  | less => "<"
  | greater => ">"
  | equal => "="
  | lessEqual => "<="
  | greaterEqual => ">="

/-- The name that a connective is bound to. -/
def Connective.name : Connective → String
  | conjunction => "and"
  | disjunction => "or"

/-- The name that a special form is bound to. -/
def SpecialForm.name : SpecialForm → String
  | branch => "if"
  | define => "define"
  | assign => "set!"
  | lambda => "lambda"

/-- A conditional may lack its alternative; a definition is checked further by its own rules. -/
def SpecialForm.arity : SpecialForm → Arity
  | branch => .between 2 3
  | define => .atLeast 1
  | assign => .exactly 2
  | lambda => .atLeast 2

namespace Primitive

/-- The name that a primitive is bound to. -/
def name : Primitive → String
  | strict procedure => procedure.name
  | comparison relation => relation.name
  | connective junction => junction.name
  | negation => "not"
  | quote => "quote"
  | list => "list"
  | special form => form.name

/-- How many operands a primitive takes. -/
def arity : Primitive → Arity
  | strict procedure => procedure.arity
  | comparison _ => .atLeast 0
  | connective _ => .atLeast 0
  | negation => .exactly 1
  | quote => .exactly 1
  | list => .atLeast 0
  | special form => form.arity

/-- Whether a primitive is a special form. -/
def isSpecial : Primitive → Bool
  | special _ => true
  | _ => false

/-- All primitives. -/
def all : List Primitive :=
  [ strict (.arithmetic .add), strict (.arithmetic .multiply), strict (.arithmetic .subtract),
    strict (.arithmetic .divide), strict (.arithmetic .maximum), strict (.arithmetic .minimum),
    strict (.arithmetic .absolute),
    comparison .less, comparison .greater, comparison .equal, comparison .lessEqual,
    comparison .greaterEqual,
    connective .conjunction, connective .disjunction, negation,
    strict (.isA .number), strict (.isA .boolean), strict (.isA .pair), strict (.isA .symbol),
    strict (.isA .null), strict (.isA .list),
    quote, strict .car, strict .cdr, strict .cons, list, strict .listRef, strict .listTail,
    special .branch, special .define, special .assign, strict .setCar, strict .setCdr,
    special .lambda ]

/-- Every primitive is listed. -/
theorem mem_all (primitive : Primitive) : primitive ∈ all := by
  rcases primitive with procedure | relation | connective | _ | _ | _ | form
  · rcases procedure with operation | kind | _ | _ | _ | _ | _ | _ | _
    · cases operation <;> decide
    · cases kind <;> decide
    all_goals decide
  · cases relation <;> decide
  · cases connective <;> decide
  · decide
  · decide
  · decide
  · cases form <;> decide

/-- No two primitives have the same name. -/
theorem nodup_names : (all.map name).Nodup := by
  decide

end Primitive

end SmallLisp
