import SmallLisp.Datum.Basic
import SmallLisp.Token.Cursor

/-!
# Reading data

A reader takes one token at a time and keeps the constructs that are still open. It checks a token
before it moves past it, so after an error the cursor stands on the token that was refused. A datum
is complete once the cursor has moved past its last token; if the token behind it cannot be cut, the
datum is lost.

* `Expectation.accept` says what a token does to a reader;
* `Cursor.readDatum` reads one datum and leaves the cursor behind it;
* `readForm` reads a text that is one datum;
* `Cursor.nextForm` and `Cursor.forms` read data one after another.
-/

namespace SmallLisp

/-- Why no datum could be read. -/
inductive ReadError where
  /-- The text cannot be cut into tokens here. -/
  | lexical (e : LexError)
  /-- The text ends inside a datum, or before one. -/
  | unexpectedEnd
  /-- A bracket or a dot stands where a list cannot have it. -/
  | misplacedInList
  /-- A closing bracket or a dot stands where a datum has to start. -/
  | unexpectedToken
  /-- A name starts with a number sign and is no truth value. -/
  | illegalSymbol (name : String)
  /-- Something stands behind the only datum of a text. -/
  | moreThanOne
deriving DecidableEq, Repr

/-- The text that reports the error. -/
def ReadError.message : ReadError → String
  | .lexical e => e.message
  | .unexpectedEnd => "unexpected end of input"
  | .misplacedInList => "misplaced `.` or `)` in list"
  | .unexpectedToken => "unexpected `.` or `)`"
  | .illegalSymbol name => s!"illegal symbol `{name}`"
  | .moreThanOne => "more than one form in input"

/-- The datum that a name denotes: a truth value or a symbol. -/
def Datum.ofName (name : String) : Except ReadError Datum :=
  match name.toList with
  | ['#', 't'] => .ok (.bool true)
  | ['#', 'f'] => .ok (.bool false)
  | '#' :: _ => .error (.illegalSymbol name)
  | _ => .ok (.sym name)

/-- A construct that is open around the datum being read. The elements of a list are kept with the
latest first. -/
inductive OpenConstruct where
  /-- A quote mark that waits for its datum. -/
  | quoted
  /-- A list with the elements read so far. -/
  | elements (done : List Datum)
  /-- A list with all its elements and a dot, which waits for its tail. -/
  | dotted (done : List Datum)
deriving DecidableEq, Repr

/-- What a reader expects next. -/
inductive Expectation where
  /-- A datum, or where the innermost open construct allows it a closing bracket or a dot. -/
  | datum (outer : List OpenConstruct)
  /-- The bracket that closes a list whose tail has been read. -/
  | closing (done : List Datum) (tail : Datum) (outer : List OpenConstruct)
deriving DecidableEq, Repr

/-- The state of a reader after a token. -/
inductive Progress where
  /-- The datum is complete. -/
  | complete (datum : Datum)
  /-- More tokens are needed. -/
  | waiting (expectation : Expectation)
deriving DecidableEq, Repr

/-- Hands a datum to the construct that is open around it. A quote mark is complete with it and hands
on what it stands for. -/
def supply (datum : Datum) : List OpenConstruct → Progress
  | [] => .complete datum
  | .quoted :: outer => supply datum.quoted outer
  | .elements done :: outer => .waiting (.datum (.elements (datum :: done) :: outer))
  | .dotted done :: outer => .waiting (.closing done datum outer)

/-- Takes a token that starts a datum, or is one. -/
def startDatum (outer : List OpenConstruct) : TokenKind → Except ReadError Progress
  | .int value => .ok (supply (.int value) outer)
  | .ident name => (Datum.ofName name).map fun datum => supply datum outer
  | .quote => .ok (.waiting (.datum (.quoted :: outer)))
  | .opening => .ok (.waiting (.datum (.elements [] :: outer)))
  | .closing => .error .unexpectedToken
  | .dot => .error .unexpectedToken

/-- What a token does to a reader. -/
def Expectation.accept : Expectation → TokenKind → Except ReadError Progress
  | .closing done tail outer, .closing => .ok (supply (.chain done.reverse tail) outer)
  | .closing .., _ => .error .misplacedInList
  | .datum (.elements done :: outer), .closing => .ok (supply (.list done.reverse) outer)
  | .datum (.elements [] :: _), .dot => .error .misplacedInList
  | .datum (.elements done :: outer), .dot => .ok (.waiting (.datum (.dotted done :: outer)))
  | .datum (.dotted _ :: _), .closing => .error .misplacedInList
  | .datum (.dotted _ :: _), .dot => .error .misplacedInList
  | .datum outer, kind => startDatum outer kind

namespace Cursor

/-- Reads on until the datum is complete, and gives back the cursor that stands behind it or where
reading failed. -/
def readFrom (expectation : Expectation) (cursor : Cursor) : Except ReadError Datum × Cursor :=
  match cursor with
  | finished _ => (.error .unexpectedEnd, cursor)
  | on token ahead =>
    match expectation.accept token.kind with
    | .error e => (.error e, cursor)
    | .ok progress =>
      match _step : ahead.enter with
      | .error e => (.error (.lexical e), cursor)
      | .ok after =>
        match progress with
        | .complete datum => (.ok datum, after)
        | .waiting expectation => readFrom expectation after
termination_by cursor.remaining.length
decreasing_by
  rw [Lexed.remaining_of_enter _step]
  simp [remaining]

/-- Reads one datum. -/
def readDatum (cursor : Cursor) : Except ReadError Datum × Cursor :=
  readFrom (.datum []) cursor

/-- Reads the next datum, or nothing at the end of the text. -/
def nextForm (cursor : Cursor) : Except ReadError (Option Datum) × Cursor :=
  if cursor.atEnd then (.ok none, cursor)
  else
    match cursor.readDatum with
    | (result, after) => (result.map some, after)

/-- Reading on past a token leaves fewer tokens. -/
theorem length_remaining_of_readFrom
    (expectation : Expectation)
    (cursor : Cursor)
    {datum : Datum}
    {after : Cursor}
    (h : cursor.readFrom expectation = (.ok datum, after)) :
    after.remaining.length < cursor.remaining.length := by
  fun_induction readFrom expectation cursor with
  | case1 => cases h
  | case2 => cases h
  | case3 => cases h
  | case4 _ _ _ _ henter _ _ =>
      cases h
      rw [Lexed.remaining_of_enter henter]
      simp [remaining]
  | case5 _ _ _ _ henter _ _ ih =>
      have shorter := ih h
      rw [Lexed.remaining_of_enter henter] at shorter
      exact Nat.lt_succ_of_lt shorter

/-- Reads data up to the end of the text or to the first that cannot be read, and says which. -/
def forms (cursor : Cursor) : List Datum × Option ReadError :=
  match _step : cursor.readDatum with
  | (.ok datum, after) =>
    match forms after with
    | (data, failure) => (datum :: data, failure)
  | (.error e, _) => ([], if cursor.atEnd then none else some e)
termination_by cursor.remaining.length
decreasing_by exact length_remaining_of_readFrom _ _ _step

end Cursor

/-- Reads a text that is exactly one datum. -/
def readForm (text : String) : Except ReadError Datum := do
  let cursor ← (Cursor.ofString text).mapError .lexical
  let (result, after) := cursor.readDatum
  let datum ← result
  if after.atEnd then pure datum else throw .moreThanOne

/-- A chain may end in a datum behind a dot. -/
example : readForm "(1 'a . b)" =
    .ok (.chain [.int 1, .quoted (.sym "a")] (.sym "b")) := by cbv

/-- The bracket behind a datum that cannot be cut off loses the datum. -/
example : readForm "(a)@" =
    .error (.lexical (.unexpectedCharacter '@' 3)) := by cbv

end SmallLisp
