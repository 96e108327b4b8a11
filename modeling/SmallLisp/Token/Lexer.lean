import SmallLisp.Text.Blank
import SmallLisp.Token.Basic

/-!
# Cutting a text into tokens

A token is as long as its class allows: a name goes on while its characters can continue a name, a
constant while they are digits. No blank is needed between two tokens, so `12ab` is a constant and a
name.

* `scan` recognises the one token at the start of a text;
* `Lexed.ofChars` cuts a whole text, up to its end or to the first character that starts no token.
-/

namespace SmallLisp

/-- The characters that can start a name, the two signs apart. -/
def isInitial (c : Char) : Bool :=
  c.isAlpha || c = '<' || c = '=' || c = '>' || c = '*' || c = '/' || c = '#'

/-- The characters that can continue a name. -/
def isSubsequent (c : Char) : Bool :=
  isInitial c || c.isDigit || c = '?' || c = '!' || c = '-'

/-- The value of one decimal digit. -/
def digitValue (c : Char) : Int64 :=
  Int64.ofNat (c.toNat - '0'.toNat)

/-- The value of a decimal numeral; a numeral beyond 64 bits wraps. -/
def numeralValue (digits : List Char) : Int64 :=
  digits.foldl (fun value c => value * 10 + digitValue c) 0

/-- The value of a numeral after the sign `sign`. -/
def signedValue (sign : Char) (digits : List Char) : Int64 :=
  if sign = '-' then -numeralValue digits else numeralValue digits

/-- The token that starts with `c` in the text `c :: rest`, with the number of characters of `rest`
that belong to it. A sign starts a constant only when a digit follows; otherwise it is a name by
itself. -/
def scan (c : Char) (rest : List Char) : Option (TokenKind × Nat) :=
  if c = '+' ∨ c = '-' then
    let digits := rest.takeWhile Char.isDigit
    if digits.isEmpty then some (.ident (String.singleton c), 0)
    else some (.int (signedValue c digits), digits.length)
  else if c.isDigit then
    let digits := rest.takeWhile Char.isDigit
    some (.int (numeralValue (c :: digits)), digits.length)
  else if c = '(' then some (.opening, 0)
  else if c = ')' then some (.closing, 0)
  else if c = '\x27' then some (.quote, 0)
  else if c = '.' then some (.dot, 0)
  else if isInitial c then
    let name := rest.takeWhile isSubsequent
    some (.ident (String.ofList (c :: name)), name.length)
  else none

/-- A text cut into tokens. -/
structure Lexed where
  /-- The tokens in order. -/
  tokens : List Token
  /-- How the cutting ended: at the end of the text, whose position is given, or at an error. -/
  final : Except LexError Nat

namespace Lexed

/-- Puts a token in front. -/
def push (token : Token) (lexed : Lexed) : Lexed :=
  { lexed with tokens := token :: lexed.tokens }

/-- Cuts the characters of a text that starts at `position`. -/
def ofChars (position : Nat) : List Char → Lexed
  | [] => ⟨[], .ok position⟩
  | c :: rest =>
    if isBlank c then ofChars (position + 1) rest
    else
      match scan c rest with
      | none => ⟨[], .error (.unexpectedCharacter c position)⟩
      | some (kind, more) =>
        push ⟨kind, position, position + 1 + more⟩
          (ofChars (position + 1 + more) (rest.drop more))
termination_by chars => chars.length
decreasing_by all_goals simp only [List.length_cons, List.length_drop]; omega

/-- Cuts a text. -/
def ofString (text : String) : Lexed :=
  ofChars 0 text.toList

/-- The kinds of the tokens, in order. -/
def kinds (lexed : Lexed) : List TokenKind :=
  lexed.tokens.map Token.kind

/-- Cutting the empty text ends at once. -/
@[simp]
theorem ofChars_nil (position : Nat) :
    ofChars position [] = ⟨[], .ok position⟩ := by
  simp [ofChars]

/-- A blank is skipped. -/
theorem ofChars_blank
    {c : Char}
    (h : isBlank c = true)
    (position : Nat)
    (rest : List Char) :
    ofChars position (c :: rest) = ofChars (position + 1) rest := by
  rw [ofChars]
  simp [h]

/-- A recognised token goes to the front, and cutting goes on behind it. -/
theorem ofChars_scan
    {c : Char}
    {rest : List Char}
    {kind : TokenKind}
    {more : Nat}
    (hblank : isBlank c = false)
    (hscan : scan c rest = some (kind, more))
    (position : Nat) :
    ofChars position (c :: rest) =
      push ⟨kind, position, position + 1 + more⟩
        (ofChars (position + 1 + more) (rest.drop more)) := by
  rw [ofChars]
  simp [hblank, hscan]

/-- A character that is not blank and starts no token ends the cutting. -/
theorem ofChars_error
    {c : Char}
    {rest : List Char}
    (hblank : isBlank c = false)
    (hscan : scan c rest = none)
    (position : Nat) :
    ofChars position (c :: rest) = ⟨[], .error (.unexpectedCharacter c position)⟩ := by
  rw [ofChars]
  simp [hblank, hscan]

end Lexed

/-- A constant ends at the first character that is no digit, and a name starts there. -/
example : (Lexed.ofString "12ab").kinds = [.int 12, .ident "ab"] := by decide +kernel

/-- A sign belongs to the digits that follow it directly. -/
example : (Lexed.ofString "-7 - 7").kinds = [.int (-7), .ident "-", .int 7] := by decide +kernel

end SmallLisp
