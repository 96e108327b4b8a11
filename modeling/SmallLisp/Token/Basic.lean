/-!
# Tokens

The tokens of the language and the one way in which cutting a text into tokens can fail.
Positions count characters from the start of the text.
-/

namespace SmallLisp

/-- What a token is: a name, an integer constant, a bracket, a quote mark or a dot. -/
inductive TokenKind where
  | ident (name : String)
  | int (value : Int64)
  | opening
  | closing
  | quote
  | dot
deriving DecidableEq, Repr

/-- A token and the characters `lo ≤ i < hi` that it covers. -/
structure Token where
  /-- What the token is. -/
  kind : TokenKind
  /-- The position of its first character. -/
  lo : Nat
  /-- The position after its last character. -/
  hi : Nat
deriving DecidableEq, Repr

/-- Why a text cannot be cut into tokens. -/
inductive LexError where
  /-- The character `c` at `position` is not blank and starts no token. -/
  | unexpectedCharacter (c : Char) (position : Nat)
deriving DecidableEq, Repr

/-- The text that reports the error. -/
def LexError.message : LexError → String
  | .unexpectedCharacter c position => s!"unexpected character '{c}' at position {position}"

end SmallLisp
