import SmallLisp.Token.Lexer

/-!
# A cursor over tokens

A cursor stands on a token or past the last one. It knows one token of the text ahead: moving on
fails, and leaves the cursor where it is, when the next token cannot be cut.

* `Cursor.ofString` puts a cursor on the first token of a text;
* `Cursor.advance` moves to the next token;
* `Cursor.next` is one step of walking through the tokens, `Cursor.items` the whole walk.
-/

namespace SmallLisp

/-- A place in a text that has been cut into tokens. -/
inductive Cursor where
  /-- On a token, with the rest of the text ahead. -/
  | on (token : Token) (ahead : Lexed)
  /-- Past the last token; the text ends at `position`. -/
  | finished (position : Nat)

/-- Puts a cursor on the first token, or past the end when there is none. -/
def Lexed.enter : Lexed → Except LexError Cursor
  | ⟨token :: tokens, final⟩ => .ok (.on token ⟨tokens, final⟩)
  | ⟨[], .ok position⟩ => .ok (.finished position)
  | ⟨[], .error e⟩ => .error e

namespace Cursor

/-- A cursor on the first token of a text. -/
def ofString (text : String) : Except LexError Cursor :=
  (Lexed.ofString text).enter

/-- Moves to the next token. The end stays where it is. -/
def advance : Cursor → Except LexError Cursor
  | on _ ahead => ahead.enter
  | finished position => .ok (.finished position)

/-- Whether no token is left. -/
def atEnd : Cursor → Bool
  | on .. => false
  | finished _ => true

/-- The tokens from the cursor on. -/
def remaining : Cursor → List Token
  | on token ahead => token :: ahead.tokens
  | finished _ => []

/-- One step of walking through the tokens: what it delivers and where it leads, or nothing at the
end. The token is delivered only if the cursor can move past it; otherwise the error takes its place
and the walk ends, at position 0 wherever the error is. -/
def next : Cursor → Option (Except LexError Token × Cursor)
  | finished _ => none
  | on token ahead =>
    match ahead.enter with
    | .ok cursor => some (.ok token, cursor)
    | .error e => some (.error e, finished 0)

end Cursor

/-- The tokens that remain after entering a text are all its tokens. -/
theorem Lexed.remaining_of_enter
    {lexed : Lexed}
    {cursor : Cursor}
    (h : lexed.enter = .ok cursor) :
    cursor.remaining = lexed.tokens := by
  unfold Lexed.enter at h
  split at h <;> cases h <;> rfl

/-- Moving on from a token leaves exactly the tokens behind it. -/
theorem Cursor.remaining_of_advance
    {token : Token}
    {ahead : Lexed}
    {cursor : Cursor}
    (h : (Cursor.on token ahead).advance = .ok cursor) :
    (Cursor.on token ahead).remaining = token :: cursor.remaining := by
  rw [Lexed.remaining_of_enter h]
  rfl

/-- Each step of a walk leaves fewer tokens. -/
theorem Cursor.length_remaining_of_next
    {cursor after : Cursor}
    {item : Except LexError Token}
    (h : cursor.next = some (item, after)) :
    after.remaining.length < cursor.remaining.length := by
  unfold Cursor.next at h
  split at h
  · cases h
  · split at h <;> cases h
    · rename_i henter
      rw [Lexed.remaining_of_enter henter]
      simp [Cursor.remaining]
    · simp [Cursor.remaining]

/-- What walking from the cursor to the end delivers. -/
def Cursor.items (cursor : Cursor) : List (Except LexError Token) :=
  match _step : cursor.next with
  | none => []
  | some (item, after) => item :: after.items
termination_by cursor.remaining.length
decreasing_by exact Cursor.length_remaining_of_next _step

/-- Where no step can be made, the walk delivers nothing. -/
theorem Cursor.items_of_next_none
    {cursor : Cursor}
    (h : cursor.next = none) :
    cursor.items = [] := by
  rw [items]
  split
  · rfl
  · rename_i hnext
    cases h.symm.trans hnext

/-- A walk delivers what its first step delivers, and then what walking on from there does. -/
theorem Cursor.items_of_next
    {cursor after : Cursor}
    {item : Except LexError Token}
    (h : cursor.next = some (item, after)) :
    cursor.items = item :: after.items := by
  rw [items]
  split
  · rename_i hnext
    cases h.symm.trans hnext
  · rename_i hnext
    cases h.symm.trans hnext
    rfl

end SmallLisp
