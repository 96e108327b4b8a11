import SmallLisp.Proofs.ReadingOn

/-!
# Walking through tokens and advancing a cursor

There are two ways through the tokens of a text. A cursor that is advanced shows one token after the other; where it
cannot be moved on it keeps its token. A walk delivers a token only once the cursor is past it; where the cursor cannot
be moved on, the error is delivered in place of the token, and the walk is over.

* `Cursor.Shows` says which tokens an advanced cursor shows and how that ends, `Cursor.itemsAlong` what a walk delivers
  on the way;
* `Cursor.afterSteps` is the cursor after any number of steps of a walk, also behind its end;
* `LazyCursor` is a cursor that cuts each token only when it gets there, and `LazyCursor.view` the cursor that it stands
  for: one equation for each operation says that both do the same;
* `LazyCursor.charactersLeft_of_next`: each step of a walk uses up characters, which bounds what a walk delivers;
* `walking_agrees_with_advancing` is the main result.
-/

namespace SmallLisp

namespace Cursor

/-- The tokens that a cursor shows while it is advanced again and again, and how that ends: past the last token, or on
a token that it cannot be moved on from. -/
inductive Shows : Cursor → List Token → Except LexError Nat → Prop
  | finished
      (position : Nat) :
      Shows (.finished position) [] (.ok position)
  | blocked
      {token : Token}
      {ahead : Lexed}
      {e : LexError}
      (hadvance : (on token ahead).advance = .error e) :
      Shows (on token ahead) [token] (.error e)
  | moved
      {token : Token}
      {ahead : Lexed}
      {following : Cursor}
      {tokens : List Token}
      {ending : Except LexError Nat}
      (hadvance : (on token ahead).advance = .ok following)
      (hrest : Shows following tokens ending) :
      Shows (on token ahead) (token :: tokens) ending

/-- What a walk delivers where an advanced cursor shows some tokens: all of them, or an error in place of the last. -/
def itemsAlong (shown : List Token) : Except LexError Nat → List (Except LexError Token)
  | .ok _ => shown.map .ok
  | .error e => shown.dropLast.map .ok ++ [.error e]

/-- The cursor after a number of steps of a walk. Behind its end the walk stays where it is. -/
def afterSteps : Nat → Cursor → Cursor
  | 0, cursor => cursor
  | steps + 1, cursor => afterSteps steps (cursor.use .step)

section Advancing

variable {cursor : Cursor} {shown : List Token}

/-- A cursor on the first token of a text shows all tokens into which the text is cut, and stops where cutting stops. -/
theorem shows_of_enter
    {lexed : Lexed}
    (h : lexed.enter = .ok cursor) :
    cursor.Shows lexed.tokens lexed.final := by
  obtain ⟨tokens, final⟩ := lexed
  induction tokens generalizing cursor with
  | nil =>
      cases final with
      | ok position =>
          cases h
          exact .finished position
      | error e => cases h
  | cons token tokens ih =>
      cases h
      cases hadvance : (on token ⟨tokens, final⟩).advance with
      | ok following => exact .moved hadvance (ih hadvance)
      | error e =>
          -- Only behind the last token is there no next one to be entered.
          cases tokens with
          | nil =>
              cases final with
              | ok position => cases hadvance
              | error e =>
                  cases hadvance
                  exact .blocked rfl
          | cons next tokens => cases hadvance

/-- Every cursor that is advanced shows some tokens until it comes to an end. -/
theorem exists_shows (cursor : Cursor) :
    ∃ shown ending, cursor.Shows shown ending := by
  cases cursor with
  | on token ahead =>
      have henter : Lexed.enter ⟨token :: ahead.tokens, ahead.final⟩ = .ok (on token ahead) := rfl
      exact ⟨_, _, shows_of_enter henter⟩
  | finished position => exact ⟨_, _, .finished position⟩

theorem Shows.unique
    {shown' : List Token}
    {ending ending' : Except LexError Nat}
    (h : cursor.Shows shown ending)
    (h' : cursor.Shows shown' ending') :
    shown' = shown ∧ ending' = ending := by
  induction h generalizing shown' ending' with
  | finished =>
      cases h'
      exact ⟨rfl, rfl⟩
  | blocked hadvance =>
      cases h' with
      | blocked hadvance' =>
          cases hadvance.symm.trans hadvance'
          exact ⟨rfl, rfl⟩
      | moved hadvance' => cases hadvance.symm.trans hadvance'
  | moved hadvance _ ih =>
      cases h' with
      | blocked hadvance' => cases hadvance.symm.trans hadvance'
      | moved hadvance' hrest' =>
          cases hadvance.symm.trans hadvance'
          obtain ⟨rfl, rfl⟩ := ih hrest'
          exact ⟨rfl, rfl⟩

/-- A cursor that cannot be moved on is on a token. -/
theorem Shows.ne_nil
    {e : LexError}
    (h : cursor.Shows shown (.error e)) :
    shown ≠ [] := by
  cases h <;> exact List.cons_ne_nil _ _

end Advancing

section Walking

variable {cursor last after : Cursor} {token : Token} {ahead : Lexed} {shown : List Token}

/-- A step of a walk delivers the token that it moves past. -/
theorem next_of_advance
    {following : Cursor}
    (h : (on token ahead).advance = .ok following) :
    (on token ahead).next = some (.ok token, following) := by
  rw [advance] at h
  rw [next, h]

/-- A step of a walk that cannot move past its token delivers the error and ends the walk. -/
theorem next_of_advance_error
    {e : LexError}
    (h : (on token ahead).advance = .error e) :
    (on token ahead).next = some (.error e, finished 0) := by
  rw [advance] at h
  rw [next, h]

theorem use_step_of_next
    {item : Except LexError Token}
    (h : cursor.next = some (item, after)) :
    cursor.use .step = after := by
  rw [use, h]
  rfl

theorem use_step_of_next_none
    (h : cursor.next = none) :
    cursor.use .step = cursor := by
  rw [use, h]
  rfl

/-- As long as a cursor can be advanced, a walk takes it to the same places. -/
theorem Onward.afterSteps_eq
    {count : Nat}
    (h : cursor.Onward count last) :
    cursor.afterSteps count = last := by
  induction h with
  | here => rfl
  | next hadvance _ ih => rw [afterSteps, use_step_of_next (next_of_advance hadvance), ih]

/-- A token that an advanced cursor shows before others is delivered before what is delivered for these. -/
theorem itemsAlong_cons
    {ending : Except LexError Nat}
    (h : ∀ e, ending = .error e → shown ≠ [])
    (token : Token) :
    itemsAlong (token :: shown) ending = .ok token :: itemsAlong shown ending := by
  cases ending with
  | ok position => rfl
  | error e =>
      rw [itemsAlong, List.dropLast_cons_of_ne_nil (h e rfl)]
      rfl

/-- What a walk delivers is determined by what the cursor shows when it is advanced instead. -/
theorem Shows.items_eq
    {ending : Except LexError Nat}
    (h : cursor.Shows shown ending) :
    cursor.items = itemsAlong shown ending := by
  induction h with
  | finished => exact items_of_next_none rfl
  | blocked hadvance =>
      rw [items_of_next (next_of_advance_error hadvance), items_of_next_none rfl]
      rfl
  | moved hadvance hrest ih =>
      rw [items_of_next (next_of_advance hadvance), ih, itemsAlong_cons]
      rintro e rfl
      exact hrest.ne_nil

/-- Each step of a walk delivers the next item, and nothing once all have been delivered. -/
theorem next_afterSteps
    (steps : Nat)
    (cursor : Cursor) :
    (cursor.afterSteps steps).next.map Prod.fst = cursor.items[steps]? := by
  induction steps generalizing cursor with
  | zero =>
      rw [afterSteps]
      cases hnext : cursor.next with
      | none => rw [items_of_next_none hnext]; rfl
      | some found => rw [items_of_next hnext]; rfl
  | succ steps ih =>
      rw [afterSteps]
      cases hnext : cursor.next with
      | none => rw [use_step_of_next_none hnext, ih, items_of_next_none hnext]; rfl
      | some found => rw [use_step_of_next hnext, ih, items_of_next hnext]; rfl

end Walking

end Cursor

/-- A cursor that has cut no more of its text than the token under it. -/
inductive LazyCursor where
  /-- On a token, with the characters behind it. -/
  | on (token : Token) (uncut : List Char)
  /-- Past the last token; the text ends at `position`. -/
  | finished (position : Nat)

namespace LazyCursor

/-- Cuts the first token from the characters that start at `position`. -/
def enter (position : Nat) : List Char → Except LexError LazyCursor
  | [] => .ok (finished position)
  | c :: rest =>
    if isBlank c then enter (position + 1) rest
    else
      match scan c rest with
      | none => .error (.unexpectedCharacter c position)
      | some (kind, more) => .ok (on ⟨kind, position, position + 1 + more⟩ (rest.drop more))

/-- A cursor on the first token of a text. -/
def ofString (text : String) : Except LexError LazyCursor :=
  enter 0 text.toList

/-- Cuts the next token and moves there. The end stays where it is. -/
def advance : LazyCursor → Except LexError LazyCursor
  | on token uncut => enter token.hi uncut
  | finished position => .ok (finished position)

/-- One step of walking through the tokens. -/
def next : LazyCursor → Option (Except LexError Token × LazyCursor)
  | finished _ => none
  | on token uncut =>
    match enter token.hi uncut with
    | .ok cursor => some (.ok token, cursor)
    | .error e => some (.error e, finished 0)

/-- The cursor that has all its text cut. -/
def view : LazyCursor → Cursor
  | on token uncut => .on token (Lexed.ofChars token.hi uncut)
  | finished position => .finished position

/-- The number of characters behind the token, and one for the token itself. -/
def charactersLeft : LazyCursor → Nat
  | on _ uncut => uncut.length + 1
  | finished _ => 0

/-- To cut a text as far as its first token finds what cutting all of it finds first. -/
theorem enter_ofChars
    (position : Nat)
    (chars : List Char) :
    (Lexed.ofChars position chars).enter = (enter position chars).map view := by
  fun_induction enter position chars with
  | case1 position =>
      rw [Lexed.ofChars_nil]
      rfl
  | case2 position c rest hblank ih => rw [Lexed.ofChars_blank hblank, ih]
  | case3 position c rest hblank hscan =>
      rw [Lexed.ofChars_error (Bool.eq_false_iff.mpr hblank) hscan]
      rfl
  | case4 position c rest hblank kind more hscan =>
      rw [Lexed.ofChars_scan (Bool.eq_false_iff.mpr hblank) hscan]
      rfl

theorem ofString_view (text : String) :
    Cursor.ofString text = (ofString text).map view :=
  enter_ofChars 0 text.toList

theorem advance_view (lazy : LazyCursor) :
    lazy.view.advance = lazy.advance.map view := by
  cases lazy with
  | on token uncut => exact enter_ofChars token.hi uncut
  | finished position => rfl

theorem next_view (lazy : LazyCursor) :
    lazy.view.next = lazy.next.map (Prod.map id view) := by
  cases lazy with
  | on token uncut =>
      rw [view, Cursor.next, next, enter_ofChars]
      cases enter token.hi uncut <;> rfl
  | finished position => rfl

/-- A token takes at least one character. -/
theorem charactersLeft_of_enter
    {position : Nat}
    {chars : List Char}
    {lazy : LazyCursor}
    (h : enter position chars = .ok lazy) :
    lazy.charactersLeft ≤ chars.length := by
  fun_induction enter position chars with
  | case1 =>
      cases h
      exact Nat.le_refl _
  | case2 position c rest hblank ih => exact Nat.le_succ_of_le (ih h)
  | case3 => cases h
  | case4 position c rest hblank kind more hscan =>
      cases h
      rw [charactersLeft, List.length_drop, List.length_cons]
      omega

/-- Each step of a walk uses up characters. -/
theorem charactersLeft_of_next
    {lazy after : LazyCursor}
    {item : Except LexError Token}
    (h : lazy.next = some (item, after)) :
    after.charactersLeft < lazy.charactersLeft := by
  cases lazy with
  | on token uncut =>
      rw [next] at h
      split at h <;> cases h
      · rename_i henter
        exact Nat.lt_succ_of_le (charactersLeft_of_enter henter)
      · exact Nat.succ_pos _
  | finished position => cases h

/-- A walk delivers no more items than there are characters to be used up. -/
theorem length_items_view_le (lazy : LazyCursor) :
    lazy.view.items.length ≤ lazy.charactersLeft := by
  -- The induction is on the number of characters that are left: a step leaves fewer, whatever token it meets.
  induction hleft : lazy.charactersLeft using Nat.strongRecOn generalizing lazy with
  | _ left ih =>
      have hview := lazy.next_view
      cases hnext : lazy.next with
      | none =>
          rw [hnext] at hview
          rw [Cursor.items_of_next_none hview]
          exact Nat.zero_le _
      | some found =>
          obtain ⟨item, after⟩ := found
          have hless : after.charactersLeft < left := hleft ▸ charactersLeft_of_next hnext
          have hrest := ih _ hless after rfl
          rw [hnext] at hview
          rw [Cursor.items_of_next hview]
          exact Nat.lt_of_le_of_lt hrest hless

end LazyCursor

theorem Cursor.length_items_le
    {text : String}
    {cursor : Cursor}
    (h : Cursor.ofString text = .ok cursor) :
    cursor.items.length ≤ text.length := by
  rw [LazyCursor.ofString_view] at h
  cases hlazy : LazyCursor.ofString text with
  | error e =>
      rw [hlazy] at h
      cases h
  | ok lazy =>
      rw [hlazy] at h
      cases h
      exact Nat.le_trans lazy.length_items_view_le (LazyCursor.charactersLeft_of_enter hlazy)

/-- To walk through tokens and to advance a cursor come to the same. An advanced cursor shows certain tokens, until it
is past the last one or on one that it cannot be moved on from, and as long as it can be moved on, a walk takes it to
the same places. If the cursor gets past the last token, the walk delivers the tokens that it shows, with their kinds
and ranges, each once and in order; if it stops because of an error, the walk delivers all but the last of them and
then that error. Each step of the walk delivers the next of these items, and every later step nothing. A cursor on the
first token of a text shows the tokens into which the text is cut, and a walk from there delivers no more items than
the text has characters. None of this changes if the text is cut no further than the cursor has got. -/
theorem walking_agrees_with_advancing :
    (∀ cursor : Cursor, ∃! course : List Token × Except LexError Nat, cursor.Shows course.1 course.2) ∧
    (∀ (cursor last : Cursor) (count : Nat),
      cursor.Onward count last →
      cursor.afterSteps count = last) ∧
    (∀ (cursor : Cursor) (shown : List Token) (position : Nat),
      cursor.Shows shown (.ok position) →
      cursor.items = shown.map .ok) ∧
    (∀ (cursor : Cursor) (shown : List Token) (e : LexError),
      cursor.Shows shown (.error e) →
      shown ≠ [] ∧ cursor.items = shown.dropLast.map .ok ++ [.error e]) ∧
    (∀ (cursor : Cursor) (steps : Nat), (cursor.afterSteps steps).next.map Prod.fst = cursor.items[steps]?) ∧
    (∀ (text : String) (cursor : Cursor),
      Cursor.ofString text = .ok cursor →
      cursor.Shows (Lexed.ofString text).tokens (Lexed.ofString text).final ∧
      cursor.items.length ≤ text.length) ∧
    (∀ text, Cursor.ofString text = (LazyCursor.ofString text).map LazyCursor.view) ∧
    ∀ lazy : LazyCursor,
      lazy.view.advance = lazy.advance.map LazyCursor.view ∧
      lazy.view.next = lazy.next.map (Prod.map id LazyCursor.view) := by
  refine ⟨?_, ?_, ?_, ?_, ?_, ?_, ?_, ?_⟩
  · intro cursor
    obtain ⟨shown, ending, hshows⟩ := cursor.exists_shows
    refine ⟨(shown, ending), hshows, ?_⟩
    intro course hcourse
    obtain ⟨hshown, hending⟩ := hshows.unique hcourse
    exact Prod.ext hshown hending
  · intro cursor last count honward
    exact honward.afterSteps_eq
  · intro cursor shown position hshows
    exact hshows.items_eq
  · intro cursor shown e hshows
    exact ⟨hshows.ne_nil, hshows.items_eq⟩
  · intro cursor steps
    exact cursor.next_afterSteps steps
  · intro text cursor hcursor
    exact ⟨Cursor.shows_of_enter hcursor, Cursor.length_items_le hcursor⟩
  · exact LazyCursor.ofString_view
  · intro lazy
    exact ⟨lazy.advance_view, lazy.next_view⟩

/-- In ` 12ab` both tokens are delivered. In `(f 7@ 8` the constant is not, because the character behind it starts no
token; the error takes its place, and nothing is delivered after it. -/
theorem walking_agrees_with_advancing_in_two_texts :
    (∃ cursor, Cursor.ofString " 12ab" = .ok cursor ∧
      cursor.Shows [⟨.int 12, 1, 3⟩, ⟨.ident "ab", 3, 5⟩] (.ok 5) ∧
      cursor.items = [.ok ⟨.int 12, 1, 3⟩, .ok ⟨.ident "ab", 3, 5⟩] ∧
      cursor.items.length ≤ " 12ab".length) ∧
    ∃ cursor ahead, Cursor.ofString "(f 7@ 8" = .ok cursor ∧
      cursor.Shows [⟨.opening, 0, 1⟩, ⟨.ident "f", 1, 2⟩, ⟨.int 7, 3, 4⟩] (.error (.unexpectedCharacter '@' 4)) ∧
      cursor.items = [.ok ⟨.opening, 0, 1⟩, .ok ⟨.ident "f", 1, 2⟩, .error (.unexpectedCharacter '@' 4)] ∧
      cursor.Onward 2 (.on ⟨.int 7, 3, 4⟩ ahead) ∧
      cursor.afterSteps 2 = .on ⟨.int 7, 3, 4⟩ ahead ∧
      ∀ steps, 3 ≤ steps → (cursor.afterSteps steps).next.map Prod.fst = none := by
  obtain ⟨-, hplaces, hfinished, hblocked, hsteps, htext, -⟩ := walking_agrees_with_advancing
  let ahead : Lexed := ⟨[], .error (.unexpectedCharacter '@' 4)⟩
  let cursor : Cursor := .on ⟨.opening, 0, 1⟩ ⟨[⟨.ident "f", 1, 2⟩, ⟨.int 7, 3, 4⟩], ahead.final⟩
  have hcut : Cursor.ofString " 12ab" = .ok (.ofTokens [⟨.int 12, 1, 3⟩, ⟨.ident "ab", 3, 5⟩] 5) :=
    Cursor.ofString_eq_on (by decide +kernel) (by decide +kernel)
  have hall : (Cursor.ofTokens [⟨.int 12, 1, 3⟩, ⟨.ident "ab", 3, 5⟩] 5).Shows
      [⟨.int 12, 1, 3⟩, ⟨.ident "ab", 3, 5⟩] (.ok 5) := .moved rfl (.moved rfl (.finished 5))
  have hcursor : Cursor.ofString "(f 7@ 8" = .ok cursor :=
    Cursor.ofString_eq_on (by decide +kernel) (by decide +kernel)
  have hshows : cursor.Shows [⟨.opening, 0, 1⟩, ⟨.ident "f", 1, 2⟩, ⟨.int 7, 3, 4⟩]
      (.error (.unexpectedCharacter '@' 4)) := .moved rfl (.moved rfl (.blocked rfl))
  have honward : cursor.Onward 2 (.on ⟨.int 7, 3, 4⟩ ahead) := .next rfl (.next rfl (.here _))
  obtain ⟨-, hitems⟩ := hblocked _ _ _ hshows
  refine ⟨⟨_, hcut, hall, hfinished _ _ _ hall, (htext _ _ hcut).2⟩,
    cursor, ahead, hcursor, hshows, hitems, honward, hplaces _ _ _ honward, ?_⟩
  intro steps hle
  rw [hsteps, hitems]
  exact List.getElem?_eq_none hle

end SmallLisp
