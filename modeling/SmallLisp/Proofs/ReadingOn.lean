import SmallLisp.Proofs.Reading

/-!
# Reading on after an error

A cursor may be read from any number of times, whether reading fails or not. It only moves forward. After an error
there is nothing more to be read where the cursor stands now, unless a bracket or a dot was misplaced in a list.

* `Cursor.Onward` counts the tokens that a cursor has moved past;
* `Cursor.Refuses` says that reading fails where a cursor stands and leaves it there;
* `Cursor.refuses_of_readFrom`: where a reader has stopped, reading fails again;
* `Cursor.readsAmong` counts what is read by a caller who may also move the cursor on;
* `reading_goes_on_only_after_a_misplaced_token` is the main result.
-/

namespace SmallLisp

namespace Cursor

/-- The second cursor is that many tokens further on. -/
inductive Onward : Nat → Cursor → Cursor → Prop
  | here
      (cursor : Cursor) :
      Onward 0 cursor cursor
  | next
      {count : Nat}
      {token : Token}
      {ahead : Lexed}
      {following last : Cursor}
      (hadvance : (on token ahead).advance = .ok following)
      (hrest : Onward count following last) :
      Onward (count + 1) (on token ahead) last

/-- Reading fails where the cursor stands, and leaves it there. -/
def Refuses (cursor : Cursor) : Prop :=
  ∃ e, cursor.readDatum = (.error e, cursor)

/-- Where a number of calls of the reader leave the cursor, whether they fail or not. -/
def afterReads : Nat → Cursor → Cursor
  | 0, cursor => cursor
  | calls + 1, cursor => afterReads calls cursor.readDatum.2

/-- What a caller may do with a cursor: read a datum, move to the next token, or take one step of a walk through
the tokens. -/
inductive Use where
  | read
  | advance
  | step

/-- Where one use leaves the cursor. A token that cannot be left stays under the cursor, unless it is met on a
walk. -/
def use (cursor : Cursor) : Use → Cursor
  | .read => cursor.readDatum.2
  | .advance => cursor.advance.toOption.getD cursor
  | .step => (cursor.next.map Prod.snd).getD cursor

/-- How many data one use reads. -/
def delivered (cursor : Cursor) : Use → Nat
  | .read =>
    match cursor.readDatum.1 with
    | .ok _ => 1
    | .error _ => 0
  | .advance => 0
  | .step => 0

/-- How many data a sequence of uses reads. -/
def readsAmong : List Use → Cursor → Nat
  | [], _ => 0
  | next :: uses, cursor => cursor.delivered next + readsAmong uses (cursor.use next)

section Moving

variable {cursor after last : Cursor} {expectation : Expectation}

/-- Each token that a cursor moves past is no longer before it. -/
theorem Onward.length_remaining
    {count : Nat}
    (h : cursor.Onward count last) :
    cursor.remaining.length = count + last.remaining.length := by
  induction h with
  | here => rw [Nat.zero_add]
  | next hadvance _ ih =>
      rw [remaining_of_advance hadvance, List.length_cons, ih]
      omega

/-- A reader moves the cursor forward, if at all, and past at least one token if it reads something. -/
theorem exists_onward_of_readFrom (expectation : Expectation) (cursor : Cursor) :
    ∃ count, Onward count cursor (cursor.readFrom expectation).2 ∧
      ∀ datum, (cursor.readFrom expectation).1 = .ok datum → 0 < count := by
  fun_induction readFrom expectation cursor with
  | case1 | case2 | case3 =>
      refine ⟨0, .here _, ?_⟩
      rintro _ ⟨⟩
  | case4 _ _ _ _ henter _ _ => exact ⟨1, .next henter (.here _), fun _ _ => Nat.one_pos⟩
  | case5 _ _ _ _ henter _ _ ih =>
      obtain ⟨count, honward, -⟩ := ih
      exact ⟨count + 1, .next henter honward, fun _ _ => Nat.succ_pos count⟩

end Moving

end Cursor

section Refusing

variable {kind : TokenKind} {e : ReadError}

/-- A token that starts no datum is a closing bracket, a dot or an illegal symbol. -/
theorem startDatum_error_cases
    {outer : List OpenConstruct}
    (h : startDatum outer kind = .error e) :
    e = .unexpectedToken ∨ ∃ name, kind = .ident name ∧ e = .illegalSymbol name := by
  cases kind with
  | ident name =>
      rw [startDatum] at h
      unfold Datum.ofName at h
      split at h <;> cases h
      exact .inr ⟨name, rfl, rfl⟩
  | closing | dot =>
      cases h
      exact .inl rfl
  | _ => cases h

/-- Whatever is open around it, a token that starts no datum is refused for the same reason. -/
theorem startDatum_error_of_outer
    {outer : List OpenConstruct}
    (h : startDatum outer kind = .error e)
    (outer' : List OpenConstruct) :
    startDatum outer' kind = .error e := by
  cases kind with
  | ident name =>
      rw [startDatum] at h ⊢
      cases hname : Datum.ofName name with
      | error reason =>
          rw [hname] at h
          exact h
      | ok datum =>
          rw [hname] at h
          cases h
  | closing | dot => exact h
  | _ => cases h

/-- A token is refused because a list cannot have it, or because it starts no datum. -/
theorem Expectation.accept_error_cases
    {expectation : Expectation}
    (h : expectation.accept kind = .error e) :
    e = .misplacedInList ∨ ∃ outer, startDatum outer kind = .error e := by
  unfold accept at h
  split at h
  case h_8 => exact .inr ⟨_, h⟩
  all_goals cases h
  all_goals exact .inl rfl

/-- Where nothing is open, a token starts a datum or is refused. -/
theorem accept_outermost (kind : TokenKind) :
    (Expectation.datum []).accept kind = startDatum [] kind := by
  cases kind <;> rfl

namespace Cursor

variable {cursor after : Cursor} {token : Token} {ahead : Lexed}

theorem refuses_of_startDatum
    {outer : List OpenConstruct}
    (h : startDatum outer token.kind = .error e) :
    (on token ahead).Refuses := by
  refine ⟨e, readFrom_refused ?_ ahead⟩
  rw [accept_outermost]
  exact startDatum_error_of_outer h []

/-- A token is not taken if the one behind it cannot be cut. -/
theorem readFrom_cut
    {expectation : Expectation}
    {next : Progress}
    {lexical : LexError}
    (accepted : expectation.accept token.kind = .ok next)
    (h : ahead.enter = .error lexical) :
    (on token ahead).readFrom expectation = (.error (.lexical lexical), on token ahead) := by
  rw [readFrom]
  simp only [accepted]
  split
  · rename_i henter
    cases h.symm.trans henter
    rfl
  · rename_i henter
    cases h.symm.trans henter

/-- A cursor that cannot be moved on stays where it is, whether its token is refused or the one behind it cannot
be cut. -/
theorem refuses_of_enter
    {lexical : LexError}
    (h : ahead.enter = .error lexical) :
    (on token ahead).Refuses := by
  cases haccept : (Expectation.datum []).accept token.kind with
  | error e => exact ⟨e, readFrom_refused haccept ahead⟩
  | ok next => exact ⟨.lexical lexical, readFrom_cut haccept h⟩

/-- Where a reader has stopped, reading fails again, unless a token was misplaced in a list. After a lexical error
the cursor cannot be moved on, for the same reason. -/
theorem refuses_of_readFrom
    {expectation : Expectation}
    (h : cursor.readFrom expectation = (.error e, after))
    (hplaced : e ≠ .misplacedInList) :
    after.Refuses ∧ ∀ lexical, e = .lexical lexical → after.advance = .error lexical := by
  fun_induction readFrom expectation cursor with
  | case1 expectation last =>
      cases h
      refine ⟨⟨.unexpectedEnd, ?_⟩, ?_⟩
      · rw [readDatum, readFrom]
      · rintro _ ⟨⟩
  | case2 expectation token ahead found refused =>
      cases h
      obtain ⟨outer, hstart⟩ := (Expectation.accept_error_cases refused).resolve_left hplaced
      refine ⟨refuses_of_startDatum hstart, ?_⟩
      rintro lexical rfl
      rcases startDatum_error_cases hstart with heq | ⟨name, -, heq⟩ <;> cases heq
  | case3 expectation token ahead progress accepted found henter =>
      cases h
      refine ⟨refuses_of_enter henter, ?_⟩
      rintro lexical ⟨⟩
      exact henter
  | case4 => cases h
  | case5 _ _ _ _ _ _ _ ih => exact ih h

theorem Refuses.afterReads
    (h : cursor.Refuses)
    (calls : Nat) :
    cursor.afterReads calls = cursor := by
  induction calls with
  | zero => rfl
  | succ calls ih =>
      obtain ⟨e, hread⟩ := h
      rw [Cursor.afterReads, hread]
      exact ih

/-- The calls behind one of some calls start where that one has left the cursor. -/
theorem afterReads_add_succ
    (earlier more : Nat)
    (cursor : Cursor) :
    cursor.afterReads (earlier + more + 1) = (cursor.afterReads earlier).readDatum.2.afterReads more := by
  induction earlier generalizing cursor with
  | zero =>
      rw [Nat.zero_add]
      rfl
  | succ earlier ih =>
      rw [Nat.succ_add]
      exact ih cursor.readDatum.2

end Cursor

end Refusing

section Counting

namespace Cursor

variable {text : String}

/-- A use that reads a datum takes at least one token, and no use adds any. -/
theorem length_remaining_of_use
    (cursor : Cursor)
    (next : Use) :
    cursor.delivered next + (cursor.use next).remaining.length ≤ cursor.remaining.length := by
  cases next with
  | read =>
      obtain ⟨count, honward, hpos⟩ := exists_onward_of_readFrom (.datum []) cursor
      rw [honward.length_remaining]
      refine Nat.add_le_add_right ?_ _
      unfold delivered
      dsimp only
      split
      case h_1 datum hread => exact hpos datum hread
      case h_2 => exact Nat.zero_le count
  | advance =>
      rw [delivered, use, Nat.zero_add]
      cases hadvance : cursor.advance with
      | error e => exact Nat.le_refl _
      | ok after =>
          cases cursor with
          | on token ahead =>
              rw [remaining_of_advance hadvance]
              exact Nat.le_succ _
          | finished position =>
              cases hadvance
              exact Nat.le_refl _
  | step =>
      rw [delivered, use, Nat.zero_add]
      cases hnext : cursor.next with
      | none => exact Nat.le_refl _
      | some found => exact Nat.le_of_lt (length_remaining_of_next hnext)

/-- A sequence of uses reads no more data than there are tokens. -/
theorem readsAmong_le
    (uses : List Use)
    (cursor : Cursor) :
    cursor.readsAmong uses ≤ cursor.remaining.length := by
  induction uses generalizing cursor with
  | nil => exact Nat.zero_le _
  | cons next uses ih =>
      have hrest := ih (cursor.use next)
      have hnext := cursor.length_remaining_of_use next
      rw [readsAmong]
      omega

end Cursor

end Counting

/-- A cursor may be read from again and again. Each time it moves forward if at all, and past at least one token if
a datum is read. If reading fails for another reason than a token that is misplaced in a list, then reading fails
from now on, always for the same reason, and the cursor stays where it is; after a lexical error it cannot be moved
on either, because of this very error. So a call can succeed behind one that failed only if that one met a
misplaced token. However a caller goes on, there are no more data to be read from a text than it has tokens. -/
theorem reading_goes_on_only_after_a_misplaced_token :
    (∀ cursor : Cursor, ∃ count,
      cursor.Onward count cursor.readDatum.2 ∧
      ∀ datum, cursor.readDatum.1 = .ok datum → 0 < count) ∧
    (∀ (cursor after : Cursor) (e : ReadError),
      cursor.readDatum = (.error e, after) →
      e ≠ .misplacedInList →
      (∃ again, ∀ calls,
        after.afterReads calls = after ∧ (after.afterReads calls).readDatum = (.error again, after)) ∧
      ∀ lexical, e = .lexical lexical → after.advance = .error lexical) ∧
    (∀ (cursor : Cursor) (earlier later : Nat) (e : ReadError) (datum : Datum),
      earlier < later →
      (cursor.afterReads earlier).readDatum.1 = .error e →
      (cursor.afterReads later).readDatum.1 = .ok datum →
      e = .misplacedInList) ∧
    ∀ (text : String) (cursor : Cursor) (uses : List Cursor.Use),
      Cursor.ofString text = .ok cursor →
      cursor.readsAmong uses ≤ (Lexed.ofString text).tokens.length := by
  refine ⟨?_, ?_, ?_, ?_⟩
  · exact Cursor.exists_onward_of_readFrom (.datum [])
  · intro cursor after e hread hplaced
    obtain ⟨hrefuses, hlexical⟩ := Cursor.refuses_of_readFrom hread hplaced
    have hstays := hrefuses.afterReads
    obtain ⟨again, hagain⟩ := hrefuses
    refine ⟨⟨again, fun calls => ?_⟩, hlexical⟩
    rw [hstays calls]
    exact ⟨rfl, hagain⟩
  · intro cursor earlier later e datum hlater hfailed hread
    by_contra hplaced
    have hfails : (cursor.afterReads earlier).readDatum = (.error e, (cursor.afterReads earlier).readDatum.2) :=
      Prod.ext hfailed rfl
    obtain ⟨hrefuses, -⟩ := Cursor.refuses_of_readFrom hfails hplaced
    obtain ⟨more, rfl⟩ := Nat.exists_eq_add_of_lt hlater
    rw [Cursor.afterReads_add_succ, hrefuses.afterReads] at hread
    obtain ⟨again, hagain⟩ := hrefuses
    rw [hagain] at hread
    cases hread
  · intro text cursor uses hcursor
    rw [← Lexed.remaining_of_enter hcursor]
    exact cursor.readsAmong_le uses

/-- A cursor is put on the first token of a text. -/
theorem Cursor.ofString_eq_on
    {text : String}
    {token : Token}
    {tokens : List Token}
    {final : Except LexError Nat}
    (htokens : (Lexed.ofString text).tokens = token :: tokens)
    (hfinal : (Lexed.ofString text).final = final) :
    Cursor.ofString text = .ok (.on token ⟨tokens, final⟩) := by
  subst hfinal
  exact congrArg (fun tokens => Lexed.enter ⟨tokens, (Lexed.ofString text).final⟩) htokens

/-- In `(1 . 2 3)` the datum behind the misplaced one is read by the next call. In `(a)@` the closing bracket cannot
be left, and stays under the cursor. -/
theorem reading_goes_on_only_after_a_misplaced_token_in_two_texts :
    (∃ cursor, Cursor.ofString "(1 . 2 3)" = .ok cursor ∧
      cursor.readDatum.1 = .error .misplacedInList ∧
      (cursor.afterReads 1).readDatum.1 = .ok (.int 3) ∧
      cursor.readsAmong [.read, .read, .read] ≤ (Lexed.ofString "(1 . 2 3)").tokens.length) ∧
    ∃ cursor after again, Cursor.ofString "(a)@" = .ok cursor ∧
      cursor.readDatum = (.error (.lexical (.unexpectedCharacter '@' 3)), after) ∧
      after.advance = .error (.unexpectedCharacter '@' 3) ∧
      ∀ calls, (after.afterReads calls).readDatum = (.error again, after) := by
  obtain ⟨-, hstops, -, hcount⟩ := reading_goes_on_only_after_a_misplaced_token
  let chain : List Token :=
    [⟨.opening, 0, 1⟩, ⟨.int 1, 1, 2⟩, ⟨.dot, 3, 4⟩, ⟨.int 2, 5, 6⟩, ⟨.int 3, 7, 8⟩, ⟨.closing, 8, 9⟩]
  let lexical : LexError := .unexpectedCharacter '@' 3
  let bracket : Cursor := .on ⟨.closing, 2, 3⟩ ⟨[], .error lexical⟩
  let list : Cursor := .on ⟨.opening, 0, 1⟩ ⟨[⟨.ident "a", 1, 2⟩, ⟨.closing, 2, 3⟩], .error lexical⟩
  have hchain : Cursor.ofString "(1 . 2 3)" = .ok (.ofTokens chain 9) :=
    Cursor.ofString_eq_on (by decide +kernel) (by decide +kernel)
  have hlist : Cursor.ofString "(a)@" = .ok list :=
    Cursor.ofString_eq_on (by decide +kernel) (by decide +kernel)
  have hread : list.readDatum = (.error (.lexical lexical), bracket) :=
    calc list.readDatum
      _ = Cursor.resume (.waiting (.datum [.elements []]))
            (.on ⟨.ident "a", 1, 2⟩ ⟨[⟨.closing, 2, 3⟩], .error lexical⟩) := Cursor.readFrom_on rfl rfl
      _ = Cursor.resume (.waiting (.datum [.elements [.sym "a"]])) bracket := Cursor.readFrom_on rfl rfl
      _ = (.error (.lexical lexical), bracket) := Cursor.readFrom_cut rfl rfl
  have hplaced : ReadError.lexical lexical ≠ .misplacedInList := by
    rintro ⟨⟩
  obtain ⟨⟨again, hagain⟩, hlexical⟩ := hstops list bracket (.lexical lexical) hread hplaced
  refine ⟨⟨_, hchain, ?_, ?_, hcount _ _ _ hchain⟩, list, bracket, again, hlist, hread, hlexical lexical rfl, ?_⟩
  · decide +kernel
  · decide +kernel
  · exact fun calls => (hagain calls).2

end SmallLisp
