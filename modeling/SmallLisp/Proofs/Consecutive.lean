import SmallLisp.Proofs.Answering
import SmallLisp.Proofs.Reading

/-!
# Texts that can be read in part

A text is read datum after datum, and a datum counts only if the token behind it, or the end of the text, can
be cut. So of a text that cannot be read to its end exactly the longest sequence of such data is evaluated.

* `Lexed.Consecutive` says that data stand one after another at the start of a text;
* `Lexed.Consecutive.forms`: a cursor delivers such data first, whatever comes behind them;
* `Cursor.exists_consecutive_forms`: what a cursor delivers are such data;
* `Session.evaluateAll_runs_what_is_readable` is the main result.
-/

namespace SmallLisp

namespace Lexed

/-- Nothing is left but the end of the text. -/
def AtEnd (lexed : Lexed) : Prop :=
  lexed.tokens = [] ∧ ∃ position, lexed.final = .ok position

/-- What comes next, a token or the end of the text, can be cut. -/
def NextIsCut (lexed : Lexed) : Prop :=
  lexed.tokens ≠ [] ∨ ∃ position, lexed.final = .ok position

/-- The text starts with data, one after another, and the rest of it comes behind them. What comes behind
each of the data can be cut. -/
inductive Consecutive : Lexed → List Datum → Lexed → Prop
  | nil
      (lexed : Lexed) :
      Consecutive lexed [] lexed
  | cons
      {lexed rest : Lexed}
      {read left : List Token}
      {datum : Datum}
      {data : List Datum}
      (htokens : lexed.tokens = read ++ left)
      (hderives : Derives (read.map Token.kind) datum)
      (hnext : NextIsCut ⟨left, lexed.final⟩)
      (hrest : Consecutive ⟨left, lexed.final⟩ data rest) :
      Consecutive lexed (datum :: data) rest

/-- Reads the datum at the start of a text. -/
def readFirst (lexed : Lexed) : Except ReadError Datum := do
  let cursor ← lexed.enter.mapError .lexical
  cursor.readDatum.1

/-- A text can be entered if what comes next can be cut, and only then. -/
theorem nextIsCut_iff
    {lexed : Lexed} :
    lexed.NextIsCut ↔ ∃ cursor, lexed.enter = .ok cursor := by
  obtain ⟨tokens, final⟩ := lexed
  cases tokens with
  | cons token tokens => exact ⟨fun _ => ⟨_, rfl⟩, fun _ => .inl (List.cons_ne_nil _ _)⟩
  | nil =>
      cases final with
      | ok position => exact ⟨fun _ => ⟨_, rfl⟩, fun _ => .inr ⟨position, rfl⟩⟩
      | error e =>
          constructor
          · rintro (h | ⟨position, h⟩)
            · exact (h rfl).elim
            · cases h
          · rintro ⟨cursor, h⟩
            cases h

/-- Nothing is left of a text if it is entered past its last token. -/
theorem atEnd_iff_of_enter
    {lexed : Lexed}
    {cursor : Cursor}
    (h : lexed.enter = .ok cursor) :
    lexed.AtEnd ↔ cursor.atEnd = true := by
  obtain ⟨tokens, final⟩ := lexed
  cases tokens with
  | cons token tokens =>
      cases h
      refine ⟨?_, nofun⟩
      rintro ⟨hnone, -⟩
      cases hnone
  | nil =>
      cases final with
      | ok position =>
          cases h
          exact ⟨fun _ => rfl, fun _ => ⟨rfl, position, rfl⟩⟩
      | error e => cases h

theorem readFirst_of_enter
    {lexed : Lexed}
    {cursor : Cursor}
    (h : lexed.enter = .ok cursor) :
    lexed.readFirst = cursor.readDatum.1 := by
  rw [readFirst, h]
  rfl

theorem readFirst_of_enter_error
    {lexed : Lexed}
    {e : LexError}
    (h : lexed.enter = .error e) :
    lexed.readFirst = .error (.lexical e) := by
  rw [readFirst, h]
  rfl

namespace Consecutive

variable {lexed rest : Lexed} {data : List Datum}

/-- The text behind given data is determined by them. -/
theorem unique
    (h : lexed.Consecutive data rest)
    {other : Lexed}
    (h' : lexed.Consecutive data other) :
    rest = other := by
  induction h with
  | nil =>
      cases h'
      rfl
  | @cons lexed rest read left _ _ htokens hderives _ _ ih =>
      cases h' with
      | @cons _ _ read' left' _ _ htokens' hderives' _ hrest' =>
          have hkinds : read.map Token.kind ++ left.map Token.kind =
              read'.map Token.kind ++ left'.map Token.kind := by
            rw [← List.map_append, ← List.map_append, ← htokens, ← htokens']
          have hlength : read.length = read'.length := by
            simpa using congrArg List.length (hderives.unique hderives' hkinds).1
          obtain ⟨-, rfl⟩ := List.append_inj (htokens.symm.trans htokens') hlength
          exact ih hrest'

/-- A text that starts with a datum can be entered. -/
theorem exists_enter
    (h : lexed.Consecutive data rest)
    (hsome : data ≠ []) :
    ∃ cursor, lexed.enter = .ok cursor := by
  cases h with
  | nil => exact (hsome rfl).elim
  | @cons _ _ read left _ _ htokens _ hnext _ =>
      obtain ⟨after, hafter⟩ := nextIsCut_iff.mp hnext
      obtain ⟨cursor, hcursor⟩ := Cursor.exists_enter_append hafter read
      rw [← htokens] at hcursor
      exact ⟨cursor, hcursor⟩

/-- A cursor at the start of a text delivers the data that the text starts with, and then what a cursor
behind them delivers. -/
theorem forms
    (h : lexed.Consecutive data rest)
    {cursor : Cursor}
    (hcursor : lexed.enter = .ok cursor) :
    ∃ last,
      rest.enter = .ok last ∧
      cursor.forms = (data ++ last.forms.1, last.forms.2) := by
  induction h generalizing cursor with
  | nil => exact ⟨cursor, hcursor, rfl⟩
  | cons htokens hderives hnext _ ih =>
      obtain ⟨after, hafter⟩ := nextIsCut_iff.mp hnext
      obtain ⟨last, hlast, hforms⟩ := ih hafter
      refine ⟨last, hlast, ?_⟩
      rw [Cursor.forms_of_readDatum (Cursor.readDatum_iff_derives.mpr ⟨_, ?_, ?_, hderives⟩), hforms]
      · rfl
      · rw [remaining_of_enter hcursor, remaining_of_enter hafter, htokens]
      · rw [Cursor.ending_of_enter hcursor, Cursor.ending_of_enter hafter]

end Consecutive

end Lexed

/-- The data that a cursor delivers stand one after another. Behind them the text ends, or else the cursor
reports why no datum can be read there. -/
theorem Cursor.exists_consecutive_forms
    {lexed : Lexed}
    {cursor : Cursor}
    (hcursor : lexed.enter = .ok cursor) :
    ∃ rest last,
      lexed.Consecutive cursor.forms.1 rest ∧
      rest.enter = .ok last ∧
      (cursor.forms.2 = none ↔ last.atEnd = true) ∧
      ∀ e, cursor.forms.2 = some e → last.readDatum.1 = .error e := by
  fun_induction forms cursor generalizing lexed with
  | case1 cursor first after hread data failure hforms ih =>
      rw [hforms] at ih
      obtain ⟨read, hremaining, hending, hderives⟩ := readDatum_iff_derives.mp hread
      obtain ⟨rest, last, hdata, hlast⟩ := ih (enter_remaining after)
      rw [Lexed.remaining_of_enter hcursor] at hremaining
      rw [← hending, ending_of_enter hcursor] at hdata
      refine ⟨rest, last, .cons hremaining hderives (Lexed.nextIsCut_iff.mpr ⟨after, ?_⟩) hdata, hlast⟩
      rw [← ending_of_enter hcursor, hending]
      exact enter_remaining after
  | case2 cursor e after hread =>
      refine ⟨lexed, cursor, .nil lexed, hcursor, ?_, ?_⟩
      · by_cases hend : cursor.atEnd = true <;> simp [hend]
      · intro e' he
        split at he
        · cases he
        · cases he
          rw [hread]

namespace Session

section Texts

variable {text : String} {cursor : Cursor}

theorem formsOf_of_enter
    (h : (Lexed.ofString text).enter = .ok cursor) :
    formsOf text = cursor.forms.1 := by
  rw [formsOf, Cursor.ofString, h]

theorem evaluateAll_of_enter
    (h : (Lexed.ofString text).enter = .ok cursor)
    (fuel : Nat)
    (goOn : List Answer → Bool)
    (session : Session) :
    session.evaluateAll fuel goOn text =
      session.runForms fuel goOn cursor.forms.2 [] cursor.forms.1 := by
  rw [evaluateAll, Cursor.ofString, h]

/-- No longer sequence of data stands at the start of a text than its forms. -/
theorem prefix_formsOf
    {data : List Datum}
    {rest : Lexed}
    (h : (Lexed.ofString text).Consecutive data rest) :
    data <+: formsOf text := by
  by_cases hsome : data = []
  · rw [hsome]
    exact List.nil_prefix
  · obtain ⟨cursor, hcursor⟩ := h.exists_enter hsome
    obtain ⟨last, -, hforms⟩ := h.forms hcursor
    rw [formsOf_of_enter hcursor, hforms]
    exact List.prefix_append data last.forms.1

/-- The forms of a text stand one after another at its start, and a call evaluates them in order. Behind them
the text ends, or else the call fails as reading does there. -/
theorem exists_consecutive_formsOf (text : String) :
    ∃ rest failure,
      (Lexed.ofString text).Consecutive (formsOf text) rest ∧
      (failure = none ↔ rest.AtEnd) ∧
      (∀ e, failure = some e → rest.readFirst = .error e) ∧
      ∀ fuel goOn (session : Session),
        session.evaluateAll fuel goOn text = session.runForms fuel goOn failure [] (formsOf text) := by
  cases hcursor : (Lexed.ofString text).enter with
  | error e =>
      have hforms : formsOf text = [] := by
        rw [formsOf, Cursor.ofString, hcursor]
      rw [hforms]
      refine ⟨Lexed.ofString text, some (.lexical e), .nil _, ?_, ?_, ?_⟩
      · constructor
        · intro hnone
          cases hnone
        · intro hend
          obtain ⟨cursor, hentered⟩ := Lexed.nextIsCut_iff.mp (.inr hend.2)
          cases hcursor.symm.trans hentered
      · rintro _ ⟨⟩
        exact Lexed.readFirst_of_enter_error hcursor
      · intro fuel goOn session
        rw [evaluateAll, Cursor.ofString, hcursor]
        rfl
  | ok cursor =>
      obtain ⟨rest, last, hdata, hlast, hend, herror⟩ := Cursor.exists_consecutive_forms hcursor
      rw [formsOf_of_enter hcursor]
      refine ⟨rest, cursor.forms.2, hdata, hend.trans (Lexed.atEnd_iff_of_enter hlast).symm, ?_, ?_⟩
      · intro e he
        rw [Lexed.readFirst_of_enter hlast]
        exact herror e he
      · exact evaluateAll_of_enter hcursor

end Texts

/-- A call that is not told to stop runs what is readable. The forms that it evaluates are the longest
sequence of data at the start of the text such that what comes behind each of them can be cut. If they are
answered, the call delivers the answers and leaves the state behind them. It comes to the end of the text if
nothing is left behind them, and fails otherwise with the error of reading what is left. -/
theorem evaluateAll_runs_what_is_readable
    {session : Session}
    (h : session.Reachable)
    (text : String) :
    ∃ rest failure,
      (Lexed.ofString text).Consecutive (formsOf text) rest ∧
      (∀ data other, (Lexed.ofString text).Consecutive data other → data <+: formsOf text) ∧
      (failure = none ↔ rest.AtEnd) ∧
      (∀ e, failure = some e → rest.readFirst = .error e ∧ (Error.reading e).kind = .malformed) ∧
      ∀ answers later,
        Answered evaluateForm session (formsOf text) answers later →
        answers.length = (formsOf text).length ∧
        ∃ least, ∀ fuel, least ≤ fuel →
          session.evaluateAll fuel (fun _ => true) text =
            (⟨answers, failure.map fun e => .error (.reading e)⟩, later) := by
  obtain ⟨rest, failure, hforms, hend, herror, hcall⟩ := exists_consecutive_formsOf text
  refine ⟨rest, failure, hforms, fun data other => prefix_formsOf, hend, ?_, ?_⟩
  · exact fun e he => ⟨herror e he, rfl⟩
  · intro answers later hanswered
    obtain ⟨least, hleast⟩ := hanswered.runForms h.wellFormed failure []
    refine ⟨hanswered.length_eq, least, fun fuel hfuel => ?_⟩
    rw [hcall]
    exact hleast fuel hfuel

/-- Of the text `x 1 2@` the forms `x` and `1` are evaluated, although `x` has no value. The form `2` is not,
because the character behind it starts no token. -/
theorem evaluateAll_runs_what_is_readable_of_three_forms :
    ∃ least, ∀ fuel, least ≤ fuel →
      start.evaluateAll fuel (fun _ => true) "x 1 2@" =
        (⟨[.error (Fault.unboundVariable "x" 0).halt, .ok "1"],
          some (.error (.reading (.lexical (.unexpectedCharacter '@' 5))))⟩, start) := by
  obtain ⟨rest, failure, hdata, -, hend, herror, hrun⟩ :=
    evaluateAll_runs_what_is_readable .start "x 1 2@"
  have hforms : formsOf "x 1 2@" = [.sym "x", .int 1] := by decide +kernel
  rw [hforms] at hdata hrun
  have hrest : rest = ⟨[⟨.int 2, 4, 5⟩], .error (.unexpectedCharacter '@' 5)⟩ := by
    refine hdata.unique ?_
    have htokens : (Lexed.ofString "x 1 2@").tokens =
        [⟨.ident "x", 0, 1⟩] ++ ([⟨.int 1, 2, 3⟩] ++ [⟨.int 2, 4, 5⟩]) := by
      decide +kernel
    have hfinal : (Lexed.ofString "x 1 2@").final = .error (.unexpectedCharacter '@' 5) := by
      decide +kernel
    refine .cons htokens (.symbol (by decide)) (.inl (List.cons_ne_nil _ _)) ?_
    rw [hfinal]
    exact .cons rfl (.int 1) (.inl (List.cons_ne_nil _ _)) (.nil _)
  subst hrest
  have hname : start.evaluateForm 1 (.sym "x") =
      (.error (Fault.unboundVariable "x" 0).halt, start) := by
    decide +kernel
  have hnumber : start.evaluateForm 1 (.int 1) = (.ok "1", start) := by decide +kernel
  obtain ⟨-, least, hleast⟩ :=
    hrun _ _ (.cons hname (by decide) (.cons hnumber (by decide) (.nil start)))
  cases failure with
  | none => cases (hend.mp rfl).1
  | some e =>
      have hread : Lexed.readFirst ⟨[⟨.int 2, 4, 5⟩], .error (.unexpectedCharacter '@' 5)⟩ =
          .error (.lexical (.unexpectedCharacter '@' 5)) := by
        decide +kernel
      cases hread.symm.trans (herror e rfl).1
      exact ⟨least, hleast⟩

end Session

end SmallLisp
