import Mathlib.Data.List.Basic
import SmallLisp.Proofs.Grammar

/-!
# Reading and the grammar

A reader on a cursor reads exactly the data of the grammar.

* `Cursor.readDatum_iff_derives`: reading takes the tokens up to the one that completes a datum and leaves
  the cursor behind it;
* `readForm_ok_iff`: a text is read exactly if it can be cut and its tokens derive a datum;
* `reads_exactly_the_grammar` puts both together with the unambiguity of the grammar.
-/

namespace SmallLisp

namespace Cursor

/-- A cursor on the first of some tokens, behind which the text ends at a position. -/
def ofTokens : List Token → Nat → Cursor
  | [], position => .finished position
  | token :: tokens, position => .on token ⟨tokens, .ok position⟩

/-- How the text of a cursor ends: at a position, or at an error. -/
def ending : Cursor → Except LexError Nat
  | .on _ ahead => ahead.final
  | .finished position => .ok position

/-- Goes on from what a reader has made of the tokens before the cursor. -/
def resume : Progress → Cursor → Except ReadError Datum × Cursor
  | .complete datum, cursor => (.ok datum, cursor)
  | .waiting expectation, cursor => cursor.readFrom expectation

/-- Tokens without an error behind them can be entered. -/
theorem enter_ofTokens
    (tokens : List Token)
    (position : Nat) :
    Lexed.enter ⟨tokens, .ok position⟩ = .ok (ofTokens tokens position) := by
  cases tokens <;> rfl

/-- Entering a text keeps its end. -/
theorem ending_of_enter
    {lexed : Lexed}
    {cursor : Cursor}
    (h : lexed.enter = .ok cursor) :
    cursor.ending = lexed.final := by
  unfold Lexed.enter at h
  split at h <;> cases h <;> rfl

/-- A cursor whose text ends at a position is given by its tokens and that position. -/
theorem eq_ofTokens
    {cursor : Cursor}
    {position : Nat}
    (h : cursor.ending = .ok position) :
    cursor = ofTokens cursor.remaining position := by
  cases cursor with
  | finished last =>
      cases h
      rfl
  | on token ahead =>
      obtain ⟨tokens, final⟩ := ahead
      cases h
      rfl

/-- The tokens from a cursor on, with the end of its text behind them, can be entered there again. -/
theorem enter_remaining (cursor : Cursor) :
    Lexed.enter ⟨cursor.remaining, cursor.ending⟩ = .ok cursor := by
  cases cursor <;> rfl

/-- Tokens in front of a text that can be entered can be entered. -/
theorem exists_enter_append
    {left : List Token}
    {final : Except LexError Nat}
    {after : Cursor}
    (hafter : Lexed.enter ⟨left, final⟩ = .ok after)
    (read : List Token) :
    ∃ cursor, Lexed.enter ⟨read ++ left, final⟩ = .ok cursor := by
  cases read with
  | nil => exact ⟨after, hafter⟩
  | cons token read => exact ⟨.on token ⟨read ++ left, final⟩, rfl⟩

/-- A token that is accepted is behind the cursor when reading goes on. -/
theorem readFrom_on
    {expectation : Expectation}
    {token : Token}
    {next : Progress}
    {ahead : Lexed}
    {after : Cursor}
    (accepted : expectation.accept token.kind = .ok next)
    (hafter : ahead.enter = .ok after) :
    (on token ahead).readFrom expectation = resume next after := by
  rw [readFrom]
  simp only [accepted]
  split
  · rename_i henter
    cases hafter.symm.trans henter
  · rename_i henter
    cases hafter.symm.trans henter
    cases next <;> rfl

/-- A token that is refused stays under the cursor. -/
theorem readFrom_refused
    {expectation : Expectation}
    {token : Token}
    {e : ReadError}
    (refused : expectation.accept token.kind = .error e)
    (ahead : Lexed) :
    (on token ahead).readFrom expectation = (.error e, on token ahead) := by
  rw [readFrom]
  simp only [refused]

/-- A reader goes through the tokens that it takes. -/
theorem resume_append
    {first last : Progress}
    {read left : List Token}
    {final : Except LexError Nat}
    {cursor after : Cursor}
    (htakes : Takes first (read.map Token.kind) last)
    (hcursor : Lexed.enter ⟨read ++ left, final⟩ = .ok cursor)
    (hafter : Lexed.enter ⟨left, final⟩ = .ok after) :
    resume first cursor = resume last after := by
  induction read generalizing first cursor with
  | nil =>
      cases htakes
      cases hcursor.symm.trans hafter
      rfl
  | cons token read ih =>
      cases hcursor
      cases htakes with
      | one accepted rest =>
          obtain ⟨next, hnext⟩ := exists_enter_append hafter read
          exact (readFrom_on accepted hnext).trans (ih rest hnext)

/-- Reading keeps the end of the text. -/
theorem ending_of_readFrom
    (expectation : Expectation)
    (cursor : Cursor) :
    (cursor.readFrom expectation).2.ending = cursor.ending := by
  fun_induction readFrom expectation cursor with
  | case1 => rfl
  | case2 => rfl
  | case3 => rfl
  | case4 _ _ _ _ henter _ _ => exact ending_of_enter henter
  | case5 _ _ _ _ henter _ _ ih => exact ih.trans (ending_of_enter henter)

/-- A reader that ends with a datum has taken the tokens before the cursor that it leaves, however the
text goes on behind them. -/
theorem takes_of_readFrom
    {expectation : Expectation}
    {cursor after : Cursor}
    {datum : Datum}
    (h : cursor.readFrom expectation = (.ok datum, after)) :
    ∃ read,
      cursor.remaining = read ++ after.remaining ∧
      Takes (.waiting expectation) (read.map Token.kind) (.complete datum) := by
  fun_induction readFrom expectation cursor with
  | case1 => cases h
  | case2 => cases h
  | case3 => cases h
  | case4 _ token _ _ henter _ accepted =>
      cases h
      refine ⟨[token], ?_, .single accepted⟩
      rw [Lexed.remaining_of_enter henter]
      rfl
  | case5 _ token _ _ henter _ accepted ih =>
      obtain ⟨read, hremaining, htakes⟩ := ih h
      refine ⟨token :: read, ?_, .one accepted htakes⟩
      rw [List.cons_append, ← hremaining, Lexed.remaining_of_enter henter]
      rfl

theorem remaining_ofTokens
    (tokens : List Token)
    (position : Nat) :
    (ofTokens tokens position).remaining = tokens := by
  cases tokens <;> rfl

theorem ending_ofTokens
    (tokens : List Token)
    (position : Nat) :
    (ofTokens tokens position).ending = .ok position := by
  cases tokens <;> rfl

/-- Reading ends with a datum if the tokens up to the cursor that it leaves take a reader to that datum,
and only then. -/
theorem readFrom_ok_iff
    {expectation : Expectation}
    {cursor after : Cursor}
    {datum : Datum} :
    cursor.readFrom expectation = (.ok datum, after) ↔
      ∃ read,
        cursor.remaining = read ++ after.remaining ∧
        cursor.ending = after.ending ∧
        Takes (.waiting expectation) (read.map Token.kind) (.complete datum) := by
  constructor
  · intro h
    obtain ⟨read, hremaining, htakes⟩ := takes_of_readFrom h
    have hkept := ending_of_readFrom expectation cursor
    rw [h] at hkept
    exact ⟨read, hremaining, hkept.symm, htakes⟩
  · rintro ⟨read, hremaining, hending, htakes⟩
    have hcursor := enter_remaining cursor
    rw [hremaining, hending] at hcursor
    exact resume_append htakes hcursor (enter_remaining after)

/-- A datum is read if the tokens up to the cursor that is left derive it, and only then. -/
theorem readDatum_iff_derives
    {cursor after : Cursor}
    {datum : Datum} :
    cursor.readDatum = (.ok datum, after) ↔
      ∃ read,
        cursor.remaining = read ++ after.remaining ∧
        cursor.ending = after.ending ∧
        Derives (read.map Token.kind) datum := by
  rw [readDatum, readFrom_ok_iff]
  simp only [takes_iff_derives]

/-- Reading a datum takes exactly the tokens that derive it. -/
theorem readDatum_ok_iff
    {tokens : List Token}
    {position : Nat}
    {datum : Datum}
    {after : Cursor} :
    (ofTokens tokens position).readDatum = (.ok datum, after) ↔
      ∃ read left,
        tokens = read ++ left ∧
        Derives (read.map Token.kind) datum ∧
        after = ofTokens left position := by
  rw [readDatum_iff_derives, remaining_ofTokens, ending_ofTokens]
  constructor
  · rintro ⟨read, htokens, hending, hderives⟩
    exact ⟨read, after.remaining, htokens, hderives, eq_ofTokens hending.symm⟩
  · rintro ⟨read, left, htokens, hderives, rfl⟩
    rw [remaining_ofTokens, ending_ofTokens]
    exact ⟨read, htokens, rfl, hderives⟩

theorem forms_of_readDatum
    {cursor after : Cursor}
    {datum : Datum}
    (h : cursor.readDatum = (.ok datum, after)) :
    cursor.forms = (datum :: after.forms.1, after.forms.2) := by
  rw [forms]
  split
  · rename_i hread
    rw [h] at hread
    cases hread
    rfl
  · rename_i hread
    rw [h] at hread
    cases hread

theorem forms_of_atEnd
    {cursor : Cursor}
    (h : cursor.atEnd = true) :
    cursor.forms = ([], none) := by
  cases cursor with
  | on => cases h
  | finished position =>
      have hread : (finished position).readDatum = (.error .unexpectedEnd, finished position) := by
        rw [readDatum, readFrom]
      rw [forms]
      split
      · rename_i hfound
        rw [hread] at hfound
        cases hfound
      · rfl

/-- The data that are read one after another are derived by tokens of the text. -/
theorem derives_of_mem_forms
    {cursor : Cursor}
    {datum : Datum}
    (h : datum ∈ cursor.forms.1) :
    ∃ read : List Token,
      (∀ token ∈ read, token ∈ cursor.remaining) ∧ Derives (read.map Token.kind) datum := by
  fun_induction forms cursor with
  | case1 cursor first after hread data failure hforms ih =>
      obtain ⟨read, hremaining, htakes⟩ := takes_of_readFrom hread
      rcases List.mem_cons.mp h with rfl | h
      · refine ⟨read, ?_, takes_iff_derives.mp htakes⟩
        intro token htoken
        rw [hremaining]
        exact List.mem_append_left _ htoken
      · rw [hforms] at ih
        obtain ⟨later, hlater, hderives⟩ := ih h
        refine ⟨later, ?_, hderives⟩
        intro token htoken
        rw [hremaining]
        exact List.mem_append_right _ (hlater token htoken)
  | case2 => cases h

end Cursor

theorem readForm_eq_ok_iff
    {text : String}
    {datum : Datum} :
    readForm text = .ok datum ↔
      ∃ cursor after,
        Cursor.ofString text = .ok cursor ∧
        cursor.readDatum = (.ok datum, after) ∧
        after.atEnd = true := by
  unfold readForm
  cases hcursor : Cursor.ofString text with
  | error e =>
      have hlexical : (Except.error e).mapError ReadError.lexical =
          (.error (.lexical e) : Except ReadError Cursor) := rfl
      simp [hlexical, bind, Except.bind]
  | ok cursor =>
      have hcut : (Except.ok cursor).mapError ReadError.lexical = .ok cursor := rfl
      rcases hread : cursor.readDatum with ⟨result, after⟩
      cases result with
      | error e => simp [hcut, bind, Except.bind, hread]
      | ok found =>
          by_cases hend : after.atEnd = true
          · simp [hcut, bind, Except.bind, hread, hend, pure, Except.pure, and_assoc]
          · simp [hcut, bind, Except.bind, hread, hend]

/-- A text is read exactly if it can be cut to its end and its tokens derive a datum. -/
theorem readForm_ok_iff
    {text : String}
    {datum : Datum} :
    readForm text = .ok datum ↔
      (∃ position, (Lexed.ofString text).final = .ok position) ∧
      Derives (Lexed.ofString text).kinds datum := by
  rw [readForm_eq_ok_iff]
  constructor
  · rintro ⟨cursor, after, hcursor, hread, hend⟩
    obtain ⟨read, hremaining, hending, hderives⟩ := Cursor.readDatum_iff_derives.mp hread
    rw [Lexed.remaining_of_enter hcursor] at hremaining
    rw [Cursor.ending_of_enter hcursor] at hending
    cases after with
    | on => cases hend
    | finished position =>
        rw [Cursor.remaining, List.append_nil] at hremaining
        exact ⟨⟨position, hending⟩, by rwa [Lexed.kinds, hremaining]⟩
  · rintro ⟨⟨position, hfinal⟩, hderives⟩
    have hlexed : Lexed.ofString text = ⟨(Lexed.ofString text).tokens, .ok position⟩ := by
      rw [← hfinal]
    refine ⟨.ofTokens (Lexed.ofString text).tokens position, .finished position, ?_, ?_, rfl⟩
    · rw [Cursor.ofString, hlexed]
      exact Cursor.enter_ofTokens _ position
    · rw [Cursor.readDatum_ok_iff]
      exact ⟨(Lexed.ofString text).tokens, [], (List.append_nil _).symm, hderives, rfl⟩

/-- The reader accepts exactly the grammar. On tokens without a lexical error it reads the tokens that
derive a datum and stops behind them; a sequence of tokens derives at most one datum, and none of its
proper beginnings derives one; and a text is read as a datum exactly if it is cut to its end and all
its tokens derive that datum. -/
theorem reads_exactly_the_grammar :
    (∀ (tokens : List Token) (position : Nat) (datum : Datum) (after : Cursor),
      (Cursor.ofTokens tokens position).readDatum = (.ok datum, after) ↔
        ∃ read left,
          tokens = read ++ left ∧
          Derives (read.map Token.kind) datum ∧
          after = Cursor.ofTokens left position) ∧
    (∀ (front front' back back' : List TokenKind) (datum datum' : Datum),
      Derives front datum →
      Derives front' datum' →
      front ++ back = front' ++ back' →
      front = front' ∧ datum = datum') ∧
    (∀ (front back : List TokenKind) (datum datum' : Datum),
      Derives front datum →
      Derives (front ++ back) datum' →
      back = []) ∧
    (∀ (text : String) (datum : Datum),
      readForm text = .ok datum ↔
        (∃ position, (Lexed.ofString text).final = .ok position) ∧
        Derives (Lexed.ofString text).kinds datum) := by
  refine ⟨?_, ?_, ?_, ?_⟩
  · intro tokens position datum after
    exact Cursor.readDatum_ok_iff
  · intro front front' back back' datum datum' h h' heq
    exact h.unique h' heq
  · intro front back datum datum' h h'
    obtain ⟨hfront, -⟩ := h.unique h' (List.append_nil (front ++ back)).symm
    exact List.self_eq_append_right.mp hfront
  · intro text datum
    exact readForm_ok_iff

/-- The text `(a . '1)` is read as a pair, and its tokens start with no other datum. -/
theorem reads_exactly_the_grammar_of_a_pair :
    let kinds : List TokenKind := [.opening, .ident "a", .dot, .quote, .int 1, .closing]
    let datum : Datum := .chain [.sym "a"] (.quoted (.int 1))
    Derives kinds datum ∧
    readForm "(a . '1)" = .ok datum ∧
    ∀ front back other, Derives front other → front ++ back = kinds → front = kinds ∧ other = datum := by
  intro kinds datum
  have hname : Derives [.ident "a"] (.sym "a") := .symbol (by decide)
  have hpair : Derives kinds datum :=
    .dotted (.cons hname .nil) (List.cons_ne_nil _ _) (.quote (.int 1))
  have hkinds : (Lexed.ofString "(a . '1)").kinds = kinds := by decide +kernel
  have hfinal : (Lexed.ofString "(a . '1)").final = .ok 8 := by decide +kernel
  obtain ⟨-, hunique, -, htext⟩ := reads_exactly_the_grammar
  refine ⟨hpair, (htext _ datum).mpr ⟨⟨8, hfinal⟩, hkinds ▸ hpair⟩, ?_⟩
  intro front back other hother happend
  exact hunique front kinds back [] other datum hother hpair (happend.trans (List.append_nil _).symm)

end SmallLisp
