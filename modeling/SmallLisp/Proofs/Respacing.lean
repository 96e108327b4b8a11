import SmallLisp.Proofs.Reading
import SmallLisp.Proofs.Tiling

/-!
# Blanks between tokens

Blanks only part tokens. The tokens of a text stay the same when the gaps between them become other gaps, as
long as none is closed that keeps two tokens apart.

* `spaced` puts pieces and gaps together to a text, and `Gaps` says which gaps leave the tokens alone;
* `Token.CutFrom.cuts`: the text of a token is cut as that token wherever it stands before a blank, before the
  end or before what followed it;
* `Cursor.Alike` relates cursors on texts with the same tokens, which are read alike;
* `blanks_only_part_tokens` is the main result.
-/

namespace SmallLisp

/-- A text of pieces with gaps around them: the gap of a number stands before the piece of that number, and
the last gap behind all pieces. -/
def spaced (gap : Nat → List Char) : List (List Char) → List Char
  | [] => gap 0
  | piece :: pieces => gap 0 ++ piece ++ spaced (fun number => gap (number + 1)) pieces

/-- The texts of tokens. -/
def lexemes (text : List Char) (tokens : List Token) : List (List Char) :=
  tokens.map fun token => text.extract token.lo token.hi

/-- Gaps around tokens that keep them apart: they are blank, and where one is empty between two tokens there
was nothing between these before. -/
structure Gaps (gap : Nat → List Char) (tokens : List Token) : Prop where
  blank : ∀ number, number ≤ tokens.length → ∀ c ∈ gap number, isBlank c = true
  parted : ∀ number one next,
    tokens[number]? = some one → tokens[number + 1]? = some next →
    gap (number + 1) = [] → one.hi = next.lo

/-- What a number of calls for the next form deliver, whether they fail or not. -/
def Cursor.nextForms : Nat → Cursor → List (Except ReadError (Option Datum))
  | 0, _ => []
  | count + 1, cursor => cursor.nextForm.1 :: nextForms count cursor.nextForm.2

theorem Gaps.tail
    {gap : Nat → List Char}
    {token : Token}
    {tokens : List Token}
    (h : Gaps gap (token :: tokens)) :
    Gaps (fun number => gap (number + 1)) tokens where
  blank number hnumber := h.blank (number + 1) (Nat.succ_le_succ hnumber)
  parted number one next hone hnext := h.parted (number + 1) one next hone hnext

section Cutting

/-- A character that starts a token is not blank. -/
theorem isBlank_of_kindOf
    {c : Char}
    {more : List Char}
    {kind : TokenKind}
    (h : kindOf c more = some kind) :
    isBlank c = false := by
  by_cases hsubsequent : isSubsequent c = true
  · exact isBlank_of_isSubsequent hsubsequent
  · simp only [isSubsequent, Bool.or_eq_true, decide_eq_true_eq, not_or] at hsubsequent
    obtain ⟨⟨⟨⟨hinitial, hdigit⟩, -⟩, -⟩, hminus⟩ := hsubsequent
    by_cases hmark : c = '+' ∨ c = '(' ∨ c = ')' ∨ c = '\x27' ∨ c = '.'
    · rcases hmark with rfl | rfl | rfl | rfl | rfl <;> decide
    · simp only [not_or] at hmark
      simp [kindOf, hmark, hminus, hdigit, hinitial] at h

variable {text : List Char} {token : Token}

theorem head?_extract
    {lo hi : Nat}
    (h : lo < hi) :
    (text.extract lo hi).head? = text[lo]? := by
  rw [List.extract_eq_take_drop, List.head?_take, if_neg (by omega), List.head?_drop]

/-- What stands behind a token in its text does not go on with it. -/
theorem Token.CutFrom.not_continues
    (h : token.CutFrom text)
    {c next : Char}
    (hc : text[token.lo]? = some c)
    (hnext : text[token.hi]? = some next) :
    continues c next = false := by
  by_cases hdigits : c = '+' ∨ c = '-' ∨ c.isDigit = true
  · rw [continues, if_pos hdigits]
    exact h.stops_digits c next hc hnext hdigits
  · rw [continues, if_neg hdigits]
    split
    case isTrue hinitial => exact h.stops_name c next hc hnext hinitial
    case isFalse => rfl

/-- The text of a token is that token before every text that starts with no character with which the token
goes on. -/
theorem Token.CutFrom.cuts
    (h : token.CutFrom text)
    {rest : List Char}
    (hrest : ∀ next, rest.head? = some next → isBlank next = true ∨ text[token.hi]? = some next) :
    Cuts (text.extract token.lo token.hi) [token.kind] rest := by
  have hhead : (text.extract token.lo token.hi).head? = text[token.lo]? := head?_extract h.nonempty
  have hspelled := h.spelled
  obtain ⟨c, more, hpiece⟩ := hspelled.exists_cons
  rw [hpiece] at hhead hspelled ⊢
  obtain ⟨hkind, hmore⟩ := lexeme_cons_iff.mp hspelled
  have hstop : rest.takeWhile (continues c) = [] := by
    cases rest with
    | nil => rfl
    | cons next rest =>
        apply List.takeWhile_cons_of_neg
        intro hcontinues
        rcases hrest next rfl with hblank | hnext
        · cases hblank.symm.trans (isBlank_of_isSubsequent (isSubsequent_of_continues hcontinues))
        · cases hcontinues.symm.trans (h.not_continues hhead.symm hnext)
  refine Cuts.token_of_scan (isBlank_of_kindOf hkind) (scan_some_iff.mpr ?_)
  rw [List.takeWhile_append_of_pos hmore, hstop, List.append_nil]
  exact ⟨hkind, rfl⟩

/-- Behind a token there is a blank now, or what followed it before, or nothing. -/
theorem Gaps.head?_spaced
    {gap : Nat → List Char}
    {tokens : List Token}
    (hgaps : Gaps gap (token :: tokens))
    (hcut : ∀ other ∈ tokens, other.CutFrom text)
    {next : Char}
    (hnext : (spaced (fun number => gap (number + 1)) (lexemes text tokens)).head? = some next) :
    isBlank next = true ∨ text[token.hi]? = some next := by
  cases hgap : gap 1 with
  | cons c more =>
      have hhead : c = next := by
        cases tokens <;> simpa [lexemes, spaced, hgap] using hnext
      exact .inl (hhead ▸ hgaps.blank 1 (by simp) c (hgap ▸ List.mem_cons_self))
  | nil =>
      cases tokens with
      | nil => simp [lexemes, spaced, hgap] at hnext
      | cons other tokens =>
          have hother := hcut other List.mem_cons_self
          obtain ⟨c, more, hpiece⟩ := hother.spelled.exists_cons
          have hhead : (text.extract other.lo other.hi).head? = text[other.lo]? :=
            head?_extract hother.nonempty
          have hat : token.hi = other.lo := hgaps.parted 0 token other rfl rfl hgap
          refine .inr ?_
          rw [hat, ← hhead]
          simpa [lexemes, spaced, hgap, hpiece] using hnext

/-- Tokens that have been cut from a text are cut again from their texts with other gaps between them. -/
theorem cuts_spaced
    {gap : Nat → List Char}
    {tokens : List Token}
    (hcut : ∀ token ∈ tokens, token.CutFrom text)
    (hgaps : Gaps gap tokens) :
    Cuts (spaced gap (lexemes text tokens)) (tokens.map Token.kind) [] := by
  induction tokens generalizing gap with
  | nil => exact .blanks (hgaps.blank 0 (Nat.zero_le _))
  | cons token tokens ih =>
      obtain ⟨htoken, hothers⟩ := List.forall_mem_cons.mp hcut
      have hpiece := htoken.cuts fun next => hgaps.head?_spaced hothers
      have hlater := ih hothers hgaps.tail
      rw [← List.append_nil (spaced _ _)] at hpiece
      exact ((Cuts.blanks (hgaps.blank 0 (Nat.zero_le _))).append hpiece).append hlater

end Cutting

namespace Cursor

/-- Cursors on tokens of the same kinds, with no lexical error behind them. -/
def Alike (cursor other : Cursor) : Prop :=
  ∃ tokens position tokens' position',
    cursor = ofTokens tokens position ∧
    other = ofTokens tokens' position' ∧
    tokens.map Token.kind = tokens'.map Token.kind

theorem Alike.atEnd_eq
    {cursor other : Cursor}
    (h : cursor.Alike other) :
    cursor.atEnd = other.atEnd := by
  obtain ⟨tokens, position, tokens', position', rfl, rfl, hkinds⟩ := h
  cases tokens with
  | nil =>
      obtain rfl := List.map_eq_nil_iff.mp hkinds.symm
      rfl
  | cons token tokens =>
      obtain ⟨token', tokens', rfl, -⟩ := List.map_eq_cons_iff.mp hkinds.symm
      rfl

/-- Cursors on tokens of the same kinds are read alike and stay alike. -/
theorem Alike.readFrom
    {cursor other : Cursor}
    (h : cursor.Alike other)
    (expectation : Expectation) :
    (cursor.readFrom expectation).1 = (other.readFrom expectation).1 ∧
      (cursor.readFrom expectation).2.Alike (other.readFrom expectation).2 := by
  obtain ⟨tokens, position, tokens', position', rfl, rfl, hkinds⟩ := h
  induction tokens generalizing tokens' expectation with
  | nil =>
      obtain rfl := List.map_eq_nil_iff.mp hkinds.symm
      rw [ofTokens, ofTokens, Cursor.readFrom, Cursor.readFrom]
      exact ⟨rfl, [], position, [], position', rfl, rfl, rfl⟩
  | cons token tokens ih =>
      obtain ⟨token', tokens', rfl, hkind, hrest⟩ := List.map_eq_cons_iff.mp hkinds.symm
      cases haccept : expectation.accept token.kind with
      | error e =>
          have haccept' := hkind ▸ haccept
          rw [ofTokens, ofTokens, readFrom_refused haccept, readFrom_refused haccept']
          exact ⟨rfl, token :: tokens, position, token' :: tokens', position', rfl, rfl, hkinds⟩
      | ok next =>
          have haccept' := hkind ▸ haccept
          rw [ofTokens, ofTokens, readFrom_on haccept (enter_ofTokens tokens position),
            readFrom_on haccept' (enter_ofTokens tokens' position')]
          cases next with
          | complete datum => exact ⟨rfl, tokens, position, tokens', position', rfl, rfl, hrest.symm⟩
          | waiting expectation => exact ih expectation tokens' hrest.symm

theorem Alike.nextForm
    {cursor other : Cursor}
    (h : cursor.Alike other) :
    cursor.nextForm.1 = other.nextForm.1 ∧ cursor.nextForm.2.Alike other.nextForm.2 := by
  obtain ⟨hresult, hafter⟩ := h.readFrom (.datum [])
  unfold Cursor.nextForm
  rw [h.atEnd_eq]
  split
  · exact ⟨rfl, h⟩
  · exact ⟨congrArg (Except.map some) hresult, hafter⟩

/-- Calls for the next form deliver the same from cursors on tokens of the same kinds. -/
theorem Alike.nextForms
    {cursor other : Cursor}
    (h : cursor.Alike other)
    (count : Nat) :
    cursor.nextForms count = other.nextForms count := by
  induction count generalizing cursor other with
  | zero => rfl
  | succ count ih =>
      obtain ⟨hform, hafter⟩ := h.nextForm
      rw [Cursor.nextForms, Cursor.nextForms, hform, ih hafter]

end Cursor

/-- Texts that can be cut to their ends can be entered, and the cursors are alike if the tokens are. -/
theorem exists_alike
    {text other : String}
    {position position' : Nat}
    (hfinal : (Lexed.ofString text).final = .ok position)
    (hfinal' : (Lexed.ofString other).final = .ok position')
    (hkinds : (Lexed.ofString text).kinds = (Lexed.ofString other).kinds) :
    ∃ cursor cursor',
      Cursor.ofString text = .ok cursor ∧ Cursor.ofString other = .ok cursor' ∧ cursor.Alike cursor' := by
  refine ⟨_, _, ?_, ?_, _, position, _, position', rfl, rfl, hkinds⟩
  · rw [Cursor.ofString, ← Cursor.enter_ofTokens, ← hfinal]
  · rw [Cursor.ofString, ← Cursor.enter_ofTokens, ← hfinal']

/-- What a text is read as, once there is a cursor on its first token. -/
theorem readForm_of_cursor
    {text : String}
    {cursor : Cursor}
    (h : Cursor.ofString text = .ok cursor) :
    readForm text = cursor.readDatum.1.bind fun datum =>
      if cursor.readDatum.2.atEnd then .ok datum else .error .moreThanOne := by
  unfold readForm
  rw [h]
  rfl

/-- Texts with cursors that are alike are read alike. -/
theorem Cursor.Alike.readForm_eq
    {text other : String}
    {cursor cursor' : Cursor}
    (h : cursor.Alike cursor')
    (hcursor : Cursor.ofString text = .ok cursor)
    (hcursor' : Cursor.ofString other = .ok cursor') :
    readForm text = readForm other := by
  obtain ⟨hresult, hafter⟩ := h.readFrom (.datum [])
  rw [readForm_of_cursor hcursor, readForm_of_cursor hcursor', readDatum, readDatum, hresult,
    hafter.atEnd_eq]

/-- Blanks only part tokens. If a text can be cut to its end, the text of its tokens with any blanks in the
gaps around them, with none where two tokens touched in the first place, can be cut to its end as well, into
tokens of the same kinds. So it is read as the same form, or refused for the same reason, and asking it for
one form after another delivers the same, also after errors. -/
theorem blanks_only_part_tokens
    {text : String}
    {position : Nat}
    {gap : Nat → List Char}
    (hfinal : (Lexed.ofString text).final = .ok position)
    (hgaps : Gaps gap (Lexed.ofString text).tokens) :
    let respaced := String.ofList (spaced gap (lexemes text.toList (Lexed.ofString text).tokens))
    (Lexed.ofString respaced).final = .ok respaced.length ∧
    (Lexed.ofString respaced).kinds = (Lexed.ofString text).kinds ∧
    readForm respaced = readForm text ∧
    ∃ cursor cursor',
      Cursor.ofString text = .ok cursor ∧
      Cursor.ofString respaced = .ok cursor' ∧
      ∀ count, cursor'.nextForms count = cursor.nextForms count := by
  intro respaced
  obtain ⟨last, -, htiles, -⟩ :=
    exists_tiles_ofChars text.toList 0 text.toList rfl (Nat.zero_le _)
  have hcuts : Cuts respaced.toList (Lexed.ofString text).kinds [] := by
    rw [String.toList_ofList]
    exact cuts_spaced htiles.cut hgaps
  obtain ⟨hfinal', hsame⟩ := hcuts.ofString
  obtain ⟨cursor', cursor, hcursor', hcursor, halike⟩ := exists_alike hfinal' hfinal hsame
  exact ⟨hfinal', hsame, halike.readForm_eq hcursor' hcursor, cursor, cursor', hcursor, hcursor',
    halike.nextForms⟩

/-- The two blanks of `(a  -7 12ab)` become a line feed and a tabulator, `12` and `ab` are moved apart, and a
blank is put behind. The brackets stay where they are. -/
theorem blanks_only_part_tokens_of_a_list :
    let text := "(a  -7 12ab)"
    let respaced := "(a\n-7\t12 ab) "
    (Lexed.ofString text).kinds =
      [.opening, .ident "a", .int (-7), .int 12, .ident "ab", .closing] ∧
    (Lexed.ofString respaced).kinds = (Lexed.ofString text).kinds ∧
    readForm respaced = readForm text := by
  intro text respaced
  let gap : Nat → List Char := fun number => (["", "", "\n", "\t", " ", "", " "].getD number "").toList
  have htokens : (Lexed.ofString text).tokens =
      [⟨.opening, 0, 1⟩, ⟨.ident "a", 1, 2⟩, ⟨.int (-7), 4, 6⟩, ⟨.int 12, 7, 9⟩, ⟨.ident "ab", 9, 11⟩,
        ⟨.closing, 11, 12⟩] := by decide +kernel
  have hfinal : (Lexed.ofString text).final = .ok 12 := by decide +kernel
  have hgaps : Gaps gap (Lexed.ofString text).tokens := by
    rw [htokens]
    constructor
    · have hblank : ∀ number ≤ 6, (gap number).all isBlank = true := by decide
      exact fun number hnumber => List.all_eq_true.mp (hblank number hnumber)
    · -- The gaps behind the opening bracket and before the closing one are empty, as they were.
      rintro (_ | _ | _ | _ | _ | number) one next hone hnext hgap
      · cases hone
        cases hnext
        rfl
      · exact absurd hgap (by decide)
      · exact absurd hgap (by decide)
      · exact absurd hgap (by decide)
      · cases hone
        cases hnext
        rfl
      · cases hnext
  have hrespaced : String.ofList (spaced gap (lexemes text.toList (Lexed.ofString text).tokens)) = respaced := by
    rw [htokens]
    decide
  obtain ⟨-, hkinds, hread, -⟩ := blanks_only_part_tokens hfinal hgaps
  rw [hrespaced] at hkinds hread
  exact ⟨congrArg (List.map Token.kind) htokens, hkinds, hread⟩

end SmallLisp
