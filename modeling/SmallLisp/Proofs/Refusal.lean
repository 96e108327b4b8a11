import SmallLisp.Proofs.Reading

/-!
# The token that a reader refuses

A reader refuses a token as soon as no datum can go on with it, and not before: the tokens that it has taken
can always be completed to a datum.

* `Completable` and `BeginsWithDatum` say what can become of a sequence of tokens;
* `Expectation.exists_completion`: whatever a reader expects, some tokens complete a datum;
* `Takes.not_beginsWithDatum`: behind a refused token there is no datum;
* `reading_fails_at_the_first_hopeless_token` is the main result.
-/

namespace SmallLisp

/-- Tokens that can be completed to a datum by further tokens. -/
def Completable (kinds : List TokenKind) : Prop :=
  ∃ more datum, Derives (kinds ++ more) datum

/-- Tokens of which the first ones, or all, are a datum. -/
def BeginsWithDatum (kinds : List TokenKind) : Prop :=
  ∃ front datum, front <+: kinds ∧ Derives front datum

/-- Tokens that can be completed to a datum begin with one once they are completed. -/
theorem Completable.beginsWithDatum
    {kinds : List TokenKind}
    (h : Completable kinds) :
    ∃ more, BeginsWithDatum (kinds ++ more) := by
  obtain ⟨more, datum, hderives⟩ := h
  exact ⟨more, kinds ++ more, datum, List.prefix_rfl, hderives⟩

/-- What a reader does is determined by the tokens, so it gets on from where it has come to. -/
theorem Takes.rest
    {first middle last : Progress}
    {front back : List TokenKind}
    (hfront : Takes first front middle)
    (h : Takes first (front ++ back) last) :
    Takes middle back last := by
  induction hfront with
  | none => exact h
  | one accepted _ ih =>
      cases h with
      | one accepted' rest =>
          obtain rfl := Except.ok.inj (accepted.symm.trans accepted')
          exact ih rest

section Completing

/-- Closing what is open around a datum completes a datum. -/
theorem exists_completion_of_supply
    (datum : Datum)
    (outer : List OpenConstruct) :
    ∃ more whole, Takes (supply datum outer) more (.complete whole) := by
  induction outer generalizing datum with
  | nil => exact ⟨[], datum, .none _⟩
  | cons innermost outer ih =>
      cases innermost with
      | quoted => exact ih datum.quoted
      | elements done =>
          obtain ⟨more, whole, htakes⟩ := ih (.list (datum :: done).reverse)
          exact ⟨.closing :: more, whole, .one rfl htakes⟩
      | dotted done =>
          obtain ⟨more, whole, htakes⟩ := ih (.chain done.reverse datum)
          exact ⟨.closing :: more, whole, .one rfl htakes⟩

/-- Whatever a reader expects, some tokens complete a datum. -/
theorem Expectation.exists_completion (expectation : Expectation) :
    ∃ more whole, Takes (.waiting expectation) more (.complete whole) := by
  cases expectation with
  | datum outer =>
      -- Where a datum may start, an integer may stand whatever is open around it.
      have haccept : (Expectation.datum outer).accept (.int 0) = .ok (supply (.int 0) outer) :=
        accept_start outer (by simp) (by simp)
      obtain ⟨more, whole, htakes⟩ := exists_completion_of_supply (.int 0) outer
      exact ⟨.int 0 :: more, whole, .one haccept htakes⟩
  | closing done tail outer =>
      obtain ⟨more, whole, htakes⟩ := exists_completion_of_supply (.chain done.reverse tail) outer
      exact ⟨.closing :: more, whole, .one rfl htakes⟩

/-- The tokens that a reader has taken without completing a datum can be completed. -/
theorem Takes.completable
    {kinds : List TokenKind}
    {expectation : Expectation}
    (h : Takes (.waiting (.datum [])) kinds (.waiting expectation)) :
    Completable kinds := by
  obtain ⟨more, whole, hmore⟩ := expectation.exists_completion
  exact ⟨more, whole, takes_iff_derives.mp (h.append hmore)⟩

end Completing

section Refusing

variable {kinds : List TokenKind} {expectation : Expectation}

/-- The tokens that a reader has taken without completing a datum do not begin with one. -/
theorem Takes.not_beginsWithDatum_taken
    (h : Takes (.waiting (.datum [])) kinds (.waiting expectation)) :
    ¬BeginsWithDatum kinds := by
  rintro ⟨front, datum, ⟨back, rfl⟩, hderives⟩
  have hback := (takes_iff_derives.mpr hderives).rest h
  cases hback

/-- Tokens that go on with one that is refused do not begin with a datum. -/
theorem Takes.not_beginsWithDatum
    {kind : TokenKind}
    {e : ReadError}
    (h : Takes (.waiting (.datum [])) kinds (.waiting expectation))
    (refused : expectation.accept kind = .error e)
    (more : List TokenKind) :
    ¬BeginsWithDatum (kinds ++ kind :: more) := by
  rintro ⟨front, datum, hfront, hderives⟩
  have htakes := takes_iff_derives.mpr hderives
  rcases List.prefix_or_prefix_of_prefix hfront (List.prefix_append kinds (kind :: more)) with
    hshort | ⟨back, rfl⟩
  · exact h.not_beginsWithDatum_taken ⟨front, datum, hshort, hderives⟩
  · obtain ⟨beyond, hbeyond⟩ := (List.prefix_append_right_inj kinds).mp hfront
    have hback := h.rest htakes
    cases hback with
    | one accepted _ =>
        rw [List.cons_append, List.cons.injEq] at hbeyond
        rw [hbeyond.1, refused] at accepted
        cases accepted

/-- Where a datum has to start, no token is reported as the end of the text. -/
theorem startDatum_ne_unexpectedEnd
    (outer : List OpenConstruct)
    (kind : TokenKind) :
    startDatum outer kind ≠ .error .unexpectedEnd := by
  cases kind with
  | ident name =>
      rw [startDatum]
      unfold Datum.ofName
      split <;> simp [Except.map]
  | _ => simp [startDatum]

/-- Only the end of a text is reported as its end. -/
theorem Expectation.accept_ne_unexpectedEnd
    (expectation : Expectation)
    (kind : TokenKind) :
    expectation.accept kind ≠ .error .unexpectedEnd := by
  unfold Expectation.accept
  split
  case h_8 => exact startDatum_ne_unexpectedEnd _ kind
  all_goals simp

end Refusing

namespace Cursor

/-- A reader that fails on a text without a lexical error stands at the end of the text or on a token that
it refuses, and it has taken the tokens before. -/
theorem stops_of_readFrom
    {expectation : Expectation}
    {cursor after : Cursor}
    {position : Nat}
    {e : ReadError}
    (hending : cursor.ending = .ok position)
    (h : cursor.readFrom expectation = (.error e, after)) :
    ∃ read last,
      cursor.remaining = read ++ after.remaining ∧
      Takes (.waiting expectation) (read.map Token.kind) (.waiting last) ∧
      (after = .finished position ∧ e = .unexpectedEnd ∨
        ∃ token ahead, after = .on token ahead ∧ last.accept token.kind = .error e) := by
  fun_induction readFrom expectation cursor with
  | case1 expectation last =>
      cases h
      cases hending
      exact ⟨[], expectation, rfl, .none _, .inl ⟨rfl, rfl⟩⟩
  | case2 expectation token ahead found refused =>
      cases h
      exact ⟨[], expectation, rfl, .none _, .inr ⟨token, ahead, rfl, refused⟩⟩
  | case3 expectation token ahead progress accepted found henter =>
      have hahead : ahead.final = .ok position := hending
      unfold Lexed.enter at henter
      split at henter <;> cases henter
      cases hahead
  | case4 => cases h
  | case5 expectation token ahead next henter waiting accepted ih =>
      have hnext : next.ending = .ok position := (ending_of_enter henter).trans hending
      obtain ⟨read, last, hremaining, htakes, hstop⟩ := ih hnext h
      refine ⟨token :: read, last, ?_, .one accepted htakes, hstop⟩
      rw [List.cons_append, ← hremaining, Lexed.remaining_of_enter henter]
      rfl

end Cursor

section Results

variable
  {cursor after : Cursor}
  {read : List Token}
  {expectation : Expectation}
  (htakes : Takes (.waiting (.datum [])) (read.map Token.kind) (.waiting expectation))
include htakes

/-- At the end of a text all its tokens are a proper beginning of a datum. -/
theorem Takes.exists_proper_continuation :
    ∃ more datum, more ≠ [] ∧ Derives (read.map Token.kind ++ more) datum := by
  obtain ⟨more, datum, hderives⟩ := htakes.completable
  refine ⟨more, datum, ?_, hderives⟩
  rintro rfl
  rw [List.append_nil] at hderives
  exact htakes.not_beginsWithDatum_taken ⟨_, datum, List.prefix_rfl, hderives⟩

variable
  {token : Token}
  {e : ReadError}
  (refused : expectation.accept token.kind = .error e)
include refused

/-- The tokens up to a refused one cannot be completed to a datum. -/
theorem Takes.not_completable :
    ¬Completable (read.map Token.kind ++ [token.kind]) := by
  intro h
  obtain ⟨more, hmore⟩ := h.beginsWithDatum
  rw [List.append_assoc] at hmore
  exact htakes.not_beginsWithDatum refused more hmore

/-- A reader refuses the same token whatever follows it. -/
theorem Takes.readDatum_of_refused
    (left : List Token)
    (position : Nat) :
    (Cursor.ofTokens (read ++ token :: left) position).readDatum =
      (.error e, .on token ⟨left, .ok position⟩) := by
  have hall := Cursor.resume_append htakes (Cursor.enter_ofTokens (read ++ token :: left) position)
    (Cursor.enter_ofTokens (token :: left) position)
  exact hall.trans (Cursor.readFrom_refused refused ⟨left, .ok position⟩)

end Results

/-- The reader reports an error at the first token that makes its input hopeless. When it fails on tokens
without a lexical error, those that it has taken can be completed to a datum, while no datum starts with them
and the token on which the cursor stands now; nor do they begin with a datum themselves. The end of the text
is reported if and only if the cursor stands there, and this is so exactly if all the tokens are a proper
beginning of a datum. After any other error no continuation helps: a reader fails on it in the same way, and
it begins with no datum. -/
theorem reading_fails_at_the_first_hopeless_token
    {cursor after : Cursor}
    {position : Nat}
    {e : ReadError}
    (hending : cursor.ending = .ok position)
    (h : cursor.readDatum = (.error e, after)) :
    ∃ read,
      cursor.remaining = read ++ after.remaining ∧
      Completable (read.map Token.kind) ∧
      (∀ token ahead, after = .on token ahead → ¬Completable (read.map Token.kind ++ [token.kind])) ∧
      ¬BeginsWithDatum ((read ++ after.remaining.take 1).map Token.kind) ∧
      (e = .unexpectedEnd ↔ after.atEnd = true) ∧
      (e = .unexpectedEnd ↔
        ∃ more datum, more ≠ [] ∧ Derives (cursor.remaining.map Token.kind ++ more) datum) ∧
      (e ≠ .unexpectedEnd → ∀ more : List Token,
        ¬BeginsWithDatum ((cursor.remaining ++ more).map Token.kind) ∧
        ∀ last, ∃ behind, (Cursor.ofTokens (cursor.remaining ++ more) last).readDatum = (.error e, behind)) := by
  obtain ⟨read, expectation, hremaining, htakes, hstop⟩ := Cursor.stops_of_readFrom hending h
  refine ⟨read, hremaining, htakes.completable, ?_⟩
  rcases hstop with ⟨rfl, rfl⟩ | ⟨token, ahead, rfl, refused⟩
  · obtain rfl : cursor.remaining = read := hremaining.trans (List.append_nil read)
    have hnone := htakes.not_beginsWithDatum_taken
    refine ⟨nofun, ?_, by simp [Cursor.atEnd], ?_, nofun⟩
    · simpa [Cursor.remaining] using hnone
    · exact ⟨fun _ => htakes.exists_proper_continuation, fun _ => rfl⟩
  · have hcursor : cursor.remaining = read ++ token :: ahead.tokens := hremaining
    have hnone := htakes.not_beginsWithDatum refused
    have hall : ∀ more, ¬BeginsWithDatum (cursor.remaining.map Token.kind ++ more) := by
      intro more
      simpa [hcursor] using hnone (ahead.tokens.map Token.kind ++ more)
    have herror : e ≠ .unexpectedEnd := by
      rintro rfl
      exact expectation.accept_ne_unexpectedEnd _ refused
    refine ⟨?_, ?_, by simp [herror, Cursor.atEnd], ?_, ?_⟩
    · rintro _ _ ⟨⟩
      exact htakes.not_completable refused
    · simpa [Cursor.remaining] using hnone []
    · refine ⟨fun hend => (herror hend).elim, ?_⟩
      rintro ⟨more, datum, -, hderives⟩
      exact (hall more ⟨_, datum, List.prefix_rfl, hderives⟩).elim
    · intro _ more
      refine ⟨by simpa using hall (more.map Token.kind), fun last => ?_⟩
      rw [hcursor, List.append_assoc, List.cons_append]
      exact ⟨_, htakes.readDatum_of_refused refused (ahead.tokens ++ more) last⟩

/-- In `(a . b c)` the second datum behind the dot is refused: `(a . b` can be completed, and `(a . b c` is the
beginning of no datum. -/
theorem reading_fails_at_the_first_hopeless_token_of_a_chain :
    let kinds : List TokenKind := [.opening, .ident "a", .dot, .ident "b"]
    readForm "(a . b c)" = .error .misplacedInList ∧
    Completable kinds ∧
    ¬Completable (kinds ++ [.ident "c"]) ∧
    ∀ more, ¬BeginsWithDatum (kinds ++ .ident "c" :: .closing :: more) := by
  intro kinds
  let read : List Token :=
    [⟨.opening, 0, 1⟩, ⟨.ident "a", 1, 2⟩, ⟨.dot, 3, 4⟩, ⟨.ident "b", 5, 6⟩]
  let left : List Token := [⟨.ident "c", 7, 8⟩, ⟨.closing, 8, 9⟩]
  have hfirst : (Expectation.datum [.elements []]).accept (.ident "a") =
      .ok (.waiting (.datum [.elements [.sym "a"]])) := by decide
  have hlast : (Expectation.datum [.dotted [.sym "a"]]).accept (.ident "b") =
      .ok (.waiting (.closing [.sym "a"] (.sym "b") [])) := by decide
  have htakes : Takes (.waiting (.datum [])) (read.map Token.kind) (.waiting (.closing [.sym "a"] (.sym "b") [])) :=
    .one rfl (.one hfirst (.one rfl (.one hlast (.none _))))
  have hread : (Cursor.ofTokens (read ++ left) 9).readDatum =
      (.error .misplacedInList, Cursor.ofTokens left 9) :=
    htakes.readDatum_of_refused rfl [⟨.closing, 8, 9⟩] 9
  obtain ⟨taken, htaken, hcompletable, hrefused, -, -, -, hhopeless⟩ :=
    reading_fails_at_the_first_hopeless_token rfl hread
  obtain rfl : read = taken := List.append_cancel_right htaken
  refine ⟨by decide +kernel, hcompletable, hrefused _ _ rfl, fun more => ?_⟩
  have h := (hhopeless nofun (more.map fun kind => ⟨kind, 0, 0⟩)).1
  rw [Cursor.remaining_ofTokens] at h
  simpa [read, left, kinds, Function.comp_def] using h

end SmallLisp
