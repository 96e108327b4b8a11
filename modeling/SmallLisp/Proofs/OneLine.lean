import SmallLisp.Proofs.ReadingOn
import SmallLisp.Proofs.Symbols
import SmallLisp.Running

/-!
# Everything is printed on one line

No answer of a session holds a line feed, whatever text it is the answer to. A line feed is blank. What is
printed, and what an error quotes, is made of tokens and of fixed words, and the one other character that an
error may quote is not blank either.

* `IsToken.isBlank_eq_false`: no token has a blank in it;
* `Datum.oneLine_print`: a datum is printed on one line if its symbols are;
* `World.Backs.oneLine`: so is what a fault says that is backed by what code has got hold of;
* `Lexed.Plain` says that of what an error of reading may quote, `Cursor.oneLine_of_readFrom` of the error;
* `Session.Reachable.oneLine_evaluate` and `Session.Reachable.oneLine_deliveries` are the main results.
-/

namespace SmallLisp

instance (text : String) : Decidable (OneLine text) :=
  inferInstanceAs (Decidable ('\n' ∉ text.toList))

section Texts

variable {name operation : String} {chars : List Char} {kind : TokenKind}

/-- No token has a blank in it. -/
theorem IsToken.isBlank_eq_false
    (h : IsToken chars kind) :
    ∀ c ∈ chars, isBlank c = false := by
  obtain ⟨first, more, rfl, hfirst, hscan⟩ := h
  refine List.forall_mem_cons.mpr ⟨hfirst, fun c hc => ?_⟩
  have htake := take_of_scan hscan
  rw [List.take_length] at htake
  rw [htake] at hc
  exact isBlank_of_isSubsequent (isSubsequent_of_continues (List.mem_takeWhile_imp hc))

/-- A line feed is a blank. -/
theorem IsToken.not_mem
    (h : IsToken chars kind) :
    '\n' ∉ chars := by
  intro hfeed
  cases h.isBlank_eq_false _ hfeed

theorem IsToken.oneLine
    (h : IsToken chars (.ident name)) :
    OneLine name := by
  rw [OneLine, h.toList_ident]
  exact h.not_mem

theorem ReadableName.oneLine
    (h : ReadableName name) :
    OneLine name :=
  IsToken.oneLine (readableName_iff.mp h).1

@[simp]
theorem not_mem_integerChars (value : Int64) : '\n' ∉ integerChars value :=
  (isToken_integerChars value).not_mem

@[simp]
theorem not_mem_toDigits (number : Nat) : '\n' ∉ Nat.toDigits 10 number :=
  (isToken_toDigits number).not_mem

@[simp]
theorem Arity.not_mem_describe (arity : Arity) : '\n' ∉ arity.describe.toList := by
  unfold Arity.describe
  cases arity <;> simp [toString]

theorem Primitive.oneLine_name (primitive : Primitive) : OneLine primitive.name := by
  have hall : ∀ primitive ∈ Primitive.all, '\n' ∉ primitive.name.toList := by decide
  exact hall primitive primitive.mem_all

theorem NamesPrimitive.oneLine
    (h : NamesPrimitive operation) :
    OneLine operation := by
  obtain ⟨primitive, rfl⟩ := h
  exact primitive.oneLine_name

end Texts

namespace Datum

/-- The characters of a datum and those of the rest of a chain, where its symbols hold no line feed. -/
theorem not_mem_chars
    (datum : Datum)
    (hnames : ∀ name ∈ datum.names, OneLine name) :
    '\n' ∉ datum.chars ∧ '\n' ∉ datum.tailChars := by
  -- As the end of a chain, an atom stands between a dot and a bracket.
  have hatom : ∀ {atom : List Char}, '\n' ∉ atom → '\n' ∉ " . ".toList ++ atom ++ [')'] := by
    intro atom h
    simp [h]
  induction datum with
  | nil => decide
  | int value => exact ⟨not_mem_integerChars value, hatom (not_mem_integerChars value)⟩
  | bool value => cases value <;> decide
  | sym name =>
      have hname := hnames name (List.mem_singleton_self name)
      exact ⟨hname, hatom hname⟩
  | cons first second ihFirst ihSecond =>
      have hfirst := ihFirst fun name hname => hnames name (List.mem_append_left _ hname)
      have hsecond := ihSecond fun name hname => hnames name (List.mem_append_right _ hname)
      have hboth : '\n' ∉ first.chars ++ second.tailChars := by
        simp [hfirst.1, hsecond.2]
      exact ⟨List.not_mem_cons_of_ne_of_not_mem (by decide) hboth,
        List.not_mem_cons_of_ne_of_not_mem (by decide) hboth⟩

/-- A datum whose symbols hold no line feed is printed on one line. -/
theorem oneLine_print
    {datum : Datum}
    (hnames : ∀ name ∈ datum.names, OneLine name) :
    OneLine datum.print := by
  rw [OneLine, print, String.toList_ofList]
  exact (datum.not_mem_chars hnames).1

end Datum

section Faults

variable {given : Primitive → Bool} {w : World given}

theorem World.Describes.oneLine
    {words : String}
    (h : w.Describes words)
    (hsymbols : ∀ name, .symbol name ∈ w.items → OneLine name) :
    OneLine words := by
  obtain ⟨value, hvalue, rfl⟩ := h
  unfold Value.describe
  cases value with
  | nil => exact Datum.oneLine_print nofun
  | int value => exact Datum.oneLine_print nofun
  | bool value => exact Datum.oneLine_print nofun
  | sym name => exact hsymbols name (hvalue _ rfl)
  | pair id => simp [OneLine]
  | closure id => simp [OneLine]
  | primitive p =>
      have hname : '\n' ∉ p.name.toList := p.oneLine_name
      simp [OneLine, toString, hname]

/-- What a fault says is one line if the symbols are that code has got hold of. -/
theorem World.Backs.oneLine
    {fault : Fault}
    (h : w.Backs fault)
    (hsymbols : ∀ name, .symbol name ∈ w.items → OneLine name) :
    OneLine fault.message := by
  have hname : ∀ {name}, w.Unbound name → '\n' ∉ name.toList := fun h => hsymbols _ h.1
  have hwords : ∀ {words}, w.Describes words → '\n' ∉ words.toList := fun h => h.oneLine hsymbols
  have hoperation : ∀ {operation}, NamesPrimitive operation → '\n' ∉ operation.toList :=
    NamesPrimitive.oneLine
  unfold Fault.message OneLine
  cases fault with
  | unboundVariable name depth => simp [toString, hname h]
  | unboundTarget name => simp [toString, hname h]
  | notProcedure got => simp [toString, hwords h]
  | notNumber operation got => simp [toString, hoperation h.1, hwords h.2]
  | notPair operation got => simp [toString, hoperation h.1, hwords h.2]
  | negativeIndex operation index => simp [toString, hoperation h]
  | indexOutOfRange operation index => simp [toString, hoperation h]
  | notBoolean got => simp [toString, hwords h]
  | malformedSignature got => simp [toString, hwords h]
  | notDefinable got => simp [toString, hwords h]
  | notParameterList operation got => simp [toString, hoperation h.1, hwords h.2]
  | notSymbol operation got => simp [toString, hoperation h.1, hwords h.2]
  | targetNotSymbol operation got => simp [toString, hoperation h.1, hwords h.2]
  | operandCount primitive count => simp [toString, hoperation ⟨primitive, rfl⟩]
  | argumentCount expected count => simp [toString]
  | variableOperandCount count => simp [toString]
  | _ => simp

theorem Error.oneLine_report
    {e : Error}
    (h : OneLine e.message) :
    OneLine e.report := by
  have hmessage : '\n' ∉ e.message.toList := h
  unfold report OneLine
  cases e.kind <;> simp [toString, ErrorKind.label, hmessage]

end Faults

section Reading

/-- What an error may quote of a text that has been cut: the names in it, and the character where cutting it
has failed. -/
structure Lexed.Plain (lexed : Lexed) : Prop where
  names : ∀ token ∈ lexed.tokens, ∀ name, token.kind = .ident name → OneLine name
  ending : ∀ e, lexed.final = .error e → OneLine e.message

/-- The same of what is left behind a cursor, and under it. -/
def Cursor.Plain (cursor : Cursor) : Prop :=
  Lexed.Plain ⟨cursor.remaining, cursor.ending⟩

variable {e : ReadError} {cursor : Cursor}

/-- A character that is no blank is quoted on one line. -/
theorem LexError.oneLine_message
    {c : Char}
    {position : Nat}
    (h : isBlank c = false) :
    OneLine (LexError.unexpectedCharacter c position).message := by
  have hc : '\n' ≠ c := by
    rintro rfl
    cases h
  unfold message OneLine
  simp [toString, hc]

/-- A text is cut up to a character that is not blank. -/
theorem Lexed.isBlank_of_final
    {position place : Nat}
    {chars : List Char}
    {c : Char}
    (h : (Lexed.ofChars position chars).final = .error (.unexpectedCharacter c place)) :
    isBlank c = false := by
  fun_induction Lexed.ofChars position chars with
  | case1 => cases h
  | case2 position c rest hblank ih => exact ih h
  | case3 position c rest hblank hscan =>
      cases h
      simpa using hblank
  | case4 position c rest hblank kind more hscan ih => exact ih h

theorem Lexed.plain_ofString (text : String) : (Lexed.ofString text).Plain where
  names := by
    intro token htoken name hname
    obtain ⟨chars, hchars⟩ := isToken_of_mem_ofChars htoken
    exact IsToken.oneLine (hname ▸ hchars)
  ending := by
    rintro ⟨c, place⟩ he
    exact LexError.oneLine_message (Lexed.isBlank_of_final he)

theorem Lexed.Plain.enter
    {lexed : Lexed}
    (h : lexed.Plain)
    (hcursor : lexed.enter = .ok cursor) :
    cursor.Plain := by
  rw [Cursor.Plain, Lexed.remaining_of_enter hcursor, Cursor.ending_of_enter hcursor]
  exact h

theorem Lexed.Plain.oneLine_of_enter
    {lexed : Lexed}
    {lexical : LexError}
    (h : lexed.Plain)
    (hcursor : lexed.enter = .error lexical) :
    OneLine lexical.message := by
  refine h.ending lexical ?_
  unfold Lexed.enter at hcursor
  split at hcursor <;> cases hcursor
  rfl

/-- What is left behind a token is as plain as with the token. -/
theorem Lexed.Plain.tail
    {token : Token}
    {tokens : List Token}
    {final : Except LexError Nat}
    (h : Lexed.Plain ⟨token :: tokens, final⟩) :
    Lexed.Plain ⟨tokens, final⟩ where
  names other hother := h.names other (List.mem_cons_of_mem _ hother)
  ending := h.ending

theorem Expectation.oneLine_of_accept
    {expectation : Expectation}
    {kind : TokenKind}
    (hnames : ∀ name, kind = .ident name → OneLine name)
    (h : expectation.accept kind = .error e) :
    OneLine e.message := by
  rcases Expectation.accept_error_cases h with rfl | ⟨outer, hstart⟩
  · decide
  · rcases startDatum_error_cases hstart with rfl | ⟨name, hkind, rfl⟩
    · decide
    · have hname : '\n' ∉ name.toList := hnames name hkind
      unfold ReadError.message OneLine
      simp [toString, hname]

namespace Cursor

/-- Reading keeps plain what is left, and its error is one line. -/
theorem oneLine_of_readFrom
    (h : cursor.Plain)
    (expectation : Expectation) :
    (cursor.readFrom expectation).2.Plain ∧
      ∀ e, (cursor.readFrom expectation).1 = .error e → OneLine e.message := by
  fun_induction readFrom expectation cursor with
  | case1 expectation last =>
      refine ⟨h, ?_⟩
      rintro _ ⟨⟩
      decide
  | case2 expectation token ahead found refused =>
      refine ⟨h, ?_⟩
      rintro _ ⟨⟩
      exact Expectation.oneLine_of_accept (h.names token List.mem_cons_self) refused
  | case3 expectation token ahead progress accepted found henter =>
      refine ⟨h, ?_⟩
      rintro _ ⟨⟩
      exact h.tail.oneLine_of_enter henter
  | case4 expectation token ahead after henter datum accepted =>
      refine ⟨h.tail.enter henter, ?_⟩
      rintro _ ⟨⟩
  | case5 expectation token ahead after henter next accepted ih => exact ih (h.tail.enter henter)

theorem oneLine_of_forms
    (h : cursor.Plain)
    (hfailure : cursor.forms.2 = some e) :
    OneLine e.message := by
  fun_induction forms cursor with
  | case1 cursor datum after hread data failure hforms ih =>
      have hafter := (oneLine_of_readFrom h (.datum [])).1
      rw [show cursor.readFrom (.datum []) = _ from hread] at hafter
      rw [hforms] at ih
      exact ih hafter hfailure
  | case2 cursor found after hread =>
      dsimp only at hfailure
      split at hfailure <;> cases hfailure
      refine (oneLine_of_readFrom h (.datum [])).2 _ ?_
      rw [show cursor.readFrom (.datum []) = _ from hread]

end Cursor

/-- A text is refused because it cannot be cut, because no datum stands in front, or because more follows. -/
theorem readForm_error_cases
    {text : String}
    (h : readForm text = .error e) :
    (∃ lexical, Cursor.ofString text = .error lexical ∧ e = .lexical lexical) ∨
      (∃ cursor, Cursor.ofString text = .ok cursor ∧ cursor.readDatum.1 = .error e) ∨
      e = .moreThanOne := by
  unfold readForm at h
  cases hcursor : Cursor.ofString text with
  | error lexical =>
      rw [hcursor] at h
      cases h
      exact .inl ⟨lexical, rfl, rfl⟩
  | ok cursor =>
      rw [hcursor] at h
      refine .inr ?_
      rcases hread : cursor.readDatum with ⟨result, after⟩
      have hcut : (Except.ok cursor).mapError ReadError.lexical = .ok cursor := rfl
      cases result with
      | error found =>
          simp only [hcut, bind, Except.bind, hread] at h
          cases h
          exact .inl ⟨cursor, rfl, congrArg Prod.fst hread⟩
      | ok datum =>
          simp only [hcut, bind, Except.bind, hread] at h
          split at h <;> cases h
          exact .inr rfl

theorem oneLine_of_readForm
    {text : String}
    (h : readForm text = .error e) :
    OneLine e.message := by
  have htext := Lexed.plain_ofString text
  rcases readForm_error_cases h with ⟨lexical, hcursor, rfl⟩ | ⟨cursor, hcursor, hread⟩ | rfl
  · exact htext.oneLine_of_enter hcursor
  · exact (Cursor.oneLine_of_readFrom (htext.enter hcursor) (.datum [])).2 e hread
  · decide

end Reading

namespace Session

variable {session : Session} {fuel : Nat} {line : String}

theorem oneLine_of_line?
    {e : Error}
    (h : OneLine e.message)
    (hline : Answer.line? (.error (.error e)) = some line) :
    OneLine line := by
  obtain rfl : "Error: " ++ e.report = line := Option.some.inj hline
  have hreport : '\n' ∉ e.report.toList := Error.oneLine_report h
  simp [OneLine, hreport]

/-- The answer to a form is printed on one line. -/
theorem oneLine_evaluateForm
    (h : session.store.Clean)
    {form : Datum}
    (hform : ∀ name ∈ form.names, ReadableName name)
    (hline : (session.evaluateForm fuel form).1.line? = some line) :
    OneLine line := by
  cases hanswer : (session.evaluateForm fuel form).1 with
  | ok printed =>
      rw [hanswer] at hline
      cases hline
      obtain ⟨value, -, -, datum, hread, hother⟩ := readsBack_of_evaluateForm h hform hanswer
      have hprint := (hother Store.empty).2
      rw [(datum.install_denotes Store.empty).print] at hprint
      cases hprint
      exact Datum.oneLine_print fun name hname => (readableName_of_readForm hread hname).oneLine
  | error halt =>
      rw [hanswer] at hline
      cases halt with
      | stuck => cases hline
      | unfinished => cases hline
      | error e =>
          refine oneLine_of_line? ?_ hline
          rcases evaluateForm_error hanswer with hvalue | hunfinished | hunprintable
          · obtain ⟨w, hchanges, -, -, hallows⟩ :=
              exists_changes_valueOf (w := World.clean session.store h) rfl (Set.mem_univ session.root)
                (by rintro name hname _ ⟨⟩; exact hform name hname) fuel
            have hbacks := hallows _ hvalue
            cases e with
            | reading e => exact hbacks.elim
            | evaluating fault =>
                exact World.Backs.oneLine hbacks fun name hname => (hchanges.readableName hname).oneLine
          · cases hunfinished
          · cases hunprintable
            decide

theorem Reachable.oneLine_evaluate
    (h : session.Reachable)
    {text : String}
    (hline : (session.evaluate fuel text).1.line? = some line) :
    OneLine line := by
  unfold Session.evaluate at hline
  cases hread : readForm text with
  | error e =>
      rw [hread] at hline
      exact oneLine_of_line? (e := .reading e) (oneLine_of_readForm hread) hline
  | ok form =>
      rw [hread] at hline
      exact oneLine_evaluateForm h.clean (fun name => readableName_of_readForm hread) hline

/-- What a run delivers is the answer to one of its forms, in the state after the forms before it, or why no
more forms were read. -/
theorem mem_deliveries_runForms
    {goOn : List Answer → Bool}
    {failure : Option ReadError}
    {before : List Answer}
    {forms : List Datum}
    {answer : Answer}
    (h : answer ∈ (session.runForms fuel goOn failure before forms).1.deliveries) :
    (∃ number form,
      forms[number]? = some form ∧
        ((session.afterForms fuel (forms.take number)).evaluateForm fuel form).1 = answer) ∨
      ∃ e, failure = some e ∧ answer = .error (.error (.reading e)) := by
  induction forms generalizing before session with
  | nil =>
      cases failure with
      | none => cases h
      | some e => exact .inr ⟨e, rfl, List.mem_singleton.mp h⟩
  | cons form forms ih =>
      rcases runForms_cons_cases before form forms session with
        ⟨failed, hfailed, hrun⟩ | hrun | ⟨run, after, -, hrest, hrun⟩ <;> rw [hrun] at h
      · exact .inl ⟨0, form, rfl, hfailed.trans (List.mem_singleton.mp h).symm⟩
      · exact .inl ⟨0, form, rfl, (List.mem_singleton.mp h).symm⟩
      · rcases List.mem_cons.mp h with rfl | h
        · exact .inl ⟨0, form, rfl, rfl⟩
        · have hlater : answer ∈ ((session.evaluateForm fuel form).2.runForms fuel goOn failure
              ((session.evaluateForm fuel form).1 :: before) forms).1.deliveries := by
            rw [hrest]
            exact h
          refine (ih hlater).imp_left ?_
          rintro ⟨number, other, hother, hanswer⟩
          exact ⟨number + 1, other, hother, hanswer⟩

theorem Reachable.oneLine_deliveries
    (h : session.Reachable)
    {goOn : List Answer → Bool}
    {text : String}
    {answer : Answer}
    (hanswer : answer ∈ (session.evaluateAll fuel goOn text).1.deliveries)
    (hline : answer.line? = some line) :
    OneLine line := by
  have htext := Lexed.plain_ofString text
  unfold Session.evaluateAll at hanswer
  cases hcursor : Cursor.ofString text with
  | error lexical =>
      rw [hcursor] at hanswer
      obtain rfl := List.mem_singleton.mp hanswer
      exact oneLine_of_line? (e := .reading (.lexical lexical)) (htext.oneLine_of_enter hcursor) hline
  | ok cursor =>
      rw [hcursor] at hanswer
      have hforms : cursor.forms.1 = formsOf text := by
        rw [formsOf, hcursor]
      rcases mem_deliveries_runForms hanswer with ⟨number, form, hform, rfl⟩ | ⟨e, hfailure, rfl⟩
      · rw [hforms] at hform hline
        exact oneLine_evaluateForm (h.clean_afterForms fuel text number)
          (fun name => readableName_of_mem_formsOf (List.mem_of_getElem? hform)) hline
      · have hmessage := Cursor.oneLine_of_forms (htext.enter hcursor) hfailure
        exact oneLine_of_line? (e := .reading e) hmessage hline

end Session

end SmallLisp
