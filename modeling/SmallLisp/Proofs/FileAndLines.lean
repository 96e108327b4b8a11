import SmallLisp.CommandLine
import SmallLisp.CommandLine
import SmallLisp.Proofs.OneByOne
import SmallLisp.Proofs.OneLine

/-!
# A text as a file and as lines

A text each line of which is blank or one form can be run as a file and line by line. Both ways evaluate the
same forms in order: a line feed is a blank, so the tokens of the text are those of its lines. A file is done
with after the first error, and the lines go on.

* `LinesRead` says which forms are on the lines of a text;
* `LinesRead.runFile_eq` and `LinesRead.runLinesFrom_eq` say what the two ways print;
* `reportsError` tells the lines that report errors from the others: `reportsError_of_readForm`, since what is
  printed can be read back, and no line that reports an error can be read;
* `cutAfter` ends a list at the first element of a kind, as a file is ended by its first error;
* `Output.ShowsLines` says that the lines that are printed are the lines of the printed text;
* `file_prints_what_lines_print` is the main result. It holds for every line editor.
-/

namespace SmallLisp

/-- Whether a line starts with the words that report an error. -/
def reportsError (line : String) : Bool :=
  "Error: ".toList.isPrefixOf line.toList

section Lists

variable {α β : Type}

/-- The elements of a list up to the first one with a property, which is the last of them. -/
def cutAfter (final : α → Bool) : List α → List α
  | [] => []
  | element :: elements =>
    if final element then [element] else element :: cutAfter final elements

variable {final : α → Bool} {elements : List α}

theorem mem_of_mem_cutAfter
    {element : α}
    (h : element ∈ cutAfter final elements) :
    element ∈ elements := by
  induction elements with
  | nil => exact h
  | cons head elements ih =>
      unfold cutAfter at h
      split at h
      · rw [List.mem_singleton.mp h]
        exact List.mem_cons_self
      · rcases List.mem_cons.mp h with rfl | h
        · exact List.mem_cons_self
        · exact List.mem_cons_of_mem _ (ih h)

/-- Cutting before or after a conversion is the same if it keeps the property. -/
theorem filterMap_cutAfter
    {convert : α → Option β}
    {final' : β → Bool}
    (h : ∀ element ∈ elements, ∃ result,
      convert element = some result ∧ final' result = final element) :
    (cutAfter final elements).filterMap convert =
      cutAfter final' (elements.filterMap convert) := by
  induction elements with
  | nil => rfl
  | cons element elements ih =>
      rw [List.forall_mem_cons] at h
      obtain ⟨⟨result, hresult, hfinal⟩, hrest⟩ := h
      rw [List.filterMap_cons_some hresult, cutAfter, cutAfter, hfinal]
      split
      · exact List.filterMap_cons_some hresult
      · rw [List.filterMap_cons_some hresult, ih hrest]

/-- Whether there is an element with a property is told from the converted ones if it is kept. -/
theorem any_filterMap
    {convert : α → Option β}
    {final' : β → Bool}
    (h : ∀ element ∈ elements, ∃ result,
      convert element = some result ∧ final' result = final element) :
    (elements.filterMap convert).any final' = elements.any final := by
  induction elements with
  | nil => rfl
  | cons element elements ih =>
      rw [List.forall_mem_cons] at h
      obtain ⟨⟨result, hresult, hfinal⟩, hrest⟩ := h
      rw [List.filterMap_cons_some hresult, List.any_cons, List.any_cons, hfinal, ih hrest]

end Lists

section Readable

variable {line : String} {form : Datum}

/-- A text that can be read holds only characters that occur in tokens or between them. -/
theorem isLexical_of_readForm
    (h : readForm line = .ok form) :
    ∀ c ∈ line.toList, isLexical c = true := by
  obtain ⟨⟨last, hfinal⟩, -⟩ := readForm_ok_iff.mp h
  exact isLexical_of_final hfinal

/-- A text that can be read reports no error: the colon in such a report is in no token. -/
theorem reportsError_of_readForm
    (h : readForm line = .ok form) :
    reportsError line = false := by
  rw [← Bool.not_eq_true]
  intro hreports
  have hstarts : "Error: ".toList <+: line.toList := List.isPrefixOf_iff_prefix.mp hreports
  have hcolon : isLexical ':' = true :=
    isLexical_of_readForm h ':' (hstarts.subset (by decide))
  exact absurd hcolon (by decide)

/-- A line that is blank or can be read has no backspace in it, so it is left alone by an editor. -/
theorem LineEditor.edit_of_blank_or_readable
    (editor : LineEditor)
    (h : isBlankText line = true ∨ ∃ form, readForm line = .ok form) :
    editor.edit line = some line := by
  refine editor.edit_of_not_mem fun hbackspace => ?_
  rcases h with hblank | ⟨form, hread⟩
  · exact absurd (List.all_eq_true.mp hblank _ hbackspace) (by decide)
  · exact absurd (isLexical_of_readForm hread _ hbackspace) (by decide)

end Readable

/-- Each of some lines is blank or read as a form, and these are the forms in order. -/
inductive LinesRead : List String → List Datum → Prop
  | nil : LinesRead [] []
  | blank
      {line : String}
      {lines : List String}
      {forms : List Datum}
      (hblank : isBlankText line = true)
      (hrest : LinesRead lines forms) :
      LinesRead (line :: lines) forms
  | form
      {line : String}
      {lines : List String}
      {form : Datum}
      {forms : List Datum}
      (hsome : isBlankText line = false)
      (hread : readForm line = .ok form)
      (hrest : LinesRead lines forms) :
      LinesRead (line :: lines) (form :: forms)

theorem exists_linesRead
    {lines : List String}
    (h : ∀ line ∈ lines, isBlankText line = true ∨ ∃ form, readForm line = .ok form) :
    ∃ forms, LinesRead lines forms := by
  induction lines with
  | nil => exact ⟨[], .nil⟩
  | cons line lines ih =>
      rw [List.forall_mem_cons] at h
      obtain ⟨forms, hforms⟩ := ih h.2
      cases hblank : isBlankText line with
      | true => exact ⟨forms, .blank hblank hforms⟩
      | false =>
          obtain ⟨form, hread⟩ := h.1.resolve_left (by simp [hblank])
          exact ⟨form :: forms, .form hblank hread hforms⟩

/-- What stands behind a line that other lines follow: a line feed and these lines. -/
def behindLine : List String → List Char
  | [] => []
  | line :: lines => '\n' :: ['\n'].intercalate ((line :: lines).map String.toList)

theorem intercalate_lines_cons
    (line : String)
    (lines : List String) :
    ['\n'].intercalate ((line :: lines).map String.toList) = line.toList ++ behindLine lines := by
  cases lines <;> simp [behindLine, List.intercalate]

/-- No token goes on from one line to the next. -/
theorem breaks_behindLine (lines : List String) : Breaks (behindLine lines) := by
  cases lines with
  | nil => exact nofun
  | cons line lines => exact breaks_of_isBlank (by decide) _

/-- A blank line is skipped. -/
theorem runLine_of_isBlankText
    {line : String}
    (hblank : isBlankText line = true)
    (fuel : Nat)
    (session : Session) :
    runLine fuel line session = (none, session) := by
  unfold runLine
  rw [if_pos hblank]

/-- A line that is not blank prints the answer to it. -/
theorem runLine_of_evaluate
    {line : String}
    {fuel : Nat}
    {session between : Session}
    {answer : Answer}
    (hsome : isBlankText line = false)
    (hanswer : session.evaluate fuel line = (answer, between)) :
    runLine fuel line session = (answer.line?, between) := by
  unfold runLine
  rw [if_neg (by simp [hsome]), hanswer]

/-- The line that the editor leaves is run, and then the other lines. -/
theorem LineEditor.runLinesFrom_cons
    {editor : LineEditor}
    {typed line : String}
    (hedit : editor.edit typed = some line)
    (fuel : Nat)
    (lines : List String)
    (session : Session) :
    editor.runLinesFrom fuel (typed :: lines) session =
      (editor.runLinesFrom fuel lines (runLine fuel line session).2).prepend
        (runLine fuel line session).1.toList := by
  rw [runLinesFrom, hedit]

namespace LinesRead

variable {lines : List String} {forms : List Datum}

/-- The tokens of the lines, together, derive the forms. -/
theorem exists_cuts
    (h : LinesRead lines forms) :
    ∃ kinds, Cuts (['\n'].intercalate (lines.map String.toList)) kinds [] ∧ DerivesAll kinds forms := by
  -- A line feed in front of the other lines changes nothing.
  have hbehind : ∀ {lines : List String} {kinds : List TokenKind},
      Cuts (['\n'].intercalate (lines.map String.toList)) kinds [] →
        Cuts (behindLine lines) kinds [] := by
    intro lines kinds hcuts
    cases lines with
    | nil => exact hcuts
    | cons line lines => exact (Cuts.blank (by decide)).append hcuts
  induction h with
  | nil => exact ⟨[], .nil, .nil⟩
  | @blank line lines forms hblank _ ih =>
      obtain ⟨kinds, hcuts, hall⟩ := ih
      rw [intercalate_lines_cons]
      exact ⟨kinds, (Cuts.blanks (List.all_eq_true.mp hblank)).append (hbehind hcuts), hall⟩
  | @form line lines form forms _ hread _ ih =>
      obtain ⟨kinds, hcuts, hall⟩ := ih
      obtain ⟨⟨last, hfinal⟩, hderives⟩ := readForm_ok_iff.mp hread
      have hline : Cuts line.toList (Lexed.ofString line).kinds (behindLine lines ++ []) := by
        rw [List.append_nil]
        exact .of_final (breaks_behindLine lines) hfinal
      rw [intercalate_lines_cons]
      exact ⟨_, hline.append (hbehind hcuts), .cons hderives hall⟩

/-- A call on a text evaluates the forms on its lines. -/
theorem evaluateAll_eq
    {text : String}
    (h : LinesRead (linesOf text) forms)
    (fuel : Nat)
    (goOn : List Answer → Bool)
    (session : Session) :
    session.evaluateAll fuel goOn text = session.runForms fuel goOn none [] forms := by
  obtain ⟨kinds, hcuts, hall⟩ := h.exists_cuts
  have htext : ['\n'].intercalate ((linesOf text).map String.toList) = text.toList := by
    simp [linesOf, Function.comp_def, intercalate_splitLines]
  rw [htext] at hcuts
  exact Session.evaluateAll_of_cuts hcuts hall fuel goOn session

/-- The forms are those of the lines that are not blank. -/
theorem forall₂
    (h : LinesRead lines forms) :
    List.Forall₂ (fun text form => readForm text = .ok form)
      (lines.filter fun line => !isBlankText line) forms := by
  induction h with
  | nil => exact .nil
  | blank hblank _ ih => simpa [hblank] using ih
  | form hsome hread _ ih => simpa [hsome, hread] using ih

/-- Lines that are answered one after another print their answers, whatever these are. -/
theorem runLinesFrom_eq
    (h : LinesRead lines forms)
    {session later : Session}
    {answers : List Answer}
    (hanswered : Session.Answered Session.evaluate session
      (lines.filter fun line => !isBlankText line) answers later)
    (editor : LineEditor) :
    ∃ least, ∀ fuel, least ≤ fuel →
      editor.runLinesFrom fuel lines session = ⟨answers.filterMap Answer.line?, 0⟩ := by
  induction h generalizing session answers with
  | nil =>
      cases hanswered
      exact ⟨0, fun _ _ => rfl⟩
  | @blank line lines forms hblank _ ih =>
      rw [List.filter_cons_of_neg (by simp [hblank])] at hanswered
      obtain ⟨least, hleast⟩ := ih hanswered
      refine ⟨least, fun fuel hfuel => ?_⟩
      rw [LineEditor.runLinesFrom_cons (editor.edit_of_blank_or_readable (.inl hblank)),
        runLine_of_isBlankText hblank]
      exact hleast fuel hfuel
  | @form line lines form forms hsome hread _ ih =>
      rw [List.filter_cons_of_pos (by simp [hsome])] at hanswered
      cases hanswered with
      | @cons _ between _ needed _ _ answer answers hanswer hfinishes hrest =>
          obtain ⟨least, hleast⟩ := ih hrest
          refine ⟨max needed least, fun fuel hfuel => ?_⟩
          have hlonger : session.evaluate fuel line = (answer, between) := by
            rw [Session.evaluate_of_le (Nat.max_le.mp hfuel).1 (by rwa [hanswer]), hanswer]
          rw [LineEditor.runLinesFrom_cons (editor.edit_of_blank_or_readable (.inr ⟨form, hread⟩)),
            runLine_of_evaluate hsome hlonger, hleast fuel (Nat.max_le.mp hfuel).2,
            List.filterMap_cons]
          cases answer.line? <;> rfl

end LinesRead

namespace Session

section Answers

variable {session later : Session} {fuel : Nat} {answers : List Answer}

/-- A run that stops at errors delivers the answers up to the first error. -/
theorem Answered.runForms_stopAtError
    {forms : List Datum}
    (h : Answered evaluateForm session forms answers later)
    (hwellFormed : session.WellFormed)
    (before : List Answer) :
    ∃ least, ∀ fuel, least ≤ fuel →
      (session.runForms fuel stopAtError none before forms).1 =
        ⟨cutAfter (fun answer => !answer.isText) answers, none⟩ := by
  induction h generalizing before with
  | nil => exact ⟨0, fun _ _ => rfl⟩
  | @cons session between later needed form forms answer answers hanswer hfinishes _ ih =>
      obtain ⟨least, hleast⟩ := ih (hwellFormed.of_evaluateForm hanswer) (answer :: before)
      refine ⟨max needed least, fun fuel hfuel => ?_⟩
      rw [hwellFormed.runForms_cons hanswer hfinishes (Nat.max_le.mp hfuel).1, cutAfter, stopAtError]
      cases htext : answer.isText with
      | false => rfl
      | true =>
          simp only [if_true, Bool.not_true, Bool.false_eq_true, if_false]
          rw [hleast fuel (Nat.max_le.mp hfuel).2]
          rfl

/-- A line that is printed for a form reports no error. -/
theorem reportsError_of_evaluateForm
    (h : session.store.Clean)
    {form : Datum}
    (hform : ∀ name ∈ form.names, ReadableName name)
    {printed : String}
    (hprinted : (session.evaluateForm fuel form).1 = .ok printed) :
    reportsError printed = false := by
  obtain ⟨value, -, -, datum, hread, -⟩ := readsBack_of_evaluateForm h hform hprinted
  exact reportsError_of_readForm hread

theorem Reachable.reportsError_of_evaluate
    (h : session.Reachable)
    {text printed : String}
    (hprinted : (session.evaluate fuel text).1 = .ok printed) :
    reportsError printed = false := by
  unfold Session.evaluate at hprinted
  cases hread : readForm text with
  | error e =>
      rw [hread] at hprinted
      cases hprinted
  | ok form =>
      rw [hread] at hprinted
      exact reportsError_of_evaluateForm h.clean (fun name => readableName_of_readForm hread) hprinted

theorem Reachable.reportsError_of_evaluateAll
    (h : session.Reachable)
    {goOn : List Answer → Bool}
    {text printed : String}
    (hprinted : .ok printed ∈ (session.evaluateAll fuel goOn text).1.answers) :
    reportsError printed = false := by
  obtain ⟨number, hnumber⟩ := List.mem_iff_getElem?.mp hprinted
  obtain ⟨form, hform, hanswer⟩ := answers_evaluateAll hnumber
  have hnames : ∀ name ∈ form.names, ReadableName name :=
    fun name => readableName_of_mem_formsOf (List.mem_of_getElem? hform)
  exact reportsError_of_evaluateForm (h.clean_afterForms fuel text number) hnames hanswer

/-- An answer to a text is printed as a line, which reports an error exactly if the answer is one. -/
theorem Reachable.exists_line
    (h : session.Reachable)
    {text : String}
    (hfinishes : (session.evaluate fuel text).1 ≠ .error .unfinished) :
    ∃ line, (session.evaluate fuel text).1.line? = some line ∧
      reportsError line = !(session.evaluate fuel text).1.isText := by
  cases hanswer : (session.evaluate fuel text).1 with
  | ok printed => exact ⟨printed, rfl, h.reportsError_of_evaluate hanswer⟩
  | error halt =>
      cases halt with
      | error e =>
          refine ⟨"Error: " ++ e.report, rfl, List.isPrefixOf_iff_prefix.mpr ?_⟩
          rw [String.toList_append]
          exact List.prefix_append _ _
      | unfinished => exact (hfinishes hanswer).elim
      | stuck =>
          unfold Session.evaluate at hanswer
          split at hanswer
          · exact (h.wellFormed.not_stuck fuel _ hanswer).elim
          · cases hanswer

theorem Answered.exists_line
    {texts : List String}
    (h : Answered evaluate session texts answers later)
    (hreachable : session.Reachable) :
    ∀ answer ∈ answers, ∃ line,
      answer.line? = some line ∧ reportsError line = !answer.isText := by
  induction h with
  | nil => exact fun answer hanswer => absurd hanswer List.not_mem_nil
  | @cons session between later fuel text texts answer answers hanswer hfinishes _ ih =>
      have hbetween : between.Reachable := by
        have hlater := Reachable.evaluate hreachable fuel text
        rwa [hanswer] at hlater
      refine List.forall_mem_cons.mpr ⟨?_, ih hbetween⟩
      have hfinished : (session.evaluate fuel text).1 ≠ .error .unfinished := by
        rwa [hanswer]
      have hline := hreachable.exists_line hfinished
      rwa [hanswer] at hline

/-- A run that stops at errors delivers printed values, and then at most one thing more. -/
theorem deliveries_runForms
    {failure : Option ReadError}
    (before : List Answer)
    (forms : List Datum)
    (session : Session) :
    ∃ front last,
      (session.runForms fuel stopAtError failure before forms).1.deliveries = front ++ last ∧
        (∀ answer ∈ front, answer.isText = true) ∧ last.length ≤ 1 := by
  induction forms generalizing before session with
  | nil =>
      refine ⟨[], _, rfl, nofun, ?_⟩
      cases failure <;> simp
  | cons form forms ih =>
      rcases runForms_cons_cases before form forms session with
        ⟨failed, -, hrun⟩ | hrun | ⟨run, after, hgoes, hrest, hrun⟩ <;> rw [hrun]
      · exact ⟨[], _, rfl, nofun, Nat.le_refl 1⟩
      · exact ⟨[], _, rfl, nofun, Nat.le_refl 1⟩
      · obtain ⟨front, last, hdeliveries, htexts, hlast⟩ :=
          ih ((session.evaluateForm fuel form).1 :: before) (session.evaluateForm fuel form).2
        rw [hrest] at hdeliveries
        refine ⟨(session.evaluateForm fuel form).1 :: front, last, ?_,
          List.forall_mem_cons.mpr ⟨hgoes, htexts⟩, hlast⟩
        exact congrArg (List.cons _) hdeliveries

theorem deliveries_evaluateAll
    (fuel : Nat)
    (text : String)
    (session : Session) :
    ∃ front last,
      (session.evaluateAll fuel stopAtError text).1.deliveries = front ++ last ∧
        (∀ answer ∈ front, answer.isText = true) ∧ last.length ≤ 1 := by
  unfold evaluateAll
  split
  · exact ⟨[], _, rfl, nofun, Nat.le_refl 1⟩
  · exact deliveries_runForms [] _ session

end Answers

end Session

/-- A printed value that is delivered is the answer to a form. -/
theorem Run.mem_answers_of_mem_deliveries
    {run : Run}
    {printed : String}
    (h : .ok printed ∈ run.deliveries) :
    .ok printed ∈ run.answers := by
  rcases List.mem_append.mp h with hanswer | hfailure
  · exact hanswer
  · cases hrun : run.failure <;> rw [hrun] at hfailure <;> simp at hfailure

/-- Only the last line of a file reports an error. -/
theorem reportsError_of_mem_runText
    {fuel : Nat}
    {text line : String}
    (h : line ∈ (runText fuel text).lines.dropLast) :
    reportsError line = false := by
  obtain ⟨front, last, hdeliveries, htexts, hlast⟩ :=
    Session.deliveries_evaluateAll fuel text Session.start
  have hlines : (runText fuel text).lines =
      front.filterMap Answer.line? ++ last.filterMap Answer.line? := by
    rw [← List.filterMap_append, ← hdeliveries]
    rfl
  have hfront : line ∈ front.filterMap Answer.line? := by
    rw [hlines] at h
    match last with
    | [] => exact List.mem_of_mem_dropLast (by simpa using h)
    | [answer] =>
        rw [List.filterMap_cons, List.filterMap_nil] at h
        split at h
        · exact List.mem_of_mem_dropLast (by simpa using h)
        · rwa [List.dropLast_concat] at h
  obtain ⟨answer, hanswer, hline⟩ := List.mem_filterMap.mp hfront
  cases answer with
  | error halt => cases htexts _ hanswer
  | ok printed =>
      obtain rfl : printed = line := Option.some.inj hline
      have hdelivered : .ok printed ∈ (Session.start.evaluateAll fuel stopAtError text).1.deliveries := by
        rw [hdeliveries]
        exact List.mem_append_left _ hanswer
      exact Session.Reachable.start.reportsError_of_evaluateAll
        (Run.mem_answers_of_mem_deliveries hdelivered)

/-- Each line that is printed is one line, and the printed text has these lines and no others. -/
def Output.ShowsLines (output : Output) : Prop :=
  (∀ line ∈ output.lines, OneLine line) ∧ linesOf output.text = output.lines ++ [""]

theorem Output.showsLines
    {output : Output}
    (h : ∀ line ∈ output.lines, OneLine line) :
    output.ShowsLines := by
  refine ⟨h, ?_⟩
  obtain ⟨lines, code⟩ := output
  unfold linesOf text
  dsimp only at h ⊢
  induction lines with
  | nil => rfl
  | cons line lines ih =>
      obtain ⟨hline, hlines⟩ := List.forall_mem_cons.mp h
      have hsplit : splitLines (line.toList ++ '\n' :: (String.join (lines.map (· ++ "\n"))).toList) = _ :=
        splitLines_append hline _
      simp only [String.toList_join] at hsplit ih ⊢
      simp [hsplit, ih hlines]

/-- The lines of the printed text that a line feed ends are the lines that are printed. -/
theorem Output.ShowsLines.endedLines_text
    {output : Output}
    (h : output.ShowsLines) :
    endedLines output.text = output.lines := by
  rw [endedLines, h.2, List.dropLast_concat]

/-- A line is answered by a line, or by none, and leaves a state that the session can come into. -/
theorem Session.Reachable.runLine
    {session : Session}
    (h : session.Reachable)
    (fuel : Nat)
    (line : String) :
    (runLine fuel line session).2.Reachable ∧
      ∀ printed ∈ (runLine fuel line session).1, OneLine printed := by
  unfold SmallLisp.runLine
  split
  · exact ⟨h, nofun⟩
  · exact ⟨h.evaluate fuel line, fun printed hprinted => h.oneLine_evaluate hprinted⟩

theorem LineEditor.oneLine_runLinesFrom
    (editor : LineEditor)
    (fuel : Nat)
    (lines : List String)
    {session : Session}
    (h : session.Reachable) :
    ∀ line ∈ (editor.runLinesFrom fuel lines session).lines, OneLine line := by
  induction lines generalizing session with
  | nil => exact nofun
  | cons typed lines ih =>
      cases hedit : editor.edit typed with
      | none =>
          rw [runLinesFrom, hedit]
          exact nofun
      | some line =>
          obtain ⟨hlater, hprinted⟩ := h.runLine fuel line
          rw [runLinesFrom_cons hedit]
          intro printed hmember
          rcases List.mem_append.mp hmember with hfirst | hrest
          · exact hprinted printed (Option.mem_toList.mp hfirst)
          · exact ih hlater printed hrest

theorem oneLine_runFile
    (fuel : Nat)
    (bytes : ByteArray) :
    ∀ line ∈ (runFile fuel bytes).lines, OneLine line := by
  intro line hline
  unfold runFile at hline
  split at hline
  · obtain ⟨answer, hanswer, hprinted⟩ := List.mem_filterMap.mp hline
    exact Session.Reachable.start.oneLine_deliveries hanswer hprinted
  · cases hline

/-- A file holds the bytes of its text. -/
theorem runFile_toUTF8
    (fuel : Nat)
    (text : String) :
    runFile fuel text.toUTF8 = runText fuel text := by
  have hbytes : String.fromUTF8? text.toUTF8 = some text := by
    unfold String.fromUTF8?
    exact dif_pos text.isValidUTF8
  rw [runFile, hbytes]

/-- A text whose lines are answered one after another prints, as a file, the answers up to the first error. -/
theorem LinesRead.runFile_eq
    {text : String}
    {forms : List Datum}
    (h : LinesRead (linesOf text) forms)
    {answers : List Answer}
    {later : Session}
    (hanswered : Session.Answered Session.evaluate Session.start
      ((linesOf text).filter fun line => !isBlankText line) answers later) :
    let delivered := cutAfter (fun answer : Answer => !answer.isText) answers
    ∃ least, ∀ fuel, least ≤ fuel →
      runFile fuel text.toUTF8 =
        ⟨delivered.filterMap Answer.line?, if delivered.all Answer.isText then 0 else 1⟩ := by
  intro delivered
  obtain ⟨least, hleast⟩ := (hanswered.of_readable h.forall₂).runForms_stopAtError
    Session.Reachable.start.wellFormed []
  refine ⟨least, fun fuel hfuel => ?_⟩
  rw [runFile_toUTF8, runText, h.evaluateAll_eq, hleast fuel hfuel]
  simp [Run.deliveries, delivered]

/-- Running a text as a file and line by line prints the same, up to the first error. Each line of the text is
to be blank or one form, and the evaluation of each line is to come to an end. Then the lines print the answers
to the forms and end with the code 0; the file prints the same lines up to the first one that reports an error,
and all of them if there is none, and ends with the code 0 exactly in that case and with the code 1 otherwise.
The printed texts compare in the same way.

Whatever a file holds and whatever is typed, what is printed as a line holds no line feed. Only the last line of
a file reports an error. And in no state of a session does a line that is printed for a form look like one that
reports an error. -/
theorem file_prints_what_lines_print :
    (∀ (editor : LineEditor) text answers later,
      (∀ line ∈ linesOf text, isBlankText line = true ∨ ∃ form, readForm line = .ok form) →
      Session.Answered Session.evaluate Session.start
        ((linesOf text).filter fun line => !isBlankText line) answers later →
      ∃ least, ∀ fuel, least ≤ fuel →
        let lines := editor.runLines fuel text
        let file := runFile fuel text.toUTF8
        lines = ⟨answers.filterMap Answer.line?, 0⟩ ∧
          file.lines = cutAfter reportsError lines.lines ∧
          endedLines file.text = cutAfter reportsError (endedLines lines.text) ∧
          file.code = if file.lines.any reportsError then 1 else 0) ∧
    (∀ fuel bytes,
      (runFile fuel bytes).ShowsLines ∧
        ∀ line ∈ (runFile fuel bytes).lines.dropLast, reportsError line = false) ∧
    (∀ (editor : LineEditor) fuel text, (editor.runLines fuel text).ShowsLines) ∧
    ∀ session : Session, session.Reachable →
      (∀ fuel text printed,
        (session.evaluate fuel text).1 = .ok printed → reportsError printed = false) ∧
      ∀ fuel goOn text printed,
        .ok printed ∈ (session.evaluateAll fuel goOn text).1.answers →
          reportsError printed = false := by
  have hshowsFile : ∀ fuel bytes, (runFile fuel bytes).ShowsLines :=
    fun fuel bytes => Output.showsLines (oneLine_runFile fuel bytes)
  have hshowsLines : ∀ (editor : LineEditor) fuel text, (editor.runLines fuel text).ShowsLines :=
    fun editor fuel text => Output.showsLines (editor.oneLine_runLinesFrom fuel (linesOf text) .start)
  refine ⟨?_, fun fuel bytes => ⟨hshowsFile fuel bytes, ?_⟩, hshowsLines,
    fun session hreachable => ⟨?_, ?_⟩⟩
  · intro editor text answers later hlines hanswered
    obtain ⟨forms, hread⟩ := exists_linesRead hlines
    obtain ⟨leastLines, hrunLines⟩ := hread.runLinesFrom_eq hanswered editor
    obtain ⟨leastFile, hrunFile⟩ := hread.runFile_eq hanswered
    have hprinted := hanswered.exists_line .start
    refine ⟨max leastLines leastFile, fun fuel hfuel => ?_⟩
    have htyped : editor.runLines fuel text = ⟨answers.filterMap Answer.line?, 0⟩ :=
      hrunLines fuel (Nat.max_le.mp hfuel).1
    have hfile := hrunFile fuel (Nat.max_le.mp hfuel).2
    have hcut : (runFile fuel text.toUTF8).lines =
        cutAfter reportsError (editor.runLines fuel text).lines := by
      rw [hfile, htyped]
      exact filterMap_cutAfter hprinted
    refine ⟨htyped, hcut, ?_, ?_⟩
    · rw [(hshowsFile fuel _).endedLines_text, (hshowsLines editor fuel text).endedLines_text, hcut]
    · let delivered := cutAfter (fun answer : Answer => !answer.isText) answers
      have hany : (delivered.filterMap Answer.line?).any reportsError =
          delivered.any fun answer => !answer.isText :=
        any_filterMap fun answer hanswer => hprinted answer (mem_of_mem_cutAfter hanswer)
      rw [hfile]
      dsimp only
      rw [hany, ← List.not_all_eq_any_not]
      cases delivered.all Answer.isText <;> rfl
  · intro line hline
    unfold runFile at hline
    split at hline
    · exact reportsError_of_mem_runText hline
    · cases hline
  · exact fun fuel text printed => hreachable.reportsError_of_evaluate
  · exact fun fuel goOn text printed => hreachable.reportsError_of_evaluateAll

/-- The first four of these five lines are printed alike for a file, which ends with the error on the fourth
one; the second one is blank. As lines, in the editor of the program, the fifth one is evaluated as well. -/
theorem file_prints_what_lines_print_of_five_lines :
    let text := "(define x 1)\n\nx\n(car x)\ny"
    let printed := ["x", "1", "Error: RuntimeError: car expects a pair, got 1"]
    ∃ least, ∀ fuel, least ≤ fuel →
      runLines fuel text =
        ⟨printed ++ ["Error: NameError: unbound variable `y` (scope depth 0)"], 0⟩ ∧
      runFile fuel text.toUTF8 = ⟨printed, 1⟩ := by
  intro text printed
  have hlines : linesOf text = ["(define x 1)", "", "x", "(car x)", "y"] := by decide +kernel
  have hread : ∀ line ∈ linesOf text,
      isBlankText line = true ∨ ∃ form, readForm line = .ok form := by
    rw [hlines]
    simp only [List.forall_mem_cons]
    exact ⟨.inr ⟨.list [.sym "define", .sym "x", .int 1], by decide +kernel⟩, .inl rfl,
      .inr ⟨.sym "x", by decide +kernel⟩, .inr ⟨.list [.sym "car", .sym "x"], by decide +kernel⟩,
      .inr ⟨.sym "y", by decide +kernel⟩, List.forall_mem_nil _⟩
  have hsome : ((linesOf text).filter fun line => !isBlankText line) =
      ["(define x 1)", "x", "(car x)", "y"] := by
    decide +kernel
  let defined := (Session.start.evaluate 2 "(define x 1)").2
  let failed := (defined.evaluate 2 "(car x)").2
  have hanswered : Session.Answered Session.evaluate Session.start
      ["(define x 1)", "x", "(car x)", "y"]
      [.ok "x", .ok "1", .error (Fault.notPair "car" "1").halt,
        .error (Fault.unboundVariable "y" 0).halt] failed := by
    have hdefine : Session.start.evaluate 2 "(define x 1)" = (.ok "x", defined) := by decide +kernel
    have hvalue : defined.evaluate 1 "x" = (.ok "1", defined) := by decide +kernel
    have hcar : defined.evaluate 2 "(car x)" = (.error (Fault.notPair "car" "1").halt, failed) := by
      decide +kernel
    have hname : failed.evaluate 1 "y" = (.error (Fault.unboundVariable "y" 0).halt, failed) := by
      decide +kernel
    exact .cons hdefine (by decide) (.cons hvalue (by decide)
      (.cons hcar (by decide) (.cons hname (by decide) (.nil failed))))
  rw [← hsome] at hanswered
  obtain ⟨least, hleast⟩ := file_prints_what_lines_print.1 clusterEditor text _ _ hread hanswered
  refine ⟨least, fun fuel hfuel => ?_⟩
  obtain ⟨htyped, hfile, -, hcode⟩ := hleast fuel hfuel
  have hprinted : (runFile fuel text.toUTF8).lines = printed := by
    rw [hfile, htyped]
    decide +kernel
  refine ⟨htyped.trans (by decide +kernel), ?_⟩
  rw [hprinted] at hcode
  rcases hrun : runFile fuel text.toUTF8 with ⟨lines, code⟩
  rw [hrun] at hprinted hcode
  rw [show lines = printed from hprinted, show code = _ from hcode]
  decide +kernel

end SmallLisp
