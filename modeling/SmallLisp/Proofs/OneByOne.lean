import SmallLisp.Proofs.Consecutive

/-!
# A text of many forms and its forms one by one

Texts that can be read as forms may be put together with blanks between them. A call on the whole text then
evaluates what calls on the single texts evaluate one after another: with blanks behind it each of the texts is
cut into the same tokens, and the tokens of all of them derive the forms in order.

* `spread` puts texts together, `Spaced` says that blanks keep them apart;
* `Spaced.exists_cuts`: the tokens of the whole text derive the forms of the single texts;
* `Session.evaluateAll_is_evaluate_one_by_one` is the main result.
-/

namespace SmallLisp

/-- A text and what stands behind it. -/
structure Piece where
  text : String
  gap : String

/-- The text of some pieces in order, with something in front of them. -/
def spread (margin : String) (pieces : List Piece) : String :=
  margin ++ String.join (pieces.map fun piece => piece.text ++ piece.gap)

/-- There are only blanks in front of the texts and behind each of them, and at least one blank between any
two of them. -/
structure Spaced (margin : String) (pieces : List Piece) : Prop where
  margin : isBlankText margin = true
  gaps : ∀ piece ∈ pieces, isBlankText piece.gap = true
  apart : ∀ piece ∈ pieces.dropLast, piece.gap ≠ ""

/-- The text of each piece is read as the form in its place. -/
def ReadAs : List Piece → List Datum → Prop :=
  List.Forall₂ fun piece form => readForm piece.text = .ok form

theorem exists_readAs
    {pieces : List Piece}
    (h : ∀ piece ∈ pieces, ∃ form, readForm piece.text = .ok form) :
    ∃ forms, ReadAs pieces forms := by
  induction pieces with
  | nil => exact ⟨[], .nil⟩
  | cons piece pieces ih =>
      rw [List.forall_mem_cons] at h
      obtain ⟨form, hform⟩ := h.1
      obtain ⟨forms, hforms⟩ := ih h.2
      exact ⟨form :: forms, .cons hform hforms⟩

namespace Spaced

variable {margin : String} {piece : Piece} {pieces : List Piece} {forms : List Datum}

/-- The pieces behind the first one are spaced. -/
theorem tail
    (h : Spaced margin (piece :: pieces)) :
    Spaced piece.gap pieces where
  margin := h.gaps piece List.mem_cons_self
  gaps := fun later hlater => h.gaps later (List.mem_cons_of_mem _ hlater)
  apart := by
    intro later hlater
    refine h.apart later ?_
    cases pieces with
    | nil => cases hlater
    | cons => exact List.mem_cons_of_mem _ hlater

/-- No token goes on behind the text of a piece. -/
theorem breaks
    (h : Spaced margin (piece :: pieces)) :
    Breaks (spread piece.gap pieces).toList := by
  rw [spread, String.toList_append]
  cases hgap : piece.gap.toList with
  | cons c gap =>
      have hblank : isBlankText piece.gap = true := h.tail.margin
      rw [isBlankText, hgap, List.all_cons, Bool.and_eq_true] at hblank
      exact breaks_of_isBlank hblank.1 _
  | nil =>
      -- Only the last piece may have nothing behind it.
      cases pieces with
      | nil => exact nofun
      | cons second pieces =>
          exact (h.apart piece List.mem_cons_self (String.toList_inj.mp hgap)).elim

/-- The tokens of spaced texts, together, derive their forms. -/
theorem exists_cuts
    (h : Spaced margin pieces)
    (hforms : ReadAs pieces forms) :
    ∃ kinds, Cuts (spread margin pieces).toList kinds [] ∧ DerivesAll kinds forms := by
  induction hforms generalizing margin with
  | nil =>
      refine ⟨[], ?_, .nil⟩
      rw [spread, List.map_nil, String.join_nil, String.append_empty]
      exact .blanks (List.all_eq_true.mp h.margin)
  | @cons piece form pieces forms hform _ ih =>
      obtain ⟨⟨last, hfinal⟩, hderives⟩ := readForm_ok_iff.mp hform
      -- What is behind the first text are the other ones, with its gap as their margin.
      obtain ⟨kinds, hcuts, hall⟩ := ih h.tail
      have hfirst : Cuts piece.text.toList (Lexed.ofString piece.text).kinds
          ((spread piece.gap pieces).toList ++ []) := by
        rw [List.append_nil]
        exact .of_final h.breaks hfinal
      have hmargin : Cuts margin.toList []
          (piece.text.toList ++ (spread piece.gap pieces).toList ++ []) :=
        .blanks (List.all_eq_true.mp h.margin)
      refine ⟨_, ?_, .cons hderives hall⟩
      have hwhole := hmargin.append (hfirst.append hcuts)
      simpa [spread] using hwhole

end Spaced

/-- Data whose tokens make up a whole text stand one after another in it. -/
theorem DerivesAll.consecutive
    {tokens : List Token}
    {forms : List Datum}
    (h : DerivesAll (tokens.map Token.kind) forms)
    (position : Nat) :
    Lexed.Consecutive ⟨tokens, .ok position⟩ forms ⟨[], .ok position⟩ := by
  generalize hkinds : tokens.map Token.kind = kinds at h
  induction forms generalizing tokens kinds with
  | nil =>
      cases h
      rw [List.map_eq_nil_iff.mp hkinds]
      exact .nil _
  | cons form forms ih =>
      cases h with
      | cons first rest =>
          obtain ⟨read, left, rfl, rfl, rfl⟩ := List.map_eq_append_iff.mp hkinds
          exact .cons rfl first (.inr ⟨position, rfl⟩) (ih _ rfl rest)

namespace Session

/-- A call on a text whose tokens derive some forms evaluates these forms. -/
theorem evaluateAll_of_cuts
    {text : String}
    {kinds : List TokenKind}
    {forms : List Datum}
    (hcuts : Cuts text.toList kinds [])
    (hall : DerivesAll kinds forms)
    (fuel : Nat)
    (goOn : List Answer → Bool)
    (session : Session) :
    session.evaluateAll fuel goOn text = session.runForms fuel goOn none [] forms := by
  obtain ⟨hfinal, rfl⟩ := hcuts.ofString
  have hcursor := Cursor.enter_ofTokens (Lexed.ofString text).tokens text.length
  obtain ⟨last, hlast, hdata⟩ := (hall.consecutive text.length).forms hcursor
  have hnothing : last.forms = ([], none) := by
    cases hlast
    exact Cursor.forms_of_atEnd rfl
  rw [← hfinal] at hcursor
  rw [evaluateAll_of_enter hcursor, hdata, hnothing, List.append_nil]

/-- A call on spaced texts evaluates the forms of these texts. -/
theorem evaluateAll_spread
    {margin : String}
    {pieces : List Piece}
    {forms : List Datum}
    (h : Spaced margin pieces)
    (hforms : ReadAs pieces forms)
    (fuel : Nat)
    (goOn : List Answer → Bool)
    (session : Session) :
    session.evaluateAll fuel goOn (spread margin pieces) = session.runForms fuel goOn none [] forms := by
  obtain ⟨kinds, hcuts, hall⟩ := h.exists_cuts hforms
  exact evaluateAll_of_cuts hcuts hall fuel goOn session

/-- Texts that are answered one after another are answered as their forms are. -/
theorem Answered.of_readable
    {session later : Session}
    {texts : List String}
    {forms : List Datum}
    {answers : List Answer}
    (h : Answered evaluate session texts answers later)
    (hforms : List.Forall₂ (fun text form => readForm text = .ok form) texts forms) :
    Answered evaluateForm session forms answers later := by
  induction hforms generalizing session answers with
  | nil =>
      cases h
      exact .nil _
  | cons hform _ ih =>
      cases h with
      | cons hanswer hfinishes hrest =>
          rw [evaluate, hform] at hanswer
          change evaluateForm _ _ _ = _ at hanswer
          exact .cons hanswer hfinishes (ih hrest)

theorem Answered.of_texts
    {session later : Session}
    {pieces : List Piece}
    {forms : List Datum}
    {answers : List Answer}
    (h : Answered evaluate session (pieces.map Piece.text) answers later)
    (hforms : ReadAs pieces forms) :
    Answered evaluateForm session forms answers later :=
  h.of_readable (List.forall₂_map_left_iff.mpr hforms)

/-- A call on many forms is a call on each of them in turn. The texts of the forms may be put together with
any blanks between them. If the calls on the single texts are answered, then a call on the whole text that is
not told to stop delivers their answers, errors included, and leaves the state that they leave. If it is told
to stop by the answers to the first texts, it delivers these answers and leaves the state behind these texts,
and what is left is not evaluated. -/
theorem evaluateAll_is_evaluate_one_by_one
    {session : Session}
    (h : session.Reachable)
    {margin : String}
    {pieces : List Piece}
    (hspaced : Spaced margin pieces)
    (hforms : ∀ piece ∈ pieces, ∃ form, readForm piece.text = .ok form) :
    (∀ answers later,
      Answered evaluate session (pieces.map Piece.text) answers later →
      ∃ least, ∀ fuel, least ≤ fuel →
        session.evaluateAll fuel (fun _ => true) (spread margin pieces) = (⟨answers, none⟩, later)) ∧
    ∀ goOn front back answers later,
      pieces = front ++ back →
      front ≠ [] →
      Answered evaluate session (front.map Piece.text) answers later →
      StopsAfter goOn [] answers →
      ∃ least, ∀ fuel, least ≤ fuel →
        session.evaluateAll fuel goOn (spread margin pieces) = (⟨answers, none⟩, later) := by
  constructor
  · intro answers later hanswered
    obtain ⟨forms, hread⟩ := exists_readAs hforms
    simp only [evaluateAll_spread hspaced hread]
    exact (hanswered.of_texts hread).runForms h.wellFormed none []
  · rintro goOn front back answers later rfl hfront hanswered hstops
    rw [List.forall_mem_append] at hforms
    obtain ⟨first, hfirst⟩ := exists_readAs hforms.1
    obtain ⟨others, hothers⟩ := exists_readAs hforms.2
    have hsome : answers ≠ [] := by
      rintro rfl
      have hlength := hanswered.length_eq
      rw [List.length_map] at hlength
      exact hfront (List.eq_nil_of_length_eq_zero hlength.symm)
    simp only [evaluateAll_spread hspaced (List.rel_append hfirst hothers)]
    exact (hanswered.of_texts hfirst).runForms_append h.wellFormed hsome hstops none others

/-- The texts `7`, `y` and `(y)` are put together. A call that goes on as long as it gets texts delivers the
answers to `7` and to `y`, which has no value, and does not evaluate `(y)`. -/
theorem evaluateAll_is_evaluate_one_by_one_of_three_texts :
    let pieces := [⟨"7", " "⟩, ⟨"y", "\n"⟩, ⟨"(y)", ""⟩]
    let unbound := (Fault.unboundVariable "y" 0).halt
    spread " " pieces = " 7 y\n(y)" ∧
    (∃ least, ∀ fuel, least ≤ fuel →
      start.evaluateAll fuel (fun _ => true) (spread " " pieces) =
        (⟨[.ok "7", .error unbound, .error unbound], none⟩, (start.evaluate 2 "(y)").2)) ∧
    ∃ least, ∀ fuel, least ≤ fuel →
      start.evaluateAll fuel (fun answers => answers.all Answer.isText) (spread " " pieces) =
        (⟨[.ok "7", .error unbound], none⟩, start) := by
  intro pieces unbound
  have hspaced : Spaced " " pieces := ⟨by decide +kernel, by decide +kernel, by decide +kernel⟩
  have hforms : ∀ piece ∈ pieces, ∃ form, readForm piece.text = .ok form := by
    simp only [pieces, List.forall_mem_cons]
    exact ⟨⟨.int 7, by decide +kernel⟩, ⟨.sym "y", by decide +kernel⟩,
      ⟨.list [.sym "y"], by decide +kernel⟩, List.forall_mem_nil _⟩
  obtain ⟨hall, hsome⟩ := evaluateAll_is_evaluate_one_by_one .start hspaced hforms
  have hseven : start.evaluate 1 "7" = (.ok "7", start) := by decide +kernel
  have hname : start.evaluate 1 "y" = (.error unbound, start) := by decide +kernel
  have hcall : start.evaluate 2 "(y)" = (.error unbound, (start.evaluate 2 "(y)").2) := by
    decide +kernel
  have hfinishes : (.error (Fault.unboundVariable "y" 0).halt : Answer) ≠ .error .unfinished := by
    decide
  refine ⟨by decide +kernel, ?_, ?_⟩
  · exact hall _ _ (.cons hseven (by decide) (.cons hname hfinishes (.cons hcall hfinishes (.nil _))))
  · refine hsome _ [⟨"7", " "⟩, ⟨"y", "\n"⟩] [⟨"(y)", ""⟩] _ _ rfl (List.cons_ne_nil _ _)
      (.cons hseven (by decide) (.cons hname hfinishes (.nil _))) ?_
    rintro (_ | ⟨first, _ | ⟨second, front⟩⟩) back hanswers hfront
    · exact (hfront rfl).elim
    · cases hanswers
      exact ⟨fun _ => List.cons_ne_nil _ _, fun _ => rfl⟩
    · simp only [List.cons_append, List.cons.injEq] at hanswers
      obtain ⟨rfl, rfl, hanswers⟩ := hanswers
      obtain ⟨rfl, rfl⟩ := List.append_eq_nil_iff.mp hanswers.symm
      exact ⟨fun hgoes => absurd hgoes (by decide), fun hback => (hback rfl).elim⟩

end Session

end SmallLisp
