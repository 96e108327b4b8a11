/-!
# Lines

A text is the sequence of its lines, which line feeds separate. The text behind the last line feed is
a line too, even if it is empty.

Lines that are typed go through a `LineEditor`. Of such an editor it is only known that it leaves a
line alone in which nothing is taken back.

Main statements: joining the lines with line feeds gives back the text, and a line feed ends a line.
-/

namespace SmallLisp

/-- The lines of a sequence of characters. -/
def splitLines : List Char → List (List Char)
  | [] => [[]]
  | c :: rest =>
    if c = '\n' then [] :: splitLines rest
    else
      match splitLines rest with
      | [] => [[c]]
      | line :: lines => (c :: line) :: lines

/-- The lines of a text. -/
def linesOf (text : String) : List String :=
  (splitLines text.toList).map String.ofList

/-- The lines of a text that a line feed ends. -/
def endedLines (text : String) : List String :=
  (linesOf text).dropLast

/-- A text that holds no line feed. -/
def OneLine (text : String) : Prop :=
  '\n' ∉ text.toList

/-- The character that takes back what stands before it. -/
def backspace : Char := '\x08'

/-- What becomes of a line as it was typed, if there is a line then. -/
structure LineEditor where
  /-- The line that remains. -/
  edit : String → Option String
  /-- A line without a backspace stays as it is. -/
  edit_of_not_mem : ∀ {line}, backspace ∉ line.toList → edit line = some line

/-- There is always a line. -/
theorem splitLines_ne_nil (chars : List Char) : splitLines chars ≠ [] := by
  cases chars with
  | nil => simp [splitLines]
  | cons c rest =>
      unfold splitLines
      split
      · simp
      · split <;> simp

/-- Joining the lines with line feeds gives back the text. -/
theorem intercalate_splitLines (chars : List Char) :
    ['\n'].intercalate (splitLines chars) = chars := by
  induction chars with
  | nil => rfl
  | cons c rest ih =>
      unfold splitLines
      split
      · rename_i h
        subst h
        cases hlines : splitLines rest with
        | nil => exact (splitLines_ne_nil rest hlines).elim
        | cons line lines =>
            rw [hlines] at ih
            simp [List.intercalate, List.intersperse] at ih ⊢
            exact ih
      · cases hlines : splitLines rest with
        | nil => exact (splitLines_ne_nil rest hlines).elim
        | cons line lines =>
            rw [hlines] at ih
            cases lines <;> simp [List.intercalate, List.intersperse] at ih ⊢ <;> exact ih

/-- A line feed ends the line in front of it, which may be any text without one. -/
theorem splitLines_append
    {line : List Char}
    (h : '\n' ∉ line)
    (rest : List Char) :
    splitLines (line ++ '\n' :: rest) = line :: splitLines rest := by
  induction line with
  | nil => simp [splitLines]
  | cons c line ih =>
      obtain ⟨hc, hline⟩ := not_or.mp (mt List.mem_cons.mpr h)
      rw [List.cons_append, splitLines, if_neg (Ne.symm hc), ih hline]

end SmallLisp
