import SmallLisp.Text.Cluster
import SmallLisp.Text.Line

/-!
# Lines as they are typed

A backspace takes back what was typed last, a grapheme cluster at a time; with nothing to take back it
has no effect.

What a backspace takes back is measured in bytes of UTF-8, and the size of a cluster is kept in one
byte. So of a cluster of 256 bytes or more only a part is taken back. That part may end inside a
character; then there is no line.

Main statement: a line without a backspace stays as it is, so this is a line editor.
-/

namespace SmallLisp

/-- The size of a cluster in bytes, as far as one byte can hold it. -/
def clusterSize (cluster : List Char) : Nat :=
  (String.ofList cluster).utf8ByteSize % 256

/-- The characters that remain when a number of bytes is taken back, if these bytes are whole
characters. The characters are given with the latest first. -/
def takeBack : Nat → List Char → Option (List Char)
  | 0, kept => some kept
  | _ + 1, [] => none
  | size + 1, c :: kept =>
    if c.utf8Size ≤ size + 1 then takeBack (size + 1 - c.utf8Size) kept else none

/-- The characters that remain after typing clusters. The characters that were typed before are
`kept`, the latest first; `sizes` are the sizes of the clusters that can still be taken back. -/
def typeClusters (kept : List Char) (sizes : List Nat) : List (List Char) → Option (List Char)
  | [] => some kept.reverse
  | cluster :: rest =>
    if cluster = [backspace] then
      match sizes with
      | [] => typeClusters kept [] rest
      | size :: sizes => (takeBack size kept).bind fun kept => typeClusters kept sizes rest
    else typeClusters (cluster.reverse ++ kept) (clusterSize cluster :: sizes) rest

/-- The line that remains after typing characters. -/
def typedLine (line : String) : Option String :=
  (typeClusters [] [] (clusters line.toList)).map String.ofList

/-- Clusters without a backspace all remain. -/
theorem typeClusters_of_not_mem
    (kept : List Char)
    (sizes : List Nat)
    (typed : List (List Char))
    (h : [backspace] ∉ typed) :
    typeClusters kept sizes typed = some (kept.reverse ++ typed.flatten) := by
  induction typed generalizing kept sizes with
  | nil => simp [typeClusters]
  | cons cluster rest ih =>
      simp only [List.mem_cons, not_or] at h
      have different : ¬ cluster = [backspace] := fun e => h.1 e.symm
      simp [typeClusters, different, ih _ _ h.2]

/-- A line without a backspace stays as it is. -/
theorem typedLine_of_not_mem
    {line : String}
    (h : backspace ∉ line.toList) :
    typedLine line = some line := by
  have absent : [backspace] ∉ clusters line.toList := by
    intro found
    apply h
    rw [← flatten_clusters line.toList]
    exact List.mem_flatten.2 ⟨[backspace], found, List.mem_singleton_self _⟩
  simp [typedLine, typeClusters_of_not_mem [] [] _ absent]

/-- The editor in which a backspace takes back a grapheme cluster. -/
def clusterEditor : LineEditor where
  edit := typedLine
  edit_of_not_mem := typedLine_of_not_mem

/-- Backspaces in the middle of a line take back what stands before them. -/
example : typedLine "12345\x08\x08\x089\x088" = some "128" := by decide +kernel

/-- A letter is taken back with its accent. -/
example : typedLine "1e\u0301\x08" = some "1" := by decide +kernel

end SmallLisp
