import SmallLisp.Text.Cluster.Table
import SmallLisp.Text.CodeRange

/-!
# Grapheme clusters

What a reader takes for one character may be several code points: a letter with its accents, a
syllable with its vowel signs, a flag, a pictograph joined from others. These are the extended
grapheme clusters of Unicode.

A character belongs to the cluster before it

* if it is a line feed behind a carriage return;
* if neither it nor the last character is a control, and it completes a Hangul syllable, is a mark,
  follows a mark that belongs to it, completes a conjunct of linked consonants, is a pictograph
  joined to another, or is the second regional indicator of a flag.

Main statement: the clusters of a text in order are the text.
-/

namespace SmallLisp

/-- The zero width joiner. -/
def joiner : Char := '\u200d'

/-- The zero width non-joiner, a mark that keeps consonants from being linked. -/
def nonJoiner : Char := '\u200c'

/-- Whether a character is a mark that extends the one before it. -/
def isExtend (c : Char) : Bool :=
  inRanges c extendRanges

/-- Whether a character is one of the letters that name a region in pairs. -/
def isRegional (c : Char) : Bool :=
  inRanges c [(0x1F1E6, 0x1F1FF)]

/-- Whether a character is a leading consonant of a Hangul syllable. -/
def isLeading (c : Char) : Bool :=
  inRanges c [(0x1100, 0x115F), (0xA960, 0xA97C)]

/-- Whether a character is a vowel of a Hangul syllable, or one of the Kirat Rai vowels that combine
in the same way. -/
def isVowel (c : Char) : Bool :=
  inRanges c [(0x1160, 0x11A7), (0xD7B0, 0xD7C6), (0x16D63, 0x16D63), (0x16D67, 0x16D6A)]

/-- Whether a character is a trailing consonant of a Hangul syllable. -/
def isTrailing (c : Char) : Bool :=
  inRanges c [(0x11A8, 0x11FF), (0xD7CB, 0xD7FB)]

/-- Whether a character is a whole Hangul syllable. -/
def isSyllable (c : Char) : Bool :=
  inRanges c [(0xAC00, 0xD7A3)]

/-- Whether a whole syllable lacks a trailing consonant: each leading consonant and vowel has 28
syllables, of which the first is open. -/
def isOpen (c : Char) : Bool :=
  isSyllable c && (c.toNat - 0xAC00) % 28 = 0

/-- Whether a character completes the Hangul syllable that ends in `last`. -/
def joinsSyllable (last c : Char) : Bool :=
  (isLeading last && (isLeading c || isVowel c || isSyllable c)) ||
    ((isVowel last || isOpen last) && (isVowel c || isTrailing c)) ||
    ((isTrailing last || isSyllable last) && isTrailing c)

/-- Whether a character is a sign that links two consonants. -/
def isLinker (c : Char) : Bool :=
  inRanges c linkerRanges

/-- Whether a character may stand between two linked consonants. -/
def isConjunctMark (c : Char) : Bool :=
  (isExtend c || c = joiner) && c ≠ nonJoiner

/-- Whether a cluster ends in a consonant that is linked to the next. The characters of a cluster are
given with the latest first. -/
def endsLinked (cluster : List Char) : Bool :=
  (cluster.takeWhile isConjunctMark).any isLinker &&
    (cluster.dropWhile isConjunctMark).head?.any fun c => inRanges c conjunctRanges

/-- Whether a cluster ends in a pictograph that is joined to the next. -/
def endsJoined : List Char → Bool
  | [] => false
  | last :: cluster =>
    last = joiner && (cluster.dropWhile isExtend).head?.any fun c => inRanges c pictographRanges

/-- Whether a cluster ends in the first regional indicator of a pair. -/
def endsInHalfFlag (cluster : List Char) : Bool :=
  (cluster.takeWhile isRegional).length % 2 = 1

/-- Whether a character belongs to the cluster before it. -/
def joinsCluster : List Char → Char → Bool
  | [], _ => false
  | last :: cluster, c =>
    if last = '\r' ∧ c = '\n' then true
    else if inRanges last controlRanges || inRanges c controlRanges then false
    else
      joinsSyllable last c || isExtend c || c = joiner || inRanges c spacingRanges ||
        inRanges last prependRanges ||
        (inRanges c conjunctRanges && endsLinked (last :: cluster)) ||
        (inRanges c pictographRanges && endsJoined (last :: cluster)) ||
        (isRegional c && endsInHalfFlag (last :: cluster))

/-- The clusters of a text behind the characters of an unfinished cluster, the latest first. -/
def clustersFrom (cluster : List Char) : List Char → List (List Char)
  | [] => [cluster.reverse]
  | c :: rest =>
    if joinsCluster cluster c then clustersFrom (c :: cluster) rest
    else cluster.reverse :: clustersFrom [c] rest

/-- The clusters of a text. -/
def clusters : List Char → List (List Char)
  | [] => []
  | c :: rest => clustersFrom [c] rest

/-- Nothing is lost behind an unfinished cluster. -/
theorem flatten_clustersFrom (cluster chars : List Char) :
    (clustersFrom cluster chars).flatten = cluster.reverse ++ chars := by
  induction chars generalizing cluster with
  | nil => simp [clustersFrom]
  | cons c rest ih =>
      unfold clustersFrom
      split
      · simp [ih]
      · simp [ih]

/-- The clusters of a text in order are the text. -/
@[simp]
theorem flatten_clusters (chars : List Char) :
    (clusters chars).flatten = chars := by
  cases chars with
  | nil => rfl
  | cons c rest => simp [clusters, flatten_clustersFrom]

/-- An accent belongs to its letter. -/
example : clusters ['e', '\u0301', 'x'] = [['e', '\u0301'], ['x']] := by decide +kernel

/-- So does a mark of the Arabic script. -/
example : clusters ['5', '\u0897'] = [['5', '\u0897']] := by decide +kernel

/-- Regional indicators pair up. -/
example : (clusters (List.replicate 5 (Char.ofNat 0x1F1E6))).map List.length = [2, 2, 1] := by
  decide +kernel

end SmallLisp
