import Mathlib.Algebra.Group.Nat.Defs
import SmallLisp.Proofs.Lexing
import SmallLisp.Token.Cursor

/-!
# Tokens tile their text

A text is covered from its start by tokens and by blanks, up to its end or to the first character that can
be neither. Which characters make a token is said here without a word about how they are found.

* `Lexeme` says which characters are the text of which token, and `constantNumber` which number an integer
  constant denotes;
* `Token.CutFrom` says that a token is a piece of a text, and the longest one that starts where it does;
* `Tiles` says that tokens and blanks cover a part of a text, `Ends` how that part ends;
* `tokens_tile_the_text` is the main result.

Each step of cutting a text puts one more tile in front: `Tiles.blank` and `Tiles.token`.
-/

namespace SmallLisp

/-- The number that the characters of an integer constant denote, of whatever size. -/
def constantNumber : List Char → Int
  | '+' :: digits => (Nat.ofDigitChars 10 digits 0 : Nat)
  | '-' :: digits => -(Nat.ofDigitChars 10 digits 0 : Nat)
  | digits => (Nat.ofDigitChars 10 digits 0 : Nat)

/-- The characters that are the text of a token. -/
inductive Lexeme : List Char → TokenKind → Prop
  | opening :
      Lexeme ['('] .opening
  | closing :
      Lexeme [')'] .closing
  | quote :
      Lexeme ['\x27'] .quote
  | dot :
      Lexeme ['.'] .dot
  | sign
      {c : Char}
      (hsign : c = '+' ∨ c = '-') :
      Lexeme [c] (.ident (String.singleton c))
  | name
      {c : Char}
      {more : List Char}
      (first : isInitial c = true)
      (rest : ∀ d ∈ more, isSubsequent d = true) :
      Lexeme (c :: more) (.ident (String.ofList (c :: more)))
  | constant
      {c : Char}
      {digits : List Char}
      (first : c.isDigit = true)
      (rest : ∀ d ∈ digits, d.isDigit = true) :
      Lexeme (c :: digits) (.int (Int64.ofInt (constantNumber (c :: digits))))
  | signed
      {c : Char}
      {digits : List Char}
      (hsign : c = '+' ∨ c = '-')
      (nonempty : digits ≠ [])
      (rest : ∀ d ∈ digits, d.isDigit = true) :
      Lexeme (c :: digits) (.int (Int64.ofInt (constantNumber (c :: digits))))

/-- A token is a piece of a text, and the longest one that starts where it does. -/
structure Token.CutFrom (text : List Char) (token : Token) : Prop where
  nonempty : token.lo < token.hi
  within : token.hi ≤ text.length
  spelled : Lexeme (text.extract token.lo token.hi) token.kind
  /-- No digit follows a sign that stands alone or an integer constant. -/
  stops_digits : ∀ c next,
    text[token.lo]? = some c → text[token.hi]? = some next →
    c = '+' ∨ c = '-' ∨ c.isDigit = true → next.isDigit = false
  /-- No character that can continue a name follows a name. -/
  stops_name : ∀ c next,
    text[token.lo]? = some c → text[token.hi]? = some next →
    isInitial c = true → isSubsequent next = false
  longest : ∀ hi kind,
    token.hi < hi → hi ≤ text.length → ¬Lexeme (text.extract token.lo hi) kind

/-- Between two positions of a text there are tokens, in order, and what is not covered by them is blank. -/
structure Tiles (text : List Char) (first : Nat) (tokens : List Token) (last : Nat) : Prop where
  cut : ∀ token ∈ tokens, token.CutFrom text
  inside : ∀ token ∈ tokens, first ≤ token.lo ∧ token.hi ≤ last
  ordered : tokens.Pairwise fun one later => one.hi ≤ later.lo
  blank : ∀ position c,
    first ≤ position → position < last →
    text[position]? = some c →
    (∀ token ∈ tokens, ¬(token.lo ≤ position ∧ position < token.hi)) →
    isBlank c = true

/-- How the tiles of a text end at a position: with the text, or before a character that is not blank and
starts no token. -/
def Ends (text : List Char) (last : Nat) : Except LexError Nat → Prop
  | .ok position => position = last ∧ last = text.length
  | .error (.unexpectedCharacter c position) =>
    position = last ∧ text[last]? = some c ∧ isBlank c = false ∧ ∀ more kind, ¬Lexeme (c :: more) kind

/-- A cursor that has been moved a number of times from the first token of a text. -/
def Cursor.moved (text : String) : Nat → Except LexError Cursor
  | 0 => Cursor.ofString text
  | count + 1 => (Cursor.moved text count).bind Cursor.advance

theorem ofInt_constantNumber_signed
    {c : Char}
    (hsign : c = '+' ∨ c = '-')
    (digits : List Char) :
    Int64.ofInt (constantNumber (c :: digits)) = signedValue c digits := by
  rcases hsign with rfl | rfl
  · simp [constantNumber, signedValue, numeralValue_eq, Int64.ofInt_eq_ofNat]
  · simp [constantNumber, signedValue, numeralValue_eq, Int64.ofInt_eq_ofNat]

theorem ofInt_constantNumber
    {c : Char}
    (hdigit : c.isDigit = true)
    (digits : List Char) :
    Int64.ofInt (constantNumber (c :: digits)) = numeralValue (c :: digits) := by
  have hplus : c ≠ '+' := by
    rintro rfl
    cases hdigit
  have hminus : c ≠ '-' := by
    rintro rfl
    cases hdigit
  rw [numeralValue_eq, ← Int64.ofInt_eq_ofNat]
  simp [constantNumber, hplus, hminus]

theorem not_sign_of_isInitial
    {c : Char}
    (h : isInitial c = true) :
    ¬(c = '+' ∨ c = '-') := by
  rintro (rfl | rfl) <;> cases h

/-- A digit starts no name. -/
theorem not_isDigit_of_isInitial
    {c : Char}
    (h : isInitial c = true) :
    ¬c.isDigit = true := by
  intro hdigit
  simp only [isInitial, Bool.or_eq_true, decide_eq_true_eq] at h
  rcases h with (((((halpha | rfl) | rfl) | rfl) | rfl) | rfl) | rfl
  · have hlow := (toNat_of_isAlpha halpha).1
    have hhigh := (toNat_of_isDigit hdigit).2
    omega
  all_goals cases hdigit

theorem continues_of_isInitial
    {c : Char}
    (h : isInitial c = true) :
    continues c = isSubsequent := by
  have hsign := not_sign_of_isInitial h
  have hdigit := not_isDigit_of_isInitial h
  simp [continues, hsign, hdigit, h]

theorem kindOf_of_isInitial
    {c : Char}
    (h : isInitial c = true)
    (more : List Char) :
    kindOf c more = some (.ident (String.ofList (c :: more))) := by
  have hother : c ≠ '(' ∧ c ≠ ')' ∧ c ≠ '\x27' ∧ c ≠ '.' := by
    refine ⟨?_, ?_, ?_, ?_⟩ <;> rintro rfl <;> cases h
  simp [kindOf, not_sign_of_isInitial h, not_isDigit_of_isInitial h, h, hother]

theorem continues_of_sign
    {c : Char}
    (h : c = '+' ∨ c = '-') :
    continues c = Char.isDigit := by
  rcases h with rfl | rfl <;> rfl

theorem continues_of_isDigit
    {c : Char}
    (h : c.isDigit = true) :
    continues c = Char.isDigit := by
  simp [continues, h]

theorem kindOf_of_isDigit
    {c : Char}
    (h : c.isDigit = true)
    (more : List Char) :
    kindOf c more = some (.int (numeralValue (c :: more))) := by
  have hsign : ¬(c = '+' ∨ c = '-') := by
    rintro (rfl | rfl) <;> cases h
  simp [kindOf, hsign, h]

/-- The text of a token is a first character and characters that the token goes on with. -/
theorem Lexeme.kindOf_eq
    {c : Char}
    {more : List Char}
    {kind : TokenKind}
    (h : Lexeme (c :: more) kind) :
    kindOf c more = some kind ∧ ∀ d ∈ more, continues c d = true := by
  cases h with
  | opening => exact ⟨rfl, nofun⟩
  | closing => exact ⟨rfl, nofun⟩
  | quote => exact ⟨rfl, nofun⟩
  | dot => exact ⟨rfl, nofun⟩
  | sign hsign =>
      refine ⟨?_, nofun⟩
      simp [kindOf, hsign]
  | name first rest =>
      rw [kindOf_of_isInitial first, continues_of_isInitial first]
      exact ⟨rfl, rest⟩
  | constant first rest =>
      rw [continues_of_isDigit first, ofInt_constantNumber first, kindOf_of_isDigit first]
      exact ⟨rfl, rest⟩
  | signed hsign nonempty rest =>
      rw [continues_of_sign hsign, ofInt_constantNumber_signed hsign]
      refine ⟨?_, rest⟩
      simp [kindOf, hsign, nonempty]

theorem lexeme_of_sign
    {c : Char}
    {more : List Char}
    {kind : TokenKind}
    (hsign : c = '+' ∨ c = '-')
    (hkind : kindOf c more = some kind)
    (hmore : ∀ d ∈ more, d.isDigit = true) :
    Lexeme (c :: more) kind := by
  cases more with
  | nil =>
      simp only [kindOf, hsign, List.isEmpty_nil, if_true, Option.some.injEq] at hkind
      exact hkind ▸ .sign hsign
  | cons d more =>
      simp only [kindOf, hsign, List.isEmpty_cons, if_true, Bool.false_eq_true, if_false,
        Option.some.injEq, ← ofInt_constantNumber_signed hsign] at hkind
      exact hkind ▸ .signed hsign (List.cons_ne_nil d more) hmore

/-- A character that starts neither a name nor a constant is a token by itself or starts none. -/
theorem lexeme_of_mark
    {c : Char}
    {more : List Char}
    {kind : TokenKind}
    (hsign : ¬(c = '+' ∨ c = '-'))
    (hdigit : ¬c.isDigit = true)
    (hinitial : ¬isInitial c = true)
    (hkind : kindOf c more = some kind)
    (hmore : ∀ d ∈ more, continues c d = true) :
    Lexeme (c :: more) kind := by
  obtain rfl : more = [] := by
    cases more with
    | nil => rfl
    | cons d more =>
        have hd := hmore d List.mem_cons_self
        simp [continues, hsign, hdigit, hinitial] at hd
  simp only [kindOf, if_neg hsign, if_neg hdigit, if_neg hinitial] at hkind
  split_ifs at hkind with hopening hclosing hquote hdot <;> cases hkind
  · exact hopening ▸ .opening
  · exact hclosing ▸ .closing
  · exact hquote ▸ .quote
  · exact hdot ▸ .dot

theorem lexeme_cons_iff
    {c : Char}
    {more : List Char}
    {kind : TokenKind} :
    Lexeme (c :: more) kind ↔ kindOf c more = some kind ∧ ∀ d ∈ more, continues c d = true := by
  refine ⟨Lexeme.kindOf_eq, ?_⟩
  rintro ⟨hkind, hmore⟩
  by_cases hsign : c = '+' ∨ c = '-'
  · rw [continues_of_sign hsign] at hmore
    exact lexeme_of_sign hsign hkind hmore
  · by_cases hdigit : c.isDigit = true
    · rw [continues_of_isDigit hdigit] at hmore
      rw [kindOf_of_isDigit hdigit, ← ofInt_constantNumber hdigit] at hkind
      cases hkind
      exact .constant hdigit hmore
    · by_cases hinitial : isInitial c = true
      · rw [continues_of_isInitial hinitial] at hmore
        rw [kindOf_of_isInitial hinitial] at hkind
        cases hkind
        exact .name hinitial hmore
      · exact lexeme_of_mark hsign hdigit hinitial hkind hmore

theorem Lexeme.exists_cons
    {chars : List Char}
    {kind : TokenKind}
    (h : Lexeme chars kind) :
    ∃ c more, chars = c :: more := by
  cases h <;> exact ⟨_, _, rfl⟩

/-- The text of a token determines the token. -/
theorem Lexeme.unique
    {chars : List Char}
    {kind kind' : TokenKind}
    (h : Lexeme chars kind)
    (h' : Lexeme chars kind') :
    kind = kind' := by
  obtain ⟨c, more, rfl⟩ := h.exists_cons
  obtain ⟨hkind, -⟩ := lexeme_cons_iff.mp h
  obtain ⟨hkind', -⟩ := lexeme_cons_iff.mp h'
  exact Option.some.inj (hkind.symm.trans hkind')

/-- The number of an integer constant is reduced to 64 bits with a sign. -/
theorem Lexeme.toInt_eq
    {chars : List Char}
    {value : Int64}
    (h : Lexeme chars (.int value)) :
    value.toInt = (constantNumber chars).bmod (2 ^ 64) := by
  cases h <;> exact Int64.toInt_ofInt

/-- Whether a character starts a token does not depend on what follows it. -/
theorem kindOf_isSome
    (c : Char)
    (more other : List Char) :
    (kindOf c more).isSome = (kindOf c other).isSome := by
  unfold kindOf
  split_ifs <;> rfl

section Cutting

theorem getElem?_of_drop_eq_cons
    {text rest : List Char}
    {position : Nat}
    {c : Char}
    (hdrop : text.drop position = c :: rest) :
    text[position]? = some c ∧ text.drop (position + 1) = rest ∧ position + 1 ≤ text.length := by
  have hc : text[position]? = some c := by
    rw [← Nat.add_zero position, ← List.getElem?_drop, hdrop]
    rfl
  obtain ⟨hlt, -⟩ := List.getElem?_eq_some_iff.mp hc
  refine ⟨hc, ?_, hlt⟩
  rw [← List.drop_drop, hdrop]
  rfl

variable {text : List Char} {position : Nat} {c : Char} {rest : List Char}

/-- Characters of a class at the start of a text are taken with it. -/
theorem le_length_takeWhile
    {p : Char → Bool}
    {count : Nat}
    (hcount : count ≤ rest.length)
    (hall : ∀ d ∈ rest.take count, p d = true) :
    count ≤ (rest.takeWhile p).length := by
  have htake : rest.takeWhile p = rest.take count ++ (rest.drop count).takeWhile p := by
    rw [← List.takeWhile_append_of_pos hall, List.take_append_drop]
  rw [htake, List.length_append, List.length_take_of_le hcount]
  exact Nat.le_add_right _ _

/-- The character behind a token is none that the token goes on with. -/
theorem not_continues_of_scan
    {kind : TokenKind}
    {more : Nat}
    {next : Char}
    (hscan : scan c rest = some (kind, more))
    (hnext : rest[more]? = some next) :
    continues c next = false := by
  obtain ⟨-, hmore⟩ := scan_some_iff.mp hscan
  rw [← Bool.not_eq_true]
  intro hcontinues
  obtain ⟨hlt, -⟩ := List.getElem?_eq_some_iff.mp hnext
  have hall : ∀ d ∈ rest.take (more + 1), continues c d = true := by
    intro d hd
    rw [List.take_add_one, hnext] at hd
    rcases List.mem_append.mp hd with hd | hd
    · rw [hmore, ← List.prefix_iff_eq_take.mp (List.takeWhile_prefix _)] at hd
      exact List.mem_takeWhile_imp hd
    · rw [List.mem_singleton.mp hd]
      exact hcontinues
  have hle := le_length_takeWhile hlt hall
  omega

theorem lexeme_of_scan
    {kind : TokenKind}
    {more : Nat}
    (hscan : scan c rest = some (kind, more)) :
    Lexeme (c :: rest.take more) kind := by
  obtain ⟨hkind, hmore⟩ := scan_some_iff.mp hscan
  rw [hmore, ← List.prefix_iff_eq_take.mp (List.takeWhile_prefix _)]
  exact lexeme_cons_iff.mpr ⟨hkind, fun d => List.mem_takeWhile_imp⟩

/-- No longer piece of the text is a token. -/
theorem not_lexeme_of_scan
    {kind other : TokenKind}
    {more count : Nat}
    (hscan : scan c rest = some (kind, more))
    (hlonger : more < count)
    (hcount : count ≤ rest.length) :
    ¬Lexeme (c :: rest.take count) other := by
  intro h
  obtain ⟨-, hmore⟩ := scan_some_iff.mp hscan
  have hle := le_length_takeWhile hcount (lexeme_cons_iff.mp h).2
  omega

/-- A character that is found to start no token is the start of no token's text. -/
theorem not_lexeme_of_scan_none
    (hscan : scan c rest = none)
    (more : List Char)
    (kind : TokenKind) :
    ¬Lexeme (c :: more) kind := by
  intro h
  rw [scan_eq, Option.map_eq_none_iff] at hscan
  have hsome := kindOf_isSome c more (rest.takeWhile (continues c))
  rw [(lexeme_cons_iff.mp h).1, hscan] at hsome
  cases hsome

/-- The token that is found at a position is cut from the text. -/
theorem cutFrom_of_scan
    {kind : TokenKind}
    {more : Nat}
    (hdrop : text.drop position = c :: rest)
    (hscan : scan c rest = some (kind, more)) :
    (⟨kind, position, position + 1 + more⟩ : Token).CutFrom text := by
  have hlength : text.length = position + 1 + rest.length := by
    have hdropped := congrArg List.length hdrop
    rw [List.length_drop, List.length_cons] at hdropped
    omega
  have hmore : more ≤ rest.length := by
    rw [(scan_some_iff.mp hscan).2]
    exact (List.takeWhile_prefix _).length_le
  have hpiece : ∀ count, text.extract position (position + 1 + count) = c :: rest.take count := by
    intro count
    rw [List.extract_eq_take_drop, hdrop, Nat.add_assoc, Nat.add_sub_cancel_left, Nat.add_comm,
      List.take_succ_cons]
  have hhead : ∀ d, text[position]? = some d → d = c := by
    intro d hd
    exact Option.some.inj (hd.symm.trans (getElem?_of_drop_eq_cons hdrop).1)
  have hstop : ∀ next, text[position + 1 + more]? = some next → continues c next = false := by
    intro next hnext
    refine not_continues_of_scan hscan ?_
    rw [← hnext, Nat.add_assoc, ← List.getElem?_drop, hdrop, Nat.add_comm 1, List.getElem?_cons_succ]
  constructor
  · show position < position + 1 + more
    omega
  · show position + 1 + more ≤ text.length
    omega
  · show Lexeme (text.extract position (position + 1 + more)) kind
    rw [hpiece]
    exact lexeme_of_scan hscan
  · intro d next hd hnext hclass
    obtain rfl := hhead d hd
    have hnot := hstop next hnext
    rcases or_assoc.mpr hclass with hsign | hdigit
    · rwa [continues_of_sign hsign] at hnot
    · rwa [continues_of_isDigit hdigit] at hnot
  · intro d next hd hnext hinitial
    obtain rfl := hhead d hd
    have hnot := hstop next hnext
    rwa [continues_of_isInitial hinitial] at hnot
  · intro hi other (hlonger : position + 1 + more < hi) hle
    obtain ⟨count, rfl⟩ : ∃ count, hi = position + 1 + count := ⟨hi - (position + 1), by omega⟩
    show ¬Lexeme (text.extract position (position + 1 + count)) other
    rw [hpiece]
    exact not_lexeme_of_scan hscan (by omega) (by omega)

end Cutting

namespace Tiles

variable {text : List Char} {first last : Nat} {tokens : List Token}

theorem nil (text : List Char) (position : Nat) : Tiles text position [] position where
  cut := nofun
  inside := nofun
  ordered := .nil
  blank position' c hle hlt := by omega

/-- A blank in front of tiles. -/
theorem blank_cons
    {c : Char}
    (hc : text[first]? = some c)
    (hblank : isBlank c = true)
    (h : Tiles text (first + 1) tokens last) :
    Tiles text first tokens last where
  cut := h.cut
  inside token htoken := ⟨Nat.le_of_succ_le (h.inside token htoken).1, (h.inside token htoken).2⟩
  ordered := h.ordered
  blank position d hle hlt hd hfree := by
    rcases Nat.eq_or_lt_of_le hle with rfl | hlt'
    · rw [hc] at hd
      cases hd
      exact hblank
    · exact h.blank position d hlt' hlt hd hfree

/-- A token in front of tiles. -/
theorem token_cons
    {token : Token}
    (hcut : token.CutFrom text)
    (hle : token.hi ≤ last)
    (h : Tiles text token.hi tokens last) :
    Tiles text token.lo (token :: tokens) last where
  cut := List.forall_mem_cons.mpr ⟨hcut, h.cut⟩
  inside := by
    refine List.forall_mem_cons.mpr ⟨⟨Nat.le_refl _, hle⟩, fun other hother => ?_⟩
    obtain ⟨hlo, hhi⟩ := h.inside other hother
    exact ⟨Nat.le_trans (Nat.le_of_lt hcut.nonempty) hlo, hhi⟩
  ordered := .cons (fun other hother => (h.inside other hother).1) h.ordered
  blank position c hle hlt hc hfree := by
    obtain ⟨hfirst, hothers⟩ := List.forall_mem_cons.mp hfree
    exact h.blank position c (by omega) hlt hc hothers

end Tiles

/-- Cutting a text from a position on leaves tiles, which end where cutting ends. -/
theorem exists_tiles_ofChars
    (text : List Char)
    (position : Nat)
    (chars : List Char)
    (hdrop : text.drop position = chars)
    (hle : position ≤ text.length) :
    ∃ last,
      position ≤ last ∧
      Tiles text position (Lexed.ofChars position chars).tokens last ∧
      Ends text last (Lexed.ofChars position chars).final := by
  fun_induction Lexed.ofChars position chars with
  | case1 position =>
      have hend : text.length ≤ position := List.drop_eq_nil_iff.mp hdrop
      exact ⟨position, Nat.le_refl _, .nil text position, rfl, Nat.le_antisymm hle hend⟩
  | case2 position c rest hblank ih =>
      obtain ⟨hc, hrest, hlt⟩ := getElem?_of_drop_eq_cons hdrop
      obtain ⟨last, hlast, htiles, hends⟩ := ih hrest hlt
      exact ⟨last, Nat.le_of_succ_le hlast, htiles.blank_cons hc hblank, hends⟩
  | case3 position c rest hblank hscan =>
      obtain ⟨hc, -, -⟩ := getElem?_of_drop_eq_cons hdrop
      refine ⟨position, Nat.le_refl _, .nil text position, rfl, hc, ?_, ?_⟩
      · exact Bool.eq_false_iff.mpr hblank
      · exact not_lexeme_of_scan_none hscan
  | case4 position c rest hblank kind more hscan ih =>
      have hcut := cutFrom_of_scan hdrop hscan
      obtain ⟨-, hrest, -⟩ := getElem?_of_drop_eq_cons hdrop
      obtain ⟨last, hlast, htiles, hends⟩ := ih (by rw [← hrest, List.drop_drop]) hcut.within
      exact ⟨last, by omega, htiles.token_cons hcut hlast, hends⟩

/-- Moving a cursor from the first token on shows the tokens in order, and behind the last one how cutting
the text has ended. -/
theorem Cursor.moved_eq
    (text : String)
    (count : Nat) :
    Cursor.moved text count =
      Lexed.enter ⟨(Lexed.ofString text).tokens.drop count, (Lexed.ofString text).final⟩ := by
  induction count with
  | zero => rfl
  | succ count ih =>
      rw [Cursor.moved, ih, ← List.drop_drop]
      generalize (Lexed.ofString text).tokens.drop count = tokens
      generalize (Lexed.ofString text).final = final
      cases tokens with
      | cons token tokens => rfl
      | nil => cases final <;> rfl

/-- The tokens of a text tile it. They lie in it in order, each is the text that its kind is written as and
the longest such piece that starts there, and all that is not covered by them is blank. This goes on to the
end of the text, or to a character that is not blank and can start no token. The text of a token determines
its kind, and the value of an integer constant is the number that it denotes, reduced to 64 bits with a sign.
A cursor that is moved from the first token on shows the tokens in order and then how the tiles end. -/
theorem tokens_tile_the_text (text : String) :
    let lexed := Lexed.ofString text
    (∃ last,
      Tiles text.toList 0 lexed.tokens last ∧
      Ends text.toList last lexed.final) ∧
    (∀ chars kind kind', Lexeme chars kind → Lexeme chars kind' → kind = kind') ∧
    (∀ token ∈ lexed.tokens, ∀ value, token.kind = .int value →
      value.toInt = (constantNumber (text.toList.extract token.lo token.hi)).bmod (2 ^ 64)) ∧
    (∀ number token, lexed.tokens[number]? = some token →
      ∃ ahead, Cursor.moved text number = .ok (.on token ahead)) ∧
    ∀ number, lexed.tokens.length ≤ number →
      Cursor.moved text number = lexed.final.map Cursor.finished := by
  intro lexed
  obtain ⟨last, -, htiles, hends⟩ :=
    exists_tiles_ofChars text.toList 0 text.toList rfl (Nat.zero_le _)
  refine ⟨⟨last, htiles, hends⟩, ?_, ?_, ?_, ?_⟩
  · intro chars kind kind' h h'
    exact h.unique h'
  · intro token htoken value hvalue
    have hspelled := (htiles.cut token htoken).spelled
    rw [hvalue] at hspelled
    exact hspelled.toInt_eq
  · intro number token htoken
    obtain ⟨hlt, hget⟩ := List.getElem?_eq_some_iff.mp htoken
    rw [Cursor.moved_eq, List.drop_eq_getElem_cons hlt, hget]
    exact ⟨_, rfl⟩
  · intro number hnumber
    rw [Cursor.moved_eq, List.drop_eq_nil_of_le hnumber]
    cases hfinal : (Lexed.ofString text).final <;> rfl

end SmallLisp
