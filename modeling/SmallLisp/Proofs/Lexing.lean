import Mathlib.Data.List.TakeWhile
import SmallLisp.Datum.Printer
import SmallLisp.Token.Lexer

/-!
# Lexing a text piece by piece

A token ends where its class of characters ends, so it is found again in every text that starts with it
and does not go on with a character of that class.

* `continues` is the class of characters that a token goes on with, `kindOf` the token with a given text;
* `scan_eq`: `scan` takes all characters of the class, and finds the token with that text;
* `IsToken` says that some characters are one token, `Breaks` that a text goes on with none;
* `Cuts` says that characters are cut into tokens of given kinds in front of a text; texts that are cut
  in this way are put together by `Cuts.append`;
* `isToken_integerChars`: a printed integer is the token of that integer.
-/

namespace SmallLisp

/-- The characters with which the token that starts with `c` goes on. -/
def continues (c : Char) : Char → Bool :=
  if c = '+' ∨ c = '-' ∨ c.isDigit = true then Char.isDigit
  else if isInitial c then isSubsequent
  else fun _ => false

/-- The token with the text `c :: more`. -/
def kindOf (c : Char) (more : List Char) : Option TokenKind :=
  if c = '+' ∨ c = '-' then
    if more.isEmpty then some (.ident (String.singleton c)) else some (.int (signedValue c more))
  else if c.isDigit then some (.int (numeralValue (c :: more)))
  else if c = '(' then some .opening
  else if c = ')' then some .closing
  else if c = '\x27' then some .quote
  else if c = '.' then some .dot
  else if isInitial c then some (.ident (String.ofList (c :: more)))
  else none

/-- A text that goes on with no character that can belong to the token before it. -/
def Breaks (rest : List Char) : Prop :=
  ∀ c, rest.head? = some c → isSubsequent c = false

/-- Characters that are one token. -/
def IsToken (chars : List Char) (kind : TokenKind) : Prop :=
  ∃ c more, chars = c :: more ∧ isBlank c = false ∧ scan c more = some (kind, more.length)

/-- Puts tokens in front. -/
def Lexed.prepend (tokens : List Token) (lexed : Lexed) : Lexed :=
  { lexed with tokens := tokens ++ lexed.tokens }

/-- In front of `rest`, at whatever position, `chars` are cut into tokens of the given kinds. -/
def Cuts (chars : List Char) (kinds : List TokenKind) (rest : List Char) : Prop :=
  ∀ position, ∃ tokens,
    tokens.map Token.kind = kinds ∧
    Lexed.ofChars position (chars ++ rest) =
      (Lexed.ofChars (position + chars.length) rest).prepend tokens

theorem isSubsequent_of_isDigit
    {c : Char}
    (h : c.isDigit = true) :
    isSubsequent c = true := by
  simp [isSubsequent, h]

theorem isSubsequent_of_continues
    {c d : Char}
    (h : continues c d = true) :
    isSubsequent d = true := by
  unfold continues at h
  split at h
  · exact isSubsequent_of_isDigit h
  · split at h
    · exact h
    · cases h

/-- The token at the start of a text takes all characters of its class. -/
theorem scan_eq
    (c : Char)
    (rest : List Char) :
    scan c rest =
      (kindOf c (rest.takeWhile (continues c))).map fun kind =>
        (kind, (rest.takeWhile (continues c)).length) := by
  by_cases hsign : c = '+' ∨ c = '-'
  · have hclass : continues c = Char.isDigit := by
      simp [continues, or_assoc.symm, hsign]
    by_cases hempty : (rest.takeWhile Char.isDigit).isEmpty = true
    · simp [scan, kindOf, hclass, hsign, List.isEmpty_iff.mp hempty]
    · simp [scan, kindOf, hclass, hsign, hempty]
  · by_cases hdigit : c.isDigit = true
    · have hclass : continues c = Char.isDigit := by
        simp [continues, hdigit]
      simp [scan, kindOf, hclass, hsign, hdigit]
    · by_cases hinitial : isInitial c = true
      · have hclass : continues c = isSubsequent := by
          simp [continues, hsign, hdigit, hinitial]
        have hopening : c ≠ '(' := by
          rintro rfl
          cases hinitial
        have hclosing : c ≠ ')' := by
          rintro rfl
          cases hinitial
        have hquote : c ≠ '\x27' := by
          rintro rfl
          cases hinitial
        have hdot : c ≠ '.' := by
          rintro rfl
          cases hinitial
        simp [scan, kindOf, hclass, hsign, hdigit, hinitial, hopening, hclosing, hquote, hdot]
      · have hclass : continues c = fun _ => false := by
          simp [continues, hsign, hdigit, hinitial]
        have hnone : rest.takeWhile (fun _ => false) = [] := by
          cases rest <;> rfl
        simp only [scan, kindOf, hclass, hnone, if_neg hsign, if_neg hdigit, if_neg hinitial]
        repeat' split
        all_goals rfl

/-- A token depends only on the characters of its class. -/
theorem scan_congr
    {c : Char}
    {rest other : List Char}
    (h : other.takeWhile (continues c) = rest.takeWhile (continues c)) :
    scan c other = scan c rest := by
  rw [scan_eq, scan_eq, h]

theorem scan_some_iff
    {c : Char}
    {rest : List Char}
    {kind : TokenKind}
    {more : Nat} :
    scan c rest = some (kind, more) ↔
      kindOf c (rest.takeWhile (continues c)) = some kind ∧
      more = (rest.takeWhile (continues c)).length := by
  rw [scan_eq]
  cases kindOf c (rest.takeWhile (continues c)) <;> simp [eq_comm]

theorem take_of_scan
    {c : Char}
    {rest : List Char}
    {kind : TokenKind}
    {more : Nat}
    (h : scan c rest = some (kind, more)) :
    rest.take more = rest.takeWhile (continues c) := by
  rw [(scan_some_iff.mp h).2]
  exact (List.prefix_iff_eq_take.mp (List.takeWhile_prefix _)).symm

/-- The characters that a token takes are the same token by themselves. -/
theorem scan_take
    {c : Char}
    {rest : List Char}
    {kind : TokenKind}
    {more : Nat}
    (h : scan c rest = some (kind, more)) :
    scan c (rest.take more) = some (kind, (rest.take more).length) := by
  rw [take_of_scan h, scan_some_iff, List.takeWhile_idem]
  exact ⟨(scan_some_iff.mp h).1, rfl⟩

/-- What cannot go on with a token does not change it. -/
theorem scan_append
    {rest : List Char}
    (hbreaks : Breaks rest)
    (c : Char)
    (front : List Char) :
    scan c (front ++ rest) = scan c front := by
  apply scan_congr
  have hnone : rest.takeWhile (continues c) = [] := by
    cases rest with
    | nil => rfl
    | cons d rest =>
        have hd : continues c d = false := by
          rw [← Bool.not_eq_true]
          intro hcontinues
          have hbreak := hbreaks d rfl
          rw [isSubsequent_of_continues hcontinues] at hbreak
          cases hbreak
        rw [List.takeWhile_cons_of_neg (by simp [hd])]
  rw [List.takeWhile_append, hnone]
  split
  · rename_i hall
    rw [List.append_nil]
    exact ((List.takeWhile_prefix _).eq_of_length hall).symm
  · rfl

namespace Cuts

variable {rest : List Char}

/-- The empty text has no tokens. -/
theorem nil : Cuts [] [] rest :=
  fun _ => ⟨[], rfl, rfl⟩

/-- Texts that are cut one after the other. -/
theorem append
    {front back : List Char}
    {kinds kinds' : List TokenKind}
    (hfront : Cuts front kinds (back ++ rest))
    (hback : Cuts back kinds' rest) :
    Cuts (front ++ back) (kinds ++ kinds') rest := by
  intro position
  obtain ⟨tokens, rfl, htokens⟩ := hfront position
  obtain ⟨tokens', rfl, htokens'⟩ := hback (position + front.length)
  refine ⟨tokens ++ tokens', by simp, ?_⟩
  rw [List.append_assoc, htokens, htokens', List.length_append, Nat.add_assoc]
  simp [Lexed.prepend]

/-- A blank is no token. -/
theorem blank
    {c : Char}
    (hblank : isBlank c = true) :
    Cuts [c] [] rest := by
  intro position
  exact ⟨[], rfl, Lexed.ofChars_blank hblank position rest⟩

/-- Blanks are no tokens. -/
theorem blanks
    {gap : List Char}
    (hblank : ∀ c ∈ gap, isBlank c = true) :
    Cuts gap [] rest := by
  induction gap with
  | nil => exact nil
  | cons c gap ih =>
      rw [List.forall_mem_cons] at hblank
      exact (blank hblank.1).append (ih hblank.2)

/-- A token in front of a text that does not go on with it. -/
theorem token_of_scan
    {c : Char}
    {more : List Char}
    {kind : TokenKind}
    (hblank : isBlank c = false)
    (hscan : scan c (more ++ rest) = some (kind, more.length)) :
    Cuts (c :: more) [kind] rest := by
  intro position
  refine ⟨[⟨kind, position, position + 1 + more.length⟩], rfl, ?_⟩
  rw [List.cons_append, Lexed.ofChars_scan hblank hscan, List.drop_left, List.length_cons,
    Nat.add_assoc, Nat.add_comm 1]
  rfl

/-- A token in front of a text that breaks. -/
theorem token
    {chars : List Char}
    {kind : TokenKind}
    (htoken : IsToken chars kind)
    (hbreaks : Breaks rest) :
    Cuts chars [kind] rest := by
  obtain ⟨c, more, rfl, hblank, hscan⟩ := htoken
  exact token_of_scan hblank ((scan_append hbreaks c more).trans hscan)

/-- A text that can be cut to its end is cut into the same tokens in front of a text that breaks. -/
theorem of_final
    (hbreaks : Breaks rest)
    {position last : Nat}
    {chars : List Char}
    (hfinal : (Lexed.ofChars position chars).final = .ok last) :
    Cuts chars (Lexed.ofChars position chars).kinds rest := by
  fun_induction Lexed.ofChars position chars with
  | case1 => exact nil
  | case2 position c chars hblank ih => exact (blank hblank).append (ih hfinal)
  | case3 => cases hfinal
  | case4 position c chars hblank kind more hscan ih =>
      have hlength : (chars.take more).length = more := by
        rw [(scan_some_iff.mp hscan).2]
        exact List.length_take_of_le (List.takeWhile_prefix _).length_le
      have hfront : Cuts (c :: chars.take more) [kind] (chars.drop more ++ rest) := by
        refine token_of_scan (by simpa using hblank) ?_
        rw [← List.append_assoc, List.take_append_drop, scan_append hbreaks, hscan, hlength]
      have hall := hfront.append (ih hfinal)
      rwa [List.cons_append, List.take_append_drop] at hall

/-- A text all of whose characters are cut is cut to its end. -/
theorem ofString
    {text : String}
    {kinds : List TokenKind}
    (h : Cuts text.toList kinds []) :
    (Lexed.ofString text).final = .ok text.length ∧ (Lexed.ofString text).kinds = kinds := by
  obtain ⟨tokens, rfl, htokens⟩ := h 0
  rw [List.append_nil, Lexed.ofChars_nil, Nat.zero_add] at htokens
  rw [Lexed.ofString, htokens]
  exact ⟨rfl, congrArg _ (List.append_nil tokens)⟩

end Cuts

section Characters

/-- The characters that occur in texts that can be cut to their end. -/
def isLexical (c : Char) : Bool :=
  isBlank c || isSubsequent c || c = '+' || c = '(' || c = ')' || c = '\x27' || c = '.'

theorem isLexical_of_isSubsequent
    {c : Char}
    (h : isSubsequent c = true) :
    isLexical c = true := by
  simp [isLexical, h]

/-- A character that starts a token is one of them. -/
theorem isLexical_of_kindOf
    {c : Char}
    {more : List Char}
    {kind : TokenKind}
    (h : kindOf c more = some kind) :
    isLexical c = true := by
  by_cases hsubsequent : isSubsequent c = true
  · exact isLexical_of_isSubsequent hsubsequent
  · simp only [isSubsequent, Bool.or_eq_true, decide_eq_true_eq, not_or] at hsubsequent
    obtain ⟨⟨⟨⟨hinitial, hdigit⟩, -⟩, -⟩, hminus⟩ := hsubsequent
    unfold kindOf at h
    split_ifs at h <;> simp_all [isLexical]

/-- A text that can be cut to its end holds no other characters. -/
theorem isLexical_of_final
    {position last : Nat}
    {chars : List Char}
    (hfinal : (Lexed.ofChars position chars).final = .ok last) :
    ∀ c ∈ chars, isLexical c = true := by
  fun_induction Lexed.ofChars position chars with
  | case1 => exact fun c hc => absurd hc List.not_mem_nil
  | case2 position c chars hblank ih =>
      refine List.forall_mem_cons.mpr ⟨?_, ih hfinal⟩
      simp [isLexical, hblank]
  | case3 => cases hfinal
  | case4 position c chars hblank kind more hscan ih =>
      refine List.forall_mem_cons.mpr
        ⟨isLexical_of_kindOf (scan_some_iff.mp hscan).1, fun d hd => ?_⟩
      rw [← List.take_append_drop more chars, List.mem_append, take_of_scan hscan] at hd
      rcases hd with htoken | hrest
      · exact isLexical_of_isSubsequent (isSubsequent_of_continues (List.mem_takeWhile_imp htoken))
      · exact ih hfinal d hrest

end Characters

theorem numeralValue_fold
    (digits : List Char)
    (value : Nat) :
    digits.foldl (fun value c => value * 10 + digitValue c) (Int64.ofNat value) =
      Int64.ofNat (Nat.ofDigitChars 10 digits value) := by
  induction digits generalizing value with
  | nil => rfl
  | cons c digits ih =>
      have hstep : Int64.ofNat value * 10 + digitValue c =
          Int64.ofNat (10 * value + (c.toNat - '0'.toNat)) := by
        rw [Int64.ofNat_add, Int64.ofNat_mul, Int64.mul_comm]
        rfl
      rw [List.foldl_cons, Nat.ofDigitChars_cons, hstep, ih]

/-- A numeral has the value that its digits denote, modulo 64 bits. -/
theorem numeralValue_eq (digits : List Char) :
    numeralValue digits = Int64.ofNat (Nat.ofDigitChars 10 digits 0) :=
  numeralValue_fold digits 0

/-- The code points of the digits. -/
theorem toNat_of_isDigit
    {c : Char}
    (h : c.isDigit = true) :
    48 ≤ c.toNat ∧ c.toNat ≤ 57 :=
  (Bool.and_eq_true_iff.mp h).imp of_decide_eq_true of_decide_eq_true

/-- The letters lie between two code points, with a few other characters. -/
theorem toNat_of_isAlpha
    {c : Char}
    (h : c.isAlpha = true) :
    65 ≤ c.toNat ∧ c.toNat ≤ 122 := by
  rcases Bool.or_eq_true_iff.mp h with hupper | hlower
  · have hrange : 65 ≤ c.toNat ∧ c.toNat ≤ 90 := of_decide_eq_true hupper
    exact ⟨hrange.1, Nat.le_trans hrange.2 (by decide)⟩
  · have hrange : 97 ≤ c.toNat ∧ c.toNat ≤ 122 :=
      (Bool.and_eq_true_iff.mp hlower).imp of_decide_eq_true of_decide_eq_true
    exact ⟨Nat.le_trans (by decide) hrange.1, hrange.2⟩

/-- None of the characters that are printed among the first 128 is blank. -/
theorem isBlank_of_printed
    {c : Char}
    (hlow : 33 ≤ c.toNat)
    (hhigh : c.toNat ≤ 126) :
    isBlank c = false := by
  simp only [isBlank, blankRanges, inRanges]
  grind

theorem isBlank_of_isDigit
    {c : Char}
    (h : c.isDigit = true) :
    isBlank c = false := by
  obtain ⟨hlow, hhigh⟩ := toNat_of_isDigit h
  exact isBlank_of_printed (Nat.le_trans (by decide) hlow) (Nat.le_trans hhigh (by decide))

theorem isBlank_of_isAlpha
    {c : Char}
    (h : c.isAlpha = true) :
    isBlank c = false := by
  obtain ⟨hlow, hhigh⟩ := toNat_of_isAlpha h
  exact isBlank_of_printed (Nat.le_trans (by decide) hlow) (Nat.le_trans hhigh (by decide))

/-- No character that goes on with a token is blank. -/
theorem isBlank_of_isSubsequent
    {c : Char}
    (h : isSubsequent c = true) :
    isBlank c = false := by
  by_cases hdigit : c.isDigit = true
  · exact isBlank_of_isDigit hdigit
  · by_cases halpha : c.isAlpha = true
    · exact isBlank_of_isAlpha halpha
    · simp only [isSubsequent, isInitial, hdigit, halpha, Bool.false_or, Bool.or_false,
        Bool.or_eq_true, decide_eq_true_eq, or_assoc] at h
      rcases h with rfl | rfl | rfl | rfl | rfl | rfl | rfl | rfl | rfl <;> decide

/-- A text that starts with a blank goes on with no token. -/
theorem breaks_of_isBlank
    {c : Char}
    (h : isBlank c = true)
    (rest : List Char) :
    Breaks (c :: rest) := by
  rintro _ ⟨⟩
  rw [← Bool.not_eq_true]
  intro hsubsequent
  cases h.symm.trans (isBlank_of_isSubsequent hsubsequent)

theorem numeralValue_toDigits (number : Nat) :
    numeralValue (Nat.toDigits 10 number) = Int64.ofNat number := by
  rw [numeralValue_eq, Nat.ofDigitChars_ten_toDigits]

theorem takeWhile_toDigits (number : Nat) :
    (Nat.toDigits 10 number).takeWhile Char.isDigit = Nat.toDigits 10 number := by
  rw [List.takeWhile_eq_self_iff]
  exact fun c => Nat.isDigit_of_mem_toDigits (by decide) (by decide)

/-- The decimal digits of a number are the token of that number. -/
theorem isToken_toDigits (number : Nat) :
    IsToken (Nat.toDigits 10 number) (.int (Int64.ofNat number)) := by
  have hvalue := numeralValue_toDigits number
  have htake := takeWhile_toDigits number
  cases htext : Nat.toDigits 10 number with
  | nil => exact (Nat.toDigits_ne_nil htext).elim
  | cons c more =>
      have hc : c.isDigit = true :=
        Nat.isDigit_of_mem_toDigits (by decide) (by decide) (htext ▸ List.mem_cons_self)
      have hsign : ¬ (c = '+' ∨ c = '-') := by
        rintro (rfl | rfl) <;> cases hc
      rw [htext] at hvalue htake
      rw [List.takeWhile_cons_of_pos hc, List.cons.injEq] at htake
      refine ⟨c, more, rfl, isBlank_of_isDigit hc, ?_⟩
      simp [scan, hsign, hc, htake.2, hvalue]

/-- A printed integer is the token of that integer; the least one is printed as the negation of a
numeral that wraps. -/
theorem isToken_integerChars (value : Int64) :
    IsToken (integerChars value) (.int value) := by
  by_cases hneg : value.toInt < 0
  · have hvalue : -Int64.ofNat value.toInt.natAbs = value := by
      rw [← Int64.ofInt_eq_ofNat, ← Int64.ofInt_neg, Int.ofNat_natAbs_of_nonpos (by omega),
        Int.neg_neg, Int64.ofInt_toInt]
    have hsigned : signedValue '-' (Nat.toDigits 10 value.toInt.natAbs) = value := by
      rw [signedValue, if_pos rfl, numeralValue_toDigits, hvalue]
    refine ⟨'-', Nat.toDigits 10 value.toInt.natAbs, ?_, by decide, ?_⟩
    · simp [integerChars, hneg]
    · simp [scan, takeWhile_toDigits, hsigned, Nat.toDigits_ne_nil]
  · have hvalue : Int64.ofNat value.toInt.natAbs = value := by
      rw [← Int64.ofInt_eq_ofNat, Int.natAbs_of_nonneg (by omega), Int64.ofInt_toInt]
    have htoken := isToken_toDigits value.toInt.natAbs
    rw [hvalue] at htoken
    simpa [integerChars, hneg] using htoken

end SmallLisp
