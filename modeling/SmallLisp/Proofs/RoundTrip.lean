import SmallLisp.Proofs.Denotation
import SmallLisp.Proofs.Lexing
import SmallLisp.Proofs.Reading

/-!
# Printing and reading

What is printed can be read back, and gives the tree that was printed.

* `ReadableName` says that the name of a symbol is read as that symbol;
* `Datum.prints`: the text of a datum with readable names is cut into tokens that derive the datum;
* `readForm_print`: so this text is read as the datum;
* `readableName_of_readForm`: the names in a datum that was read are readable;
* `print_read_round_trip` says both for the values in a store.

The text of a datum is followed along its two ways of being printed: by itself, and as the rest of a
chain, from behind an element to the closing bracket.
-/

namespace SmallLisp

/-- A name that is one token by itself, a name, and does not start with a number sign. -/
def ReadableName (name : String) : Prop :=
  (∃ text, Lexed.ofString name = ⟨[⟨.ident text, 0, name.length⟩], .ok name.length⟩) ∧
    name.toList.head? ≠ some '#'

theorem le_lo_of_mem_ofChars
    {position : Nat}
    {chars : List Char}
    {token : Token}
    (h : token ∈ (Lexed.ofChars position chars).tokens) :
    position ≤ token.lo := by
  fun_induction Lexed.ofChars position chars with
  | case1 => cases h
  | case2 position c rest hblank ih => exact Nat.le_of_succ_le (ih h)
  | case3 => cases h
  | case4 position c rest hblank kind more hscan ih =>
      rcases List.mem_cons.mp h with rfl | h
      · exact Nat.le_refl _
      · have hle := ih h
        omega

/-- Characters are one token exactly if cutting them gives one token that covers them. -/
theorem isToken_iff_ofChars
    {chars : List Char}
    {kind : TokenKind} :
    IsToken chars kind ↔
      Lexed.ofChars 0 chars = ⟨[⟨kind, 0, chars.length⟩], .ok chars.length⟩ := by
  constructor
  · rintro ⟨c, more, rfl, hblank, hscan⟩
    rw [Lexed.ofChars_scan hblank hscan, List.drop_length, Lexed.ofChars_nil]
    simp [Lexed.push, Nat.add_comm]
  · intro h
    cases chars with
    | nil =>
        rw [Lexed.ofChars_nil] at h
        cases h
    | cons c rest =>
        cases hblank : isBlank c with
        | true =>
            rw [Lexed.ofChars_blank hblank] at h
            have hmem : ⟨kind, 0, (c :: rest).length⟩ ∈ (Lexed.ofChars (0 + 1) rest).tokens := by
              rw [h]
              exact List.mem_singleton_self _
            cases le_lo_of_mem_ofChars hmem
        | false =>
            cases hscan : scan c rest with
            | none =>
                rw [Lexed.ofChars_error hblank hscan] at h
                cases h
            | some found =>
                obtain ⟨kind', more⟩ := found
                rw [Lexed.ofChars_scan hblank hscan] at h
                simp only [Lexed.push, Lexed.mk.injEq, List.cons.injEq, Token.mk.injEq,
                  List.length_cons] at h
                obtain ⟨⟨⟨rfl, -, hmore⟩, -⟩, -⟩ := h
                obtain rfl : more = rest.length := by omega
                exact ⟨c, rest, rfl, hblank, hscan⟩

theorem kindOf_ident
    {c : Char}
    {more : List Char}
    {name : String}
    (h : kindOf c more = some (.ident name)) :
    name.toList = c :: more := by
  unfold kindOf at h
  split at h
  · split at h
    · rename_i hempty
      cases h
      simp [List.isEmpty_iff.mp hempty]
    · cases h
  · split at h
    · cases h
    · repeat' split at h
      all_goals cases h
      exact String.toList_ofList

/-- The name of a token that is a name is its text. -/
theorem IsToken.toList_ident
    {chars : List Char}
    {name : String}
    (h : IsToken chars (.ident name)) :
    name.toList = chars := by
  obtain ⟨c, more, rfl, -, hscan⟩ := h
  obtain ⟨hkind, hmore⟩ := scan_some_iff.mp hscan
  rw [← (List.takeWhile_prefix _).eq_of_length hmore.symm]
  exact kindOf_ident hkind

theorem readableName_iff
    {name : String} :
    ReadableName name ↔
      IsToken name.toList (.ident name) ∧ name.toList.head? ≠ some '#' := by
  unfold ReadableName Lexed.ofString
  rw [← String.length_toList]
  constructor
  · rintro ⟨⟨text, htext⟩, hplain⟩
    have htoken := isToken_iff_ofChars.mpr htext
    rw [String.toList_inj.mp htoken.toList_ident] at htoken
    exact ⟨htoken, hplain⟩
  · rintro ⟨htoken, hplain⟩
    exact ⟨⟨name, isToken_iff_ofChars.mp htoken⟩, hplain⟩

namespace Datum

/-- The text of a datum is cut into tokens that derive it. -/
def PrintsAs (datum : Datum) (kinds : List TokenKind) : Prop :=
  Derives kinds datum ∧ ∀ rest, Breaks rest → Cuts datum.chars kinds rest

/-- The text of a datum as the rest of a chain is cut into tokens that derive the chain. -/
def EndsAs (datum : Datum) (kinds : List TokenKind) : Prop :=
  (∀ front data,
    DerivesAll front data →
    data ≠ [] →
    Derives (.opening :: (front ++ kinds)) (.chain data datum)) ∧
  ∀ rest, Cuts datum.tailChars kinds rest

theorem breaks_tailChars
    (datum : Datum)
    (rest : List Char) :
    Breaks (datum.tailChars ++ rest) := by
  intro c hc
  cases datum with
  | nil =>
      obtain rfl : ')' = c := Option.some.inj hc
      decide
  | bool value =>
      cases value <;>
      · obtain rfl : ' ' = c := Option.some.inj hc
        decide
  | _ =>
      obtain rfl : ' ' = c := Option.some.inj hc
      decide

/-- The closing bracket is a token in front of any text. -/
theorem cuts_closing (rest : List Char) : Cuts [')'] [.closing] rest :=
  Cuts.token_of_scan (by decide) (by simp [scan])

/-- An atom that ends a chain is printed behind a dot. -/
theorem PrintsAs.endsAs
    {datum : Datum}
    {kinds : List TokenKind}
    (h : datum.PrintsAs kinds)
    (htail : datum.tailChars = [' '] ++ (['.'] ++ ([' '] ++ (datum.chars ++ [')'])))) :
    datum.EndsAs (.dot :: (kinds ++ [.closing])) := by
  refine ⟨fun front data hfront hdata => .dotted hfront hdata h.1, fun rest => ?_⟩
  have hbreaks : Breaks ([')'] ++ rest) := breaks_tailChars .nil rest
  have hdatum := (h.2 _ hbreaks).append (cuts_closing rest)
  have hdot : Cuts ['.'] [.dot] ([' '] ++ (datum.chars ++ [')']) ++ rest) :=
    Cuts.token_of_scan (by decide) (by simp [scan])
  rw [htail]
  exact (Cuts.blank (by decide)).append (hdot.append ((Cuts.blank (by decide)).append hdatum))

theorem printsAs_int (value : Int64) : (int value).PrintsAs [.int value] :=
  ⟨.int value, fun _ hrest => Cuts.token (isToken_integerChars value) hrest⟩

theorem printsAs_sym
    {name : String}
    (h : ReadableName name) :
    (sym name).PrintsAs [.ident name] := by
  obtain ⟨htoken, hplain⟩ := readableName_iff.mp h
  exact ⟨.symbol hplain, fun _ hrest => Cuts.token htoken hrest⟩

theorem printsAs_true : (bool true).PrintsAs [.ident "#t"] :=
  ⟨.true, fun _ hrest => Cuts.token ⟨'#', ['t'], rfl, by decide, by decide⟩ hrest⟩

theorem printsAs_false : (bool false).PrintsAs [.ident "#f"] :=
  ⟨.false, fun _ hrest => Cuts.token ⟨'#', ['f'], rfl, by decide, by decide⟩ hrest⟩

theorem PrintsAs.cons
    {first second : Datum}
    {kinds kinds' : List TokenKind}
    (hfirst : first.PrintsAs kinds)
    (hsecond : second.EndsAs kinds') :
    (Datum.cons first second).PrintsAs (.opening :: (kinds ++ kinds')) := by
  constructor
  · have helements : DerivesAll kinds [first] := by
      simpa using DerivesAll.cons hfirst.1 .nil
    exact hsecond.1 kinds [first] helements (List.cons_ne_nil _ _)
  · intro rest _
    have hrest := (hfirst.2 _ (second.breaks_tailChars rest)).append (hsecond.2 rest)
    have hopening : Cuts ['('] [.opening] (first.chars ++ second.tailChars ++ rest) :=
      Cuts.token_of_scan (by decide) (by simp [scan])
    exact hopening.append hrest

theorem EndsAs.cons
    {first second : Datum}
    {kinds kinds' : List TokenKind}
    (hfirst : first.PrintsAs kinds)
    (hsecond : second.EndsAs kinds') :
    (Datum.cons first second).EndsAs (kinds ++ kinds') := by
  constructor
  · intro front data hfront hdata
    have hchain := hsecond.1 _ _ (hfront.concat hfirst.1) (by simp)
    rwa [chain_append, List.append_assoc] at hchain
  · intro rest
    have hrest := (hfirst.2 _ (second.breaks_tailChars rest)).append (hsecond.2 rest)
    exact (Cuts.blank (c := ' ') (by decide)).append hrest

theorem PrintsAs.nil : Datum.nil.PrintsAs [.opening, .closing] := by
  refine ⟨.list .nil, fun rest _ => ?_⟩
  have hopening : Cuts ['('] [.opening] ([')'] ++ rest) :=
    Cuts.token_of_scan (by decide) (by simp [scan])
  exact hopening.append (cuts_closing rest)

theorem EndsAs.nil : Datum.nil.EndsAs [.closing] :=
  ⟨fun _ _ hfront _ => .list hfront, cuts_closing⟩

/-- The text of a datum with readable names is cut into tokens that derive it, by itself and as the
rest of a chain. -/
theorem prints
    (datum : Datum)
    (hnames : ∀ name ∈ datum.names, ReadableName name) :
    (∃ kinds, datum.PrintsAs kinds) ∧ ∃ kinds, datum.EndsAs kinds := by
  induction datum with
  | nil => exact ⟨⟨_, .nil⟩, ⟨_, .nil⟩⟩
  | int value =>
      have hprints := printsAs_int value
      exact ⟨⟨_, hprints⟩, ⟨_, hprints.endsAs rfl⟩⟩
  | bool value =>
      cases value with
      | false => exact ⟨⟨_, printsAs_false⟩, ⟨_, printsAs_false.endsAs rfl⟩⟩
      | true => exact ⟨⟨_, printsAs_true⟩, ⟨_, printsAs_true.endsAs rfl⟩⟩
  | sym name =>
      have hprints := printsAs_sym (hnames name (List.mem_singleton_self name))
      exact ⟨⟨_, hprints⟩, ⟨_, hprints.endsAs rfl⟩⟩
  | cons first second ihFirst ihSecond =>
      obtain ⟨⟨kinds, hfirst⟩, -⟩ := ihFirst fun name h => hnames name (List.mem_append_left _ h)
      obtain ⟨-, ⟨kinds', hsecond⟩⟩ := ihSecond fun name h => hnames name (List.mem_append_right _ h)
      exact ⟨⟨_, hfirst.cons hsecond⟩, ⟨_, EndsAs.cons hfirst hsecond⟩⟩

end Datum

/-- A printed datum with readable names is read as that datum. -/
theorem readForm_print
    {datum : Datum}
    (hnames : ∀ name ∈ datum.names, ReadableName name) :
    readForm datum.print = .ok datum := by
  obtain ⟨⟨kinds, hderives, hcuts⟩, -⟩ := datum.prints hnames
  have hbreaks : Breaks [] := by
    intro c hc
    cases hc
  have hprinted : Cuts datum.print.toList kinds [] := by
    rw [Datum.print, String.toList_ofList]
    exact hcuts [] hbreaks
  obtain ⟨hfinal, rfl⟩ := hprinted.ofString
  exact readForm_ok_iff.mpr ⟨⟨_, hfinal⟩, hderives⟩

theorem isToken_of_mem_ofChars
    {position : Nat}
    {chars : List Char}
    {token : Token}
    (h : token ∈ (Lexed.ofChars position chars).tokens) :
    ∃ text, IsToken text token.kind := by
  fun_induction Lexed.ofChars position chars with
  | case1 => cases h
  | case2 position c rest hblank ih => exact ih h
  | case3 => cases h
  | case4 position c rest hblank kind more hscan ih =>
      rcases List.mem_cons.mp h with rfl | h
      · exact ⟨c :: rest.take more, c, rest.take more, rfl, by simpa using hblank, scan_take hscan⟩
      · exact ih h

theorem Datum.mem_names_chain
    {name : String}
    {data : List Datum}
    {tail : Datum} :
    name ∈ (chain data tail).names ↔ (∃ datum ∈ data, name ∈ datum.names) ∨ name ∈ tail.names := by
  induction data with
  | nil => simp
  | cons first data ih => simp [names, ih, or_assoc]

/-- A symbol that tokens can give rise to: one of their names, or the one for quote marks. -/
def Spells (kinds : List TokenKind) (name : String) : Prop :=
  name = "quote" ∨ .ident name ∈ kinds ∧ name.toList.head? ≠ some '#'

theorem Spells.mono
    {kinds kinds' : List TokenKind}
    {name : String}
    (h : Spells kinds name)
    (hsub : kinds ⊆ kinds') :
    Spells kinds' name := by
  rcases h with hquote | ⟨hident, hplain⟩
  · exact .inl hquote
  · exact .inr ⟨hsub hident, hplain⟩

mutual

/-- The tokens of a datum spell its symbols. -/
theorem Derives.spells
    {kinds : List TokenKind}
    {datum : Datum} :
    Derives kinds datum → ∀ name ∈ datum.names, Spells kinds name
  | .int _ => fun _ h => nomatch h
  | .symbol plain => by
      intro name h
      cases List.mem_singleton.mp h
      exact .inr ⟨List.mem_singleton_self _, plain⟩
  | .true => fun _ h => nomatch h
  | .false => fun _ h => nomatch h
  | .quote inner => by
      have hinner := inner.spells
      intro name h
      rcases List.mem_append.mp h with hquote | h
      · exact .inl (List.mem_singleton.mp hquote)
      · rcases List.mem_append.mp h with hname | h
        · exact (hinner name hname).mono (by simp)
        · cases h
  | .list elements => by
      have helements := elements.spells
      intro name h
      rcases Datum.mem_names_chain.mp h with ⟨part, hpart, hname⟩ | hname
      · exact (helements part hpart name hname).mono (by simp)
      · cases hname
  | .dotted elements _ last => by
      have helements := elements.spells
      have hlast := last.spells
      intro name h
      rcases Datum.mem_names_chain.mp h with ⟨part, hpart, hname⟩ | hname
      · exact (helements part hpart name hname).mono (by simp)
      · exact (hlast name hname).mono fun kind hkind => by simp [hkind]

/-- The tokens of data spell their symbols. -/
theorem DerivesAll.spells
    {kinds : List TokenKind}
    {data : List Datum} :
    DerivesAll kinds data → ∀ datum ∈ data, ∀ name ∈ datum.names, Spells kinds name
  | .nil => fun _ h => nomatch h
  | .cons first rest => by
      have hfirst := first.spells
      have hrest := rest.spells
      intro datum hdatum name hname
      rcases List.mem_cons.mp hdatum with rfl | hdatum
      · exact (hfirst name hname).mono (by simp)
      · exact (hrest datum hdatum name hname).mono (by simp)

end

theorem readableName_quote : ReadableName "quote" := by
  rw [readableName_iff]
  exact ⟨⟨'q', ['u', 'o', 't', 'e'], rfl, by decide, by decide⟩, by decide⟩

/-- The symbols of a datum that tokens of a text derive have readable names. -/
theorem readableName_of_derives
    {text name : String}
    {tokens : List Token}
    {datum : Datum}
    (htokens : ∀ token ∈ tokens, token ∈ (Lexed.ofString text).tokens)
    (hderives : Derives (tokens.map Token.kind) datum)
    (hname : name ∈ datum.names) :
    ReadableName name := by
  rcases hderives.spells name hname with rfl | ⟨hident, hplain⟩
  · exact readableName_quote
  · obtain ⟨token, htoken, hkind⟩ := List.mem_map.mp hident
    obtain ⟨chars, hchars⟩ := isToken_of_mem_ofChars (htokens token htoken)
    rw [hkind] at hchars
    rw [readableName_iff]
    exact ⟨hchars.toList_ident.symm ▸ hchars, hplain⟩

theorem readableName_of_readForm
    {text name : String}
    {datum : Datum}
    (hread : readForm text = .ok datum)
    (hname : name ∈ datum.names) :
    ReadableName name :=
  readableName_of_derives (fun _ htoken => htoken) (readForm_ok_iff.mp hread).2 hname

namespace Store

/-- Two values, each in its store, stand for the same tree. -/
def SameTree (store : Store) (value : Value) (store' : Store) (value' : Value) : Prop :=
  ∃ datum, store.Denotes value datum ∧ store'.Denotes value' datum

/-- Without a cycle printing gives a text, or it fails because of a procedure. -/
theorem print_of_acyclic
    {store : Store}
    {value : Value}
    (hacyclic : store.Acyclic value) :
    (∃ datum, store.print value = .ok datum.print ∧ store.Denotes value datum) ∨
      store.print value = .error (.error (.evaluating .unprintable)) ∧
        store.HoldsProcedure value := by
  unfold print
  rcases datum_of_acyclic hacyclic with ⟨datum, hdatum, hdenotes⟩ | ⟨hdatum, hprocedure⟩
  · rw [hdatum]
    exact .inl ⟨datum, rfl, hdenotes⟩
  · rw [hdatum]
    exact .inr ⟨rfl, hprocedure⟩

/-- A text that was printed is that of the datum that the value stands for. -/
theorem denotes_of_print
    {store : Store}
    {value : Value}
    {text : String}
    (h : store.print value = .ok text) :
    ∃ datum, store.Denotes value datum ∧ text = datum.print := by
  unfold print at h
  cases hdatum : store.datum value with
  | error halt =>
      rw [hdatum] at h
      cases h
  | ok datum =>
      rw [hdatum] at h
      cases h
      exact ⟨datum, denotes_iff_datum.mpr hdatum, rfl⟩

/-- A value that stands for a datum is printed as that datum. -/
theorem Denotes.print
    {store : Store}
    {value : Value}
    {datum : Datum}
    (h : store.Denotes value datum) :
    store.print value = .ok datum.print := by
  rw [Store.print, denotes_iff_datum.mp h]
  rfl

end Store

/-- Printing and reading are inverse to each other. A value without a cycle is printed unless it leads
to a procedure, and then printing is an error of evaluation. If the names of its symbols are readable,
its text is read as the same tree. And whatever is read has no cycle, no procedure and only readable
names, so that it is printed as a text that is read as the same tree. -/
theorem print_read_round_trip :
    (∀ (store : Store) (value : Value),
      store.Acyclic value →
      ((∃ e, store.print value = .error (.error e) ∧ e.kind = .runtime) ↔
        store.HoldsProcedure value) ∧
      ((∃ text, store.print value = .ok text) ↔ ¬ store.HoldsProcedure value) ∧
      (¬ store.HoldsProcedure value →
        (∀ name, store.SlotReaches value (.sym name) → ReadableName name) →
        ∃ text datum,
          store.print value = .ok text ∧
          readForm text = .ok datum ∧
          ∀ other : Store,
            store.SameTree value (datum.install other).2 (datum.install other).1)) ∧
    (∀ (text : String) (datum : Datum) (store : Store),
      readForm text = .ok datum →
      (datum.install store).2.Acyclic (datum.install store).1 ∧
      ¬ (datum.install store).2.HoldsProcedure (datum.install store).1 ∧
      (∀ name,
        (datum.install store).2.SlotReaches (datum.install store).1 (.sym name) →
        ReadableName name) ∧
      ∃ printed again,
        (datum.install store).2.print (datum.install store).1 = .ok printed ∧
        readForm printed = .ok again ∧
        ∀ other : Store,
          (datum.install store).2.SameTree (datum.install store).1
            (again.install other).2 (again.install other).1) := by
  constructor
  · intro store value hacyclic
    rcases Store.print_of_acyclic hacyclic with ⟨datum, hprint, hdenotes⟩ | ⟨hprint, hprocedure⟩
    · have hnone := hdenotes.not_holdsProcedure
      refine ⟨by simp [hprint, hnone], by simp [hprint, hnone], fun _ hnames => ?_⟩
      have hread := readForm_print fun name hname => hnames name (hdenotes.mem_names_iff.mp hname)
      exact ⟨_, datum, hprint, hread, fun other => ⟨datum, hdenotes, datum.install_denotes other⟩⟩
    · refine ⟨?_, by simp [hprint, hprocedure], fun hnone => (hnone hprocedure).elim⟩
      exact ⟨fun _ => hprocedure, fun _ => ⟨_, hprint, rfl⟩⟩
  · intro text datum store hread
    have hdenotes := datum.install_denotes store
    have hreadable : ∀ name ∈ datum.names, ReadableName name :=
      fun name => readableName_of_readForm hread
    refine ⟨hdenotes.acyclic, hdenotes.not_holdsProcedure, ?_, ?_⟩
    · intro name hreach
      exact hreadable name (hdenotes.mem_names_iff.mpr hreach)
    · exact ⟨_, datum, hdenotes.print, readForm_print hreadable,
        fun other => ⟨datum, hdenotes, datum.install_denotes other⟩⟩

/-- A store in which both slots of the second pair hold the first one. -/
def sharingStore : Store :=
  ⟨#[⟨.int Int64.minValue, .sym "a-b"⟩, ⟨.pair ⟨0⟩, .pair ⟨0⟩⟩], #[], #[]⟩

theorem sharingStore_denotes :
    sharingStore.Denotes (.pair ⟨1⟩)
      (.cons (.cons (.int Int64.minValue) (.sym "a-b"))
        (.cons (.int Int64.minValue) (.sym "a-b"))) :=
  .pair (.pair (.int _) (.sym _)) (.pair (.int _) (.sym _))

theorem print_read_round_trip_of_shared_pair :
    sharingStore.Acyclic (.pair ⟨1⟩) ∧
    ¬ sharingStore.HoldsProcedure (.pair ⟨1⟩) ∧
    (∀ name, sharingStore.SlotReaches (.pair ⟨1⟩) (.sym name) → ReadableName name) ∧
    readForm "'(a . +5)" = .ok (.quoted (.cons (.sym "a") (.int 5))) ∧
    (∃ text datum,
      sharingStore.print (.pair ⟨1⟩) = .ok text ∧
      readForm text = .ok datum ∧
      ∀ other : Store,
        sharingStore.SameTree (.pair ⟨1⟩) (datum.install other).2 (datum.install other).1) ∧
    ¬ (((Datum.quoted (.cons (.sym "a") (.int 5))).install .empty).2.HoldsProcedure
      ((Datum.quoted (.cons (.sym "a") (.int 5))).install .empty).1) := by
  have hread : readForm "'(a . +5)" = .ok (.quoted (.cons (.sym "a") (.int 5))) := by decide +kernel
  have hnames : ∀ name, sharingStore.SlotReaches (.pair ⟨1⟩) (.sym name) → ReadableName name := by
    intro name hname
    have hmem := sharingStore_denotes.mem_names_iff.mpr hname
    obtain rfl : name = "a-b" := by simpa [Datum.names] using hmem
    rw [readableName_iff]
    exact ⟨⟨'a', ['-', 'b'], rfl, by decide, by decide⟩, by decide⟩
  have hacyclic := sharingStore_denotes.acyclic
  have hnone := sharingStore_denotes.not_holdsProcedure
  exact ⟨hacyclic, hnone, hnames, hread,
    (print_read_round_trip.1 sharingStore _ hacyclic).2.2 hnone hnames,
    (print_read_round_trip.2 _ _ .empty hread).2.1⟩

end SmallLisp
