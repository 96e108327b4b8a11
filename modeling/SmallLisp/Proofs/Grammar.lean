import SmallLisp.Datum.Reader

/-!
# The grammar of data

The grammar says which sequences of tokens denote which data, without a word about how they are read.
A reader takes one token after another and keeps a stack of open constructs.

* `Derives` and `DerivesAll` are the grammar;
* `Takes` says what a reader makes of a sequence of tokens;
* `takes_iff_derives`: a reader completes a datum with exactly those sequences that derive it;
* `Derives.unique`: no two data start with the same tokens.

Soundness goes through `Progress.After`, which says what has been derived once some tokens were taken.
-/

namespace SmallLisp

mutual

/-- The sequences of tokens that denote a datum. -/
inductive Derives : List TokenKind → Datum → Prop
  | int (value : Int64) :
      Derives [.int value] (.int value)
  | symbol
      {name : String}
      (plain : name.toList.head? ≠ some '#') :
      Derives [.ident name] (.sym name)
  | true :
      Derives [.ident "#t"] (.bool true)
  | false :
      Derives [.ident "#f"] (.bool false)
  | quote
      {kinds : List TokenKind}
      {datum : Datum}
      (inner : Derives kinds datum) :
      Derives (.quote :: kinds) (.list [.sym "quote", datum])
  | list
      {kinds : List TokenKind}
      {data : List Datum}
      (elements : DerivesAll kinds data) :
      Derives (.opening :: (kinds ++ [.closing])) (.list data)
  | dotted
      {front back : List TokenKind}
      {data : List Datum}
      {tail : Datum}
      (elements : DerivesAll front data)
      (nonempty : data ≠ [])
      (last : Derives back tail) :
      Derives (.opening :: (front ++ .dot :: (back ++ [.closing]))) (.chain data tail)

/-- The sequences of tokens that denote data, one after another. -/
inductive DerivesAll : List TokenKind → List Datum → Prop
  | nil :
      DerivesAll [] []
  | cons
      {front back : List TokenKind}
      {datum : Datum}
      {data : List Datum}
      (first : Derives front datum)
      (rest : DerivesAll back data) :
      DerivesAll (front ++ back) (datum :: data)

end

/-- A datum may follow data. -/
theorem DerivesAll.concat
    {front back : List TokenKind}
    {data : List Datum}
    {datum : Datum}
    (hall : DerivesAll front data)
    (hlast : Derives back datum) :
    DerivesAll (front ++ back) (data ++ [datum]) := by
  induction data generalizing front with
  | nil =>
      cases hall
      simpa using DerivesAll.cons hlast DerivesAll.nil
  | cons first data ih =>
      cases hall with
      | cons hfirst hrest =>
          simpa using DerivesAll.cons hfirst (ih hrest)

/-- How a reader gets on with a sequence of tokens. -/
inductive Takes : Progress → List TokenKind → Progress → Prop
  | none
      (progress : Progress) :
      Takes progress [] progress
  | one
      {expectation : Expectation}
      {kind : TokenKind}
      {kinds : List TokenKind}
      {next last : Progress}
      (accepted : expectation.accept kind = .ok next)
      (rest : Takes next kinds last) :
      Takes (.waiting expectation) (kind :: kinds) last

namespace Takes

/-- A reader can go on with more tokens. -/
theorem append
    {first next last : Progress}
    {front back : List TokenKind}
    (hfront : Takes first front next)
    (hback : Takes next back last) :
    Takes first (front ++ back) last := by
  induction hfront with
  | none => exact hback
  | one accepted _ ih => exact .one accepted (ih hback)

/-- A reader that takes one token. -/
theorem single
    {expectation : Expectation}
    {kind : TokenKind}
    {next : Progress}
    (accepted : expectation.accept kind = .ok next) :
    Takes (.waiting expectation) [kind] next :=
  .one accepted (.none next)

/-- A reader that has completed a datum takes no more tokens, so it completes the same datum with the
same tokens whatever follows them. -/
theorem unique
    {first : Progress}
    {front front' back back' : List TokenKind}
    {datum datum' : Datum}
    (h : Takes first front (.complete datum))
    (h' : Takes first front' (.complete datum'))
    (heq : front ++ back = front' ++ back') :
    front = front' ∧ datum = datum' := by
  generalize hlast : Progress.complete datum = last at h
  induction h generalizing front' with
  | none =>
      subst hlast
      cases h'
      exact ⟨rfl, rfl⟩
  | @one expectation kind kinds next _ accepted _ ih =>
      cases h' with
      | @one _ _ kinds' _ _ accepted' rest' =>
          simp only [List.cons_append, List.cons.injEq] at heq
          obtain ⟨rfl, heq⟩ := heq
          obtain rfl : next = _ := Except.ok.inj (accepted.symm.trans accepted')
          obtain ⟨rfl, rfl⟩ := ih rest' heq hlast
          exact ⟨rfl, rfl⟩

end Takes

/-- Where a datum may start, a bracket that closes and a dot mean something only inside a list. All
other tokens start a datum. -/
theorem accept_start
    {kind : TokenKind}
    (outer : List OpenConstruct)
    (hclosing : kind ≠ .closing)
    (hdot : kind ≠ .dot) :
    (Expectation.datum outer).accept kind = startDatum outer kind := by
  unfold Expectation.accept
  split <;> simp_all

/-- A closing bracket completes a list. -/
theorem accept_end_of_list
    (data : List Datum)
    (outer : List OpenConstruct) :
    (Expectation.datum (.elements data.reverse :: outer)).accept .closing =
      .ok (supply (.list data) outer) := by
  simp [Expectation.accept]

/-- A closing bracket completes a chain whose tail has been read. -/
theorem accept_end_of_chain
    (data : List Datum)
    (tail : Datum)
    (outer : List OpenConstruct) :
    (Expectation.closing data.reverse tail outer).accept .closing =
      .ok (supply (.chain data tail) outer) := by
  simp [Expectation.accept]

/-- A dot may stand behind the first element of a list. -/
theorem accept_dot
    {data : List Datum}
    (nonempty : data ≠ [])
    (outer : List OpenConstruct) :
    (Expectation.datum (.elements data.reverse :: outer)).accept .dot =
      .ok (.waiting (.datum (.dotted data.reverse :: outer))) := by
  cases hdata : data.reverse with
  | nil => exact (nonempty (List.reverse_eq_nil_iff.mp hdata)).elim
  | cons => rfl

/-- What a name denotes is given by the grammar. -/
theorem derives_ofName
    {name : String}
    {datum : Datum}
    (h : Datum.ofName name = .ok datum) :
    Derives [.ident name] datum := by
  unfold Datum.ofName at h
  split at h
  · rename_i hname
    cases h
    rw [String.toList_inj.mp (show name.toList = "#t".toList from hname)]
    exact .true
  · rename_i hname
    cases h
    rw [String.toList_inj.mp (show name.toList = "#f".toList from hname)]
    exact .false
  · cases h
  · rename_i hplain
    cases h
    refine .symbol fun hhead => ?_
    obtain ⟨rest, hrest⟩ := List.head?_eq_some_iff.mp hhead
    exact hplain rest hrest

/-- A name that does not start with a number sign denotes a symbol. -/
theorem ofName_of_plain
    {name : String}
    (plain : name.toList.head? ≠ some '#') :
    Datum.ofName name = .ok (.sym name) := by
  unfold Datum.ofName
  split <;> simp_all

mutual

/-- A reader that meets the tokens of a datum hands the datum to what is open around it. -/
theorem Derives.takes
    {kinds : List TokenKind}
    {datum : Datum}
    (outer : List OpenConstruct) :
    Derives kinds datum → Takes (.waiting (.datum outer)) kinds (supply datum outer)
  | .int value => .single (accept_start outer (by simp) (by simp))
  | .symbol plain => by
      refine .single ?_
      rw [accept_start outer (by simp) (by simp), startDatum, ofName_of_plain plain]
      rfl
  | .true => .single (accept_start outer (by simp) (by simp))
  | .false => .single (accept_start outer (by simp) (by simp))
  | .quote inner =>
      .one (accept_start outer (by simp) (by simp)) (inner.takes (.quoted :: outer))
  | @Derives.list _ data elements => by
      have helements := elements.takes [] outer
      rw [List.append_nil] at helements
      have hclose := Takes.single (accept_end_of_list data outer)
      exact .one (accept_start outer (by simp) (by simp)) (helements.append hclose)
  | @Derives.dotted _ _ data tail elements nonempty last => by
      have helements := elements.takes [] outer
      rw [List.append_nil] at helements
      have hlast := last.takes (.dotted data.reverse :: outer)
      have hclose := Takes.single (accept_end_of_chain data tail outer)
      have htail := Takes.one (accept_dot nonempty outer) (hlast.append hclose)
      exact .one (accept_start outer (by simp) (by simp)) (helements.append htail)

/-- Inside a list, a reader keeps the data that it meets. -/
theorem DerivesAll.takes
    {kinds : List TokenKind}
    {data : List Datum}
    (done : List Datum)
    (outer : List OpenConstruct) :
    DerivesAll kinds data →
      Takes (.waiting (.datum (.elements done :: outer))) kinds
        (.waiting (.datum (.elements (data.reverse ++ done) :: outer)))
  | .nil => .none _
  | @DerivesAll.cons _ _ datum _ first rest => by
      have hfirst := first.takes (.elements done :: outer)
      have hrest := rest.takes (datum :: done) outer
      simpa using hfirst.append hrest

end

/-- The tokens that lead to a stack of open constructs. -/
inductive Opens : List TokenKind → List OpenConstruct → Prop
  | nil :
      Opens [] []
  | quoted
      {before : List TokenKind}
      {outer : List OpenConstruct}
      (around : Opens before outer) :
      Opens (before ++ [.quote]) (.quoted :: outer)
  | elements
      {before kinds : List TokenKind}
      {done : List Datum}
      {outer : List OpenConstruct}
      (around : Opens before outer)
      (read : DerivesAll kinds done.reverse) :
      Opens (before ++ .opening :: kinds) (.elements done :: outer)
  | dotted
      {before kinds : List TokenKind}
      {done : List Datum}
      {outer : List OpenConstruct}
      (around : Opens before outer)
      (read : DerivesAll kinds done.reverse)
      (nonempty : done ≠ []) :
      Opens (before ++ .opening :: (kinds ++ [.dot])) (.dotted done :: outer)

/-- What has been derived when a reader has taken tokens and expects more. -/
inductive Expectation.After : List TokenKind → Expectation → Prop
  | datum
      {kinds : List TokenKind}
      {outer : List OpenConstruct}
      (opens : Opens kinds outer) :
      After kinds (.datum outer)
  | closing
      {before front back : List TokenKind}
      {done : List Datum}
      {tail : Datum}
      {outer : List OpenConstruct}
      (opens : Opens before outer)
      (read : DerivesAll front done.reverse)
      (nonempty : done ≠ [])
      (last : Derives back tail) :
      After (before ++ .opening :: (front ++ .dot :: back)) (.closing done tail outer)

/-- What has been derived when a reader has taken tokens. -/
def Progress.After (kinds : List TokenKind) : Progress → Prop
  | .complete datum => Derives kinds datum
  | .waiting expectation => expectation.After kinds

/-- Handing a derived datum to the constructs around it keeps what has been derived. -/
theorem Opens.supply
    {before kinds : List TokenKind}
    {outer : List OpenConstruct}
    {datum : Datum}
    (hopens : Opens before outer)
    (hdatum : Derives kinds datum) :
    (SmallLisp.supply datum outer).After (before ++ kinds) := by
  induction hopens generalizing kinds datum with
  | nil => exact hdatum
  | quoted _ ih =>
      have hquoted := ih hdatum.quote
      rwa [List.append_cons] at hquoted
  | elements around read _ =>
      have hread := read.concat hdatum
      rw [← List.reverse_cons] at hread
      have hopens := Opens.elements around hread
      rw [← List.cons_append, ← List.append_assoc] at hopens
      exact .datum hopens
  | dotted around read nonempty _ =>
      have hafter := Expectation.After.closing around read nonempty hdatum
      rw [List.append_cons _ TokenKind.dot, ← List.cons_append, ← List.append_assoc] at hafter
      exact hafter

/-- A token that starts a datum keeps what has been derived. -/
theorem Opens.startDatum
    {before : List TokenKind}
    {outer : List OpenConstruct}
    {kind : TokenKind}
    {next : Progress}
    (hopens : Opens before outer)
    (h : SmallLisp.startDatum outer kind = .ok next) :
    next.After (before ++ [kind]) := by
  cases kind with
  | ident name =>
      simp only [SmallLisp.startDatum] at h
      cases hname : Datum.ofName name with
      | error e =>
          rw [hname] at h
          cases h
      | ok datum =>
          rw [hname] at h
          cases h
          exact hopens.supply (derives_ofName hname)
  | int value =>
      cases h
      exact hopens.supply (.int value)
  | opening =>
      cases h
      exact .datum (.elements hopens .nil)
  | quote =>
      cases h
      exact .datum (.quoted hopens)
  | closing => cases h
  | dot => cases h

/-- Each token that a reader accepts keeps what has been derived. -/
theorem Expectation.After.accept
    {before : List TokenKind}
    {expectation : Expectation}
    {kind : TokenKind}
    {next : Progress}
    (hafter : expectation.After before)
    (h : expectation.accept kind = .ok next) :
    next.After (before ++ [kind]) := by
  cases hafter with
  | closing opens read nonempty last =>
      cases kind with
      | closing =>
          cases h
          have hchain := opens.supply
            (.dotted read (mt List.reverse_eq_nil_iff.mp nonempty) last)
          simpa using hchain
      | _ => cases h
  | datum opens =>
      by_cases hclosing : kind = .closing
      · subst hclosing
        cases opens with
        | elements around read =>
            cases h
            have hlist := around.supply (.list read)
            simpa using hlist
        | _ => cases h
      · by_cases hdot : kind = .dot
        · subst hdot
          cases opens with
          | @elements _ _ done _ around read =>
              cases done with
              | nil => cases h
              | cons last done =>
                  cases h
                  have hopens := Opens.dotted around read (List.cons_ne_nil last done)
                  rw [← List.cons_append, ← List.append_assoc] at hopens
                  exact .datum hopens
          | _ => cases h
        · rw [accept_start _ hclosing hdot] at h
          exact opens.startDatum h

/-- What has been derived is kept while a reader gets on. -/
theorem Takes.after
    {first last : Progress}
    {before kinds : List TokenKind}
    (htakes : Takes first kinds last)
    (hafter : first.After before) :
    last.After (before ++ kinds) := by
  induction htakes generalizing before with
  | none => simpa using hafter
  | one accepted _ ih =>
      have hnext := ih (Expectation.After.accept hafter accepted)
      simpa using hnext

/-- A reader completes a datum with exactly those sequences of tokens that derive it. -/
theorem takes_iff_derives
    {kinds : List TokenKind}
    {datum : Datum} :
    Takes (.waiting (.datum [])) kinds (.complete datum) ↔ Derives kinds datum := by
  constructor
  · intro htakes
    exact htakes.after (show Progress.After [] _ from Expectation.After.datum .nil)
  · intro hderives
    exact hderives.takes []

/-- No two data start with the same tokens, so a sequence of tokens derives at most one datum and no
datum ends inside another one. -/
theorem Derives.unique
    {front front' back back' : List TokenKind}
    {datum datum' : Datum}
    (h : Derives front datum)
    (h' : Derives front' datum')
    (heq : front ++ back = front' ++ back') :
    front = front' ∧ datum = datum' :=
  Takes.unique (takes_iff_derives.mpr h) (takes_iff_derives.mpr h') heq

end SmallLisp
