import SmallLisp.Proofs.Denotation
import SmallLisp.Proofs.Reach
import SmallLisp.Proofs.Reading

/-!
# Reading makes fresh trees

What a text denotes is put together in the store while it is read: the parts of a list are made one after
another, then its chain is made from the last element to the first, in front of the tail that is there
already. No pair is used twice, whatever stands in whatever.

* `Builds` and `BuildsAll` say what a store becomes while tokens are read into it; `builds_iff` compares
  this with making the datum first and putting it into the store afterwards;
* `Store.valueAt?` goes along a path of slots;
* `Store.TreeOf` says that a value is a tree of the pairs with certain numbers. It is kept by an
  induction on the datum, since each part takes the next numbers;
* `Store.FreshTree` is what this comes to for someone who has the older store, and
  `reading_makes_a_fresh_tree` says that everything that is read is one.
-/

namespace SmallLisp

/-- The two slots of a pair. -/
inductive Side where
  | first
  | second
deriving DecidableEq, Repr

/-- The value in a slot. -/
def Pair.slot (pair : Pair) : Side → Value
  | .first => pair.first
  | .second => pair.second

mutual

/-- What a store becomes while the tokens of a datum are read into it, and the value that is made. -/
inductive Builds : List TokenKind → Store → Value → Store → Prop
  | int
      (value : Int64)
      (store : Store) :
      Builds [.int value] store (.int value) store
  | symbol
      {name : String}
      (plain : name.toList.head? ≠ some '#')
      (store : Store) :
      Builds [.ident name] store (.sym name) store
  | true
      (store : Store) :
      Builds [.ident "#t"] store (.bool true) store
  | false
      (store : Store) :
      Builds [.ident "#f"] store (.bool false) store
  | quote
      {kinds : List TokenKind}
      {store newer : Store}
      {value : Value}
      (inner : Builds kinds store value newer) :
      Builds (.quote :: kinds) store
        (newer.newChain [.sym "quote", value] .nil).1
        (newer.newChain [.sym "quote", value] .nil).2
  | list
      {kinds : List TokenKind}
      {store newer : Store}
      {values : List Value}
      (elements : BuildsAll kinds store values newer) :
      Builds (.opening :: (kinds ++ [.closing])) store
        (newer.newChain values .nil).1
        (newer.newChain values .nil).2
  | dotted
      {front back : List TokenKind}
      {store middle newer : Store}
      {values : List Value}
      {tail : Value}
      (elements : BuildsAll front store values middle)
      (nonempty : values ≠ [])
      (last : Builds back middle tail newer) :
      Builds (.opening :: (front ++ .dot :: (back ++ [.closing]))) store
        (newer.newChain values tail).1
        (newer.newChain values tail).2

/-- What a store becomes while data are read into it, one after another. -/
inductive BuildsAll : List TokenKind → Store → List Value → Store → Prop
  | nil
      (store : Store) :
      BuildsAll [] store [] store
  | cons
      {front back : List TokenKind}
      {store middle newer : Store}
      {value : Value}
      {values : List Value}
      (first : Builds front store value middle)
      (rest : BuildsAll back middle values newer) :
      BuildsAll (front ++ back) store (value :: values) newer

end

/-- Puts data into a store, one after another. -/
def installAll : List Datum → Store → List Value × Store
  | [], store => ([], store)
  | datum :: data, store =>
    let (value, store) := datum.install store
    let (values, store) := installAll data store
    (value :: values, store)

theorem installAll_eq_nil_iff
    {data : List Datum}
    {store : Store} :
    (installAll data store).1 = [] ↔ data = [] := by
  cases data with
  | nil => exact iff_of_true rfl rfl
  | cons datum data => exact iff_of_false nofun nofun

/-- To put a chain into a store is to put its elements there, then its tail, and to make the chain of
what has come of them. -/
theorem Datum.install_chain
    (data : List Datum)
    (tail : Datum)
    (store : Store) :
    (Datum.chain data tail).install store =
      (tail.install (installAll data store).2).2.newChain (installAll data store).1
        (tail.install (installAll data store).2).1 := by
  induction data generalizing store with
  | nil => rfl
  | cons datum data ih =>
      rw [Datum.chain_cons, Datum.install]
      simp only [ih (datum.install store).2]
      rfl

mutual

/-- What is made of tokens is what is made of the datum that they derive. -/
theorem Builds.derives
    {kinds : List TokenKind}
    {store newer : Store}
    {value : Value} :
    Builds kinds store value newer →
      ∃ datum, Derives kinds datum ∧ datum.install store = (value, newer)
  | .int value _ => ⟨_, .int value, rfl⟩
  | .symbol plain _ => ⟨_, .symbol plain, rfl⟩
  | .true _ => ⟨_, .true, rfl⟩
  | .false _ => ⟨_, .false, rfl⟩
  | .quote inner => by
      obtain ⟨datum, hderives, hinstall⟩ := inner.derives
      refine ⟨_, hderives.quote, ?_⟩
      rw [Datum.list, Datum.install_chain]
      simp only [installAll, Datum.install, hinstall]
  | .list elements => by
      obtain ⟨data, hderives, hinstall⟩ := elements.derives
      refine ⟨_, .list hderives, ?_⟩
      rw [Datum.list, Datum.install_chain, hinstall]
      rfl
  | .dotted elements nonempty last => by
      obtain ⟨data, hdata, hfront⟩ := elements.derives
      obtain ⟨tail, htail, hlast⟩ := last.derives
      have hnonempty : data ≠ [] := by
        rwa [Ne, ← installAll_eq_nil_iff, hfront]
      refine ⟨_, .dotted hdata hnonempty htail, ?_⟩
      rw [Datum.install_chain, hfront, hlast]

/-- What is made of the tokens of data is what is made of the data. -/
theorem BuildsAll.derives
    {kinds : List TokenKind}
    {store newer : Store}
    {values : List Value} :
    BuildsAll kinds store values newer →
      ∃ data, DerivesAll kinds data ∧ installAll data store = (values, newer)
  | .nil _ => ⟨[], .nil, rfl⟩
  | .cons first rest => by
      obtain ⟨datum, hdatum, hfirst⟩ := first.derives
      obtain ⟨data, hdata, hrest⟩ := rest.derives
      refine ⟨datum :: data, .cons hdatum hdata, ?_⟩
      simp only [installAll, hfirst, hrest]

end

mutual

/-- The tokens of a datum make what the datum makes. -/
theorem Derives.builds
    {kinds : List TokenKind}
    {datum : Datum}
    (store : Store) :
    Derives kinds datum → Builds kinds store (datum.install store).1 (datum.install store).2
  | .int value => .int value store
  | .symbol plain => .symbol plain store
  | .true => .true store
  | .false => .false store
  | .quote inner => (inner.builds store).quote
  | .list elements => by
      rw [Datum.list, Datum.install_chain]
      exact .list (elements.builds store)
  | .dotted elements nonempty last => by
      rw [Datum.install_chain]
      exact .dotted (elements.builds store) (mt installAll_eq_nil_iff.mp nonempty) (last.builds _)

/-- The tokens of data make what the data make. -/
theorem DerivesAll.builds
    {kinds : List TokenKind}
    {data : List Datum}
    (store : Store) :
    DerivesAll kinds data → BuildsAll kinds store (installAll data store).1 (installAll data store).2
  | .nil => .nil store
  | .cons first rest => .cons (first.builds store) (rest.builds _)

end

/-- Making pairs while reading comes to the same as reading a datum and putting it into the store: the
same pairs are made in the same order. -/
theorem builds_iff
    {kinds : List TokenKind}
    {store newer : Store}
    {value : Value} :
    Builds kinds store value newer ↔
      ∃ datum, Derives kinds datum ∧ datum.install store = (value, newer) := by
  constructor
  · exact Builds.derives
  · rintro ⟨datum, hderives, hinstall⟩
    have hbuilds := hderives.builds store
    rwa [hinstall] at hbuilds

/-- What a tree of the pairs that are numbered from `low` to `high` may lead to: these pairs, and symbols. -/
def Item.OfTree (low high : Nat) : Item → Prop
  | .pair id => low ≤ id.index ∧ id.index < high
  | .symbol _ => True
  | _ => False

namespace Item

theorem OfTree.mono
    {low high low' high' : Nat}
    {item : Item}
    (h : item.OfTree low high)
    (hlow : low' ≤ low)
    (hhigh : high ≤ high') :
    item.OfTree low' high' := by
  cases item with
  | pair id => exact ⟨Nat.le_trans hlow h.1, Nat.lt_of_lt_of_le h.2 hhigh⟩
  | symbol name => trivial
  | _ => exact h.elim

end Item

namespace Store

/-- Overwrites a slot of a pair. -/
def setSlot (side : Side) (id : PairId) (value : Value) (store : Store) : Store :=
  match side with
  | .first => store.setFirst id value
  | .second => store.setSecond id value

/-- The value at the end of a path of slots. -/
def valueAt? (store : Store) : List Side → Value → Option Value
  | [], value => some value
  | side :: path, .pair id => valueAt? store path ((store.pair id).slot side)
  | _ :: _, _ => none

variable {store : Store}

/-- Another slot of the pair, and the slots of all other pairs, are as they were. -/
theorem slot_setSlot_of_ne
    {side other : Side}
    {id inner : PairId}
    (h : inner = id → other ≠ side)
    (value : Value) :
    ((store.setSlot side id value).pair inner).slot other = (store.pair inner).slot other := by
  cases side with
  | first =>
      rcases store.pair_setFirst_cases id inner value with hsame | ⟨hid, hchanged⟩
      · rw [setSlot, hsame]
      · rw [setSlot, hchanged, hid]
        cases other with
        | first => exact (h hid rfl).elim
        | second => rfl
  | second =>
      rcases store.pair_setSecond_cases id inner value with hsame | ⟨hid, hchanged⟩
      · rw [setSlot, hsame]
      · rw [setSlot, hchanged, hid]
        cases other with
        | first => rfl
        | second => exact (h hid rfl).elim

theorem slot_setSlot_self
    {id : PairId}
    (h : id.index < store.pairs.size)
    (side : Side)
    (value : Value) :
    ((store.setSlot side id value).pair id).slot side = value := by
  cases side with
  | first => rw [setSlot, pair_setFirst _ _ _ _ h, if_pos rfl, Pair.slot]
  | second => rw [setSlot, pair_setSecond _ _ _ _ h, if_pos rfl, Pair.slot]

/-- A path can be walked in two parts. -/
theorem valueAt?_append
    (front back : List Side)
    (root : Value) :
    store.valueAt? (front ++ back) root = (store.valueAt? front root).bind (store.valueAt? back) := by
  induction front generalizing root with
  | nil => rfl
  | cons side front ih =>
      cases root with
      | pair id => exact ih _
      | _ => rfl

/-- A value that is no pair has no paths but the empty one. -/
theorem eq_nil_of_valueAt?
    {path : List Side}
    {root value : Value}
    (hroot : root.isPair = false)
    (h : store.valueAt? path root = some value) :
    path = [] := by
  cases path with
  | nil => rfl
  | cons side path =>
      cases root with
      | pair id => cases hroot
      | _ => cases h

/-- The value is a tree of the pairs that are numbered from `low` to `high`: it leads to these, to each of
them by one path, and to nothing else that has an identity. -/
structure TreeOf (store : Store) (low high : Nat) (root : Value) : Prop where
  inside :
    ∀ {path : List Side} {value : Value} {item : Item},
      store.valueAt? path root = some value → value.item? = some item → item.OfTree low high
  existsUnique :
    ∀ id : PairId, low ≤ id.index → id.index < high →
      ∃! path, store.valueAt? path root = some (.pair id)

namespace TreeOf

variable {low middle high : Nat} {root : Value}

theorem of_atom
    (hroot : root.isPair = false)
    (hdata : root.isProcedure = false) :
    store.TreeOf low low root where
  inside := by
    intro path value item hpath hitem
    obtain rfl := eq_nil_of_valueAt? hroot hpath
    cases hpath
    cases root with
    | pair id => cases hroot
    | closure id => cases hdata
    | primitive p => cases hdata
    | sym name =>
        cases hitem
        trivial
    | _ => cases hitem
  existsUnique id hlow hhigh := (Nat.not_lt_of_le hlow hhigh).elim

theorem index_of_valueAt?
    (h : store.TreeOf low high root)
    {path : List Side}
    {id : PairId}
    (hpath : store.valueAt? path root = some (.pair id)) :
    low ≤ id.index ∧ id.index < high :=
  h.inside hpath rfl

theorem eq_of_valueAt?
    (h : store.TreeOf low high root)
    {path other : List Side}
    {id : PairId}
    (hpath : store.valueAt? path root = some (.pair id))
    (hother : store.valueAt? other root = some (.pair id)) :
    path = other := by
  obtain ⟨hlow, hhigh⟩ := h.index_of_valueAt? hpath
  exact (h.existsUnique id hlow hhigh).unique hpath hother

/-- In a pair of two trees a path to a pair is empty or goes on in one of the trees. Which it is can be seen from
the number at its end. -/
theorem cases_of_valueAt?
    {first second : Value}
    (hfirst : store.TreeOf low middle first)
    (hsecond : store.TreeOf middle high second)
    (hpair : store.pair ⟨high⟩ = ⟨first, second⟩)
    {path : List Side}
    {id : PairId}
    (hpath : store.valueAt? path (.pair ⟨high⟩) = some (.pair id)) :
    (path = [] ∧ id.index = high) ∨
      (∃ rest, path = .first :: rest ∧ store.valueAt? rest first = some (.pair id) ∧ id.index < middle) ∨
      ∃ rest, path = .second :: rest ∧ store.valueAt? rest second = some (.pair id) ∧
        middle ≤ id.index ∧ id.index < high := by
  cases path with
  | nil =>
      cases hpath
      exact .inl ⟨rfl, rfl⟩
  | cons side rest =>
      rw [valueAt?, hpair] at hpath
      cases side with
      | first => exact .inr (.inl ⟨rest, rfl, hpath, (hfirst.index_of_valueAt? hpath).2⟩)
      | second => exact .inr (.inr ⟨rest, rfl, hpath, hsecond.index_of_valueAt? hpath⟩)

/-- A pair of two trees with successive numbers is a tree if it has the number behind them. -/
theorem pair
    {first second : Value}
    (hfirst : store.TreeOf low middle first)
    (hsecond : store.TreeOf middle high second)
    (hle : low ≤ middle)
    (hle' : middle ≤ high)
    (hpair : store.pair ⟨high⟩ = ⟨first, second⟩) :
    store.TreeOf low (high + 1) (.pair ⟨high⟩) where
  inside := by
    intro path value item hpath hitem
    cases path with
    | nil =>
        cases hpath
        cases hitem
        exact ⟨Nat.le_trans hle hle', Nat.lt_succ_self high⟩
    | cons side path =>
        rw [valueAt?, hpair] at hpath
        cases side with
        | first => exact (hfirst.inside hpath hitem).mono (Nat.le_refl low) (Nat.le_succ_of_le hle')
        | second => exact (hsecond.inside hpath hitem).mono hle (Nat.le_succ high)
  existsUnique := by
    intro id hlow hhigh
    rcases Nat.lt_or_ge id.index middle with hmiddle | hmiddle
    · obtain ⟨path, hpath, hunique⟩ := hfirst.existsUnique id hlow hmiddle
      refine ⟨.first :: path, ?_, ?_⟩
      · simp only [valueAt?, hpair]
        exact hpath
      · intro other hother
        rcases hfirst.cases_of_valueAt? hsecond hpair hother with
          ⟨-, hid⟩ | ⟨rest, rfl, hrest, -⟩ | ⟨rest, -, -, hid⟩
        · omega
        · rw [hunique rest hrest]
        · omega
    · rcases Nat.lt_or_ge id.index high with hlast | hlast
      · obtain ⟨path, hpath, hunique⟩ := hsecond.existsUnique id hmiddle hlast
        refine ⟨.second :: path, ?_, ?_⟩
        · simp only [valueAt?, hpair]
          exact hpath
        · intro other hother
          rcases hfirst.cases_of_valueAt? hsecond hpair hother with
            ⟨-, hid⟩ | ⟨rest, -, -, hid⟩ | ⟨rest, rfl, hrest, -⟩
          · omega
          · omega
          · rw [hunique rest hrest]
      · obtain rfl : id = ⟨high⟩ := PairId.index_injective (by omega : id.index = high)
        refine ⟨[], rfl, ?_⟩
        intro other hother
        rcases hfirst.cases_of_valueAt? hsecond hpair hother with
          ⟨hother, -⟩ | ⟨rest, -, -, hid⟩ | ⟨rest, -, -, hid⟩
        · exact hother
        · omega
        · omega

/-- What a tree leads to is at the end of one of its paths. -/
theorem valueAt?_of_reached
    (h : store.TreeOf low high root)
    {item : Item}
    (hreached : store.ReachedFromValue root item) :
    ∃ path value, store.valueAt? path root = some value ∧ value.item? = some item := by
  obtain ⟨first, hfirst, hreaches⟩ := hreached
  induction hreaches with
  | refl => exact ⟨[], root, rfl, hfirst⟩
  | tail _ hlink ih =>
      obtain ⟨path, value, hpath, hitem⟩ := ih
      have hinside := h.inside hpath hitem
      cases value with
      | pair id =>
          cases hitem
          cases hlink with
          | first hslot =>
              refine ⟨path ++ [.first], _, ?_, hslot⟩
              rw [valueAt?_append, hpath]
              rfl
          | second hslot =>
              refine ⟨path ++ [.second], _, ?_, hslot⟩
              rw [valueAt?_append, hpath]
              rfl
      | sym name =>
          cases hitem
          cases hlink
      | closure id =>
          cases hitem
          exact hinside.elim
      | primitive p =>
          cases hitem
          exact hinside.elim
      | _ => cases hitem

end TreeOf

/-- In the tree of a value, overwriting a slot changes what is reached through that slot and nothing else:
the new value is there, and from any part of the tree each path that does not go through that slot leads
to what it led to. -/
def OverwritesAlone (store : Store) (root : Value) : Prop :=
  ∀ (place : List Side) (id : PairId) (side : Side) (replacement : Value),
    store.valueAt? place root = some (.pair id) →
    (store.setSlot side id replacement).valueAt? (place ++ [side]) root = some replacement ∧
    ∀ (start path : List Side) (part : Value),
      store.valueAt? start root = some part →
      (∀ front back, path = front ++ side :: back → start ++ front ≠ place) →
      (store.setSlot side id replacement).valueAt? path part = store.valueAt? path part

/-- Where each pair has one path only, paths around a slot do not notice what is in it. -/
theorem TreeOf.valueAt?_setSlot
    {low high : Nat}
    {root : Value}
    (h : store.TreeOf low high root)
    {place : List Side}
    {id : PairId}
    (hplace : store.valueAt? place root = some (.pair id))
    (side : Side)
    (replacement : Value)
    {start path : List Side}
    {part : Value}
    (hstart : store.valueAt? start root = some part)
    (haround : ∀ front back, path = front ++ side :: back → start ++ front ≠ place) :
    (store.setSlot side id replacement).valueAt? path part = store.valueAt? path part := by
  induction path generalizing start part with
  | nil => rfl
  | cons other path ih =>
      cases part with
      | pair inner =>
          have hslot : ((store.setSlot side id replacement).pair inner).slot other =
              (store.pair inner).slot other := by
            refine slot_setSlot_of_ne ?_ replacement
            rintro rfl rfl
            refine haround [] path rfl ?_
            rw [List.append_nil]
            exact h.eq_of_valueAt? hstart hplace
          rw [valueAt?, valueAt?, hslot]
          refine @ih (start ++ [other]) _ ?_ ?_
          · rw [valueAt?_append, hstart]
            rfl
          · rintro front back rfl
            rw [List.append_assoc]
            exact haround (other :: front) back rfl
      | _ => rfl

theorem TreeOf.overwritesAlone
    {low high : Nat}
    {root : Value}
    (h : store.TreeOf low high root)
    (hheld : high ≤ store.pairs.size) :
    store.OverwritesAlone root := by
  intro place id side replacement hplace
  constructor
  · have haround : ∀ front back, place = front ++ side :: back → [] ++ front ≠ place := by
      rintro front back hback rfl
      have hlength := congrArg List.length hback
      simp at hlength
    have hstart : store.valueAt? [] root = some root := rfl
    have hkept := h.valueAt?_setSlot hplace side replacement hstart haround
    have hid := (h.index_of_valueAt? hplace).2
    rw [valueAt?_append, hkept, hplace]
    simp only [Option.bind_some, valueAt?]
    rw [slot_setSlot_self (Nat.lt_of_lt_of_le hid hheld)]
  · intro start path part hstart haround
    exact h.valueAt?_setSlot hplace side replacement hstart haround

/-- A value is a finite tree of pairs that an older store does not have, and that store has not been changed
otherwise. -/
structure FreshTree (older : Store) (root : Value) (newer : Store) : Prop where
  /-- The pairs that there were are as they were. -/
  keepsPairs : older.KeepsPairs newer
  /-- No closure is made. -/
  closures_eq : newer.closures = older.closures
  /-- No frame is made or changed. -/
  frames_eq : newer.frames = older.frames
  /-- Of all that there is, the value leads to new pairs and symbols only. -/
  made_of_reached :
    ∀ item, newer.ReachedFromValue root item →
      (∃ id : PairId, item = .pair id ∧ item.Made older newer) ∨ ∃ name, item = .symbol name
  /-- It leads to each new pair, and by one path of slots only. -/
  existsUnique_path :
    ∀ id : PairId, (Item.pair id).Made older newer → ∃! path, newer.valueAt? path root = some (.pair id)
  /-- Its paths do not go on for ever. -/
  finite : ∃ datum, newer.Denotes root datum
  /-- Overwriting a slot of one of its pairs changes nothing beside that slot. -/
  overwritesAlone : newer.OverwritesAlone root

end Store

/-- What is put into a store is a tree of the pairs that are made for it, and stays one while more pairs are
made. -/
theorem Datum.treeOf_install
    (datum : Datum)
    {store later : Store}
    (hlater : (datum.install store).2.KeepsPairs later) :
    later.TreeOf store.pairs.size (datum.install store).2.pairs.size (datum.install store).1 := by
  induction datum generalizing store with
  | cons first second ihFirst ihSecond =>
      simp only [Datum.install] at hlater ⊢
      have hmade := Store.keepsPairs_newPair (second.install (first.install store).2).2
        (first.install store).1 (second.install (first.install store).2).1
      have hsecond := ihSecond (hmade.trans hlater)
      have hfirst := ihFirst ((second.keepsPairs_install _).trans (hmade.trans hlater))
      have hpair := hlater.2 ⟨(second.install (first.install store).2).2.pairs.size⟩
        (by simp [Store.newPair])
      rw [Store.pair_newPair, if_pos rfl] at hpair
      have htree := hfirst.pair hsecond (first.keepsPairs_install store).1
        (second.keepsPairs_install _).1 hpair
      simpa [Store.newPair] using htree
  | _ => exact .of_atom rfl rfl

/-- Putting a datum into a store makes neither closures nor frames. -/
theorem Datum.install_closures_frames
    (datum : Datum)
    (store : Store) :
    (datum.install store).2.closures = store.closures ∧ (datum.install store).2.frames = store.frames := by
  induction datum generalizing store with
  | cons first second ihFirst ihSecond =>
      obtain ⟨hclosures, hframes⟩ := ihSecond (first.install store).2
      obtain ⟨hclosures', hframes'⟩ := ihFirst store
      exact ⟨hclosures.trans hclosures', hframes.trans hframes'⟩
  | _ => exact ⟨rfl, rfl⟩

/-- What is put into a store is a fresh tree. -/
theorem Datum.freshTree_install
    (datum : Datum)
    (store : Store) :
    store.FreshTree (datum.install store).1 (datum.install store).2 := by
  have htree := datum.treeOf_install (.refl (datum.install store).2)
  obtain ⟨hclosures, hframes⟩ := datum.install_closures_frames store
  refine ⟨datum.keepsPairs_install store, hclosures, hframes, ?_, ?_, ?_, ?_⟩
  · intro item hreached
    obtain ⟨path, value, hpath, hitem⟩ := htree.valueAt?_of_reached hreached
    have hinside := htree.inside hpath hitem
    cases item with
    | pair id => exact .inl ⟨id, rfl, hinside⟩
    | symbol name => exact .inr ⟨name, rfl⟩
    | _ => exact hinside.elim
  · intro id hmade
    exact htree.existsUnique id hmade.1 hmade.2
  · exact ⟨datum, datum.install_denotes store⟩
  · exact htree.overwritesAlone (Nat.le_refl _)

/-- A chain keeps the pairs that are there. -/
theorem Store.keepsPairs_newChain
    (values : List Value)
    (tail : Value)
    (store : Store) :
    store.KeepsPairs (store.newChain values tail).2 := by
  induction values with
  | nil => exact .refl store
  | cons value values ih => exact ih.trans (keepsPairs_newPair _ _ _)

/-- Behind its elements a chain leads to its tail. -/
theorem Store.valueAt?_newChain
    (values : List Value)
    (tail : Value)
    {store later : Store}
    (hlater : (store.newChain values tail).2.KeepsPairs later) :
    later.valueAt? (List.replicate values.length .second) (store.newChain values tail).1 = some tail := by
  induction values with
  | nil => rfl
  | cons value values ih =>
      have hmade := keepsPairs_newPair (store.newChain values tail).2 value (store.newChain values tail).1
      have hpair := hlater.2 ⟨(store.newChain values tail).2.pairs.size⟩ (by simp [newChain, newPair])
      have hmade' : ((store.newChain (value :: values) tail).2.pair
          ⟨(store.newChain values tail).2.pairs.size⟩) = ⟨value, (store.newChain values tail).1⟩ := by
        rw [newChain, pair_newPair, if_pos rfl]
      rw [hmade'] at hpair
      show later.valueAt? (.second :: List.replicate values.length .second)
        (.pair ⟨(store.newChain values tail).2.pairs.size⟩) = some tail
      rw [valueAt?, hpair]
      exact ih (hmade.trans hlater)

/-- Reading builds a fresh tree. What a cursor or a whole text is read as is made in the store by its
tokens; whatever tokens make is a fresh tree: all older objects are as they were and out of its reach, each
new pair is at the end of exactly one path of slots, the paths end, and overwriting a slot changes nothing
beside that slot. In front of a tail the pairs of a chain are made and nothing else, so that a tail that is a
list becomes the end of the chain as it is. -/
theorem reading_makes_a_fresh_tree (store : Store) :
    (∀ (cursor after : Cursor) (datum : Datum),
      cursor.readDatum = (.ok datum, after) →
      ∃ read,
        cursor.remaining = read ++ after.remaining ∧
        Builds (read.map Token.kind) store (datum.install store).1 (datum.install store).2) ∧
    (∀ (text : String) (datum : Datum),
      readForm text = .ok datum →
      Builds (Lexed.ofString text).kinds store (datum.install store).1 (datum.install store).2) ∧
    (∀ (kinds : List TokenKind) (value : Value) (newer : Store),
      Builds kinds store value newer →
      store.FreshTree value newer) ∧
    (∀ (values : List Value) (tail : Value),
      store.KeepsPairs (store.newChain values tail).2 ∧
      (store.newChain values tail).2.valueAt? (List.replicate values.length .second)
        (store.newChain values tail).1 = some tail) := by
  refine ⟨?_, ?_, ?_, ?_⟩
  · intro cursor after datum hread
    obtain ⟨read, hremaining, -, hderives⟩ := Cursor.readDatum_iff_derives.mp hread
    exact ⟨read, hremaining, hderives.builds store⟩
  · intro text datum hread
    obtain ⟨-, hderives⟩ := readForm_ok_iff.mp hread
    exact hderives.builds store
  · intro kinds value newer hbuilds
    obtain ⟨datum, -, hinstall⟩ := builds_iff.mp hbuilds
    have hfresh := datum.freshTree_install store
    rwa [hinstall] at hfresh
  · intro values tail
    exact ⟨Store.keepsPairs_newChain values tail store, Store.valueAt?_newChain values tail (.refl _)⟩

/-- In a store with one pair, the text `('a (1 . (2)))` is read as a tree of six new pairs. Behind the `1` is the
pair that was made for `(2)`, and to overwrite its second slot is to replace the end of that list only. -/
theorem reading_makes_a_fresh_tree_of_nested_lists :
    let store : Store := ⟨#[⟨.int 5, .nil⟩], #[], #[⟨none, []⟩]⟩
    let datum : Datum := .list [.quoted (.sym "a"), .chain [.int 1] (.list [.int 2])]
    let value := (datum.install store).1
    let newer := (datum.install store).2
    readForm "('a (1 . (2)))" = .ok datum ∧
    store.FreshTree value newer ∧
    newer.pairs.size = 7 ∧
    newer.valueAt? [.second, .first, .second] value = some (.pair ⟨3⟩) ∧
    (newer.setSlot .second ⟨3⟩ value).valueAt? [.first, .second, .first] value = some (.sym "a") ∧
    ∃ read,
      [⟨.quote, 0, 1⟩, ⟨.ident "a", 1, 2⟩, ⟨.int 7, 3, 4⟩] = read ++ [⟨.int 7, 3, 4⟩] ∧
      Builds (read.map Token.kind) store (.pair ⟨2⟩)
        ⟨#[⟨.int 5, .nil⟩, ⟨.sym "a", .nil⟩, ⟨.sym "quote", .pair ⟨1⟩⟩], #[], #[⟨none, []⟩]⟩ := by
  intro store datum value newer
  obtain ⟨hcursor, htext, hfresh, -⟩ := reading_makes_a_fresh_tree store
  have hread : readForm "('a (1 . (2)))" = .ok datum := by decide +kernel
  have htree := hfresh _ _ _ (htext _ datum hread)
  have hplace : newer.valueAt? [.second, .first, .second] value = some (.pair ⟨3⟩) := by decide +kernel
  have hquoted : newer.valueAt? [.first, .second, .first] value = some (.sym "a") := by decide +kernel
  obtain ⟨-, haround⟩ := htree.overwritesAlone _ _ .second value hplace
  have hsplit : [⟨.quote, 0, 1⟩, ⟨.ident "a", 1, 2⟩, ⟨.int 7, 3, 4⟩] =
      [⟨.quote, 0, 1⟩, ⟨.ident "a", 1, 2⟩] ++ [(⟨.int 7, 3, 4⟩ : Token)] := rfl
  refine ⟨hread, htree, by decide +kernel, hplace, ?_, ?_⟩
  · rw [haround [] _ value rfl ?_, hquoted]
    rintro front back hfront rfl
    cases hfront
  · exact hcursor (.ofTokens [⟨.quote, 0, 1⟩, ⟨.ident "a", 1, 2⟩, ⟨.int 7, 3, 4⟩] 4) (.ofTokens [⟨.int 7, 3, 4⟩] 4)
      (.quoted (.sym "a")) (Cursor.readDatum_ok_iff.mpr ⟨_, _, hsplit, .quote (.symbol (by decide)), rfl⟩)

end SmallLisp
