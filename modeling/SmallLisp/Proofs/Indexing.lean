import SmallLisp.Proofs.ListTest
import SmallLisp.Proofs.Presence

/-!
# Indexing and flattening

An index into a chain is a number of links. It finds what stands at the same place among the elements of the chain:
the first slot of a pair, or the end of the chain if that is not the empty list.

* `Store.getElem?_elements` compares the elements of a chain with what stands behind its links;
* `Store.elements?_newChain` says which elements a chain of new pairs has, `Store.elements?_tail_newChain` that the
  old chain behind them stays the same;
* `outcome_tailAt` and `outcome_elementAt` say what the two procedures find at a place, `failsAs_of_place` that they
  fail where the index means none;
* `indexing_agrees_with_flattening` is the main result.
-/

namespace SmallLisp

namespace Store

variable {store later : Store} {value tail : Value} {values : List Value}

section Elements

/-- What a chain has at one of its places: the first slot of a pair, or an end that is not the empty list. -/
def elementHere? (store : Store) : Value → Option Value
  | .pair id => some (store.pair id).first
  | .nil => none
  | last => some last

/-- The elements of a chain, with an end that is not the empty list as the last one. -/
def withEnd (chain : List Value × Value) : List Value :=
  match chain.2 with
  | .nil => chain.1
  | last => chain.1 ++ [last]

theorem elements?_eq (store : Store) (value : Value) :
    store.elements? value = (store.chain? value).map withEnd :=
  rfl

theorem withEnd_append
    (front : List Value)
    (chain : List Value × Value) :
    withEnd (front ++ chain.1, chain.2) = front ++ withEnd chain := by
  obtain ⟨elements, last⟩ := chain
  cases last with
  | nil => rfl
  | _ => exact List.append_assoc _ _ _

theorem getElem?_withEnd_atom
    (hvalue : value.isPair = false)
    (place : Nat) :
    (withEnd ([], value))[place]? = (store.follow place value).bind store.elementHere? := by
  cases value with
  | pair id => cases hvalue
  | nil => cases place <;> rfl
  | _ => cases place <;> rfl

theorem getElem?_withEnd
    {bound : Nat}
    {chain : List Value × Value}
    (h : store.chainUpTo bound value = some chain)
    (place : Nat) :
    (withEnd chain)[place]? = (store.follow place value).bind store.elementHere? := by
  induction bound generalizing value chain place with
  | zero =>
      cases value with
      | pair id => cases h
      | _ =>
          cases h
          exact getElem?_withEnd_atom rfl place
  | succ bound ih =>
      cases value with
      | pair id =>
          obtain ⟨rest, hrest, rfl⟩ := Option.map_eq_some_iff.mp h
          have hfirst := withEnd_append [(store.pair id).first] rest
          rw [List.singleton_append, List.singleton_append] at hfirst
          rw [hfirst]
          cases place with
          | zero => rfl
          | succ place =>
              rw [List.getElem?_cons_succ]
              exact ih hrest place
      | _ =>
          cases h
          exact getElem?_withEnd_atom rfl place

/-- The element at a place is what the chain has there. -/
theorem getElem?_elements
    (h : store.elements? value = some values)
    (place : Nat) :
    values[place]? = (store.follow place value).bind store.elementHere? := by
  rw [elements?_eq] at h
  obtain ⟨chain, hchain, rfl⟩ := Option.map_eq_some_iff.mp h
  exact getElem?_withEnd hchain place

theorem exists_elements_of_not_circular (h : ¬store.Circular value) :
    ∃ values, store.elements? value = some values := by
  obtain ⟨count, last, hlast, hatom⟩ := exists_end_of_not_circular h
  obtain ⟨elements, hchain⟩ := exists_chain_of_follow hlast hatom
  exact ⟨withEnd (elements, last), by rw [elements?_eq, hchain]; rfl⟩

end Elements

section NewChains

variable (values : List Value) (tail : Value) (store : Store)

theorem size_newChain : (store.newChain values tail).2.pairs.size = store.pairs.size + values.length := by
  induction values with
  | nil => rfl
  | cons first values ih =>
      show ((store.newChain values tail).2.pairs.push _).size = _
      rw [Array.size_push, ih]
      rfl

theorem pair_newChain
    {id : PairId}
    (hid : id.index < store.pairs.size) :
    (store.newChain values tail).2.pair id = store.pair id := by
  induction values with
  | nil => rfl
  | cons first values ih =>
      have hsize := store.size_newChain values tail
      show ((store.newChain values tail).2.newPair first (store.newChain values tail).1).2.pair id = _
      rw [pair_newPair, if_neg (by omega), ih]

/-- In every later store in which the new pairs are as they were made, they lead through the given elements to the
old chain. -/
theorem chainUpTo_newChain
    {later : Store}
    (hlater : ∀ id : PairId, store.pairs.size ≤ id.index → id.index < store.pairs.size + values.length →
      later.pair id = (store.newChain values tail).2.pair id)
    (bound : Nat) :
    later.chainUpTo (bound + values.length) (store.newChain values tail).1 =
      (later.chainUpTo bound tail).map fun chain => (values ++ chain.1, chain.2) := by
  induction values with
  | nil =>
      show later.chainUpTo bound tail = Option.map id _
      rw [Option.map_id, id]
  | cons first values ih =>
      have hsize := store.size_newChain values tail
      let made : PairId := ⟨(store.newChain values tail).2.pairs.size⟩
      have hindex : made.index = store.pairs.size + values.length := hsize
      have hmade : later.pair made = ⟨first, (store.newChain values tail).1⟩ := by
        rw [hlater made (hindex ▸ Nat.le_add_right _ _) (hindex ▸ Nat.lt_succ_self _)]
        exact (pair_newPair _ _ _ made).trans (if_pos rfl)
      have hearlier : ∀ id : PairId,
          store.pairs.size ≤ id.index → id.index < store.pairs.size + values.length →
            later.pair id = (store.newChain values tail).2.pair id := by
        intro id hle hlt
        rw [hlater id hle (Nat.lt_succ_of_lt hlt)]
        exact (pair_newPair _ _ _ id).trans (if_neg (by omega))
      show (later.chainUpTo (bound + values.length) (later.pair made).second).map _ = _
      rw [hmade, ih hearlier, Option.map_map]
      rfl

/-- A chain of new pairs has the given elements and behind them those of the old chain. -/
theorem elements?_newChain :
    (store.newChain values tail).2.elements? (store.newChain values tail).1 =
      ((store.newChain values tail).2.elements? tail).map (values ++ ·) := by
  have hbound : (store.newChain values tail).2.pairs.size + 1 ≤
      (store.newChain values tail).2.pairs.size + 1 + values.length := Nat.le_add_right _ _
  rw [elements?_eq, elements?_eq, ← chainUpTo_eq _ hbound, chainUpTo_newChain _ _ _ (fun _ _ _ => rfl),
    Option.map_map, Option.map_map]
  exact congrArg (Option.map · _) (funext (withEnd_append values))

end NewChains

section OldChains

/-- The store has got all pairs of the chain. -/
def HoldsChain (store : Store) (value : Value) : Prop :=
  ∀ count id, store.Behind value count (.pair id) → id.index < store.pairs.size

/-- A sound store has got all pairs of every chain that it leads to. -/
theorem Sound.holdsChain
    (hsound : store.Sound)
    (hvalue : store.Holds value) :
    store.HoldsChain value := by
  have hbehind : ∀ count other, store.Behind value count other → store.Holds other := by
    intro count other h
    induction h with
    | here => exact hvalue
    | @next count id _ ih =>
        intro item hitem
        have hpresent : (Item.pair id).PresentIn store := ih _ rfl
        exact hsound hpresent (.second hitem)
  intro count id h
  exact hbehind count _ h _ rfl

/-- Where the pairs of a chain are the same, the chain is the same. -/
theorem HoldsChain.chainUpTo_eq
    (h : store.HoldsChain value)
    (hsame : ∀ id : PairId, id.index < store.pairs.size → later.pair id = store.pair id)
    (bound : Nat) :
    later.chainUpTo bound value = store.chainUpTo bound value := by
  induction bound generalizing value with
  | zero => cases value <;> rfl
  | succ bound ih =>
      cases value with
      | pair id =>
          have hsecond : store.HoldsChain (store.pair id).second := by
            intro count other hother
            rw [behind_iff_follow] at hother
            exact h (count + 1) other (behind_iff_follow.mpr hother)
          rw [chainUpTo, chainUpTo, hsame id (h 0 id .here), ih hsecond]
      | _ => rfl

theorem HoldsChain.elements?_newChain
    (h : store.HoldsChain tail)
    (values : List Value) :
    (store.newChain values tail).2.elements? tail = store.elements? tail := by
  have hle : store.pairs.size + 1 ≤ (store.newChain values tail).2.pairs.size + 1 := by
    rw [size_newChain]
    omega
  rw [elements?_eq, elements?_eq, chain?, h.chainUpTo_eq (fun id hid => store.pair_newChain values tail hid),
    store.chainUpTo_eq hle]

end OldChains

end Store

section Places

variable {store : Store} {id : PairId} {index : Int64} {place : Nat} {operation : String}

theorem lt_zero_or_exists_place (index : Int64) : index < 0 ∨ ∃ place : Nat, index.toInt = place := by
  rcases lt_or_ge index.toInt 0 with hneg | hnonneg
  · exact .inl (Int64.lt_iff_toInt_lt.mpr hneg)
  · exact .inr (Int.eq_ofNat_of_zero_le hnonneg)

theorem not_lt_zero_of_place (h : index.toInt = place) : ¬index < 0 := by
  rw [Int64.lt_iff_toInt_lt, h]
  exact Int.not_lt.mpr (Int.natCast_nonneg place)

theorem zero_lt_of_place
    (h : index.toInt = place)
    (hne : place ≠ 0) :
    0 < index := by
  rw [Int64.lt_iff_toInt_lt, h]
  exact Int.natCast_pos.mpr (Nat.pos_of_ne_zero hne)

theorem toPlace_of_lt_zero (h : index < 0) :
    toPlace operation (.int index) = .error (Fault.negativeIndex operation index).halt :=
  if_pos h

theorem toPlace_of_place (h : index.toInt = place) : toPlace operation (.int index) = .ok index :=
  if_neg (not_lt_zero_of_place h)

theorem outcome_tailAt
    (h : index.toInt = place)
    (chain : Value) :
    outcome (tailAt operation chain index) store =
      ((store.follow place chain).elim (.error (Fault.indexOutOfRange operation index).halt) .ok, store) := by
  have hplace : index.toInt.toNat = place := by rw [h, Int.toNat_natCast]
  unfold tailAt
  rw [outcome_bind_ok (outcome_get store), hplace]
  cases store.follow place chain <;> rfl

theorem outcome_elementAt
    (h : index.toInt = place)
    (id : PairId) :
    outcome (elementAt operation (.pair id) index) store =
      (((store.follow place (.pair id)).bind store.elementHere?).elim
        (.error (Fault.indexOutOfRange operation index).halt) .ok, store) := by
  unfold elementAt
  rw [outcome_bind, outcome_tailAt h]
  cases hfollow : store.follow place (.pair id) with
  | none => rfl
  | some tail =>
      show outcome (get >>= fun store => _) store = ((store.elementHere? tail).elim _ _, store)
      rw [outcome_bind_ok (outcome_get store)]
      cases tail with
      | pair found => rfl
      | nil =>
          show outcome (ite _ _ _) store = _
          rw [if_neg fun hend => hend.2 rfl]
          rfl
      | _ =>
          -- The chain starts with a pair, so an atom stands behind at least one link.
          have hne : place ≠ 0 := by
            rintro rfl
            cases hfollow
          show outcome (ite _ _ _) store = _
          rw [if_pos ⟨zero_lt_of_place h hne, nofun⟩]
          rfl

theorem apply_listTail (id : PairId) (index : Int64) :
    Strict.apply .listTail [.pair id, .int index] =
      (liftM (toPlace "list-tail" (.int index)) >>= tailAt "list-tail" (.pair id)) :=
  rfl

theorem apply_listRef (id : PairId) (index : Int64) :
    Strict.apply .listRef [.pair id, .int index] =
      (liftM (toPlace "list-ref" (.int index)) >>= elementAt "list-ref" (.pair id)) :=
  rfl

variable {next : Int64 → EvalM Value}

theorem outcome_of_place (h : index.toInt = place) :
    outcome (liftM (toPlace operation (.int index)) >>= next) store = outcome (next index) store := by
  rw [toPlace_of_place h]
  rfl

/-- A negative index means no place, so an indexed procedure fails if it fails at every place that is meant. -/
theorem failsAs_of_place (h : ∀ place : Nat, index.toInt = place → FailsAs .runtime (next index) store) :
    FailsAs .runtime (liftM (toPlace operation (.int index)) >>= next) store := by
  rcases lt_zero_or_exists_place index with hneg | ⟨place, hplace⟩
  · refine ⟨.negativeIndex operation index, rfl, ?_⟩
    rw [toPlace_of_lt_zero hneg]
    rfl
  · rw [toPlace_of_place hplace]
    exact h place hplace

theorem listTail_failsAs
    (h : ∀ place : Nat, index.toInt = place → store.follow place (.pair id) = none) :
    FailsAs .runtime (Strict.apply .listTail [.pair id, .int index]) store := by
  rw [apply_listTail]
  refine failsAs_of_place fun place hplace => ⟨.indexOutOfRange "list-tail" index, rfl, ?_⟩
  rw [outcome_tailAt hplace, h place hplace]
  rfl

theorem listRef_failsAs
    (h : ∀ place : Nat, index.toInt = place → (store.follow place (.pair id)).bind store.elementHere? = none) :
    FailsAs .runtime (Strict.apply .listRef [.pair id, .int index]) store := by
  rw [apply_listRef]
  refine failsAs_of_place fun place hplace => ⟨.indexOutOfRange "list-ref" index, rfl, ?_⟩
  rw [outcome_elementAt hplace, h place hplace]
  rfl

theorem listRef_of_elementHere
    {element : Value}
    (hplace : index.toInt = place)
    (h : (store.follow place (.pair id)).bind store.elementHere? = some element) :
    outcome (Strict.apply .listRef [.pair id, .int index]) store = (.ok element, store) := by
  rw [apply_listRef, outcome_of_place hplace, outcome_elementAt hplace, h]
  rfl

end Places

/-- What an index finds in a chain, circular or not, is what stands as many links behind its first pair, and it is
found without a copy being made. In a chain that ends these are the elements of the chain, in order. Where new pairs
are put in front of a chain whose pairs the store has got, their elements come first and then those of that chain. -/
theorem indexing_agrees_with_flattening
    (store : Store)
    (id : PairId)
    (index : Int64) :
    (∀ (place : Nat) tail, index.toInt = place → store.Behind (.pair id) place tail →
      outcome (Strict.apply .listTail [.pair id, .int index]) store = (.ok tail, store)) ∧
    ((∀ (place : Nat) tail, index.toInt = place → ¬store.Behind (.pair id) place tail) →
      FailsAs .runtime (Strict.apply .listTail [.pair id, .int index]) store) ∧
    (∀ (place : Nat) found, index.toInt = place → store.Behind (.pair id) place (.pair found) →
      outcome (Strict.apply .listRef [.pair id, .int index]) store = (.ok (store.pair found).first, store)) ∧
    (∀ (place : Nat) last, index.toInt = place → store.Behind (.pair id) place last →
      last.isPair = false → last ≠ .nil →
      outcome (Strict.apply .listRef [.pair id, .int index]) store = (.ok last, store)) ∧
    ((∀ (place : Nat) tail, index.toInt = place → store.Behind (.pair id) place tail → tail = .nil) →
      FailsAs .runtime (Strict.apply .listRef [.pair id, .int index]) store) ∧
    (¬store.Circular (.pair id) → ∃ values, store.elements? (.pair id) = some values ∧
      (∀ (place : Nat) element, index.toInt = place → values[place]? = some element →
        outcome (Strict.apply .listRef [.pair id, .int index]) store = (.ok element, store)) ∧
      ((∀ place : Nat, index.toInt = place → values.length ≤ place) →
        FailsAs .runtime (Strict.apply .listRef [.pair id, .int index]) store)) ∧
    ∀ values tail, store.HoldsChain tail → ¬store.Circular tail →
      ∃ elements, store.elements? tail = some elements ∧
        (store.newChain values tail).2.elements? (store.newChain values tail).1 = some (values ++ elements) := by
  simp only [Store.behind_iff_follow]
  refine ⟨?_, ?_, ?_, ?_, ?_, ?_, ?_⟩
  · intro place tail hplace hfollow
    rw [apply_listTail, outcome_of_place hplace, outcome_tailAt hplace, hfollow]
    rfl
  · intro hnone
    refine listTail_failsAs fun place hplace => ?_
    exact Option.eq_none_iff_forall_ne_some.mpr fun tail => hnone place tail hplace
  · intro place found hplace hfollow
    exact listRef_of_elementHere hplace (by rw [hfollow]; rfl)
  · intro place last hplace hfollow hatom hne
    refine listRef_of_elementHere hplace ?_
    rw [hfollow]
    cases last with
    | pair found => cases hatom
    | nil => exact (hne rfl).elim
    | _ => rfl
  · intro hnil
    refine listRef_failsAs fun place hplace => ?_
    cases hfollow : store.follow place (.pair id) with
    | none => rfl
    | some tail =>
        rw [hnil place tail hplace hfollow]
        rfl
  · intro hcircular
    obtain ⟨values, hvalues⟩ := Store.exists_elements_of_not_circular hcircular
    have hplaces := Store.getElem?_elements hvalues
    refine ⟨values, hvalues, ?_, ?_⟩
    · intro place element hplace helement
      exact listRef_of_elementHere hplace ((hplaces place).symm.trans helement)
    · intro hbeyond
      refine listRef_failsAs fun place hplace => ?_
      rw [← hplaces place]
      exact List.getElem?_eq_none (hbeyond place hplace)
  · intro values tail hheld hcircular
    obtain ⟨elements, helements⟩ := Store.exists_elements_of_not_circular hcircular
    refine ⟨elements, helements, ?_⟩
    rw [Store.elements?_newChain, hheld.elements?_newChain values, helements]
    rfl

/-- A store with the chain `(1 2 . 3)`. -/
def dottedStore : Store :=
  ⟨#[⟨.int 1, .pair ⟨1⟩⟩, ⟨.int 2, .int 3⟩], #[], #[]⟩

theorem dottedStore_sound : dottedStore.Sound := by
  intro item next hitem hlink
  cases hlink with
  | @first id _ h =>
      match id with
      | ⟨0⟩ | ⟨1⟩ | ⟨_ + 2⟩ => cases h
  | @second id _ h =>
      match id with
      | ⟨0⟩ =>
          cases h
          show 1 < 2
          decide
      | ⟨1⟩ | ⟨_ + 2⟩ => cases h
  | body => exact (Nat.not_lt_zero _ hitem).elim
  | captured => exact (Nat.not_lt_zero _ hitem).elim
  | parent => exact (Nat.not_lt_zero _ hitem).elim
  | bound => exact (Nat.not_lt_zero _ hitem).elim

/-- The end of the chain is found behind its last pair and nothing behind the end. -/
theorem indexing_agrees_with_flattening_of_a_dotted_chain :
    outcome (Strict.apply .listTail [.pair ⟨0⟩, .int 2]) dottedStore = (.ok (.int 3), dottedStore) ∧
      outcome (Strict.apply .listRef [.pair ⟨0⟩, .int 2]) dottedStore = (.ok (.int 3), dottedStore) ∧
      FailsAs .runtime (Strict.apply .listRef [.pair ⟨0⟩, .int 3]) dottedStore ∧
      (dottedStore.newChain [.int 0] (.pair ⟨0⟩)).2.elements? (.pair ⟨2⟩) =
        some [.int 0, .int 1, .int 2, .int 3] := by
  have hbehind : dottedStore.Behind (.pair ⟨0⟩) 2 (.int 3) := Store.behind_iff_follow.mpr rfl
  have hcircular : ¬dottedStore.Circular (.pair ⟨0⟩) := fun h =>
    h.follow_ne rfl (Store.behind_iff_follow.mp hbehind)
  have hholds : dottedStore.Holds (.pair ⟨0⟩) := by
    rintro _ ⟨⟩
    show 0 < 2
    decide
  have helements : dottedStore.elements? (.pair ⟨0⟩) = some [.int 1, .int 2, .int 3] := rfl
  obtain ⟨htail, -, -, hend, -, -, hnew⟩ := indexing_agrees_with_flattening dottedStore ⟨0⟩ 2
  obtain ⟨-, -, -, -, -, hflat, -⟩ := indexing_agrees_with_flattening dottedStore ⟨0⟩ 3
  refine ⟨htail 2 _ rfl hbehind, hend 2 _ rfl hbehind rfl nofun, ?_, ?_⟩
  · obtain ⟨values, hvalues, -, hbeyond⟩ := hflat hcircular
    cases helements.symm.trans hvalues
    refine hbeyond fun place hplace => ?_
    exact Nat.le_of_eq (Int.ofNat.inj hplace)
  · obtain ⟨elements, hsome, hmade⟩ := hnew [.int 0] (.pair ⟨0⟩) (dottedStore_sound.holdsChain hholds) hcircular
    cases helements.symm.trans hsome
    exact hmade

end SmallLisp
