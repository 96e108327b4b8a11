import Mathlib.Data.Fintype.Pigeonhole
import SmallLisp.Eval.Evaluator
import SmallLisp.Proofs.Bounds

/-!
# The test for lists

Two walkers go along a chain, one of them twice as fast. If the chain ends, the fast one comes to its end; if
the chain runs in a circle, they meet there before the slow one has made as many steps as there are pairs.

* `Store.Behind` says what stands a number of links behind a value, and `Store.Circular` that a chain comes back to
  a pair;
* `Store.exists_meeting`: on a walk of two links more than twice the number of pairs, some place and the place
  twice as far are the same pair;
* `Store.raceRound_ok` and `Store.raceRound_error` say what one round does, `Store.race_some` and
  `Store.race_none` what any number of rounds do;
* `Store.isList_iff` and `Store.isList_eq` say what the test finds out.
-/

namespace SmallLisp

namespace Store

/-- `store.Behind value count other`: the value `other` stands `count` links behind `value`. -/
inductive Behind (store : Store) (value : Value) : Nat → Value → Prop
  | here :
      Behind store value 0 value
  | next
      {count : Nat}
      {id : PairId}
      (before : Behind store value count (.pair id)) :
      Behind store value (count + 1) (store.pair id).second

/-- The chain comes back to a pair. -/
def Circular (store : Store) (value : Value) : Prop :=
  ∃ count period id, 0 < period ∧
    store.Behind value count (.pair id) ∧ store.Behind (.pair id) period (.pair id)

variable {store : Store} {value other last : Value} {id : PairId} {count further : Nat}

section Following

theorem follow_add
    (store : Store)
    (count further : Nat)
    (value : Value) :
    store.follow (count + further) value = (store.follow count value).bind (store.follow further) := by
  induction count generalizing value with
  | zero => rw [Nat.zero_add]; rfl
  | succ count ih =>
      rw [Nat.succ_add, follow, follow, Option.bind_assoc]
      exact congrArg _ (funext ih)

theorem follow_next
    (h : store.follow count value = some (.pair id)) :
    store.follow (count + 1) value = some (store.pair id).second := by
  rw [follow_add, h]
  rfl

/-- Following a chain gives what stands behind the value. -/
theorem behind_iff_follow :
    store.Behind value count other ↔ store.follow count value = some other := by
  constructor
  · intro h
    induction h with
    | here => rfl
    | next _ ih => exact follow_next ih
  · intro h
    induction count generalizing other with
    | zero =>
        cases h
        exact .here
    | succ count ih =>
        rw [follow_add] at h
        obtain ⟨before, hbefore, hlink⟩ := Option.bind_eq_some_iff.mp h
        cases before with
        | pair id =>
            cases hlink
            exact .next (ih hbefore)
        | _ => cases hlink

/-- All values before the one that is followed are pairs. -/
theorem exists_pair_of_follow
    (h : store.follow count value = some last)
    (hlt : further < count) :
    ∃ id, store.follow further value = some (.pair id) := by
  obtain ⟨rest, rfl⟩ : ∃ rest, count = further + (rest + 1) := ⟨count - further - 1, by omega⟩
  rw [follow_add] at h
  obtain ⟨before, hbefore, hlink⟩ := Option.bind_eq_some_iff.mp h
  cases before with
  | pair id => exact ⟨id, hbefore⟩
  | _ => cases hlink

/-- A chain has one end only. -/
theorem end_unique
    (h : store.follow count value = some last)
    (h' : store.follow further value = some other)
    (hlast : last.isPair = false)
    (hother : other.isPair = false) :
    last = other := by
  rcases Nat.lt_trichotomy count further with hlt | rfl | hgt
  · obtain ⟨id, hid⟩ := exists_pair_of_follow h' hlt
    cases h.symm.trans hid
    cases hlast
  · exact Option.some.inj (h.symm.trans h')
  · obtain ⟨id, hid⟩ := exists_pair_of_follow h hgt
    cases h'.symm.trans hid
    cases hother

end Following

section Circles

/-- What leads back to itself does so any number of times. -/
theorem follow_circle
    {period : Nat}
    (h : store.follow period value = some value)
    (times : Nat) :
    store.follow (period * times) value = some value := by
  induction times with
  | zero => rfl
  | succ times ih =>
      rw [Nat.mul_succ, follow_add, ih]
      exact h

/-- A chain that runs in a circle has no end. -/
theorem follow_ne_of_circle
    {period : Nat}
    (hperiod : 0 < period)
    (hid : store.follow count value = some (.pair id))
    (hround : store.follow period (.pair id) = some (.pair id))
    (hlast : last.isPair = false) :
    store.follow further value ≠ some last := by
  intro h
  have hlong : store.follow (count + period * (further + 1)) value = some (.pair id) := by
    rw [follow_add, hid]
    exact follow_circle hround (further + 1)
  have hle : further + 1 ≤ period * (further + 1) := Nat.le_mul_of_pos_left _ hperiod
  have hlt : further < count + period * (further + 1) := by omega
  obtain ⟨passed, hpassed⟩ := exists_pair_of_follow hlong hlt
  cases h.symm.trans hpassed
  cases hlast

theorem Circular.follow_ne
    (h : store.Circular value)
    (hlast : last.isPair = false) :
    store.follow further value ≠ some last := by
  obtain ⟨count, period, id, hperiod, hid, hround⟩ := h
  exact follow_ne_of_circle hperiod (behind_iff_follow.mp hid) (behind_iff_follow.mp hround) hlast

/-- Where a chain comes to a pair again, there is a place on the circle such that the place twice as far is the
same: the first one behind the start of the circle whose number is a multiple of the length of the circle. -/
theorem exists_meeting_of_circle
    {first again : Nat}
    (hlt : first < again)
    (hfirst : store.follow first value = some (.pair id))
    (hagain : store.follow again value = some (.pair id)) :
    ∃ count met,
      0 < count ∧ count ≤ again ∧
      store.follow count value = some (.pair met) ∧
      store.follow (2 * count) value = some (.pair met) := by
  obtain ⟨period, rfl⟩ : ∃ period, again = first + period := ⟨again - first, by omega⟩
  have hperiod : 0 < period := by omega
  have hround : store.follow period (.pair id) = some (.pair id) := by
    rwa [follow_add, hfirst] at hagain
  have hbehind : first < period * (first / period + 1) := Nat.lt_mul_div_succ first hperiod
  have hwithin : period * (first / period + 1) ≤ first + period := by
    rw [Nat.mul_succ]
    exact Nat.add_le_add_right (Nat.mul_div_le first period) period
  obtain ⟨rest, hrest⟩ : ∃ rest, period * (first / period + 1) = first + rest :=
    ⟨period * (first / period + 1) - first, by omega⟩
  have hfrom : ∀ further, store.follow (first + further) value = store.follow further (.pair id) := by
    intro further
    rw [follow_add, hfirst]
    rfl
  obtain ⟨met, hmet⟩ : ∃ met, store.follow rest (.pair id) = some (.pair met) := by
    rcases Nat.lt_or_eq_of_le (show rest ≤ period by omega) with hshort | rfl
    · exact exists_pair_of_follow hround hshort
    · exact ⟨id, hround⟩
  refine ⟨first + rest, met, by omega, by omega, by rw [hfrom, hmet], ?_⟩
  have htwice : 2 * (first + rest) = first + (period * (first / period + 1) + rest) := by omega
  rw [htwice, hfrom, follow_add, follow_circle hround]
  exact hmet

/-- On a long walk some place and the place twice as far are the same pair, since the walk comes to some pair
again. -/
theorem exists_meeting
    (h : store.follow (2 * (store.pairs.size + 1)) value = some last) :
    ∃ count met,
      0 < count ∧ count ≤ store.pairs.size ∧
      store.follow count value = some (.pair met) ∧
      store.follow (2 * count) value = some (.pair met) := by
  have hpassed : ∀ place : Fin (store.pairs.size + 1),
      ∃ id : PairId, id.index < store.pairs.size ∧ store.follow place value = some (.pair id) := by
    intro place
    have hplace : place.val < 2 * (store.pairs.size + 1) := by omega
    have hbehind : place.val + 1 < 2 * (store.pairs.size + 1) := by omega
    obtain ⟨id, hid⟩ := exists_pair_of_follow h hplace
    obtain ⟨next, hnext⟩ := exists_pair_of_follow h hbehind
    refine ⟨id, ?_, hid⟩
    -- Behind a pair that the store does not hold the chain would end.
    by_contra hout
    rw [follow_next hid, slot_of_not_held (Nat.le_of_not_lt hout) (.second id)] at hnext
    cases hnext
  choose passed hheld hpassed using hpassed
  let number : Fin (store.pairs.size + 1) → Fin store.pairs.size := fun place =>
    ⟨(passed place).index, hheld place⟩
  obtain ⟨one, two, hne, hsame⟩ := Fintype.exists_ne_map_eq_of_card_lt number (by simp)
  have hid : passed one = passed two := PairId.index_injective (congrArg Fin.val hsame)
  have hone := hpassed one
  have htwo := hpassed two
  rcases Nat.lt_or_gt_of_ne (Fin.val_ne_of_ne hne) with hlt | hgt
  · obtain ⟨count, met, hpos, hle, hmet⟩ := exists_meeting_of_circle hlt hone (hid ▸ htwo)
    exact ⟨count, met, hpos, by omega, hmet⟩
  · obtain ⟨count, met, hpos, hle, hmet⟩ := exists_meeting_of_circle hgt htwo (hid ▸ hone)
    exact ⟨count, met, hpos, by omega, hmet⟩

/-- A chain that does not come back to a pair ends. -/
theorem exists_end_of_not_circular (h : ¬store.Circular value) :
    ∃ count last, store.follow count value = some last ∧ last.isPair = false := by
  by_contra hnone
  have hpair : ∀ count last, store.follow count value = some last → ∃ id, last = .pair id := by
    intro count last hlast
    cases last with
    | pair id => exact ⟨id, rfl⟩
    | _ => exact (hnone ⟨count, _, hlast, rfl⟩).elim
  have hpairs : ∀ count, ∃ id, store.follow count value = some (.pair id) := by
    intro count
    induction count with
    | zero =>
        obtain ⟨id, rfl⟩ := hpair 0 value rfl
        exact ⟨id, rfl⟩
    | succ count ih =>
        obtain ⟨id, hid⟩ := ih
        have hlink := follow_next hid
        obtain ⟨next, hnext⟩ := hpair (count + 1) _ hlink
        exact ⟨next, hnext ▸ hlink⟩
  obtain ⟨last, hlast⟩ := hpairs (2 * (store.pairs.size + 1))
  obtain ⟨count, met, hpos, -, hmet, htwice⟩ := exists_meeting hlast
  have hround : store.follow count (.pair met) = some (.pair met) := by
    rwa [Nat.two_mul, follow_add, hmet] at htwice
  exact h ⟨count, count, met, hpos, behind_iff_follow.mpr hmet, behind_iff_follow.mpr hround⟩

end Circles

section Racing

variable {slow fast slow' fast' place next : Value} {round rounds : Nat} {answer : Bool}

/-- A walker that goes on is one link further. -/
theorem onward_ok
    (hplace : store.follow count value = some place)
    (h : store.onward place = .ok next) :
    store.follow (count + 1) value = some next := by
  unfold onward at h
  split at h <;> cases h
  rename_i hnext
  rw [follow_add, hplace]
  show (store.second? place).bind (store.follow 0) = some next
  rw [hnext]
  rfl

/-- A walker that is at the end of the chain knows whether the chain is a list. -/
theorem onward_error
    (hplace : store.follow count value = some place)
    (h : store.onward place = .error answer) :
    answer = true ↔ ∃ count, store.follow count value = some .nil := by
  have hatom : place.isPair = false := by
    cases place with
    | pair id => cases h
    | _ => rfl
  obtain rfl : decide (place = .nil) = answer := by
    cases place with
    | pair id => cases h
    | _ => exact Except.error.inj h
  rw [decide_eq_true_iff]
  constructor
  · rintro rfl
    exact ⟨count, hplace⟩
  · rintro ⟨further, hnil⟩
    exact end_unique hplace hnil hatom rfl

theorem exists_of_bind_eq_ok
    {ε α β : Type}
    {first : Except ε α}
    {next : α → Except ε β}
    {result : β}
    (h : first >>= next = .ok result) :
    ∃ middle, first = .ok middle ∧ next middle = .ok result := by
  cases first with
  | error e => cases h
  | ok middle => exact ⟨middle, rfl, h⟩

theorem bind_eq_error_cases
    {ε α β : Type}
    {first : Except ε α}
    {next : α → Except ε β}
    {e : ε}
    (h : first >>= next = .error e) :
    first = .error e ∨ ∃ middle, first = .ok middle ∧ next middle = .error e := by
  cases first with
  | error found =>
      cases h
      exact .inl rfl
  | ok middle => exact .inr ⟨middle, rfl, h⟩

/-- A round that goes on takes the walkers one link and two links further, and they do not meet at a pair. -/
theorem raceRound_ok
    (hslow : store.follow round value = some slow)
    (hfast : store.follow (2 * round) value = some fast)
    (h : store.raceRound slow fast = .ok (slow', fast')) :
    store.follow (round + 1) value = some slow' ∧
      store.follow (2 * (round + 1)) value = some fast' ∧
      ¬(slow'.isPair = true ∧ slow' = fast') := by
  obtain ⟨half, hhalf, hrest⟩ := exists_of_bind_eq_ok h
  obtain ⟨whole, hwhole, hslower⟩ := exists_of_bind_eq_ok hrest
  obtain ⟨next, hnext, hcompare⟩ := exists_of_bind_eq_ok hslower
  clear h hrest hslower
  split at hcompare <;> cases hcompare
  rename_i hapart
  exact ⟨onward_ok hslow hnext, onward_ok (onward_ok hfast hhalf) hwhole, hapart⟩

/-- Walkers that meet at a pair are on a circle. -/
theorem follow_ne_of_meeting
    (hround : 0 < round)
    (hslow : store.follow round value = some (.pair id))
    (hfast : store.follow (2 * round) value = some (.pair id))
    (hlast : last.isPair = false) :
    store.follow further value ≠ some last := by
  rw [Nat.two_mul, follow_add, hslow] at hfast
  exact follow_ne_of_circle hround hslow hfast hlast

/-- A round that decides is right: a walker is at the end of the chain, or the walkers meet. -/
theorem raceRound_error
    (hslow : store.follow round value = some slow)
    (hfast : store.follow (2 * round) value = some fast)
    (h : store.raceRound slow fast = .error answer) :
    answer = true ↔ ∃ count, store.follow count value = some .nil := by
  rcases bind_eq_error_cases h with hhalf | ⟨half, hhalf, hrest⟩
  · exact onward_error hfast hhalf
  rcases bind_eq_error_cases hrest with hwhole | ⟨whole, hwhole, hslower⟩
  · exact onward_error (onward_ok hfast hhalf) hwhole
  rcases bind_eq_error_cases hslower with hnext | ⟨next, hnext, hcompare⟩
  · exact onward_error hslow hnext
  clear h hrest hslower
  split at hcompare <;> cases hcompare
  rename_i hmet
  obtain ⟨hpair, rfl⟩ := hmet
  have hslow' := onward_ok hslow hnext
  have hfast' := onward_ok (onward_ok hfast hhalf) hwhole
  cases next with
  | pair id =>
      refine ⟨nofun, ?_⟩
      rintro ⟨count, hnil⟩
      exact (follow_ne_of_meeting (Nat.succ_pos round) hslow' hfast' rfl hnil).elim
  | _ => cases hpair

/-- A race that is decided is decided rightly. -/
theorem race_some
    (hslow : store.follow round value = some slow)
    (hfast : store.follow (2 * round) value = some fast)
    (h : store.race rounds slow fast = some answer) :
    answer = true ↔ ∃ count, store.follow count value = some .nil := by
  induction rounds generalizing round slow fast with
  | zero => cases h
  | succ rounds ih =>
      rw [race] at h
      split at h
      · rename_i hround
        cases h
        exact raceRound_error hslow hfast hround
      · rename_i hround
        obtain ⟨hslow', hfast', -⟩ := raceRound_ok hslow hfast hround
        exact ih hslow' hfast' h

/-- In a race that is not decided both walkers have gone on, and they have met at no pair. -/
theorem race_none
    (hslow : store.follow round value = some slow)
    (hfast : store.follow (2 * round) value = some fast)
    (h : store.race rounds slow fast = none) :
    (∃ last, store.follow (2 * (round + rounds)) value = some last) ∧
      ∀ count id, round < count → count ≤ round + rounds →
        store.follow count value = some (.pair id) →
        store.follow (2 * count) value ≠ some (.pair id) := by
  induction rounds generalizing round slow fast with
  | zero => exact ⟨⟨fast, hfast⟩, fun count id hlt hle => by omega⟩
  | succ rounds ih =>
      rw [race] at h
      split at h
      · cases h
      · rename_i hround
        obtain ⟨hslow', hfast', hapart⟩ := raceRound_ok hslow hfast hround
        obtain ⟨hlast, hlater⟩ := ih hslow' hfast' h
        rw [Nat.add_right_comm, Nat.add_assoc] at hlast hlater
        refine ⟨hlast, fun count id hlt hle hcount hmet => ?_⟩
        rcases Nat.lt_or_eq_of_le hlt with hlt' | rfl
        · exact hlater count id hlt' hle hcount hmet
        · cases hslow'.symm.trans hcount
          cases hfast'.symm.trans hmet
          exact hapart ⟨rfl, rfl⟩

/-- More rounds decide nothing else. -/
theorem race_mono
    {more : Nat}
    (hle : rounds ≤ more)
    (h : store.race rounds slow fast = some answer) :
    store.race more slow fast = some answer := by
  induction rounds generalizing more slow fast with
  | zero => cases h
  | succ rounds ih =>
      obtain ⟨more, rfl⟩ : ∃ less, more = less + 1 := ⟨more - 1, by omega⟩
      rw [race] at h ⊢
      split at h
      · exact h
      · exact ih (by omega) h

/-- Every race is decided within one round more than there are pairs. -/
theorem race_ends (store : Store) (value : Value) :
    ∃ answer, store.race (store.pairs.size + 1) value value = some answer := by
  cases h : store.race (store.pairs.size + 1) value value with
  | some answer => exact ⟨answer, rfl⟩
  | none =>
      have hstart : store.follow 0 value = some value := rfl
      obtain ⟨⟨last, hlast⟩, hapart⟩ := race_none hstart hstart h
      rw [Nat.zero_add] at hlast hapart
      obtain ⟨count, met, hpos, hle, hslow, hfast⟩ := exists_meeting hlast
      exact (hapart count met hpos (Nat.le_succ_of_le hle) hslow hfast).elim

/-- The test for lists gives the answer of the race. -/
theorem race_eq_isList (store : Store) (value : Value) :
    store.race (store.pairs.size + 1) value value = some (store.isList value) := by
  obtain ⟨answer, hanswer⟩ := store.race_ends value
  rw [isList, hanswer]
  rfl

/-- A list is a value from which second slots lead to the empty list. -/
theorem isList_iff :
    store.isList value = true ↔ ∃ count, store.follow count value = some .nil := by
  have hstart : store.follow 0 value = some value := rfl
  exact race_some hstart hstart (store.race_eq_isList value)

end Racing

section Chains

/-- A value behind which there is an end has elements on the way to it. -/
theorem exists_chain_of_follow
    (h : store.follow count value = some last)
    (hlast : last.isPair = false) :
    ∃ elements, store.chain? value = some (elements, last) := by
  have hwalk : ∃ elements, store.chainUpTo count value = some (elements, last) := by
    induction count generalizing value with
    | zero =>
        cases h
        exact ⟨[], store.chainUpTo_atom 0 hlast⟩
    | succ count ih =>
        cases value with
        | pair id =>
            obtain ⟨elements, hchain⟩ := ih h
            exact ⟨(store.pair id).first :: elements, by rw [chainUpTo, hchain]; rfl⟩
        | _ => cases h
  obtain ⟨elements, hchain⟩ := hwalk
  refine ⟨elements, ?_⟩
  rw [← store.chainUpTo_eq (Nat.le_max_right count (store.pairs.size + 1))]
  exact store.chainUpTo_mono (Nat.le_max_left _ _) hchain

/-- A list is a chain that ends in the empty list. -/
theorem isList_eq (store : Store) (value : Value) :
    store.isList value =
      match store.chain? value with
      | some (_, .nil) => true
      | _ => false := by
  rw [Bool.eq_iff_iff, isList_iff]
  constructor
  · rintro ⟨count, h⟩
    obtain ⟨elements, hchain⟩ := exists_chain_of_follow h rfl
    rw [hchain]
  · intro h
    split at h
    · rename_i hchain
      exact ⟨_, store.follow_of_chainUpTo hchain⟩
    · cases h

end Chains

end Store

end SmallLisp
