import SmallLisp.Proofs.Within

/-!
# What reading the store gives hold of

Whatever code reads by starting from what it has got hold of, it has got hold of as well: the slots of a
pair, the elements of a chain, the places along it, the values of names in a frame and in those around it.
A chain of new pairs for such values is made by changes that code may make.
-/

namespace SmallLisp

variable {given : Primitive → Bool}

namespace World

variable {w w' : World given}

/-- Code has got hold of each value of a list. -/
def HasAll (w : World given) (values : List Value) : Prop :=
  ∀ value ∈ values, w.Has value

theorem has_of_item?_eq_none
    {value : Value}
    (h : value.item? = none) :
    w.Has value := by
  intro item hitem
  rw [h] at hitem
  cases hitem

theorem has_int (number : Int64) : w.Has (.int number) :=
  has_of_item?_eq_none rfl

theorem has_bool (truth : Bool) : w.Has (.bool truth) :=
  has_of_item?_eq_none rfl

theorem has_nil : w.Has .nil :=
  has_of_item?_eq_none rfl

theorem has_of_item
    {value : Value}
    {item : Item}
    (hvalue : value.item? = some item)
    (hitem : item ∈ w.items) :
    w.Has value := by
  intro other hother
  obtain rfl : item = other := Option.some.inj (hvalue.symm.trans hother)
  exact hitem

theorem hasAll_nil : w.HasAll [] :=
  nofun

theorem hasAll_cons
    {value : Value}
    {values : List Value} :
    w.HasAll (value :: values) ↔ w.Has value ∧ w.HasAll values :=
  List.forall_mem_cons

theorem HasAll.drop
    {values : List Value}
    (h : w.HasAll values)
    (number : Nat) :
    w.HasAll (values.drop number) :=
  fun value hvalue => h value (List.mem_of_mem_drop hvalue)

theorem has_first
    {id : PairId}
    (h : .pair id ∈ w.items) :
    w.Has (w.store.pair id).first :=
  fun _ hitem => w.closed h (.first hitem)

theorem has_second
    {id : PairId}
    (h : .pair id ∈ w.items) :
    w.Has (w.store.pair id).second :=
  fun _ hitem => w.closed h (.second hitem)

theorem pair_mem
    {id : PairId}
    (h : w.Has (.pair id)) :
    .pair id ∈ w.items :=
  h _ rfl

theorem has_of_first?
    {value first : Value}
    (hvalue : w.Has value)
    (h : w.store.first? value = some first) :
    w.Has first := by
  cases value with
  | pair id =>
      obtain rfl : (w.store.pair id).first = first := Option.some.inj h
      exact has_first (pair_mem hvalue)
  | _ => cases h

theorem has_of_second?
    {value second : Value}
    (hvalue : w.Has value)
    (h : w.store.second? value = some second) :
    w.Has second := by
  cases value with
  | pair id =>
      obtain rfl : (w.store.pair id).second = second := Option.some.inj h
      exact has_second (pair_mem hvalue)
  | _ => cases h

/-- The places along a chain. -/
theorem has_of_follow
    {count : Nat}
    {value tail : Value}
    (hvalue : w.Has value)
    (h : w.store.follow count value = some tail) :
    w.Has tail := by
  induction count generalizing value with
  | zero =>
      obtain rfl : value = tail := Option.some.inj h
      exact hvalue
  | succ count ih =>
      obtain ⟨second, hsecond, htail⟩ := Option.bind_eq_some_iff.mp h
      exact ih (has_of_second? hvalue hsecond) htail

theorem has_of_chainUpTo
    {count : Nat}
    {value : Value}
    {chain : List Value × Value}
    (hvalue : w.Has value)
    (h : w.store.chainUpTo count value = some chain) :
    w.HasAll chain.1 ∧ w.Has chain.2 := by
  induction count generalizing value chain with
  | zero =>
      cases value with
      | pair id => cases h
      | _ =>
          cases h
          exact ⟨hasAll_nil, hvalue⟩
  | succ count ih =>
      cases value with
      | pair id =>
          obtain ⟨rest, hrest, rfl⟩ := Option.map_eq_some_iff.mp h
          obtain ⟨hall, hend⟩ := ih (has_second (pair_mem hvalue)) hrest
          exact ⟨hasAll_cons.mpr ⟨has_first (pair_mem hvalue), hall⟩, hend⟩
      | _ =>
          cases h
          exact ⟨hasAll_nil, hvalue⟩

/-- The elements of a chain. -/
theorem hasAll_of_elements?
    {value : Value}
    {values : List Value}
    (hvalue : w.Has value)
    (h : w.store.elements? value = some values) :
    w.HasAll values := by
  obtain ⟨⟨front, last⟩, hchain, rfl⟩ := Option.map_eq_some_iff.mp h
  obtain ⟨hall, hlast⟩ := has_of_chainUpTo hvalue hchain
  cases last with
  | nil => exact hall
  | _ =>
      intro member hmember
      rcases List.mem_append.mp hmember with hfront | hend
      · exact hall member hfront
      · rw [List.mem_singleton.mp hend]
        exact hlast

theorem frame_mem_of_mem_scopesUpTo
    {bound : Nat}
    {id scope : FrameId}
    (hid : .frame id ∈ w.items)
    (h : scope ∈ w.store.scopesUpTo bound id) :
    .frame scope ∈ w.items := by
  induction bound generalizing id with
  | zero => cases h
  | succ bound ih =>
      unfold Store.scopesUpTo at h
      split at h
      · rw [List.mem_singleton.mp h]
        exact hid
      · rename_i parent hparent
        rcases List.mem_cons.mp h with rfl | h
        · exact hid
        · exact ih (w.closed hid (.parent hparent)) h

/-- The values of names. -/
theorem has_of_lookup
    {id : FrameId}
    {name : String}
    {value : Value}
    (hid : .frame id ∈ w.items)
    (h : w.store.lookup id name = some value) :
    w.Has value := by
  rw [Store.lookup_eq_findSome?] at h
  obtain ⟨scope, hscope, hvalue⟩ := List.exists_of_findSome?_eq_some h
  exact fun _ hitem => w.closed (frame_mem_of_mem_scopesUpTo hid hscope) (.bound hvalue hitem)

/-- The nearest frame that binds a name binds it. -/
theorem binder?_mem
    {id scope : FrameId}
    {name : String}
    (hid : .frame id ∈ w.items)
    (h : w.store.binder? id name = some scope) :
    .frame scope ∈ w.items ∧ (w.store.frame scope).binds name = true := by
  have hbinds := List.find?_some h
  exact ⟨frame_mem_of_mem_scopesUpTo hid (List.mem_of_find?_eq_some h), hbinds⟩

end World

namespace Changes

variable {w w' : World given}

theorem hasAll
    {values : List Value}
    (h : Changes w w')
    (hvalues : w.HasAll values) :
    w'.HasAll values :=
  fun value hvalue => h.has (hvalues value hvalue)

/-- A chain of new pairs is made by changes. -/
theorem exists_newChain
    (w : World given)
    {values : List Value}
    {tail : Value}
    (hvalues : w.HasAll values)
    (htail : w.Has tail) :
    ∃ w', Changes w w' ∧
      (w.store.newChain values tail).2 = w'.store ∧
      w'.Has (w.store.newChain values tail).1 := by
  induction values with
  | nil => exact ⟨w, .refl, rfl, htail⟩
  | cons first values ih =>
      obtain ⟨hfirst, hvalues⟩ := World.hasAll_cons.mp hvalues
      obtain ⟨w', hchanges, hstore, hsecond⟩ := ih hvalues
      refine ⟨w'.newPair (hchanges.has hfirst) hsecond,
        hchanges.tail (.newPair _ _), ?_, ?_⟩
      · show (Store.newPair _ _ (w.store.newChain values tail).2).2 = _
        rw [hstore]
        rfl
      · show World.Has _ (Store.newPair _ _ (w.store.newChain values tail).2).1
        rw [hstore]
        exact World.has_of_item rfl (Set.mem_insert _ _)

end Changes

end SmallLisp
