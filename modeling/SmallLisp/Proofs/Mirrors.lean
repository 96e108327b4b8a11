import SmallLisp.Proofs.Renaming
import SmallLisp.Store.Tree

/-!
# The same changes to stores that look alike

Two stores that look alike do so after the same change to both of them: what is put into the one under new
identities is put into the other, and what is made next in the one gets its new identity in the other.

* `Mirrors.newPair` and its siblings say so for each of the ways in which code changes the store;
* `Mirrors.exists_newChain` and `Mirrors.exists_install` for a chain and for a tree of new pairs.
-/

namespace SmallLisp

namespace Frame.RenamedTo

variable
  {r : Renaming}
  {instead : String → Option Value}
  {frame frame' : Frame}

/-- A name that is bound instead of another value is not bound again. -/
theorem insert
    (h : frame.RenamedTo r instead frame')
    {name : String}
    (hname : instead name = none)
    (value : Value) :
    (frame.insert name value).RenamedTo r instead (frame'.insert name (value.rename r)) := by
  refine ⟨h.parent, ?_⟩
  intro other
  rw [Frame.get?_insert, Frame.get?_insert]
  by_cases hother : other = name
  · rw [if_pos hother, if_pos hother, hother, hname]
    rfl
  · rw [if_neg hother, if_neg hother, h.get? other]

end Frame.RenamedTo

theorem renameBindings_insertBinding
    (r : Renaming)
    (name : String)
    (value : Value)
    (bindings : List (String × Value)) :
    renameBindings r (insertBinding name value bindings) =
      insertBinding name (value.rename r) (renameBindings r bindings) := by
  induction bindings with
  | nil => rfl
  | cons entry bindings ih =>
      by_cases hname : entry.1 = name
      · simp [renameBindings, insertBinding, hname]
      · simp only [renameBindings] at ih
        simp [renameBindings, insertBinding, hname, ih]

/-- Overwriting a pair changes that pair, if there is one, and no other. -/
theorem Store.pair_modify
    (store : Store)
    (id other : PairId)
    (change : Pair → Pair) :
    ({ store with pairs := store.pairs.modify id.index change } : Store).pair other =
      if other = id ∧ id.index < store.pairs.size then change (store.pair id)
      else store.pair other := by
  obtain ⟨i⟩ := id
  obtain ⟨j⟩ := other
  simp only [pair, Array.getD_eq_getD_getElem?, Array.getElem?_modify, PairId.mk.injEq]
  by_cases hij : i = j
  · subst hij
    by_cases hlt : i < store.pairs.size <;> simp [hlt]
  · have hji : ¬ j = i := fun e => hij e.symm
    simp [hij, hji]

variable
  {given : Primitive → Bool}
  {r : Renaming}
  {instead : FrameId → String → Option Value}
  {also : Set Item}
  {w : World given}
  {store : Store}

/-- What was not made just now, code had got hold of before. -/
theorem World.mem_or_mem_of_ne
    {made item : Item}
    (hitem : item ∈ insert made w.items ∨ item ∈ also)
    (hne : item ≠ made) :
    item ∈ w.items ∨ item ∈ also :=
  hitem.imp_left fun hmem => Set.mem_of_mem_insert_of_ne hmem hne

namespace Mirrors

theorem newPair
    (h : Mirrors r instead also w store)
    {first second : Value}
    (hfirst : w.Has first)
    (hsecond : w.Has second) :
    Mirrors r instead also (w.newPair hfirst hsecond)
      (store.newPair (first.rename r) (second.rename r)).2 where
  carries := by
    intro item hitem
    cases item with
    | pair id =>
        show Store.pair _ _ = Pair.rename r ((w.store.newPair first second).2.pair id)
        have hiff : (r.pair id).index = store.pairs.size ↔ id.index = w.store.pairs.size :=
          h.pairs_next.eq_iff r.pairs_injective id.index
        rw [Store.pair_newPair, Store.pair_newPair]
        by_cases hid : id.index = w.store.pairs.size
        · rw [if_pos hid, if_pos (hiff.mpr hid)]
          rfl
        · rw [if_neg hid, if_neg (mt hiff.mp hid)]
          exact h.carries (.pair id) (World.mem_or_mem_of_ne hitem (by rintro ⟨⟩; exact hid rfl))
    | closure id => exact h.carries (.closure id) (World.mem_or_mem_of_ne hitem nofun)
    | frame id => exact h.carries (.frame id) (World.mem_or_mem_of_ne hitem nofun)
    | primitive p => trivial
    | symbol name => trivial
  bindings := h.bindings
  instead_old := h.instead_old
  instead_unheld hname hmem := h.instead_unheld hname (Set.mem_of_mem_insert_of_ne hmem nofun)
  instead_calls hname hcall := h.instead_calls hname (hcall.resolve_right nofun)
  pairs_next := by
    simpa [World.newPair, World.make, Store.newPair] using h.pairs_next.succ
  closures_next := h.closures_next
  frames_next := h.frames_next
  pairs_le := by
    simpa [World.newPair, World.make, Store.newPair] using h.pairs_le
  frames_le := h.frames_le

theorem newClosure
    (h : Mirrors r instead also w store)
    {made : Closure}
    (hbody : ∀ value ∈ made.body, w.Has value)
    (hframe : .frame made.frame ∈ w.items) :
    Mirrors r instead also (w.newClosure hbody hframe) (store.newClosure (made.rename r)).2 where
  carries := by
    intro item hitem
    cases item with
    | pair id => exact h.carries (.pair id) (World.mem_or_mem_of_ne hitem nofun)
    | closure id =>
        show Store.closure _ _ = Closure.rename r ((w.store.newClosure made).2.closure id)
        have hiff : (r.closure id).index = store.closures.size ↔ id.index = w.store.closures.size :=
          h.closures_next.eq_iff r.closures_injective id.index
        rw [Store.closure_newClosure, Store.closure_newClosure]
        by_cases hid : id.index = w.store.closures.size
        · rw [if_pos hid, if_pos (hiff.mpr hid)]
        · rw [if_neg hid, if_neg (mt hiff.mp hid)]
          exact h.carries (.closure id) (World.mem_or_mem_of_ne hitem (by rintro ⟨⟩; exact hid rfl))
    | frame id => exact h.carries (.frame id) (World.mem_or_mem_of_ne hitem nofun)
    | primitive p => trivial
    | symbol name => trivial
  bindings := h.bindings
  instead_old := h.instead_old
  instead_unheld hname hmem := h.instead_unheld hname (Set.mem_of_mem_insert_of_ne hmem nofun)
  instead_calls hname hcall := h.instead_calls hname (hcall.resolve_right nofun)
  pairs_next := h.pairs_next
  closures_next := by
    simpa [World.newClosure, World.make, Store.newClosure] using h.closures_next.succ
  frames_next := h.frames_next
  pairs_le := h.pairs_le
  frames_le := h.frames_le

theorem newFrame
    (h : Mirrors r instead also w store)
    {made made' : Frame}
    (hmade : made.RenamedTo r (fun _ => none) made')
    (hbindings : made'.bindings = renameBindings r made.bindings)
    (hparent : ∀ parent, made.parent = some parent → .frame parent ∈ w.items)
    (hbound : ∀ name value, made.get? name = some value → w.Has value) :
    Mirrors r instead also (w.newFrame hparent hbound) (store.newFrame made').2 where
  carries := by
    intro item hitem
    cases item with
    | pair id => exact h.carries (.pair id) (World.mem_or_mem_of_ne hitem nofun)
    | closure id => exact h.carries (.closure id) (World.mem_or_mem_of_ne hitem nofun)
    | frame id =>
        show Frame.RenamedTo r _ ((w.store.newFrame made).2.frame id) _
        have hiff : (r.frame id).index = store.frames.size ↔ id.index = w.store.frames.size :=
          h.frames_next.eq_iff r.frames_injective id.index
        rw [Store.frame_newFrame, Store.frame_newFrame]
        by_cases hid : id.index = w.store.frames.size
        · have hinstead : instead id = fun _ => none := by
            funext name
            by_contra hne
            exact Nat.lt_irrefl _ (hid ▸ h.instead_old hne)
          rw [if_pos hid, if_pos (hiff.mpr hid), hinstead]
          exact hmade
        · rw [if_neg hid, if_neg (mt hiff.mp hid)]
          exact h.carries (.frame id) (World.mem_or_mem_of_ne hitem (by rintro ⟨⟩; exact hid rfl))
    | primitive p => trivial
    | symbol name => trivial
  bindings := by
    intro id halso hinstead
    show Frame.bindings (Store.frame _ _) = renameBindings r ((w.store.newFrame made).2.frame id).bindings
    have hiff : (r.frame id).index = store.frames.size ↔ id.index = w.store.frames.size :=
      h.frames_next.eq_iff r.frames_injective id.index
    rw [Store.frame_newFrame, Store.frame_newFrame]
    by_cases hid : id.index = w.store.frames.size
    · rw [if_pos hid, if_pos (hiff.mpr hid)]
      exact hbindings
    · rw [if_neg hid, if_neg (mt hiff.mp hid)]
      exact h.bindings halso hinstead
  instead_old hname := by
    simpa [World.newFrame, World.make, Store.newFrame] using Nat.lt_succ_of_lt (h.instead_old hname)
  instead_unheld hname hmem := h.instead_unheld hname (Set.mem_of_mem_insert_of_ne hmem nofun)
  instead_calls := by
    rintro id name hname (hcall | hmade)
    · exact h.instead_calls hname hcall
    · exact Nat.lt_irrefl _ (Item.frame.inj hmade ▸ h.instead_old hname)
  pairs_next := h.pairs_next
  closures_next := h.closures_next
  frames_next := by
    simpa [World.newFrame, World.make, Store.newFrame] using h.frames_next.succ
  pairs_le := h.pairs_le
  frames_le := by
    simpa [World.newFrame, World.make, Store.newFrame] using h.frames_le

/-- One pair is overwritten. -/
theorem modifyPair
    (h : Mirrors r instead also w store)
    (id : PairId)
    (change change' : Pair → Pair)
    (hchange : ∀ pair, change' (pair.rename r) = (change pair).rename r)
    {w' : World given}
    (hstore : w'.store = { w.store with pairs := w.store.pairs.modify id.index change })
    (hitems : w'.items = w.items)
    (hcalls : w'.calls = w.calls) :
    Mirrors r instead also w'
      { store with pairs := store.pairs.modify (r.pair id).index change' } where
  carries := by
    intro item hitem
    rw [hitems] at hitem
    have hcarries := h.carries item hitem
    rw [hstore]
    cases item with
    | pair other =>
        have hiff := h.pairs_next.lt_iff r.pairs_injective id.index
        show Store.pair _ _ = Pair.rename r (Store.pair _ _)
        rw [Store.pair_modify, Store.pair_modify]
        by_cases hsame : other = id ∧ id.index < w.store.pairs.size
        · obtain ⟨rfl, hlt⟩ := hsame
          rw [if_pos ⟨rfl, hiff.mpr hlt⟩, if_pos ⟨rfl, hlt⟩, hcarries, hchange]
        · have hsame' : ¬(r.pair other = r.pair id ∧ (r.pair id).index < store.pairs.size) :=
            mt (And.imp (r.pair_injective ·) hiff.mp) hsame
          rw [if_neg hsame', if_neg hsame]
          exact hcarries
    | closure other => exact hcarries
    | frame other => exact hcarries
    | primitive p => trivial
    | symbol name => trivial
  bindings := by
    rw [hstore]
    exact h.bindings
  instead_old hname := by
    rw [hstore]
    exact h.instead_old hname
  instead_unheld := by
    rw [hitems]
    exact h.instead_unheld
  instead_calls := by
    rw [hcalls]
    exact h.instead_calls
  pairs_next := by
    simpa [hstore] using h.pairs_next
  closures_next := by
    rw [hstore]
    exact h.closures_next
  frames_next := by
    rw [hstore]
    exact h.frames_next
  pairs_le := by
    simpa [hstore] using h.pairs_le
  frames_le := by
    rw [hstore]
    exact h.frames_le

theorem setFirst
    (h : Mirrors r instead also w store)
    (id : PairId)
    {value : Value}
    (hvalue : w.Has value) :
    Mirrors r instead also (w.setFirst id hvalue) (store.setFirst (r.pair id) (value.rename r)) :=
  h.modifyPair id (fun pair => { pair with first := value })
    (fun pair => { pair with first := value.rename r }) (fun _ => rfl) rfl rfl rfl

theorem setSecond
    (h : Mirrors r instead also w store)
    (id : PairId)
    {value : Value}
    (hvalue : w.Has value) :
    Mirrors r instead also (w.setSecond id hvalue) (store.setSecond (r.pair id) (value.rename r)) :=
  h.modifyPair id (fun pair => { pair with second := value })
    (fun pair => { pair with second := value.rename r }) (fun _ => rfl) rfl rfl rfl

/-- A name is bound that is not bound instead of another value. -/
theorem bind
    (h : Mirrors r instead also w store)
    (id : FrameId)
    {name : String}
    {value : Value}
    (hname : instead id name = none)
    (hvalue : w.Has value) :
    Mirrors r instead also (w.bind id name hvalue)
      (store.define (r.frame id) name (value.rename r)) := by
  have hstep : ∀ other : FrameId,
      ((w.store.define id name value).frame other = w.store.frame other ∧
          (store.define (r.frame id) name (value.rename r)).frame (r.frame other) =
            store.frame (r.frame other)) ∨
        other = id ∧
          (w.store.define id name value).frame id = (w.store.frame id).insert name value ∧
          (store.define (r.frame id) name (value.rename r)).frame (r.frame id) =
            (store.frame (r.frame id)).insert name (value.rename r) := by
    intro other
    have hiff := h.frames_next.lt_iff r.frames_injective id.index
    by_cases hid : id.index < w.store.frames.size
    · have hid' : (r.frame id).index < store.frames.size := hiff.mpr hid
      rw [Store.frame_define _ _ _ _ _ hid, Store.frame_define _ _ _ _ _ hid]
      rw [Store.frame_define _ _ _ _ _ hid', Store.frame_define _ _ _ _ _ hid']
      by_cases hsame : other = id
      · exact .inr ⟨hsame, if_pos rfl, if_pos rfl⟩
      · exact .inl ⟨if_neg hsame, if_neg (r.frame_injective.ne hsame)⟩
    · have hid' : store.frames.size ≤ (r.frame id).index := Nat.le_of_not_lt (mt hiff.mp hid)
      rw [Store.define, Store.define, Store.modify_of_size_le hid',
        Store.modify_of_size_le (Nat.le_of_not_lt hid)]
      exact .inl ⟨rfl, rfl⟩
  constructor
  case carries =>
    intro item hitem
    cases item with
    | pair other => exact h.carries (.pair other) hitem
    | closure other => exact h.carries (.closure other) hitem
    | frame other =>
        have hother := h.carries (.frame other) hitem
        show Frame.RenamedTo r _ ((w.store.define id name value).frame other) _
        rcases hstep other with ⟨hsame, hsame'⟩ | ⟨rfl, hbound, hbound'⟩
        · rw [hsame, hsame']
          exact hother
        · rw [hbound, hbound']
          exact hother.insert hname value
    | primitive p => trivial
    | symbol name => trivial
  case bindings =>
    intro other halso hinstead
    show Frame.bindings _ = renameBindings r ((w.store.define id name value).frame other).bindings
    have hother := h.bindings halso hinstead
    rcases hstep other with ⟨hsame, hsame'⟩ | ⟨rfl, hbound, hbound'⟩
    · rw [hsame, hsame', hother]
    · rw [hbound, hbound']
      show insertBinding name _ _ = renameBindings r (insertBinding name value _)
      rw [renameBindings_insertBinding, hother]
  case instead_old =>
    intro other bound hne
    simpa [World.bind, World.write, Store.define] using h.instead_old hne
  case instead_unheld => exact h.instead_unheld
  case instead_calls => exact h.instead_calls
  case pairs_next => exact h.pairs_next
  case closures_next => exact h.closures_next
  case frames_next => simpa [World.bind, World.write, Store.define] using h.frames_next
  case pairs_le => exact h.pairs_le
  case frames_le => simpa [World.bind, World.write, Store.define] using h.frames_le

/-- The identity of the pair that is made next. -/
theorem fst_newPair
    (h : Mirrors r instead also w store)
    (first second first' second' : Value) :
    (store.newPair first' second').1 = (w.store.newPair first second).1.rename r := by
  show Value.pair ⟨store.pairs.size⟩ = .pair ⟨r.pairs w.store.pairs.size⟩
  rw [h.pairs_next.at_size]

/-- The same chain is made in both stores. -/
theorem exists_newChain
    (h : Mirrors r instead also w store)
    {values : List Value}
    {tail : Value}
    (hvalues : w.HasAll values)
    (htail : w.Has tail) :
    ∃ w', Changes w w' ∧
      (w.store.newChain values tail).2 = w'.store ∧
      w'.Has (w.store.newChain values tail).1 ∧
      Mirrors r instead also w' (store.newChain (values.map (Value.rename r)) (tail.rename r)).2 ∧
      (store.newChain (values.map (Value.rename r)) (tail.rename r)).1 =
        (w.store.newChain values tail).1.rename r := by
  induction values with
  | nil => exact ⟨w, .refl, rfl, htail, h, rfl⟩
  | cons first values ih =>
      obtain ⟨hfirst, hvalues⟩ := World.hasAll_cons.mp hvalues
      obtain ⟨w', hchanges, hstore, hsecond, hafter, hrest⟩ := ih hvalues
      refine ⟨w'.newPair (hchanges.has hfirst) hsecond, hchanges.tail (.newPair _ _), ?_, ?_, ?_, ?_⟩
      · show (Store.newPair _ _ (w.store.newChain values tail).2).2 = _
        rw [hstore]
        rfl
      · show World.Has _ (Store.newPair _ _ (w.store.newChain values tail).2).1
        rw [hstore]
        exact World.has_of_item rfl (Set.mem_insert _ _)
      · show Mirrors r instead also _ (Store.newPair _ _ (store.newChain _ _).2).2
        rw [hrest]
        exact hafter.newPair (hchanges.has hfirst) hsecond
      · show (Store.newPair _ _ (store.newChain _ _).2).1 =
          (Store.newPair _ _ (w.store.newChain values tail).2).1.rename r
        rw [hstore]
        exact hafter.fst_newPair _ _ _ _

/-- The same tree is made in both stores. -/
theorem exists_install
    (h : Mirrors r instead also w store)
    (form : Datum)
    (hnames : ∀ name ∈ form.names, .symbol name ∈ w.items) :
    ∃ w', Changes w w' ∧
      (form.install w.store).2 = w'.store ∧
      w'.Has (form.install w.store).1 ∧
      Mirrors r instead also w' (form.install store).2 ∧
      (form.install store).1 = (form.install w.store).1.rename r := by
  induction form generalizing w store with
  | nil => exact ⟨w, .refl, rfl, World.has_nil, h, rfl⟩
  | int number => exact ⟨w, .refl, rfl, World.has_int number, h, rfl⟩
  | bool truth => exact ⟨w, .refl, rfl, World.has_bool truth, h, rfl⟩
  | sym name =>
      exact ⟨w, .refl, rfl, World.has_of_item rfl (hnames name (List.mem_singleton_self name)), h, rfl⟩
  | cons first second ihFirst ihSecond =>
      have hnamesFirst : ∀ name ∈ first.names, .symbol name ∈ w.items :=
        fun name hname => hnames name (List.mem_append_left _ hname)
      obtain ⟨w₁, h₁, hstore₁, hhas₁, hafter₁, hvalue₁⟩ := ihFirst h hnamesFirst
      have hnamesSecond : ∀ name ∈ second.names, .symbol name ∈ w₁.items :=
        fun name hname => h₁.items_subset (hnames name (List.mem_append_right _ hname))
      obtain ⟨w₂, h₂, hstore₂, hhas₂, hafter₂, hvalue₂⟩ := ihSecond hafter₁ hnamesSecond
      refine ⟨w₂.newPair (h₂.has hhas₁) hhas₂, (h₁.trans h₂).tail (.newPair _ _), ?_, ?_, ?_, ?_⟩ <;>
        dsimp only [Datum.install]
      · rw [hstore₁, hstore₂]
        rfl
      · rw [hstore₁, hstore₂]
        exact World.has_of_item rfl (Set.mem_insert _ _)
      · rw [hvalue₁, hvalue₂]
        exact hafter₂.newPair (h₂.has hhas₁) hhas₂
      · rw [hstore₁, hstore₂]
        exact hafter₂.fst_newPair _ _ _ _

end Mirrors

end SmallLisp
