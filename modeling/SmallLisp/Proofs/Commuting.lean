import Mathlib.Tactic.SplitIfs
import SmallLisp.Proofs.Locality
import SmallLisp.Proofs.Parallel
import SmallLisp.Proofs.Renumbering

/-!
# Evaluations that commute

Two evaluations of which no object is within reach of both may be done in either order. The one that comes
second runs in lockstep with itself as the first one, since the store still holds what it can reach. So both
end as they do without the other. The two stores in the end hold the same objects, numbered in another order.

* `After` says what an evaluation does after one that is apart from it;
* `Renaming.exchange` exchanges what the two evaluations have made;
* `BothOrders` is about two evaluations in either order, and `BothOrders.exists_isomorphic` is what follows for
  the stores in the end;
* `evaluations_commute` is the statement about evaluations.
-/

namespace SmallLisp

/-- The same objects in two stores, under new identities in the second one. -/
structure Store.Isomorphic (r : Renaming) (store store' : Store) : Prop where
  pairs : store'.pairs.size = store.pairs.size
  closures : store'.closures.size = store.closures.size
  frames : store'.frames.size = store.frames.size
  present : ∀ item : Item, item.PresentIn store → (item.rename r).PresentIn store'
  carries : ∀ item : Item, item.PresentIn store → r.Carries (fun _ _ => none) store store' item

variable {given : Primitive → Bool}

/-- Code that leads from the world `v` to the world `v'` has been run in the store `before`, where other code
had made objects, and has led to the store `after`. -/
structure After (v v' : World given) (r : Renaming) (before after : Store) : Prop where
  fixes : ∀ item : Item, item.PresentIn v.store → item.rename r = item
  starts : Copies r v before
  ends : Copies r v' after
  changes : Changes v v'
  grows : before.Grows after
  leaves : ∀ item : Item, item.PresentIn before → item ∉ v.items → item.SameIn before after

/-- As many objects are made after the other code as without it. -/
theorem After.sizes
    {v v' : World given}
    {r : Renaming}
    {before after : Store}
    (h : After v v' r before after) :
    after.pairs.size + v.store.pairs.size = before.pairs.size + v'.store.pairs.size ∧
      after.closures.size + v.store.closures.size = before.closures.size + v'.store.closures.size ∧
      after.frames.size + v.store.frames.size = before.frames.size + v'.store.frames.size := by
  have hgrows := h.changes.grows
  refine ⟨?_, ?_, ?_⟩
  · exact h.starts.pairs_next.add_eq h.ends.pairs_next hgrows.pairs
  · exact h.starts.closures_next.add_eq h.ends.closures_next hgrows.closures
  · exact h.starts.frames_next.add_eq h.ends.frames_next hgrows.frames

/-- An evaluation after one that is apart from it. -/
theorem exists_after
    {w w' v : World given}
    (hchanges : Changes w w')
    (hstore : w.store = v.store)
    (hv : v.Present)
    (hapart : w.Apart v)
    {expression : Value}
    {frame : FrameId}
    (hexpression : v.Has expression)
    (hframe : frame ∈ v.homes)
    {fuel : Nat}
    {alone after : Except Halt Value × Store}
    (halone : outcome (eval fuel expression frame) v.store = alone)
    (hafter : outcome (eval fuel expression frame) w'.store = after)
    (hdepth : ∀ halt, alone.1 = .error halt → ¬alone.2.Circles halt) :
    ∃ r v',
      After v v' r w'.store after.2 ∧
      v'.store = alone.2 ∧
      after.1 = alone.1.map (Value.rename r) ∧
      ∀ value, alone.1 = .ok value → v'.Has value := by
  have hsame := hchanges.same_apart hstore hv hapart
  have hgrows : v.store.Grows w'.store := hstore ▸ hchanges.grows
  obtain ⟨r, hfixes, hstarts⟩ := (Copies.refl v).exists_rebase hv hgrows fun item hitem => by
    rw [Item.rename_same]
    exact hsame item hitem
  simp only [Item.rename_same] at hfixes
  have hexpressionSame : expression.rename r = expression :=
    Value.rename_eq_self fun item hitem => hfixes item (hv item (hexpression item hitem))
  have hframeSame : r.frame frame = frame :=
    Item.frame.inj (hfixes _ (hv _ (v.homes_held hframe)))
  obtain ⟨t, hrun, hrunStore, hcopy, hend⟩ :=
    eval_parallel fuel (t := ⟨v, w'.store, hstarts⟩) hexpression hframe
  dsimp only at hrun hrunStore hcopy hend
  rw [hexpressionSame, hframeSame, hafter] at hcopy hend
  rw [halone] at hrunStore hend
  obtain ⟨moved, hmoved, hmovedStore, -⟩ :=
    eval_confined fuel (w := v.moveTo w'.store hsame) hexpression hframe
  change (outcome (eval fuel expression frame) w'.store).2 = moved.store at hmovedStore
  rw [hafter] at hmovedStore
  have hafterRun : After v t.world r w'.store after.2 :=
    { fixes := hfixes
      starts := hstarts
      ends := hcopy ▸ t.mirrors
      changes := hrun
      grows := hmovedStore ▸ hmoved.grows
      leaves := fun item hpresent hnot => hmovedStore ▸ hmoved.same hpresent hnot }
  refine ⟨r, t.world, hafterRun, hrunStore.symm, hend.eq_map (.inr ?_), fun value => hend.post⟩
  intro halt hhalt
  rw [← hrunStore]
  exact hdepth halt hhalt

/-- The numbers from `size` to `one` are moved behind those from `size` to `other`, which are moved before
them. -/
def exchange (size one other index : Nat) : Nat :=
  if index < size then index
  else if index < one then index - size + other
  else if index < one + (other - size) then index - one + size
  else index

section Exchange

variable {size one other index : Nat} {number : Nat → Nat}

theorem exchange_injective
    (hone : size ≤ one)
    (hother : size ≤ other) :
    Function.Injective (exchange size one other) := by
  intro index index' hsame
  unfold exchange at hsame
  split_ifs at hsame <;> omega

theorem exchange_eq
    (hfixes : ∀ index, index < size → number index = index)
    (hnext : Continues number size other)
    (h : index < one) :
    exchange size one other index = number index := by
  unfold exchange
  by_cases hold : index < size
  · rw [if_pos hold, hfixes index hold]
  · have hnumber := hnext (index - size)
    rw [show size + (index - size) = index by omega] at hnumber
    rw [if_neg hold, if_pos h, hnumber, Nat.add_comm]

theorem exchange_number
    (hone : size ≤ one)
    (hfixes : ∀ index, index < size → number index = index)
    (hnext : Continues number size one)
    (h : index < other) :
    exchange size one other (number index) = index := by
  unfold exchange
  by_cases hold : index < size
  · rw [hfixes index hold, if_pos hold]
  · have hnumber := hnext (index - size)
    rw [show size + (index - size) = index by omega] at hnumber
    rw [hnumber, if_neg (by omega), if_neg (by omega), if_pos (by omega)]
    omega

end Exchange

/-- What was made to come from the store `older` to the store `one` changes places with what was made to come
to the store `other`. -/
def Renaming.exchange
    {older one other : Store}
    (hone : older.Grows one)
    (hother : older.Grows other) :
    Renaming where
  pairs := SmallLisp.exchange older.pairs.size one.pairs.size other.pairs.size
  closures := SmallLisp.exchange older.closures.size one.closures.size other.closures.size
  frames := SmallLisp.exchange older.frames.size one.frames.size other.frames.size
  pairs_injective := exchange_injective hone.pairs hother.pairs
  closures_injective := exchange_injective hone.closures hother.closures
  frames_injective := exchange_injective hone.frames hother.frames

section Items

variable
  {v : World given}
  {r : Renaming}
  {older one other : Store}
  (hone : older.Grows one)
  (hother : older.Grows other)
  (hstore : v.store = older)
  (hfixes : ∀ item : Item, item.PresentIn older → item.rename r = item)

section Numbers

include hfixes

theorem pairs_fixed {index : Nat} (h : index < older.pairs.size) : r.pairs index = index :=
  congrArg PairId.index (Item.pair.inj (hfixes (.pair ⟨index⟩) h))

theorem closures_fixed {index : Nat} (h : index < older.closures.size) : r.closures index = index :=
  congrArg ClosureId.index (Item.closure.inj (hfixes (.closure ⟨index⟩) h))

theorem frames_fixed {index : Nat} (h : index < older.frames.size) : r.frames index = index :=
  congrArg FrameId.index (Item.frame.inj (hfixes (.frame ⟨index⟩) h))

end Numbers

include hstore hfixes

/-- What is there after the first part gets the identity that it has as the second one. -/
theorem Item.rename_exchange
    (hstarts : Copies r v other)
    {item : Item}
    (h : item.PresentIn one) :
    item.rename (.exchange hone hother) = item.rename r := by
  subst hstore
  cases item with
  | pair id =>
      exact congrArg (fun index => Item.pair ⟨index⟩)
        (exchange_eq (fun _ => pairs_fixed hfixes) hstarts.pairs_next h)
  | closure id =>
      exact congrArg (fun index => Item.closure ⟨index⟩)
        (exchange_eq (fun _ => closures_fixed hfixes) hstarts.closures_next h)
  | frame id =>
      exact congrArg (fun index => Item.frame ⟨index⟩)
        (exchange_eq (fun _ => frames_fixed hfixes) hstarts.frames_next h)
  | primitive p => rfl
  | symbol name => rfl

/-- What the second part has made gets the identity that it has as the first one. -/
theorem Item.rename_rename_exchange
    (hstarts : Copies r v one)
    {item : Item}
    (h : item.PresentIn other) :
    (item.rename r).rename (.exchange hone hother) = item := by
  subst hstore
  cases item with
  | pair id =>
      exact congrArg (fun index => Item.pair ⟨index⟩)
        (exchange_number hone.pairs (fun _ => pairs_fixed hfixes) hstarts.pairs_next h)
  | closure id =>
      exact congrArg (fun index => Item.closure ⟨index⟩)
        (exchange_number hone.closures (fun _ => closures_fixed hfixes) hstarts.closures_next h)
  | frame id =>
      exact congrArg (fun index => Item.frame ⟨index⟩)
        (exchange_number hone.frames (fun _ => frames_fixed hfixes) hstarts.frames_next h)
  | primitive p => rfl
  | symbol name => rfl

end Items

/-- Code that leads from `w` to `w'` and code that leads from `v` to `v'` have been run in both orders: the
store in the end is `store` if the code of `w` came first, and `store'` if the code of `v` did. -/
structure BothOrders
    (w w' v v' : World given)
    (r r' : Renaming)
    (store store' : Store) :
    Prop where
  same : v.store = w.store
  sound : w.store.Sound
  w_present : w.Present
  v_present : v.Present
  apart : w.Apart v
  v_second : After v v' r w'.store store
  w_second : After w w' r' v'.store store'

namespace BothOrders

variable {w w' v v' : World given} {r r' : Renaming} {store store' : Store}

theorem symm (h : BothOrders w w' v v' r r' store store') : BothOrders v v' w w' r' r store' store where
  same := h.same.symm
  sound := h.same ▸ h.sound
  w_present := h.v_present
  v_present := h.w_present
  apart := h.apart.symm
  v_second := h.w_second
  w_second := h.v_second

section Orders

variable (h : BothOrders w w' v v' r r' store store')
include h

theorem w_grows : w.store.Grows w'.store :=
  h.w_second.changes.grows

theorem v_grows : w.store.Grows v'.store :=
  h.same ▸ h.v_second.changes.grows

theorem v_fixes {item : Item} (hitem : item.PresentIn w.store) : item.rename r = item :=
  h.v_second.fixes item (h.same ▸ hitem)

theorem w'_present : w'.Present :=
  h.w_second.changes.present h.w_present

/-- What the code of `w` holds after it has come first is not touched any more. -/
theorem w'_same : ∀ item ∈ w'.items, item.SameIn w'.store store := by
  intro item hitem
  by_cases hobject : item.IsObject
  · refine h.v_second.leaves item (h.w'_present item hitem) ?_
    exact h.w_second.changes.apart h.same.symm h.v_present h.apart item hobject hitem
  · exact .of_not_isObject hobject

/-- What is within reach of neither is not touched at all. -/
theorem old_same
    {item : Item}
    (hitem : item.PresentIn w.store)
    (hw : item ∉ w.items)
    (hv : item ∉ v.items) :
    item.SameIn w.store store :=
  (h.w_second.changes.same hitem hw).trans (h.v_second.leaves item (hitem.mono h.w_grows) hv)

/-- From the one store in the end to the other one, what was made changes places. -/
theorem exists_exchange :
    ∃ ρ : Renaming,
      (∀ item : Item, item.PresentIn w.store → item.rename ρ = item) ∧
      (∀ item : Item, item.PresentIn w'.store → item.rename ρ = item.rename r') ∧
      ∀ item : Item, item.PresentIn v'.store → (item.rename r).rename ρ = item := by
  have hfirst : ∀ item : Item, item.PresentIn w'.store →
      item.rename (.exchange h.w_grows h.v_grows) = item.rename r' :=
    fun _ => Item.rename_exchange h.w_grows h.v_grows rfl h.w_second.fixes h.w_second.starts
  refine ⟨.exchange h.w_grows h.v_grows, ?_, hfirst, ?_⟩
  · intro item hitem
    exact (hfirst item (hitem.mono h.w_grows)).trans (h.w_second.fixes item hitem)
  · intro item hitem
    exact Item.rename_rename_exchange h.w_grows h.v_grows h.same (fun _ => h.v_fixes) h.v_second.starts
      hitem

section Exchange

variable
  {ρ : Renaming}
  (hold : ∀ item : Item, item.PresentIn w.store → item.rename ρ = item)
  (hfirst : ∀ item : Item, item.PresentIn w'.store → item.rename ρ = item.rename r')
  (hsecond : ∀ item : Item, item.PresentIn v'.store → (item.rename r).rename ρ = item)

include hfirst in
theorem carries_of_mem_w'
    {item : Item}
    (hitem : item ∈ w'.items) :
    ρ.Carries (fun _ _ => none) store store' item := by
  have hcarries := (h.w_second.ends.carries item (.inl hitem)).congr
    (hfirst item (h.w'_present item hitem))
    fun next hlink => hfirst next (h.w'_present next (w'.closed hitem hlink))
  exact hcarries.of_source (h.w'_same item hitem)

include hsecond in
theorem carries_of_mem_v'
    {item : Item}
    (hitem : item ∈ v'.items) :
    ρ.Carries (fun _ _ => none) store store' (item.rename r) := by
  have hback := hsecond item (h.symm.w'_present item hitem)
  have hcarries := (h.v_second.ends.carries item (.inl hitem)).inverse hback
    fun next hlink => hsecond next (h.symm.w'_present next (v'.closed hitem hlink))
  refine hcarries.of_target ?_
  rw [hback]
  exact h.symm.w'_same item hitem

include hold in
theorem carries_of_not_mem
    {item : Item}
    (hitem : item.PresentIn w.store)
    (hw : item ∉ w.items)
    (hv : item ∉ v.items) :
    ρ.Carries (fun _ _ => none) store store' item := by
  have hone := h.old_same hitem hw hv
  have hother : item.SameIn w.store store' := h.same ▸ h.symm.old_same (h.same ▸ hitem) hv hw
  have hsame : (item.rename .same).SameIn store store' := by
    rw [Item.rename_same]
    exact hone.symm.trans hother
  refine ((Renaming.Carries.refl store item).of_target hsame).congr ?_ ?_
  · rw [Item.rename_same, hold item hitem]
  · intro next hlink
    rw [Item.rename_same, hold next (h.sound hitem (hone.link hlink))]

/-- An object in the end was there after the first part, or has been made by the second one. -/
theorem present_or_made
    {item : Item}
    (hitem : item.PresentIn store) :
    item.PresentIn w'.store ∨ ∃ original ∈ v'.items, original.rename r = item := by
  rcases hitem.older_or_made w'.store with hpresent | hmade
  · exact .inl hpresent
  · obtain ⟨original, hmade', hrename⟩ := h.v_second.starts.exists_of_made h.v_second.ends hmade
    exact .inr ⟨original, h.v_second.changes.holds_made hmade', hrename⟩

include hold hfirst hsecond in
theorem carries
    {item : Item}
    (hitem : item.PresentIn store) :
    ρ.Carries (fun _ _ => none) store store' item := by
  rcases h.present_or_made hitem with hpresent | ⟨original, horiginal, rfl⟩
  · by_cases hw' : item ∈ w'.items
    · exact h.carries_of_mem_w' hfirst hw'
    · have hpresentOld : item.PresentIn w.store :=
        (hpresent.older_or_made w.store).resolve_right fun hmade =>
          hw' (h.w_second.changes.holds_made hmade)
      have hw : item ∉ w.items := fun hmem => hw' (h.w_second.changes.items_subset hmem)
      by_cases hv : item ∈ v.items
      · have hcarries := h.carries_of_mem_v' hsecond (h.v_second.changes.items_subset hv)
        rwa [h.v_fixes hpresentOld] at hcarries
      · exact h.carries_of_not_mem hold hpresentOld hw hv
  · exact h.carries_of_mem_v' hsecond horiginal

include hfirst hsecond in
theorem presentIn_rename
    {item : Item}
    (hitem : item.PresentIn store) :
    (item.rename ρ).PresentIn store' := by
  rcases h.present_or_made hitem with hpresent | ⟨original, horiginal, rfl⟩
  · rw [hfirst item hpresent]
    exact h.w_second.ends.presentIn_rename hpresent
  · have hpresent := h.symm.w'_present original horiginal
    rw [hsecond original hpresent]
    exact hpresent.mono h.w_second.grows

end Exchange

/-- In the end there are as many objects in the one store as in the other. -/
theorem sizes :
    store'.pairs.size = store.pairs.size ∧
      store'.closures.size = store.closures.size ∧
      store'.frames.size = store.frames.size := by
  obtain ⟨hpairs, hclosures, hframes⟩ := h.v_second.sizes
  obtain ⟨hpairs', hclosures', hframes'⟩ := h.w_second.sizes
  rw [h.same] at hpairs hclosures hframes
  refine ⟨?_, ?_, ?_⟩ <;> omega

theorem exists_isomorphic :
    ∃ ρ : Renaming,
      (∀ item : Item, item.PresentIn w.store → item.rename ρ = item) ∧
      (∀ item : Item, item.PresentIn w'.store → item.rename ρ = item.rename r') ∧
      (∀ item : Item, item.PresentIn v'.store → (item.rename r).rename ρ = item) ∧
      store.Isomorphic ρ store' := by
  obtain ⟨ρ, hold, hfirst, hsecond⟩ := h.exists_exchange
  obtain ⟨hpairs, hclosures, hframes⟩ := h.sizes
  exact ⟨ρ, hold, hfirst, hsecond, hpairs, hclosures, hframes,
    fun _ => h.presentIn_rename hfirst hsecond, fun _ => h.carries hold hfirst hsecond⟩

end Orders

end BothOrders

/-- Two evaluations of which no object is within reach of both end alike in either order, and in the end there
are the same objects, under other identities as far as they are new. -/
theorem evaluations_commute
    {store : Store}
    (hsound : store.Sound)
    {expression₁ expression₂ : Value}
    {frame₁ frame₂ : FrameId}
    (hexpression₁ : store.Holds expression₁)
    (hexpression₂ : store.Holds expression₂)
    (hframe₁ : frame₁.index < store.frames.size)
    (hframe₂ : frame₂.index < store.frames.size)
    (hapart : ∀ item : Item, item.IsObject →
      store.ReachedFrom expression₁ frame₁ item → ¬store.ReachedFrom expression₂ frame₂ item)
    {fuel₁ fuel₂ : Nat}
    {first₁ first₂ second₁ second₂ : Except Halt Value × Store}
    (hfirst₁ : outcome (eval fuel₁ expression₁ frame₁) store = first₁)
    (hsecond₂ : outcome (eval fuel₂ expression₂ frame₂) first₁.2 = second₂)
    (hfirst₂ : outcome (eval fuel₂ expression₂ frame₂) store = first₂)
    (hsecond₁ : outcome (eval fuel₁ expression₁ frame₁) first₂.2 = second₁)
    (hdepth₁ : ∀ halt, first₁.1 = .error halt → ¬first₁.2.Circles halt)
    (hdepth₂ : ∀ halt, first₂.1 = .error halt → ¬first₂.2.Circles halt) :
    ∃ ρ : Renaming,
      (∀ item : Item, item.PresentIn store → item.rename ρ = item) ∧
      second₂.2.Isomorphic ρ second₁.2 ∧
      second₁.1 = first₁.1.map (Value.rename ρ) ∧
      first₂.1 = second₂.1.map (Value.rename ρ) ∧
      second₁.1.bind second₁.2.print = first₁.1.bind first₁.2.print ∧
      second₂.1.bind second₂.2.print = first₂.1.bind first₂.2.print := by
  let w : World fun _ => true := .reached store expression₁ frame₁ fun _ _ => rfl
  let v : World fun _ => true := .reached store expression₂ frame₂ fun _ _ => rfl
  have hw : w.Present := World.reached_present hsound hexpression₁ hframe₁ _
  have hv : v.Present := World.reached_present hsound hexpression₂ hframe₂ _
  have hexpressionW : w.Has expression₁ := fun item hitem => .inl ⟨item, hitem, .refl⟩
  have hexpressionV : v.Has expression₂ := fun item hitem => .inl ⟨item, hitem, .refl⟩
  have hsame : w.store = v.store := rfl
  have hwv : w.Apart v := hapart
  obtain ⟨w₀, hchanges₀, hstore₀, -⟩ := eval_confined fuel₁ hexpressionW (Set.mem_singleton frame₁)
  rw [show w.store = store from rfl, hfirst₁] at hstore₀
  obtain ⟨r, v', hv', hstoreV, hresult₂, hvalue₂⟩ :=
    exists_after hchanges₀ hsame hv hwv hexpressionV (Set.mem_singleton frame₂) hfirst₂
      (hstore₀ ▸ hsecond₂) hdepth₂
  obtain ⟨r', w', hw', hstoreW, hresult₁, hvalue₁⟩ :=
    exists_after hv'.changes hsame.symm hw hwv.symm hexpressionW (Set.mem_singleton frame₁) hfirst₁
      (hstoreV ▸ hsecond₁) hdepth₁
  have hboth : BothOrders w w' v v' r r' second₂.2 second₁.2 :=
    { same := hsame.symm
      sound := hsound
      w_present := hw
      v_present := hv
      apart := hwv
      v_second := (hstoreW.trans hstore₀) ▸ hv'
      w_second := hw' }
  obtain ⟨ρ, hold, hρ₁, hρ₂, hisomorphic⟩ := hboth.exists_isomorphic
  refine ⟨ρ, hold, hisomorphic, ?_, ?_, ?_, ?_⟩
  · rw [hresult₁]
    cases hvalue : first₁.1 with
    | ok value =>
        refine congrArg Except.ok (Value.rename_congr fun item hitem => ?_).symm
        exact hρ₁ item (hboth.w'_present item (hvalue₁ value hvalue item hitem))
    | error halt => rfl
  · rw [hresult₂]
    cases hvalue : first₂.1 with
    | ok value =>
        refine congrArg Except.ok (Value.rename_rename_eq_self fun item hitem => ?_).symm
        exact hρ₂ item (hboth.symm.w'_present item (hvalue₂ value hvalue item hitem))
    | error halt => rfl
  · rw [hresult₁, ← hstoreW]
    exact hw'.ends.answer hvalue₁
  · rw [hresult₂, ← hstoreV]
    exact hv'.ends.answer hvalue₂

end SmallLisp
