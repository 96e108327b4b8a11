import SmallLisp.Proofs.Apart
import SmallLisp.Proofs.Mirrors

/-!
# Changing identities

A store that looks like another one under new identities looks like it under other new identities as well, if
these differ only where nothing is looked at. This is needed where a store gets more objects than the other
one: what the other one will make next gets identities behind those.

* `Item.rename` is the new identity of an item;
* `Renaming.Carries.congr` and its siblings change a part of `Renaming.Carries`;
* `Copies` is the case of `Mirrors` where nothing differs;
* `Copies.exists_rebase`: a store goes on to look like another one while it changes elsewhere;
* `Mirrors.made_rename` and `Mirrors.exists_of_made`: what is made in the one under new identities is what is
  made in the other.
-/

namespace SmallLisp

/-- An item under new identities. -/
def Item.rename (r : Renaming) : Item → Item
  | .pair id => .pair (r.pair id)
  | .closure id => .closure (r.closure id)
  | .frame id => .frame (r.frame id)
  | item => item

@[simp]
theorem Item.rename_same (item : Item) : item.rename .same = item := by
  cases item <;> rfl

namespace Value

variable {r r' : Renaming} {value : Value}

/-- A value is renamed as the item that it leads to is. -/
theorem rename_congr
    (h : ∀ item, value.item? = some item → item.rename r' = item.rename r) :
    value.rename r' = value.rename r := by
  cases value with
  | pair id => exact congrArg Value.pair (Item.pair.inj (h _ rfl))
  | closure id => exact congrArg Value.closure (Item.closure.inj (h _ rfl))
  | _ => rfl

theorem rename_eq_self
    (h : ∀ item, value.item? = some item → item.rename r = item) :
    value.rename r = value := by
  have hsame : value.rename r = value.rename .same :=
    rename_congr fun item hitem => (h item hitem).trans item.rename_same.symm
  rw [hsame, rename_same]

theorem rename_rename_eq_self
    (h : ∀ item, value.item? = some item → (item.rename r).rename r' = item) :
    (value.rename r).rename r' = value := by
  cases value with
  | pair id => exact congrArg Value.pair (Item.pair.inj (h _ rfl))
  | closure id => exact congrArg Value.closure (Item.closure.inj (h _ rfl))
  | _ => rfl

end Value

namespace Renaming.Carries

variable
  {r r' : Renaming}
  {instead : FrameId → String → Option Value}
  {store store' : Store}
  {item : Item}

theorem refl (store : Store) (item : Item) :
    Renaming.same.Carries (fun _ _ => none) store store item := by
  cases item with
  | pair id => exact (Pair.rename_same _).symm
  | closure id => exact (Closure.rename_same _).symm
  | frame id => exact Frame.renamedTo_same_iff.mpr ⟨rfl, fun _ => rfl⟩
  | primitive p => trivial
  | symbol name => trivial

/-- Only the new identities of the item and of what it leads to count. -/
theorem congr
    (h : r.Carries instead store store' item)
    (hitem : item.rename r' = item.rename r)
    (hnext : ∀ next, store.Link item next → next.rename r' = next.rename r) :
    r'.Carries instead store store' item := by
  cases item with
  | pair id =>
      have hfirst : (store.pair id).first.rename r' = (store.pair id).first.rename r :=
        Value.rename_congr fun next hitem => hnext next (.first hitem)
      have hsecond : (store.pair id).second.rename r' = (store.pair id).second.rename r :=
        Value.rename_congr fun next hitem => hnext next (.second hitem)
      show store'.pair (r'.pair id) = _
      rw [Item.pair.inj hitem, Pair.rename, hfirst, hsecond]
      exact h
  | closure id =>
      have hbody : (store.closure id).body.map (Value.rename r') =
          (store.closure id).body.map (Value.rename r) :=
        List.map_congr_left fun value hvalue =>
          Value.rename_congr fun next hitem => hnext next (.body hvalue hitem)
      have hframe : r'.frame (store.closure id).frame = r.frame (store.closure id).frame :=
        Item.frame.inj (hnext _ (.captured id))
      show store'.closure (r'.closure id) = _
      rw [Item.closure.inj hitem, Closure.rename, hbody, hframe]
      exact h
  | frame id =>
      show Frame.RenamedTo r' _ _ (store'.frame (r'.frame id))
      rw [Item.frame.inj hitem]
      refine ⟨h.parent.trans ?_, fun name => (h.get? name).trans ?_⟩
      · exact Option.map_congr fun parent hparent => (Item.frame.inj (hnext _ (.parent hparent))).symm
      · refine congrArg ((instead id name).or ·) (Option.map_congr fun value hvalue => ?_)
        exact (Value.rename_congr fun next hitem => hnext next (.bound hvalue hitem)).symm
  | primitive p => trivial
  | symbol name => trivial

theorem inverse
    (h : r.Carries (fun _ _ => none) store store' item)
    (hitem : (item.rename r).rename r' = item)
    (hnext : ∀ next, store.Link item next → (next.rename r).rename r' = next) :
    r'.Carries (fun _ _ => none) store' store (item.rename r) := by
  cases item with
  | pair id =>
      have hfirst : ((store.pair id).first.rename r).rename r' = (store.pair id).first :=
        Value.rename_rename_eq_self fun next hitem => hnext next (.first hitem)
      have hsecond : ((store.pair id).second.rename r).rename r' = (store.pair id).second :=
        Value.rename_rename_eq_self fun next hitem => hnext next (.second hitem)
      show store.pair (r'.pair (r.pair id)) = (store'.pair (r.pair id)).rename r'
      rw [Item.pair.inj hitem, show store'.pair (r.pair id) = _ from h, Pair.rename, Pair.rename, hfirst,
        hsecond]
  | closure id =>
      have hbody : ((store.closure id).body.map (Value.rename r)).map (Value.rename r') =
          (store.closure id).body := by
        rw [List.map_map]
        refine (List.map_congr_left fun value hvalue => ?_).trans (List.map_id _)
        exact Value.rename_rename_eq_self fun next hitem => hnext next (.body hvalue hitem)
      have hframe : r'.frame (r.frame (store.closure id).frame) = (store.closure id).frame :=
        Item.frame.inj (hnext _ (.captured id))
      show store.closure (r'.closure (r.closure id)) = (store'.closure (r.closure id)).rename r'
      rw [Item.closure.inj hitem, show store'.closure (r.closure id) = _ from h, Closure.rename,
        Closure.rename, hbody, hframe]
  | frame id =>
      show Frame.RenamedTo r' _ (store'.frame (r.frame id)) (store.frame (r'.frame (r.frame id)))
      rw [Item.frame.inj hitem]
      refine ⟨?_, fun name => ?_⟩
      · rw [h.parent, Option.map_map]
        refine Option.map_id'.symm.trans (Option.map_congr fun parent hparent => ?_)
        exact (Item.frame.inj (hnext _ (.parent hparent))).symm
      · rw [h.get? name, Option.none_or, Option.none_or, Option.map_map]
        refine Option.map_id'.symm.trans (Option.map_congr fun value hvalue => ?_)
        exact (Value.rename_rename_eq_self fun next hitem => hnext next (.bound hvalue hitem)).symm
  | primitive p => trivial
  | symbol name => trivial

/-- The first store may be another one in which the item is the same. -/
theorem of_source
    {newer : Store}
    (h : r.Carries instead store store' item)
    (hsame : item.SameIn store newer) :
    r.Carries instead newer store' item := by
  cases item with
  | pair id =>
      show _ = Pair.rename r (newer.pair id)
      rw [show newer.pair id = store.pair id from hsame]
      exact h
  | closure id =>
      show _ = Closure.rename r (newer.closure id)
      rw [show newer.closure id = store.closure id from hsame]
      exact h
  | frame id =>
      show Frame.RenamedTo r _ (newer.frame id) _
      rw [show newer.frame id = store.frame id from hsame]
      exact h
  | primitive p => trivial
  | symbol name => trivial

/-- The second store may be another one in which the item is the same under its new identity. -/
theorem of_target
    {newer : Store}
    (h : r.Carries instead store store' item)
    (hsame : (item.rename r).SameIn store' newer) :
    r.Carries instead store newer item := by
  cases item with
  | pair id => exact Eq.trans hsame h
  | closure id => exact Eq.trans hsame h
  | frame id =>
      show Frame.RenamedTo r _ _ (newer.frame (r.frame id))
      rw [show newer.frame (r.frame id) = store'.frame (r.frame id) from hsame]
      exact h
  | primitive p => trivial
  | symbol name => trivial

end Renaming.Carries

/-- The numbers below `size` keep their new numbers, and `size` and what is after it become `size'` and what is
after it. -/
def renumber (number : Nat → Nat) (size size' : Nat) (index : Nat) : Nat :=
  if index < size then number index else index - size + size'

namespace Continues

variable {number : Nat → Nat} {older older' newer newer' index : Nat}

theorem between
    (hold : Continues number older older')
    (hnew : Continues number newer newer')
    (hinjective : Function.Injective number)
    (h : older ≤ index ∧ index < newer) :
    older' ≤ number index ∧ number index < newer' := by
  refine ⟨Nat.le_of_not_lt fun hlt => ?_, (hnew.lt_iff hinjective index).mpr h.2⟩
  exact Nat.not_lt_of_le h.1 ((hold.lt_iff hinjective index).mp hlt)

/-- As many numbers are added before as after. -/
theorem add_eq
    (hold : Continues number older older')
    (hnew : Continues number newer newer')
    (hle : older ≤ newer) :
    newer' + older = older' + newer := by
  have hnumber := hold (newer - older)
  rw [Nat.add_sub_cancel' hle, hnew.at_size] at hnumber
  omega

theorem exists_between
    (hold : Continues number older older')
    (hnew : Continues number newer newer')
    (hinjective : Function.Injective number)
    (h : older' ≤ index ∧ index < newer') :
    ∃ original, (older ≤ original ∧ original < newer) ∧ number original = index := by
  have hnumber : number (older + (index - older')) = index := by
    rw [hold]
    omega
  refine ⟨older + (index - older'), ⟨Nat.le_add_right _ _, ?_⟩, hnumber⟩
  rw [← hnew.lt_iff hinjective, hnumber]
  exact h.2

end Continues

section Renumber

variable {number : Nat → Nat} {size size' : Nat}

theorem renumber_of_lt
    {index : Nat}
    (h : index < size) :
    renumber number size size' index = number index :=
  if_pos h

theorem renumber_continues : Continues (renumber number size size') size size' := by
  intro count
  rw [renumber, if_neg (by omega)]
  omega

theorem renumber_injective
    (hinjective : Function.Injective number)
    (hlt : ∀ index, index < size → number index < size') :
    Function.Injective (renumber number size size') := by
  intro one other hsame
  unfold renumber at hsame
  by_cases hone : one < size <;> by_cases hother : other < size
  · rw [if_pos hone, if_pos hother] at hsame
    exact hinjective hsame
  · rw [if_pos hone, if_neg hother] at hsame
    have hltOne := hlt one hone
    omega
  · rw [if_neg hone, if_pos hother] at hsame
    have hltOther := hlt other hother
    omega
  · rw [if_neg hone, if_neg hother] at hsame
    omega

end Renumber

variable
  {given : Primitive → Bool}
  {r : Renaming}
  {w w' : World given}
  {store store' : Store}

/-- A store looks like the store of a world, and nothing in it differs. -/
abbrev Copies (r : Renaming) (w : World given) (store : Store) : Prop :=
  Mirrors r (fun _ _ => none) ∅ w store

namespace Copies

/-- A store looks like itself. -/
theorem refl (w : World given) : Copies .same w w.store where
  carries item _ := .refl w.store item
  bindings := False.elim
  instead_old h := (h rfl).elim
  instead_unheld h := (h rfl).elim
  instead_calls h := (h rfl).elim
  pairs_next _ := rfl
  closures_next _ := rfl
  frames_next _ := rfl
  pairs_le := Nat.le_refl _
  frames_le := Nat.le_refl _

/-- A store goes on to look like another one while it changes elsewhere. What the other one makes next gets
identities behind all that there is. -/
theorem exists_rebase
    (h : Copies r w store)
    (hw : w.Present)
    (hgrows : store.Grows store')
    (hsame : ∀ item ∈ w.items, (item.rename r).SameIn store store') :
    ∃ r', (∀ item : Item, item.PresentIn w.store → item.rename r' = item.rename r) ∧ Copies r' w store' := by
  have hpairs := fun index hindex =>
    Nat.lt_of_lt_of_le ((h.pairs_next.lt_iff r.pairs_injective index).mpr hindex) hgrows.pairs
  have hclosures := fun index hindex =>
    Nat.lt_of_lt_of_le ((h.closures_next.lt_iff r.closures_injective index).mpr hindex) hgrows.closures
  have hframes := fun index hindex =>
    Nat.lt_of_lt_of_le ((h.frames_next.lt_iff r.frames_injective index).mpr hindex) hgrows.frames
  let r' : Renaming :=
    { pairs := renumber r.pairs w.store.pairs.size store'.pairs.size
      closures := renumber r.closures w.store.closures.size store'.closures.size
      frames := renumber r.frames w.store.frames.size store'.frames.size
      pairs_injective := renumber_injective r.pairs_injective hpairs
      closures_injective := renumber_injective r.closures_injective hclosures
      frames_injective := renumber_injective r.frames_injective hframes }
  have hagree : ∀ item : Item, item.PresentIn w.store → item.rename r' = item.rename r := by
    intro item hpresent
    cases item with
    | pair id => exact congrArg (fun index => Item.pair ⟨index⟩) (renumber_of_lt hpresent)
    | closure id => exact congrArg (fun index => Item.closure ⟨index⟩) (renumber_of_lt hpresent)
    | frame id => exact congrArg (fun index => Item.frame ⟨index⟩) (renumber_of_lt hpresent)
    | primitive p => rfl
    | symbol name => rfl
  refine ⟨r', hagree, ?_⟩
  constructor
  · intro item hitem
    have hheld := hitem.resolve_right id
    refine ((h.carries item hitem).of_target (hsame item hheld)).congr (hagree item (hw item hheld)) ?_
    intro next hlink
    exact hagree next (hw next (w.closed hheld hlink))
  · exact False.elim
  · exact fun hne => (hne rfl).elim
  · exact fun hne => (hne rfl).elim
  · exact fun hne => (hne rfl).elim
  · exact renumber_continues
  · exact renumber_continues
  · exact renumber_continues
  · exact Nat.le_trans h.pairs_le hgrows.pairs
  · exact Nat.le_trans h.frames_le hgrows.frames

end Copies

section Made

variable {instead : FrameId → String → Option Value} {also : Set Item} {item : Item}

/-- What is there in the world is there in the other store under its new identity. -/
theorem Mirrors.presentIn_rename
    (h : Mirrors r instead also w store)
    (hpresent : item.PresentIn w.store) :
    (item.rename r).PresentIn store := by
  cases item with
  | pair id => exact (h.pairs_next.lt_iff r.pairs_injective _).mpr hpresent
  | closure id => exact (h.closures_next.lt_iff r.closures_injective _).mpr hpresent
  | frame id => exact (h.frames_next.lt_iff r.frames_injective _).mpr hpresent
  | primitive p => trivial
  | symbol name => trivial

/-- What is made in the world is made in the other store under its new identity. -/
theorem Mirrors.made_rename
    (h : Mirrors r instead also w store)
    (h' : Mirrors r instead also w' store')
    (hmade : item.Made w.store w'.store) :
    (item.rename r).Made store store' := by
  cases item with
  | pair id => exact h.pairs_next.between h'.pairs_next r.pairs_injective hmade
  | closure id => exact h.closures_next.between h'.closures_next r.closures_injective hmade
  | frame id => exact h.frames_next.between h'.frames_next r.frames_injective hmade
  | primitive p => exact hmade.elim
  | symbol name => exact hmade.elim

/-- Nothing else is made in the other store. -/
theorem Mirrors.exists_of_made
    (h : Mirrors r instead also w store)
    (h' : Mirrors r instead also w' store')
    (hmade : item.Made store store') :
    ∃ original : Item, original.Made w.store w'.store ∧ original.rename r = item := by
  cases item with
  | pair id =>
      obtain ⟨index, hindex, hnumber⟩ := h.pairs_next.exists_between h'.pairs_next r.pairs_injective hmade
      exact ⟨.pair ⟨index⟩, hindex, congrArg (fun number => Item.pair ⟨number⟩) hnumber⟩
  | closure id =>
      obtain ⟨index, hindex, hnumber⟩ :=
        h.closures_next.exists_between h'.closures_next r.closures_injective hmade
      exact ⟨.closure ⟨index⟩, hindex, congrArg (fun number => Item.closure ⟨number⟩) hnumber⟩
  | frame id =>
      obtain ⟨index, hindex, hnumber⟩ := h.frames_next.exists_between h'.frames_next r.frames_injective hmade
      exact ⟨.frame ⟨index⟩, hindex, congrArg (fun number => Item.frame ⟨number⟩) hnumber⟩
  | primitive p => exact hmade.elim
  | symbol name => exact hmade.elim

end Made

end SmallLisp
