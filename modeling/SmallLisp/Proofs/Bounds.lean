import Mathlib.Data.Fintype.Card
import SmallLisp.Proofs.Reach
import SmallLisp.Proofs.Denotation

/-!
# Bounds that are large enough

Chains, lines of frames and trees are walked through with a bound of one step more than there are pairs or
frames. A walk that ends with some larger bound ends within this one as well, because the objects on its way
are different from each other. So a larger bound never finds anything else, also where the walk runs in a
circle.

* `Walk.finishes_within` is the argument for any kind of walk;
* `Store.chainUpTo_eq`, `Store.find?_scopesUpTo` and `Store.datumUpTo_eq` are what follows for the three
  kinds.
-/

namespace SmallLisp

/-- A way to walk from objects, of which each is numbered by a number below `size` if it takes more than one
step. What keeps a walk from finishing earlier is a next object, from which it takes one step less. -/
structure Walk (α : Type) (size : Nat) where
  /-- With the bound, the walk from the object finishes. -/
  finishes : Nat → α → Prop
  index : α → Nat
  index_injective : Function.Injective index
  longer : ∀ {bound object}, finishes bound object → finishes (bound + 1) object
  index_lt : ∀ {bound object},
    finishes (bound + 2) object → ¬finishes (bound + 1) object → index object < size
  next : ∀ {bound object},
    finishes (bound + 2) object → ¬finishes (bound + 1) object →
      ∃ next, finishes (bound + 1) next ∧ ¬finishes bound next

namespace Walk

variable {α : Type} {size : Nat} (walk : Walk α size)

/-- A walk that needs one step more than `bound`. -/
def Needs (bound : Nat) (object : α) : Prop :=
  walk.finishes (bound + 1) object ∧ ¬walk.finishes bound object

theorem finishes_mono
    {short long : Nat}
    {object : α}
    (hle : short ≤ long)
    (h : walk.finishes short object) :
    walk.finishes long object := by
  induction hle with
  | refl => exact h
  | step _ ih => exact walk.longer ih

theorem exists_needs
    {short long : Nat}
    {object : α}
    (h : walk.finishes long object)
    (hnot : ¬walk.finishes short object) :
    ∃ bound, short ≤ bound ∧ walk.Needs bound object := by
  induction long with
  | zero => exact (hnot (walk.finishes_mono (Nat.zero_le _) h)).elim
  | succ bound ih =>
      by_cases hbound : walk.finishes bound object
      · exact ih hbound
      · refine ⟨bound, ?_, h, hbound⟩
        by_contra hlt
        exact hnot (walk.finishes_mono (by omega) h)

/-- A walk passes objects from which fewer steps are needed, one for each number of steps. -/
theorem exists_needs_of_le
    {bound less : Nat}
    {object : α}
    (h : walk.Needs bound object)
    (hless : less ≤ bound) :
    ∃ other, walk.Needs less other := by
  induction bound generalizing object with
  | zero =>
      obtain rfl : less = 0 := by omega
      exact ⟨object, h⟩
  | succ bound ih =>
      by_cases heq : less = bound + 1
      · exact ⟨object, heq ▸ h⟩
      · obtain ⟨next, hnext⟩ := walk.next h.1 h.2
        exact ih hnext (by omega)

/-- The number of steps that are needed from an object is one number only. -/
theorem Needs.unique
    {walk : Walk α size}
    {bound other : Nat}
    {object : α}
    (h : walk.Needs bound object)
    (h' : walk.Needs other object) :
    bound = other := by
  rcases Nat.lt_trichotomy bound other with hlt | heq | hgt
  · exact (h'.2 (walk.finishes_mono hlt h.1)).elim
  · exact heq
  · exact (h.2 (walk.finishes_mono hgt h'.1)).elim

/-- A walk that finishes at all finishes within one step more than there are objects. -/
theorem finishes_within
    {bound : Nat}
    {object : α}
    (h : walk.finishes bound object) :
    walk.finishes (size + 1) object := by
  by_contra hnot
  obtain ⟨last, hlast, hneeds⟩ := walk.exists_needs h hnot
  have hpassed : ∀ place : Fin (size + 1), ∃ other, walk.Needs (place + 1) other :=
    fun place => walk.exists_needs_of_le hneeds (by omega)
  choose passed hpassed using hpassed
  let number : Fin (size + 1) → Fin size := fun place =>
    ⟨walk.index (passed place), walk.index_lt (hpassed place).1 (hpassed place).2⟩
  have hinjective : Function.Injective number := by
    intro one other hsame
    have hobject : passed one = passed other := walk.index_injective (congrArg Fin.val hsame)
    have hsteps := (hpassed one).unique (hobject ▸ hpassed other)
    exact Fin.ext (by omega)
  have hcard := Fintype.card_le_of_injective number hinjective
  simp only [Fintype.card_fin] at hcard
  omega

end Walk

namespace Store

variable (store : Store)

section Chains

theorem chainUpTo_mono
    {short long : Nat}
    {value : Value}
    {chain : List Value × Value}
    (hle : short ≤ long)
    (h : store.chainUpTo short value = some chain) :
    store.chainUpTo long value = some chain := by
  induction hle with
  | refl => exact h
  | step _ ih => exact store.chainUpTo_succ ih

theorem isSome_chainUpTo_pair
    (bound : Nat)
    (id : PairId) :
    (store.chainUpTo (bound + 1) (.pair id)).isSome =
      (store.chainUpTo bound (store.pair id).second).isSome := by
  rw [chainUpTo, Option.isSome_map]

/-- A chain that goes on leads to a pair. -/
theorem exists_pair_of_chainUpTo
    {bound : Nat}
    {value : Value}
    (h : ¬(store.chainUpTo bound value).isSome = true) :
    ∃ id, value = .pair id := by
  cases value with
  | pair id => exact ⟨id, rfl⟩
  | _ =>
      rw [store.chainUpTo_atom bound rfl] at h
      exact (h rfl).elim

/-- The walk along a chain. -/
def chainWalk : Walk PairId store.pairs.size where
  finishes bound id := (store.chainUpTo bound (.pair id)).isSome = true
  index := PairId.index
  index_injective := PairId.index_injective
  longer := by
    intro bound id h
    obtain ⟨chain, hchain⟩ := Option.isSome_iff_exists.mp h
    rw [store.chainUpTo_succ hchain]
    rfl
  index_lt := by
    intro bound id _ hnot
    rw [isSome_chainUpTo_pair] at hnot
    obtain ⟨next, hnext⟩ := store.exists_pair_of_chainUpTo hnot
    by_contra hid
    have hnil := slot_of_not_held (Nat.le_of_not_lt hid) (.second id)
    rw [hnext] at hnil
    cases hnil
  next := by
    intro bound id h hnot
    rw [isSome_chainUpTo_pair] at h hnot
    obtain ⟨next, hnext⟩ := store.exists_pair_of_chainUpTo hnot
    exact ⟨next, hnext ▸ h, hnext ▸ hnot⟩

/-- A larger bound finds the same chain. -/
theorem chainUpTo_eq
    {bound : Nat}
    (hbound : store.pairs.size + 1 ≤ bound)
    (value : Value) :
    store.chainUpTo bound value = store.chain? value := by
  unfold chain?
  cases h : store.chainUpTo bound value with
  | none =>
      cases hshort : store.chainUpTo (store.pairs.size + 1) value with
      | none => rfl
      | some chain =>
          rw [store.chainUpTo_mono hbound hshort] at h
          cases h
  | some chain =>
      have hfinishes : (store.chainUpTo (store.pairs.size + 1) value).isSome = true := by
        cases value with
        | pair id => exact store.chainWalk.finishes_within (Option.isSome_iff_exists.mpr ⟨_, h⟩)
        | _ =>
            rw [store.chainUpTo_atom _ rfl]
            rfl
      obtain ⟨found, hfound⟩ := Option.isSome_iff_exists.mp hfinishes
      rw [hfound, ← h, store.chainUpTo_mono hbound hfound]

end Chains

section Scopes

theorem scopesUpTo_of_outermost
    {id : FrameId}
    (h : (store.frame id).parent = none)
    (bound : Nat) :
    store.scopesUpTo (bound + 1) id = [id] := by
  rw [scopesUpTo, h]

theorem scopesUpTo_of_parent
    {id parent : FrameId}
    (h : (store.frame id).parent = some parent)
    (bound : Nat) :
    store.scopesUpTo (bound + 1) id = id :: store.scopesUpTo bound parent := by
  rw [scopesUpTo, h]

theorem mem_scopesUpTo_self
    (bound : Nat)
    (id : FrameId) :
    id ∈ store.scopesUpTo (bound + 1) id := by
  cases h : (store.frame id).parent with
  | none =>
      rw [store.scopesUpTo_of_outermost h]
      exact List.mem_singleton_self id
  | some parent =>
      rw [store.scopesUpTo_of_parent h]
      exact List.mem_cons_self

theorem scopesUpTo_prefix
    {short long : Nat}
    (hle : short ≤ long)
    (id : FrameId) :
    store.scopesUpTo short id <+: store.scopesUpTo long id := by
  induction short generalizing long id with
  | zero => exact List.nil_prefix
  | succ short ih =>
      obtain ⟨long, rfl⟩ : ∃ more, long = more + 1 := ⟨long - 1, by omega⟩
      cases h : (store.frame id).parent with
      | none =>
          rw [store.scopesUpTo_of_outermost h, store.scopesUpTo_of_outermost h]
      | some parent =>
          rw [store.scopesUpTo_of_parent h, store.scopesUpTo_of_parent h]
          exact (List.prefix_cons_inj id).mpr (ih (by omega) parent)

/-- A frame of the store, if it stands inside another one. -/
theorem index_lt_of_parent
    {id parent : FrameId}
    (h : (store.frame id).parent = some parent) :
    id.index < store.frames.size := by
  by_contra hid
  have hempty : store.frame id = ⟨none, []⟩ := by
    simp [Store.frame, Array.getD_eq_getD_getElem?, Nat.le_of_not_lt hid]
  rw [hempty] at h
  cases h

/-- The line of frames from a frame outward comes to an end. -/
def LineEnds (id : FrameId) : Prop :=
  ∃ scope ∈ store.scopes id, (store.frame scope).parent = none

/-- The walk outward to the first frame at which it stops. It stops at the outermost frame. -/
def scopeWalk
    (stops : FrameId → Prop)
    (hstops : ∀ id, (store.frame id).parent = none → stops id) :
    Walk FrameId store.frames.size where
  finishes bound id := ∃ scope ∈ store.scopesUpTo bound id, stops scope
  index := FrameId.index
  index_injective := FrameId.index_injective
  longer := by
    rintro bound id ⟨scope, hscope, hstop⟩
    exact ⟨scope, (store.scopesUpTo_prefix (Nat.le_succ bound) id).subset hscope, hstop⟩
  index_lt := by
    intro bound id _ hnot
    have hid : ¬stops id := fun hstop => hnot ⟨id, store.mem_scopesUpTo_self bound id, hstop⟩
    cases hparent : (store.frame id).parent with
    | none => exact (hid (hstops id hparent)).elim
    | some parent => exact store.index_lt_of_parent hparent
  next := by
    rintro bound id ⟨scope, hscope, hstop⟩ hnot
    have hid : ¬stops id := fun hstop => hnot ⟨id, store.mem_scopesUpTo_self bound id, hstop⟩
    cases hparent : (store.frame id).parent with
    | none => exact (hid (hstops id hparent)).elim
    | some parent =>
        rw [store.scopesUpTo_of_parent hparent] at hscope hnot
        refine ⟨parent, ⟨scope, ?_, hstop⟩, ?_⟩
        · rcases List.mem_cons.mp hscope with rfl | hscope
          · exact (hid hstop).elim
          · exact hscope
        · rintro ⟨other, hother, hotherStop⟩
          exact hnot ⟨other, List.mem_cons_of_mem _ hother, hotherStop⟩

/-- A line that has come to an end gets no longer. -/
theorem scopesUpTo_eq_of_outermost
    {short long : Nat}
    (hle : short ≤ long)
    {id scope : FrameId}
    (hscope : scope ∈ store.scopesUpTo short id)
    (houtermost : (store.frame scope).parent = none) :
    store.scopesUpTo long id = store.scopesUpTo short id := by
  induction short generalizing long id with
  | zero => cases hscope
  | succ short ih =>
      obtain ⟨long, rfl⟩ : ∃ more, long = more + 1 := ⟨long - 1, by omega⟩
      cases hparent : (store.frame id).parent with
      | none => rw [store.scopesUpTo_of_outermost hparent, store.scopesUpTo_of_outermost hparent]
      | some parent =>
          rw [store.scopesUpTo_of_parent hparent] at hscope
          rw [store.scopesUpTo_of_parent hparent, store.scopesUpTo_of_parent hparent]
          rcases List.mem_cons.mp hscope with rfl | hscope
          · rw [hparent] at houtermost
            cases houtermost
          · rw [ih (by omega) hscope]

/-- A larger bound finds the same line, if it ends. -/
theorem LineEnds.scopesUpTo_eq
    {store : Store}
    {id : FrameId}
    (h : store.LineEnds id)
    {bound : Nat}
    (hbound : store.frames.size + 1 ≤ bound) :
    store.scopesUpTo bound id = store.scopes id := by
  obtain ⟨scope, hscope, houtermost⟩ := h
  exact store.scopesUpTo_eq_of_outermost hbound hscope houtermost

/-- A line that does not end is cut off by the bound. -/
theorem length_scopesUpTo_of_circle
    {bound : Nat}
    {id : FrameId}
    (h : ∀ scope ∈ store.scopesUpTo bound id, (store.frame scope).parent ≠ none) :
    (store.scopesUpTo bound id).length = bound := by
  induction bound generalizing id with
  | zero => rfl
  | succ bound ih =>
      cases hparent : (store.frame id).parent with
      | none => exact (h id (store.mem_scopesUpTo_self bound id) hparent).elim
      | some parent =>
          rw [store.scopesUpTo_of_parent hparent] at h ⊢
          rw [List.length_cons, ih fun scope hscope => h scope (List.mem_cons_of_mem _ hscope)]

/-- A larger bound finds the same frame, whether the line ends or runs in a circle. -/
theorem find?_scopesUpTo
    {bound : Nat}
    (hbound : store.frames.size + 1 ≤ bound)
    (id : FrameId)
    (wanted : FrameId → Bool) :
    (store.scopesUpTo bound id).find? wanted = (store.scopes id).find? wanted := by
  obtain ⟨beyond, hbeyond⟩ := store.scopesUpTo_prefix hbound id
  change store.scopes id ++ beyond = _ at hbeyond
  rw [← hbeyond, List.find?_append]
  cases hfound : (store.scopes id).find? wanted with
  | some scope => rfl
  | none =>
      rw [Option.none_or, List.find?_eq_none]
      intro scope hscope hwanted
      have hmem : scope ∈ store.scopesUpTo bound id := hbeyond ▸ List.mem_append_right _ hscope
      obtain ⟨stop, hstop, hstops⟩ := (store.scopeWalk
        (fun other => wanted other = true ∨ (store.frame other).parent = none)
        fun _ h => .inr h).finishes_within ⟨scope, hmem, .inl hwanted⟩
      rcases hstops with hwantedStop | houtermost
      · exact List.find?_eq_none.mp hfound stop hstop hwantedStop
      · rw [store.scopesUpTo_eq_of_outermost hbound hstop houtermost] at hmem
        exact List.find?_eq_none.mp hfound scope hmem hwanted

end Scopes

section Trees

theorem datumUpTo_succ
    {bound : Nat}
    {value : Value}
    (h : store.datumUpTo bound value ≠ .error .unfinished) :
    store.datumUpTo (bound + 1) value = store.datumUpTo bound value := by
  induction bound generalizing value with
  | zero =>
      cases value with
      | pair id => exact (h rfl).elim
      | _ => rfl
  | succ bound ih =>
      cases value with
      | pair id =>
          rw [datumUpTo] at h ⊢
          conv => rhs; rw [datumUpTo]
          cases hfirst : store.datumUpTo bound (store.pair id).first with
          | error halt =>
              rw [hfirst] at h
              rw [ih (by rw [hfirst]; exact h), hfirst]
              rfl
          | ok first =>
              rw [hfirst] at h
              rw [ih (by simp [hfirst]), hfirst]
              cases hsecond : store.datumUpTo bound (store.pair id).second with
              | error halt =>
                  rw [hsecond] at h
                  simp only [bind, Except.bind]
                  rw [ih (by rw [hsecond]; exact h), hsecond]
              | ok second =>
                  simp only [bind, Except.bind]
                  rw [ih (by simp [hsecond]), hsecond]
      | _ => rfl

theorem datumUpTo_mono
    {short long : Nat}
    {value : Value}
    (hle : short ≤ long)
    (h : store.datumUpTo short value ≠ .error .unfinished) :
    store.datumUpTo long value = store.datumUpTo short value := by
  induction hle with
  | refl => rfl
  | step _ ih => rw [store.datumUpTo_succ (ih ▸ h), ih]

/-- Where the search in a pair uses up its bound: in the first slot, or behind it in the second. -/
theorem datumUpTo_pair_unfinished_iff
    (bound : Nat)
    (id : PairId) :
    store.datumUpTo (bound + 1) (.pair id) = .error .unfinished ↔
      store.datumUpTo bound (store.pair id).first = .error .unfinished ∨
      (∃ datum, store.datumUpTo bound (store.pair id).first = .ok datum) ∧
        store.datumUpTo bound (store.pair id).second = .error .unfinished := by
  rw [datumUpTo]
  cases store.datumUpTo bound (store.pair id).first with
  | error halt => simp [bind, Except.bind]
  | ok first =>
      cases store.datumUpTo bound (store.pair id).second with
      | error halt => simp [bind, Except.bind]
      | ok second => simp [bind, Except.bind, Pure.pure, Except.pure]

theorem exists_pair_of_datumUpTo
    {bound : Nat}
    {value : Value}
    (h : store.datumUpTo bound value = .error .unfinished) :
    ∃ id, value = .pair id := by
  cases value with
  | pair id => exact ⟨id, rfl⟩
  | _ => cases bound <;> cases h

/-- The walk through a tree, to the first procedure in it. -/
def treeWalk : Walk PairId store.pairs.size where
  finishes bound id := store.datumUpTo bound (.pair id) ≠ .error .unfinished
  index := PairId.index
  index_injective := PairId.index_injective
  longer := by
    intro bound id h
    rw [store.datumUpTo_succ h]
    exact h
  index_lt := by
    intro bound id _ hnot
    obtain ⟨inner, hslot, hinner⟩ := datumUpTo_pair_error (not_not.mp hnot)
    by_contra hid
    cases slot_of_not_held (Nat.le_of_not_lt hid) hslot
    cases bound <;> cases hinner
  next := by
    intro bound id h hnot
    rw [ne_eq, datumUpTo_pair_unfinished_iff, not_or, not_and] at h
    obtain ⟨hfirst, hsecond⟩ := h
    rcases (store.datumUpTo_pair_unfinished_iff bound id).mp (not_not.mp hnot) with
      hshort | ⟨⟨datum, hdatum⟩, hshort⟩
    · obtain ⟨next, hnext⟩ := store.exists_pair_of_datumUpTo hshort
      exact ⟨next, hnext ▸ hfirst, not_not.mpr (hnext ▸ hshort)⟩
    · obtain ⟨next, hnext⟩ := store.exists_pair_of_datumUpTo hshort
      have hlong : store.datumUpTo (bound + 1) (store.pair id).first = .ok datum := by
        rw [store.datumUpTo_succ (by simp [hdatum]), hdatum]
      exact ⟨next, hnext ▸ hsecond ⟨datum, hlong⟩, not_not.mpr (hnext ▸ hshort)⟩

/-- A larger bound finds the same datum, meets the same procedure first, or is used up as well. -/
theorem datumUpTo_eq
    {bound : Nat}
    (hbound : store.pairs.size + 1 ≤ bound)
    (value : Value) :
    store.datumUpTo bound value = store.datum value := by
  unfold datum
  by_cases hshort : store.datumUpTo (store.pairs.size + 1) value = .error .unfinished
  · by_contra hlong
    rw [hshort] at hlong
    obtain ⟨id, rfl⟩ := store.exists_pair_of_datumUpTo hshort
    exact store.treeWalk.finishes_within hlong hshort
  · exact store.datumUpTo_mono hbound hshort

end Trees

end Store

end SmallLisp
