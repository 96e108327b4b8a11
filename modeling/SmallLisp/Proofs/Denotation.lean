import Mathlib.Data.List.Nodup
import Mathlib.Data.List.Perm.Subperm
import Mathlib.Logic.Relation
import SmallLisp.Store.Tree

/-!
# The trees that values stand for

A value stands for the tree of data that its slots lead to, if no slot leads back and no procedure is
met. Pairs may be shared.

* `Store.Slot` is one step through a slot, `Store.SlotReaches` any number of them;
* `Store.NestsWithin` bounds the number of steps, and `Store.Acyclic.nestsWithin` says that there is a bound
  without a cycle;
* `Store.Denotes` says that a value stands for a datum;
* `Store.denotes_iff_datum`: `Store.datum` finds this datum;
* `Store.datum_of_acyclic`: without a cycle it finds a datum or meets a procedure, and never gives up;
* `Datum.install_denotes`: what is put into a store stands there for what it was.

`Store.datum` is bounded by the number of pairs. That the bound suffices is shown by the pairs on the
way to the place where it would be used up: without a cycle they are all different.
-/

namespace SmallLisp

/-- Whether a value is a procedure. -/
def Value.isProcedure : Value → Bool
  | .closure _ => true
  | .primitive _ => true
  | _ => false

/-- The names of the symbols in a datum. -/
def Datum.names : Datum → List String
  | .sym name => [name]
  | .cons first second => first.names ++ second.names
  | _ => []

namespace Store

/-- A pair leads to the values in its slots. -/
inductive Slot (store : Store) : Value → Value → Prop
  | first
      (id : PairId) :
      Slot store (.pair id) (store.pair id).first
  | second
      (id : PairId) :
      Slot store (.pair id) (store.pair id).second

/-- What a value leads to through slots. -/
def SlotReaches (store : Store) : Value → Value → Prop :=
  Relation.ReflTransGen store.Slot

/-- No pair that a value leads to leads to itself. -/
def Acyclic (store : Store) (value : Value) : Prop :=
  ∀ inner, store.SlotReaches value inner → ¬ Relation.TransGen store.Slot inner inner

/-- Going through slots from a value takes at most `bound` steps. -/
inductive NestsWithin (store : Store) : Nat → Value → Prop
  | atom
      {bound : Nat}
      {value : Value}
      (h : value.isPair = false) :
      NestsWithin store bound value
  | pair
      {bound : Nat}
      {id : PairId}
      (hfirst : NestsWithin store bound (store.pair id).first)
      (hsecond : NestsWithin store bound (store.pair id).second) :
      NestsWithin store (bound + 1) (.pair id)

/-- A value leads to a procedure. -/
def HoldsProcedure (store : Store) (value : Value) : Prop :=
  ∃ inner, store.SlotReaches value inner ∧ inner.isProcedure = true

/-- A value stands for a datum. -/
inductive Denotes (store : Store) : Value → Datum → Prop
  | nil :
      Denotes store .nil .nil
  | int (value : Int64) :
      Denotes store (.int value) (.int value)
  | bool (value : Bool) :
      Denotes store (.bool value) (.bool value)
  | sym (name : String) :
      Denotes store (.sym name) (.sym name)
  | pair
      {id : PairId}
      {first second : Datum}
      (hfirst : Denotes store (store.pair id).first first)
      (hsecond : Denotes store (store.pair id).second second) :
      Denotes store (.pair id) (.cons first second)

variable {store : Store}

/-- A value stands for at most one datum. -/
theorem Denotes.unique
    {value : Value}
    {datum datum' : Datum}
    (h : store.Denotes value datum)
    (h' : store.Denotes value datum') :
    datum = datum' := by
  induction h generalizing datum' with
  | pair _ _ ihFirst ihSecond =>
      cases h' with
      | pair hfirst hsecond =>
          rw [ihFirst hfirst, ihSecond hsecond]
  | _ =>
      cases h'
      rfl

theorem Denotes.of_slot
    {value inner : Value}
    {datum : Datum}
    (h : store.Denotes value datum)
    (hslot : store.Slot value inner) :
    ∃ part, store.Denotes inner part ∧ sizeOf part < sizeOf datum := by
  cases h with
  | @pair _ first second hfirst hsecond =>
      cases hslot with
      | first => exact ⟨first, hfirst, by simp only [Datum.cons.sizeOf_spec]; omega⟩
      | second => exact ⟨second, hsecond, by simp only [Datum.cons.sizeOf_spec]; omega⟩
  | _ => cases hslot

theorem Denotes.of_transGen
    {value inner : Value}
    {datum : Datum}
    (h : store.Denotes value datum)
    (hreach : Relation.TransGen store.Slot value inner) :
    ∃ part, store.Denotes inner part ∧ sizeOf part < sizeOf datum := by
  induction hreach with
  | single hslot => exact h.of_slot hslot
  | tail _ hslot ih =>
      obtain ⟨middle, hmiddle, hlt⟩ := ih
      obtain ⟨part, hpart, hlt'⟩ := hmiddle.of_slot hslot
      exact ⟨part, hpart, Nat.lt_trans hlt' hlt⟩

/-- Whatever a value leads to stands for a part of its datum. -/
theorem Denotes.of_slotReaches
    {value inner : Value}
    {datum : Datum}
    (h : store.Denotes value datum)
    (hreach : store.SlotReaches value inner) :
    ∃ part, store.Denotes inner part := by
  rcases Relation.reflTransGen_iff_eq_or_transGen.mp hreach with rfl | htrans
  · exact ⟨datum, h⟩
  · obtain ⟨part, hpart, -⟩ := h.of_transGen htrans
    exact ⟨part, hpart⟩

/-- A value that stands for a datum leads to no cycle: each step leads to a smaller part. -/
theorem Denotes.acyclic
    {value : Value}
    {datum : Datum}
    (h : store.Denotes value datum) :
    store.Acyclic value := by
  intro inner hreach hcycle
  obtain ⟨part, hpart⟩ := h.of_slotReaches hreach
  obtain ⟨smaller, hsmaller, hlt⟩ := hpart.of_transGen hcycle
  rw [hpart.unique hsmaller] at hlt
  exact Nat.lt_irrefl _ hlt

/-- A value that stands for a datum leads to no procedure. -/
theorem Denotes.not_holdsProcedure
    {value : Value}
    {datum : Datum}
    (h : store.Denotes value datum) :
    ¬ store.HoldsProcedure value := by
  rintro ⟨inner, hreach, hprocedure⟩
  obtain ⟨part, hpart⟩ := h.of_slotReaches hreach
  cases hpart <;> cases hprocedure

/-- The symbols that a value leads to are those of its datum. -/
theorem Denotes.mem_names_iff
    {value : Value}
    {datum : Datum}
    {name : String}
    (h : store.Denotes value datum) :
    name ∈ datum.names ↔ store.SlotReaches value (.sym name) := by
  constructor
  · intro hname
    induction h with
    | sym =>
        cases List.mem_singleton.mp hname
        exact .refl
    | pair _ _ ihFirst ihSecond =>
        rcases List.mem_append.mp hname with hname | hname
        · exact .head (.first _) (ihFirst hname)
        · exact .head (.second _) (ihSecond hname)
    | _ => cases hname
  · intro hreach
    induction h with
    | @pair id _ _ _ _ ihFirst ihSecond =>
        rcases Relation.ReflTransGen.cases_head hreach with hrefl | ⟨inner, hslot, hrest⟩
        · cases hrefl
        · cases hslot with
          | first => exact List.mem_append_left _ (ihFirst hrest)
          | second => exact List.mem_append_right _ (ihSecond hrest)
    | sym =>
        rcases Relation.ReflTransGen.cases_head hreach with hrefl | ⟨inner, hslot, -⟩
        · cases hrefl
          exact List.mem_singleton_self _
        · cases hslot
    | _ =>
        rcases Relation.ReflTransGen.cases_head hreach with hrefl | ⟨inner, hslot, -⟩
        · cases hrefl
        · cases hslot

theorem datumUpTo_pair_ok
    {bound : Nat}
    {id : PairId}
    {datum : Datum}
    (h : store.datumUpTo (bound + 1) (.pair id) = .ok datum) :
    ∃ first second,
      store.datumUpTo bound (store.pair id).first = .ok first ∧
      store.datumUpTo bound (store.pair id).second = .ok second ∧
      datum = .cons first second := by
  rw [datumUpTo] at h
  cases hfirst : store.datumUpTo bound (store.pair id).first with
  | error e =>
      rw [hfirst] at h
      cases h
  | ok first =>
      cases hsecond : store.datumUpTo bound (store.pair id).second with
      | error e =>
          rw [hfirst, hsecond] at h
          cases h
      | ok second =>
          rw [hfirst, hsecond] at h
          cases h
          exact ⟨first, second, rfl, rfl, rfl⟩

theorem datumUpTo_pair_error
    {bound : Nat}
    {id : PairId}
    {halt : Halt}
    (h : store.datumUpTo (bound + 1) (.pair id) = .error halt) :
    ∃ inner, store.Slot (.pair id) inner ∧ store.datumUpTo bound inner = .error halt := by
  rw [datumUpTo] at h
  cases hfirst : store.datumUpTo bound (store.pair id).first with
  | error e =>
      rw [hfirst] at h
      cases h
      exact ⟨_, .first id, hfirst⟩
  | ok first =>
      cases hsecond : store.datumUpTo bound (store.pair id).second with
      | error e =>
          rw [hfirst, hsecond] at h
          cases h
          exact ⟨_, .second id, hsecond⟩
      | ok second =>
          rw [hfirst, hsecond] at h
          cases h

theorem denotes_of_datumUpTo
    {bound : Nat}
    {value : Value}
    {datum : Datum}
    (h : store.datumUpTo bound value = .ok datum) :
    store.Denotes value datum := by
  induction bound generalizing value datum with
  | zero =>
      cases value <;> cases h <;> constructor
  | succ bound ih =>
      cases value with
      | pair id =>
          obtain ⟨first, second, hfirst, hsecond, rfl⟩ := datumUpTo_pair_ok h
          exact .pair (ih hfirst) (ih hsecond)
      | _ => cases h <;> constructor

/-- The search for the datum of a value halts at a procedure or where its bound is used up. -/
theorem datumUpTo_error
    {bound : Nat}
    {value : Value}
    {halt : Halt}
    (h : store.datumUpTo bound value = .error halt) :
    halt = .unfinished ∨
      halt = .error (.evaluating .unprintable) ∧ store.HoldsProcedure value := by
  induction bound generalizing value with
  | zero =>
      cases value with
      | pair id =>
          cases h
          exact .inl rfl
      | closure id =>
          cases h
          exact .inr ⟨rfl, _, .refl, rfl⟩
      | primitive p =>
          cases h
          exact .inr ⟨rfl, _, .refl, rfl⟩
      | _ => cases h
  | succ bound ih =>
      cases value with
      | pair id =>
          obtain ⟨next, hslot, hnext⟩ := datumUpTo_pair_error h
          rcases ih hnext with rfl | ⟨rfl, inner, hreach, hprocedure⟩
          · exact .inl rfl
          · exact .inr ⟨rfl, inner, .head hslot hreach, hprocedure⟩
      | closure id =>
          cases h
          exact .inr ⟨rfl, _, .refl, rfl⟩
      | primitive p =>
          cases h
          exact .inr ⟨rfl, _, .refl, rfl⟩
      | _ => cases h

/-- Different objects that are numbered below `count` are no more than `count`. -/
theorem length_le_of_nodup
    {α : Type}
    {index : α → Nat}
    (hindex : Function.Injective index)
    {path : List α}
    {count : Nat}
    (hnodup : path.Nodup)
    (hin : ∀ object ∈ path, index object < count) :
    path.length ≤ count := by
  have hindices : (path.map index).Nodup := hnodup.map hindex
  have hsub : path.map index ⊆ List.range count := by
    intro number hnumber
    obtain ⟨object, hobject, rfl⟩ := List.mem_map.mp hnumber
    exact List.mem_range.mpr (hin object hobject)
  simpa using (hindices.subperm hsub).length_le

/-- A pair that the store does not hold has empty slots. -/
theorem slot_of_not_held
    {id : PairId}
    {inner : Value}
    (hid : store.pairs.size ≤ id.index)
    (hslot : store.Slot (.pair id) inner) :
    inner = .nil := by
  have hempty : store.pair id = ⟨.nil, .nil⟩ := by
    simp [Store.pair, Array.getD_eq_getD_getElem?, hid]
  cases hslot <;> rw [hempty]

theorem NestsWithin.succ
    {bound : Nat}
    {value : Value}
    (h : store.NestsWithin bound value) :
    store.NestsWithin (bound + 1) value := by
  induction h with
  | atom hatom => exact .atom hatom
  | pair _ _ ihFirst ihSecond => exact .pair ihFirst ihSecond

/-- Without a cycle the pairs on the way to a value are all different, so few enough of them are left. -/
theorem nestsWithin_of_path
    {root value : Value}
    {bound : Nat}
    {path : List PairId}
    (hacyclic : store.Acyclic root)
    (hroot : store.SlotReaches root value)
    (hpath : ∀ id ∈ path, Relation.TransGen store.Slot (.pair id) value)
    (hnodup : path.Nodup)
    (hin : ∀ id ∈ path, id.index < store.pairs.size)
    (hbound : store.pairs.size < bound + path.length) :
    store.NestsWithin bound value := by
  induction bound generalizing value path with
  | zero =>
      have hle := length_le_of_nodup PairId.index_injective hnodup hin
      omega
  | succ bound ih =>
      cases value with
      | pair id =>
          have hslots : ∀ next, store.Slot (.pair id) next → store.NestsWithin bound next := by
            intro next hslot
            by_cases hid : id.index < store.pairs.size
            · have hnew : id ∉ path := fun hmem => hacyclic _ hroot (hpath id hmem)
              refine ih (hroot.tail hslot) ?_ (List.nodup_cons.mpr ⟨hnew, hnodup⟩) ?_ ?_
              · intro other hother
                rcases List.mem_cons.mp hother with rfl | hother
                · exact .single hslot
                · exact (hpath other hother).tail hslot
              · intro other hother
                rcases List.mem_cons.mp hother with rfl | hother
                · exact hid
                · exact hin other hother
              · rw [List.length_cons]
                omega
            · rw [slot_of_not_held (Nat.le_of_not_lt hid) hslot]
              exact .atom rfl
          exact .pair (hslots _ (.first id)) (hslots _ (.second id))
      | _ => exact .atom rfl

/-- Without a cycle there are no more steps than pairs, and the one to the atom behind the last of them. -/
theorem Acyclic.nestsWithin
    {value : Value}
    (h : store.Acyclic value) :
    store.NestsWithin (store.pairs.size + 1) value :=
  nestsWithin_of_path h .refl (List.forall_mem_nil _) List.nodup_nil (List.forall_mem_nil _)
    (Nat.lt_succ_self _)

/-- The search for a datum does not use up a bound that the value nests within. -/
theorem NestsWithin.datumUpTo_ne_unfinished
    {bound : Nat}
    {value : Value}
    (h : store.NestsWithin bound value) :
    store.datumUpTo bound value ≠ .error .unfinished := by
  induction h with
  | @atom bound value hatom => cases value <;> cases hatom <;> cases bound <;> nofun
  | pair _ _ ihFirst ihSecond =>
      intro h
      obtain ⟨next, hslot, hnext⟩ := datumUpTo_pair_error h
      cases hslot with
      | first => exact ihFirst hnext
      | second => exact ihSecond hnext

/-- Without a cycle a value stands for a datum, or it leads to a procedure. -/
theorem datum_of_acyclic
    {value : Value}
    (hacyclic : store.Acyclic value) :
    (∃ datum, store.datum value = .ok datum ∧ store.Denotes value datum) ∨
      store.datum value = .error (.error (.evaluating .unprintable)) ∧
        store.HoldsProcedure value := by
  cases h : store.datum value with
  | ok datum => exact .inl ⟨datum, rfl, denotes_of_datumUpTo h⟩
  | error halt =>
      rcases datumUpTo_error h with rfl | ⟨rfl, hprocedure⟩
      · exact (hacyclic.nestsWithin.datumUpTo_ne_unfinished h).elim
      · exact .inr ⟨rfl, hprocedure⟩

/-- A value stands for a datum exactly if the datum is found in the store. -/
theorem denotes_iff_datum
    {value : Value}
    {datum : Datum} :
    store.Denotes value datum ↔ store.datum value = .ok datum := by
  constructor
  · intro h
    rcases datum_of_acyclic h.acyclic with ⟨found, hfound, hdenotes⟩ | ⟨-, hprocedure⟩
    · rw [hfound, h.unique hdenotes]
    · exact (h.not_holdsProcedure hprocedure).elim
  · exact denotes_of_datumUpTo

/-- A store has the pairs of an older one, and perhaps more. -/
def KeepsPairs (older newer : Store) : Prop :=
  older.pairs.size ≤ newer.pairs.size ∧
    ∀ id : PairId, id.index < older.pairs.size → newer.pair id = older.pair id

theorem KeepsPairs.refl (store : Store) : store.KeepsPairs store :=
  ⟨Nat.le_refl _, fun _ _ => rfl⟩

theorem KeepsPairs.trans
    {first second third : Store}
    (h : first.KeepsPairs second)
    (h' : second.KeepsPairs third) :
    first.KeepsPairs third := by
  refine ⟨Nat.le_trans h.1 h'.1, fun id hid => ?_⟩
  rw [h'.2 id (Nat.lt_of_lt_of_le hid h.1), h.2 id hid]

theorem keepsPairs_newPair
    (store : Store)
    (first second : Value) :
    store.KeepsPairs (store.newPair first second).2 := by
  constructor
  · simp [newPair]
  · intro id hid
    rw [pair_newPair, if_neg (Nat.ne_of_lt hid)]

end Store

/-- Putting a datum into a store makes new pairs only. -/
theorem Datum.keepsPairs_install
    (datum : Datum)
    (store : Store) :
    store.KeepsPairs (datum.install store).2 := by
  induction datum generalizing store with
  | cons first second ihFirst ihSecond =>
      exact ((ihFirst store).trans (ihSecond _)).trans (Store.keepsPairs_newPair _ _ _)
  | _ => exact .refl store

/-- What is put into a store stands for what it was, and goes on to do so while more pairs are made. -/
theorem Datum.install_denotes_later
    (datum : Datum)
    {store later : Store}
    (hlater : (datum.install store).2.KeepsPairs later) :
    later.Denotes (datum.install store).1 datum := by
  induction datum generalizing store with
  | cons first second ihFirst ihSecond =>
      simp only [Datum.install] at hlater ⊢
      have hmade := Store.keepsPairs_newPair (second.install (first.install store).2).2
        (first.install store).1 (second.install (first.install store).2).1
      have hsecond := ihSecond (hmade.trans hlater)
      have hfirst := ihFirst ((second.keepsPairs_install _).trans (hmade.trans hlater))
      have hpair := hlater.2 ⟨(second.install (first.install store).2).2.pairs.size⟩
        (by simp [Store.newPair])
      rw [Store.pair_newPair, if_pos rfl] at hpair
      refine .pair ?_ ?_
      · rw [hpair]
        exact hfirst
      · rw [hpair]
        exact hsecond
  | _ => constructor

/-- What is put into a store stands for what it was. -/
theorem Datum.install_denotes
    (datum : Datum)
    (store : Store) :
    (datum.install store).2.Denotes (datum.install store).1 datum :=
  datum.install_denotes_later (.refl _)

end SmallLisp
