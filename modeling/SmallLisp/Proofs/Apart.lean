import SmallLisp.Proofs.Presence

/-!
# Code that shares nothing

Two worlds on one store are apart if there is no object that code has got hold of in both of them. What code
does in the one leaves all as it is that code has got hold of in the other, and they stay apart.

* `World.Apart` is about objects only: primitives and symbols never change;
* `World.moveTo` takes a world to another store that holds the same;
* `Changes.same_apart` and `Changes.apart` are the two statements.
-/

namespace SmallLisp

/-- Whether an item is an object of a store. -/
def Item.IsObject : Item → Prop
  | .pair _ => True
  | .closure _ => True
  | .frame _ => True
  | .primitive _ => False
  | .symbol _ => False

namespace Item

variable {older newer : Store} {item : Item}

theorem SameIn.symm (h : item.SameIn older newer) : item.SameIn newer older := by
  cases item with
  | pair id => exact Eq.symm h
  | closure id => exact Eq.symm h
  | frame id => exact Eq.symm h
  | primitive p => trivial
  | symbol name => trivial

/-- What is no object is the same in all stores. -/
theorem SameIn.of_not_isObject (h : ¬item.IsObject) : item.SameIn older newer := by
  cases item with
  | primitive p => trivial
  | symbol name => trivial
  | _ => exact (h trivial).elim

end Item

variable {given : Primitive → Bool}

namespace World

/-- There is no object that code has got hold of in both worlds. -/
def Apart (w v : World given) : Prop :=
  ∀ item, item.IsObject → item ∈ w.items → item ∉ v.items

theorem Apart.symm
    {w v : World given}
    (h : w.Apart v) :
    v.Apart w :=
  fun item hobject hv hw => h item hobject hw hv

/-- The same world in a store where all that code has got hold of is the same. -/
def moveTo
    (v : World given)
    (store : Store)
    (hsame : ∀ item ∈ v.items, item.SameIn v.store store) :
    World given where
  store := store
  items := v.items
  homes := v.homes
  calls := v.calls
  closed hitem hlink := v.closed hitem ((hsame _ hitem).link hlink)
  homes_held := v.homes_held
  primitive_given := v.primitive_given

theorem Present.moveTo
    {v : World given}
    (h : v.Present)
    {store : Store}
    (hgrows : v.store.Grows store)
    (hsame : ∀ item ∈ v.items, item.SameIn v.store store) :
    (v.moveTo store hsame).Present :=
  fun item hitem => (h item hitem).mono hgrows

end World

namespace Changes

variable {w w' v : World given}

/-- What code does leaves alone what is apart from it. -/
theorem same_apart
    (h : Changes w w')
    (hstore : w.store = v.store)
    (hv : v.Present)
    (hapart : w.Apart v) :
    ∀ item ∈ v.items, item.SameIn v.store w'.store := by
  intro item hitem
  by_cases hobject : item.IsObject
  · rw [← hstore]
    refine h.same (hstore ▸ hv item hitem) ?_
    intro hmem
    exact hapart item hobject hmem hitem
  · exact .of_not_isObject hobject

/-- What is made is apart from what was there. -/
theorem apart
    (h : Changes w w')
    (hstore : w.store = v.store)
    (hv : v.Present)
    (hapart : w.Apart v) :
    w'.Apart v := by
  intro item hobject hitem hmem
  rcases h.made hitem with hold | hmade
  · exact hapart item hobject hold hmem
  · exact hmade.not_presentIn (hstore ▸ hv item hmem)

end Changes

end SmallLisp
