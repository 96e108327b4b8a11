import SmallLisp.Proofs.Confinement
import SmallLisp.Proofs.Sessions

/-!
# Symbols in sessions

Evaluation makes no symbols. The forms of texts bring all symbols into a session, and their names are
readable. So every symbol that turns up in a session has a readable name, and whatever a session prints
is read as the tree that was printed.

The invariant is `Store.Clean`. In a clean store code may hold any object, but only symbols with readable
names; `World.clean` is that world, and evaluation does not leave it.

* `Session.Reachable.clean`: the store of a session is always clean;
* `prints_what_it_can_read` is the main result.
-/

namespace SmallLisp

/-- A name that can be written for a symbol: it is read as the symbol. -/
structure WritableName (name : String) : Prop where
  ne_empty : name ≠ ""
  plain : name.toList.head? ≠ some '#'
  reads : readForm name = .ok (.sym name)

theorem ReadableName.writable
    {name : String}
    (h : ReadableName name) :
    WritableName name := by
  have hread : readForm (Datum.sym name).print = .ok (.sym name) := by
    refine readForm_print ?_
    intro other hother
    rw [List.mem_singleton.mp hother]
    exact h
  have hprint : (Datum.sym name).print = name := String.ofList_toList
  rw [hprint] at hread
  refine ⟨?_, h.2, hread⟩
  rintro rfl
  have hempty : readForm "" = .error .unexpectedEnd := by decide +kernel
  rw [hempty] at hread
  cases hread

namespace Store

/-- Every symbol that an object leads to has a readable name. -/
def Clean (store : Store) : Prop :=
  ∀ item name, store.Link item (.symbol name) → ReadableName name

/-- A text is read as the tree of a value, and that tree is printed as the text. -/
def ReadsBack (store : Store) (value : Value) (text : String) : Prop :=
  ∃ datum,
    readForm text = .ok datum ∧
    ∀ other : Store,
      store.SameTree value (datum.install other).2 (datum.install other).1 ∧
      (datum.install other).2.print (datum.install other).1 = .ok text

variable {store : Store}

/-- What a value leads to through slots is reached from it. -/
theorem reachedFromValue_of_slotReaches
    {value inner : Value}
    {item : Item}
    (h : store.SlotReaches value inner)
    (hitem : inner.item? = some item) :
    store.ReachedFromValue value item := by
  induction h generalizing item with
  | refl => exact ⟨item, hitem, .refl⟩
  | tail _ hslot ih =>
      cases hslot with
      | first id =>
          obtain ⟨first, hfirst, hreaches⟩ := ih rfl
          exact ⟨first, hfirst, hreaches.tail (.first hitem)⟩
      | second id =>
          obtain ⟨first, hfirst, hreaches⟩ := ih rfl
          exact ⟨first, hfirst, hreaches.tail (.second hitem)⟩

/-- A printed value whose symbols have readable names can be read back. -/
theorem readsBack_of_print
    {value : Value}
    {text : String}
    (hprint : store.print value = .ok text)
    (hnames : ∀ name, store.ReachedFromValue value (.symbol name) → ReadableName name) :
    store.ReadsBack value text := by
  obtain ⟨datum, hdenotes, rfl⟩ := denotes_of_print hprint
  refine ⟨datum, readForm_print ?_, ?_⟩
  · intro name hname
    exact hnames name (reachedFromValue_of_slotReaches (hdenotes.mem_names_iff.mp hname) rfl)
  · intro other
    have hinstalled := datum.install_denotes other
    exact ⟨⟨datum, hdenotes, hinstalled⟩, hinstalled.print⟩

/-- What is reached in a clean store, from something that is no symbol, is no symbol or has a readable
name. -/
theorem Clean.reaches
    (h : store.Clean)
    {item : Item}
    {name : String}
    (hreaches : store.Reaches item (.symbol name)) :
    item = .symbol name ∨ ReadableName name := by
  rcases Relation.ReflTransGen.cases_tail hreaches with hsame | ⟨last, -, hlink⟩
  · exact .inl hsame.symm
  · exact .inr (h last name hlink)

end Store

/-- The world of code that holds any object and any symbol with a readable name. -/
def World.clean (store : Store) (h : store.Clean) : World fun _ => true where
  store := store
  items := {item | ∀ name, item = .symbol name → ReadableName name}
  homes := Set.univ
  closed := by
    rintro item _ - hlink name rfl
    exact h item name hlink
  homes_held := fun _ _ hname => nomatch hname
  primitive_given _ := rfl

section Changes

variable {store : Store} {h : store.Clean} {w : World fun _ => true}

theorem Changes.readableName
    (hchanges : Changes (World.clean store h) w)
    {name : String}
    (hname : .symbol name ∈ w.items) :
    ReadableName name :=
  (hchanges.made hname).resolve_right id name rfl

/-- Code that starts from a clean store leaves a clean store. -/
theorem Changes.clean
    (hchanges : Changes (World.clean store h) w) :
    w.store.Clean := by
  intro item name hlink
  have hitem : item ∈ w.items := by
    refine hchanges.items_subset ?_
    rintro other rfl
    cases hlink
  exact hchanges.readableName (w.closed hitem hlink)

end Changes

/-- A datum is put into a store by changes, by code that has got hold of its symbols. -/
theorem Datum.exists_install
    {given : Primitive → Bool}
    (datum : Datum)
    (w : World given)
    (hnames : ∀ name ∈ datum.names, .symbol name ∈ w.items) :
    ∃ w', Changes w w' ∧
      (datum.install w.store).2 = w'.store ∧
      w'.Has (datum.install w.store).1 := by
  induction datum generalizing w with
  | nil => exact ⟨w, .refl, rfl, World.has_nil⟩
  | int value => exact ⟨w, .refl, rfl, World.has_int value⟩
  | bool value => exact ⟨w, .refl, rfl, World.has_bool value⟩
  | sym name =>
      exact ⟨w, .refl, rfl, World.has_of_item rfl (hnames name (List.mem_singleton.mpr rfl))⟩
  | cons first second ihFirst ihSecond =>
      obtain ⟨w₁, h₁, hstore₁, hfirst⟩ :=
        ihFirst w fun name hname => hnames name (List.mem_append_left _ hname)
      obtain ⟨w₂, h₂, hstore₂, hsecond⟩ := ihSecond w₁ fun name hname =>
        h₁.items_subset (hnames name (List.mem_append_right _ hname))
      have hmade : Change w₂ (w₂.newPair (h₂.has hfirst) hsecond) := .newPair _ _
      refine ⟨_, (h₁.trans h₂).tail hmade, ?_, ?_⟩
      · simp only [Datum.install, hstore₁, hstore₂]
        rfl
      · simp only [Datum.install, hstore₁, hstore₂]
        exact World.has_of_item rfl (Set.mem_insert _ _)

namespace Session

/-- The primitives of the root frame are no symbols. -/
theorem start_clean : start.store.Clean := by
  intro item name h
  cases h with
  | first h => cases h
  | second h => cases h
  | body hbody h => cases hbody
  | @bound id bound value _ hbound h =>
      obtain ⟨index⟩ := id
      cases index with
      | zero =>
          obtain ⟨p, rfl⟩ := Frame.exists_primitive_of_get? hbound
          cases h
      | succ index => cases hbound

/-- Evaluating a form makes only changes that code may make that has got hold of the root frame and of the
symbols of the form. -/
theorem exists_changes_valueOf
    {given : Primitive → Bool}
    {w : World given}
    {session : Session}
    (hstore : w.store = session.store)
    (hroot : session.root ∈ w.homes)
    {form : Datum}
    (hnames : ∀ name ∈ form.names, .symbol name ∈ w.items)
    (fuel : Nat) :
    ∃ w', Changes w w' ∧ (session.valueOf fuel form).2 = w'.store ∧
      (∀ value, (session.valueOf fuel form).1 = .ok value → w'.Has value) ∧
      ∀ halt, (session.valueOf fuel form).1 = .error halt → w'.Allows halt := by
  obtain ⟨w₁, h₁, hstore₁, hexpression⟩ := form.exists_install w hnames
  obtain ⟨w₂, h₂, hstore₂, hend⟩ := eval_confined fuel hexpression (h₁.homes_subset hroot)
  rw [hstore] at hstore₁ hstore₂ hend
  unfold valueOf
  rw [hstore₁]
  refine ⟨w₂, h₁.trans h₂, hstore₂, ?_, ?_⟩
  · intro value hvalue
    rw [hvalue] at hend
    exact hend
  · intro halt hhalt
    rw [hhalt] at hend
    exact hend

/-- Evaluating a form whose symbols have readable names keeps the store clean, and the symbols that are
reached from the value have readable names. -/
theorem clean_valueOf
    {session : Session}
    (h : session.store.Clean)
    (fuel : Nat)
    {form : Datum}
    (hform : ∀ name ∈ form.names, ReadableName name) :
    (session.valueOf fuel form).2.Clean ∧
      ∀ value name,
        (session.valueOf fuel form).1 = .ok value →
        (session.valueOf fuel form).2.ReachedFromValue value (.symbol name) →
        ReadableName name := by
  obtain ⟨w, hchanges, hstore, hhas, -⟩ :=
    exists_changes_valueOf (w := World.clean session.store h) rfl (Set.mem_univ session.root)
      (by rintro name hname _ ⟨⟩; exact hform name hname) fuel
  rw [hstore]
  refine ⟨hchanges.clean, ?_⟩
  rintro value name hvalue ⟨first, hfirst, hreaches⟩
  exact hchanges.readableName (w.reaches (hhas value hvalue first hfirst) hreaches)

theorem clean_evaluateForm
    {session : Session}
    (h : session.store.Clean)
    (fuel : Nat)
    {form : Datum}
    (hform : ∀ name ∈ form.names, ReadableName name) :
    (session.evaluateForm fuel form).2.store.Clean := by
  rw [evaluateForm_eq]
  exact (clean_valueOf h fuel hform).1

/-- A form that is answered with a text has a value that can be read back from the text. -/
theorem readsBack_of_evaluateForm
    {session : Session}
    (h : session.store.Clean)
    {fuel : Nat}
    {form : Datum}
    (hform : ∀ name ∈ form.names, ReadableName name)
    {printed : String}
    (hprinted : (session.evaluateForm fuel form).1 = .ok printed) :
    ∃ value,
      (session.valueOf fuel form).1 = .ok value ∧
      (session.valueOf fuel form).2.print value = .ok printed ∧
      (session.valueOf fuel form).2.ReadsBack value printed := by
  rw [evaluateForm_eq] at hprinted
  cases hvalue : (session.valueOf fuel form).1 with
  | error halt =>
      rw [hvalue] at hprinted
      cases hprinted
  | ok value =>
      rw [hvalue] at hprinted
      refine ⟨value, rfl, hprinted, Store.readsBack_of_print hprinted ?_⟩
      exact fun name => (clean_valueOf h fuel hform).2 value name hvalue

/-- The store of a session is always clean. -/
theorem Reachable.clean
    {session : Session}
    (h : session.Reachable) :
    session.store.Clean := by
  refine h.induct (P := fun session => session.store.Clean) start_clean ?_
  intro session fuel text form hform hclean
  exact clean_evaluateForm hclean fuel fun name => readableName_of_mem_formsOf hform

/-- It is clean as well between the forms of a call. -/
theorem Reachable.clean_afterForms
    {session : Session}
    (h : session.Reachable)
    (fuel : Nat)
    (text : String)
    (number : Nat) :
    (session.afterForms fuel ((formsOf text).take number)).store.Clean := by
  refine afterForms_induct (P := fun session => session.store.Clean) ?_ h.clean
  intro session form hform hclean
  exact clean_evaluateForm hclean fuel fun name =>
    readableName_of_mem_formsOf (List.mem_of_mem_take hform)

/-- A session can read back whatever it prints, and no symbol turns up in it that could not be written.
A text that is printed, for a text that is one form or for one of the forms of a text, is read as the
tree of the value that was printed, and that tree is printed as the text. The symbols that are reached
from the root frame, from the body of a closure or from the value of a form can all be written. -/
theorem prints_what_it_can_read
    {session : Session}
    (h : session.Reachable) :
    (∀ fuel text printed,
      (session.evaluate fuel text).1 = .ok printed →
      ∃ form value,
        readForm text = .ok form ∧
        (session.valueOf fuel form).1 = .ok value ∧
        (session.valueOf fuel form).2.print value = .ok printed ∧
        (session.valueOf fuel form).2.ReadsBack value printed) ∧
    (∀ fuel goOn text number printed,
      (session.evaluateAll fuel goOn text).1.answers[number]? = some (.ok printed) →
      let before := session.afterForms fuel ((formsOf text).take number)
      ∃ form value,
        (formsOf text)[number]? = some form ∧
        (before.valueOf fuel form).1 = .ok value ∧
        (before.valueOf fuel form).2.print value = .ok printed ∧
        (before.valueOf fuel form).2.ReadsBack value printed) ∧
    (∀ name,
      session.store.Reaches (.frame session.root) (.symbol name) → WritableName name) ∧
    (∀ id value name,
      value ∈ (session.store.closure id).body →
      session.store.ReachedFromValue value (.symbol name) →
      WritableName name) ∧
    (∀ fuel text number form value name,
      (formsOf text)[number]? = some form →
      let before := session.afterForms fuel ((formsOf text).take number)
      (before.valueOf fuel form).1 = .ok value →
      (before.valueOf fuel form).2.ReachedFromValue value (.symbol name) →
      WritableName name) := by
  refine ⟨?_, ?_, ?_, ?_, ?_⟩
  · intro fuel text printed hprinted
    unfold evaluate at hprinted
    cases hread : readForm text with
    | error e =>
        rw [hread] at hprinted
        cases hprinted
    | ok form =>
        rw [hread] at hprinted
        have hnames : ∀ name ∈ form.names, ReadableName name :=
          fun name => readableName_of_readForm hread
        obtain ⟨value, hvalue⟩ := readsBack_of_evaluateForm h.clean hnames hprinted
        exact ⟨form, value, rfl, hvalue⟩
  · intro fuel goOn text number printed hprinted before
    obtain ⟨form, hform, hanswer⟩ := answers_evaluateAll hprinted
    have hnames : ∀ name ∈ form.names, ReadableName name :=
      fun name => readableName_of_mem_formsOf (List.mem_of_getElem? hform)
    obtain ⟨value, hvalue⟩ :=
      readsBack_of_evaluateForm (h.clean_afterForms fuel text number) hnames hanswer
    exact ⟨form, value, hform, hvalue⟩
  · intro name hreaches
    exact ((h.clean.reaches hreaches).resolve_left nofun).writable
  · rintro id value name hvalue ⟨first, hfirst, hreaches⟩
    have hbody := Relation.ReflTransGen.head (.body hvalue hfirst) hreaches
    exact ((h.clean.reaches hbody).resolve_left nofun).writable
  · intro fuel text number form value name hform before hvalue hreached
    have hnames : ∀ name ∈ form.names, ReadableName name :=
      fun name => readableName_of_mem_formsOf (List.mem_of_getElem? hform)
    exact ((clean_valueOf (h.clean_afterForms fuel text number) fuel hnames).2
      value name hvalue hreached).writable

theorem prints_what_it_can_read_of_a_call :
    let session := (start.evaluate 3 "(define (f) 'b)").2
    session.Reachable ∧
    (session.evaluate 4 "(cons (f) 1)").1 = .ok "(b . 1)" ∧
    ∃ form value,
      readForm "(cons (f) 1)" = .ok form ∧
      (session.valueOf 4 form).1 = .ok value ∧
      (session.valueOf 4 form).2.print value = .ok "(b . 1)" ∧
      (session.valueOf 4 form).2.ReadsBack value "(b . 1)" := by
  intro session
  have hreachable : session.Reachable := .evaluate .start 3 "(define (f) 'b)"
  have hprinted : (session.evaluate 4 "(cons (f) 1)").1 = .ok "(b . 1)" := by decide +kernel
  exact ⟨hreachable, hprinted, (prints_what_it_can_read hreachable).1 4 _ _ hprinted⟩

end Session

end SmallLisp
