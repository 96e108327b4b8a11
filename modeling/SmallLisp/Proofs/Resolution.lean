import SmallLisp.Proofs.Forest
import Mathlib.Data.Set.Card
import Mathlib.Tactic.IntervalCases

/-!
# What a name means

A name means what the nearest frame that binds it says. Here this is said without a search: a frame is some
number of steps outward from another one, and the nearest frame that binds a name is one before which no other
on the way binds it. Looking up, assigning, defining and asking for a name all go by this frame, and so does
every observer afterwards.

* `Store.Outward` counts the steps outward, `Store.Sees` says that no nearer frame hides the bindings of a frame,
  and `Store.Resolves` that a frame is the nearest one that binds a name;
* `Store.binder?_eq_some_iff` and `Store.lookup_eq_some_iff`: the searches find this frame and its value;
* `Store.rebinds_define` says for all observers what they see after a binding has been written;
* `Store.encard_outside` counts the frames around a frame;
* `names_mean_what_the_nearest_frame_says` is the main result.
-/

namespace SmallLisp

namespace Store

/-- Going outward from `inner` as often as `distance` says leads to `outer`. -/
inductive Outward (store : Store) : FrameId → Nat → FrameId → Prop
  | here (id : FrameId) : Outward store id 0 id
  | further
      {inner parent outer : FrameId}
      {distance : Nat}
      (hinside : store.Inside inner parent)
      (houtward : Outward store parent distance outer) :
      Outward store inner (distance + 1) outer

/-- The line of `observer` comes to `scope`, and no frame before it binds the name. -/
def Sees (store : Store) (observer : FrameId) (name : String) (scope : FrameId) : Prop :=
  ∃ distance, store.Outward observer distance scope ∧
    ∀ nearer between, nearer < distance → store.Outward observer nearer between →
      (store.frame between).binds name = false

/-- The nearest frame from `observer` outward that binds the name is `scope`. -/
def Resolves (store : Store) (observer : FrameId) (name : String) (scope : FrameId) : Prop :=
  store.Sees observer name scope ∧ (store.frame scope).binds name = true

/-- In the newer store the `affected` observers see a new value of a name. Other observers see what they saw, and
so do all observers under other names. -/
def Rebinds
    (older newer : Store)
    (name : String)
    (value : Value)
    (affected : FrameId → Prop) :
    Prop :=
  ∀ observer other,
    (other = name → affected observer → newer.lookup observer other = some value) ∧
      (¬(other = name ∧ affected observer) →
        newer.lookup observer other = older.lookup observer other)

variable {store later : Store} {id observer scope : FrameId} {name : String}

section Lines

theorem getElem?_zero_scopesUpTo
    (store : Store)
    (count : Nat)
    (id : FrameId) :
    (store.scopesUpTo (count + 1) id)[0]? = some id := by
  unfold scopesUpTo
  split <;> rfl

/-- The frames of a line stand in the order in which going outward meets them. -/
theorem getElem?_scopesUpTo
    (count : Nat)
    (id : FrameId)
    (distance : Nat) :
    (store.scopesUpTo count id)[distance]? = some scope ↔
      distance < count ∧ store.Outward id distance scope := by
  induction count generalizing id distance with
  | zero => exact ⟨nofun, fun h => (Nat.not_lt_zero _ h.1).elim⟩
  | succ count ih =>
      cases distance with
      | zero =>
          rw [getElem?_zero_scopesUpTo, Option.some.injEq]
          refine ⟨?_, ?_⟩
          · rintro rfl
            exact ⟨Nat.succ_pos _, .here _⟩
          · rintro ⟨-, ⟨⟩⟩
            rfl
      | succ distance =>
          cases hparent : (store.frame id).parent with
          | none =>
              rw [store.scopesUpTo_of_outermost hparent]
              refine ⟨nofun, ?_⟩
              rintro ⟨-, houtward⟩
              cases houtward with
              | further hinside => cases hparent.symm.trans hinside
          | some parent =>
              rw [store.scopesUpTo_of_parent hparent, List.getElem?_cons_succ, ih parent distance]
              refine ⟨?_, ?_⟩
              · rintro ⟨hlt, houtward⟩
                exact ⟨Nat.succ_lt_succ hlt, .further hparent houtward⟩
              · rintro ⟨hlt, houtward⟩
                cases houtward with
                | further hinside hrest =>
                    cases hparent.symm.trans hinside
                    exact ⟨Nat.lt_of_succ_lt_succ hlt, hrest⟩

/-- Steps outward are the same where parents are the same. -/
theorem Outward.of_parents
    (hsame : ∀ id, (later.frame id).parent = (store.frame id).parent)
    {distance : Nat}
    (h : store.Outward id distance scope) :
    later.Outward id distance scope := by
  induction h with
  | here id => exact .here id
  | further hinside _ ih => exact .further ((hsame _).trans hinside) ih

/-- One frame is around another one if it is some steps outward. -/
theorem transGen_inside_iff :
    Relation.TransGen store.Inside id scope ↔ ∃ distance, store.Outward id (distance + 1) scope := by
  refine ⟨?_, ?_⟩
  · intro h
    induction h using Relation.TransGen.head_induction_on with
    | single hinside => exact ⟨0, .further hinside (.here _)⟩
    | head hinside _ ih =>
        obtain ⟨distance, houtward⟩ := ih
        exact ⟨distance + 1, .further hinside houtward⟩
  · rintro ⟨distance, houtward⟩
    induction distance generalizing id with
    | zero =>
        cases houtward with
        | further hinside hrest =>
            cases hrest
            exact .single hinside
    | succ distance ih =>
        cases houtward with
        | further hinside hrest => exact .head hinside (ih hrest)

/-- The frames around a frame are those of its line but the first. -/
theorem mem_tail_scopes_iff (hends : store.LineEnds id) :
    scope ∈ (store.scopes id).tail ↔ Relation.TransGen store.Inside id scope := by
  rw [transGen_inside_iff, List.mem_iff_getElem?]
  refine exists_congr fun distance => ?_
  -- A bound beyond the distance finds the same line, since the line ends.
  rw [List.getElem?_tail, ← hends.scopesUpTo_eq (Nat.le_add_right _ (distance + 1)), getElem?_scopesUpTo]
  exact and_iff_right (by omega)

/-- Frames that stand inside frames made earlier only are a forest. -/
theorem forest_of_index_lt
    (h : ∀ inner outer, store.Inside inner outer → outer.index < inner.index) :
    store.Forest := by
  have hearlier : ∀ inner outer, Relation.TransGen store.Inside inner outer → outer.index < inner.index := by
    intro inner outer hinside
    induction hinside with
    | single hinside => exact h _ _ hinside
    | tail _ hlast ih => exact Nat.lt_trans (h _ _ hlast) ih
  exact fun id hcircle => Nat.lt_irrefl _ (hearlier id id hcircle)

/-- The depth of a frame is the number of frames around it. -/
theorem encard_outside
    (hforest : store.Forest)
    (id : FrameId) :
    {outer | Relation.TransGen store.Inside id outer}.encard = store.depth id := by
  have hnodup : (store.scopes id).tail.Nodup := (hforest.nodup_scopesUpTo _ id).tail
  have houtside : {outer | Relation.TransGen store.Inside id outer} = (store.scopes id).tail.toFinset := by
    ext outer
    rw [Set.mem_ofPred_eq, ← mem_tail_scopes_iff (hforest.lineEnds id), Finset.mem_coe, List.mem_toFinset]
  rw [houtside, Set.encard_coe_eq_coe_finsetCard, List.toFinset_card_of_nodup hnodup, List.length_tail,
    ← depth_eq]

end Lines

section Searches

/-- A search along the line finds the nearest frame that binds the name, if the bound admits it. -/
theorem find?_scopesUpTo_eq_some_iff (bound : Nat) :
    ((store.scopesUpTo bound id).find? fun scope => (store.frame scope).binds name) = some scope ↔
      (store.frame scope).binds name = true ∧
        ∃ distance, distance < bound ∧ store.Outward id distance scope ∧
          ∀ nearer between, nearer < distance → store.Outward id nearer between →
            (store.frame between).binds name = false := by
  rw [List.find?_eq_some_iff_getElem]
  refine and_congr_right fun _ => exists_congr fun distance => ?_
  refine ⟨?_, ?_⟩
  · rintro ⟨hlength, hscope, hbefore⟩
    obtain ⟨hlt, houtward⟩ := (getElem?_scopesUpTo bound id distance).mp (List.getElem?_eq_some_iff.mpr ⟨hlength, hscope⟩)
    refine ⟨hlt, houtward, ?_⟩
    intro nearer between hnearer hbetween
    have hfound := (getElem?_scopesUpTo bound id nearer).mpr ⟨Nat.lt_trans hnearer hlt, hbetween⟩
    obtain ⟨_, hthere⟩ := List.getElem?_eq_some_iff.mp hfound
    simpa [hthere] using hbefore nearer hnearer
  · rintro ⟨hlt, houtward, hbefore⟩
    obtain ⟨hlength, hscope⟩ :=
      List.getElem?_eq_some_iff.mp ((getElem?_scopesUpTo bound id distance).mpr ⟨hlt, houtward⟩)
    refine ⟨hlength, hscope, ?_⟩
    intro nearer hnearer
    have hthere := (store.scopesUpTo bound id).getElem?_eq_getElem (Nat.lt_trans hnearer hlength)
    have hbetween := ((getElem?_scopesUpTo bound id nearer).mp hthere).2
    simp [hbefore nearer _ hnearer hbetween]

/-- The frame that a search for a binding finds is the nearest one that has it. -/
theorem binder?_eq_some_iff :
    store.binder? id name = some scope ↔ store.Resolves id name scope := by
  refine ⟨?_, ?_⟩
  · intro h
    obtain ⟨hbinds, distance, -, houtward, hnearest⟩ := (find?_scopesUpTo_eq_some_iff _).mp h
    exact ⟨⟨distance, houtward, hnearest⟩, hbinds⟩
  · rintro ⟨⟨distance, houtward, hnearest⟩, hbinds⟩
    unfold binder?
    rw [← store.find?_scopesUpTo (Nat.le_add_right _ (distance + 1)), find?_scopesUpTo_eq_some_iff]
    exact ⟨hbinds, distance, by omega, houtward, hnearest⟩

/-- There is one nearest frame that binds a name. -/
theorem Resolves.unique
    {other : FrameId}
    (h : store.Resolves id name scope)
    (h' : store.Resolves id name other) :
    scope = other :=
  Option.some.inj ((binder?_eq_some_iff.mpr h).symm.trans (binder?_eq_some_iff.mpr h'))

/-- The value of a name is the one in the nearest frame that binds it. -/
theorem lookup_eq_some_iff {value : Value} :
    store.lookup id name = some value ↔
      ∃ scope, store.Resolves id name scope ∧ (store.frame scope).get? name = some value := by
  rw [lookup_eq_binder, Option.bind_eq_some_iff]
  exact exists_congr fun scope => and_congr_left fun _ => binder?_eq_some_iff

/-- A name is bound if there is a nearest frame that binds it. -/
theorem contains_iff_resolves :
    store.contains id name = true ↔ ∃ scope, store.Resolves id name scope := by
  unfold contains
  rw [Option.isSome_iff_exists]
  refine ⟨?_, ?_⟩
  · rintro ⟨value, hvalue⟩
    obtain ⟨scope, hscope, -⟩ := lookup_eq_some_iff.mp hvalue
    exact ⟨scope, hscope⟩
  · rintro ⟨scope, hscope⟩
    obtain ⟨value, hvalue⟩ := Option.isSome_iff_exists.mp hscope.2
    exact ⟨value, lookup_eq_some_iff.mpr ⟨scope, hscope, hvalue⟩⟩

theorem lookup_eq_none_iff :
    store.lookup id name = none ↔ ∀ scope, ¬store.Resolves id name scope := by
  rw [← not_exists, ← contains_iff_resolves, contains, Bool.not_eq_true, Option.isSome_eq_false_iff,
    Option.isNone_iff_eq_none]

theorem Resolves.assign_eq
    (h : store.Resolves id name scope)
    (value : Value) :
    store.assign id name value = (true, store.define scope name value) := by
  rw [Store.assign_eq, binder?_eq_some_iff.mpr h]

/-- A frame that binds a name is there. -/
theorem index_lt_of_binds (h : (store.frame scope).binds name = true) :
    scope.index < store.frames.size := by
  by_contra hscope
  have hempty : store.frame scope = ⟨none, []⟩ := by
    simp [Store.frame, Array.getD_eq_getD_getElem?, Nat.le_of_not_lt hscope]
  rw [hempty] at h
  cases h

end Searches

section Writes

variable {value : Value}

/-- Binding a name moves no frame. -/
theorem parent_define
    (store : Store)
    (scope : FrameId)
    (name : String)
    (value : Value)
    (id : FrameId) :
    ((store.define scope name value).frame id).parent = (store.frame id).parent := by
  rcases store.frame_define_cases scope id name value with hsame | ⟨rfl, hchanged⟩
  · rw [hsame]
  · rw [hchanged, Frame.parent_insert]

theorem outward_define_iff {distance : Nat} :
    (store.define scope name value).Outward observer distance id ↔ store.Outward observer distance id :=
  ⟨.of_parents fun id => (store.parent_define scope name value id).symm,
    .of_parents (store.parent_define scope name value)⟩

theorem get?_define
    (hscope : scope.index < store.frames.size)
    (id : FrameId)
    (other : String) :
    ((store.define scope name value).frame id).get? other =
      if id = scope ∧ other = name then some value else (store.frame id).get? other := by
  rw [frame_define _ _ _ _ _ hscope]
  by_cases hid : id = scope
  · subst hid
    simp [Frame.get?_insert]
  · simp [hid]

theorem binds_define
    (hscope : scope.index < store.frames.size)
    (id : FrameId)
    (other : String) :
    ((store.define scope name value).frame id).binds other =
      (decide (id = scope ∧ other = name) || (store.frame id).binds other) := by
  unfold Frame.binds
  rw [get?_define hscope]
  by_cases h : id = scope ∧ other = name <;> simp [h]

/-- Going by names that are not affected, nothing comes between an observer and a frame, and nothing goes. -/
theorem resolves_define_iff
    (hscope : scope.index < store.frames.size)
    {other : String}
    (hunaffected : ¬(other = name ∧ store.Sees observer name scope)) :
    (store.define scope name value).Resolves observer other id ↔ store.Resolves observer other id := by
  have hkept : ∀ frame : FrameId, (frame = scope → other ≠ name) →
      ((store.define scope name value).frame frame).binds other = (store.frame frame).binds other := by
    intro frame hframe
    rw [binds_define hscope, decide_eq_false (fun h => hframe h.1 h.2), Bool.false_or]
  refine ⟨?_, ?_⟩
  · rintro ⟨⟨distance, houtward, hnearest⟩, hbinds⟩
    have hsees : store.Sees observer other id := by
      refine ⟨distance, outward_define_iff.mp houtward, ?_⟩
      intro nearer between hlt hbetween
      have hfalse := hnearest nearer between hlt (outward_define_iff.mpr hbetween)
      rw [binds_define hscope] at hfalse
      exact (Bool.or_eq_false_iff.mp hfalse).2
    refine ⟨hsees, ?_⟩
    rw [← hkept id]
    · exact hbinds
    · rintro rfl rfl
      exact hunaffected ⟨rfl, hsees⟩
  · rintro ⟨⟨distance, houtward, hnearest⟩, hbinds⟩
    refine ⟨⟨distance, outward_define_iff.mpr houtward, ?_⟩, ?_⟩
    · intro nearer between hlt hbetween
      have hold := outward_define_iff.mp hbetween
      rw [hkept between]
      · exact hnearest nearer between hlt hold
      · -- The frame that is written to would be seen, as the frames before it do not bind the name.
        rintro rfl rfl
        refine hunaffected ⟨rfl, nearer, hold, ?_⟩
        exact fun before frame hbefore => hnearest before frame (Nat.lt_trans hbefore hlt)
    · rw [binds_define hscope, hbinds, Bool.or_true]

/-- A frame that is seen is seen where the line first comes to it. -/
theorem Sees.exists_first (h : store.Sees observer name scope) :
    ∃ distance, store.Outward observer distance scope ∧
      ∀ nearer between, nearer < distance → store.Outward observer nearer between →
        between ≠ scope ∧ (store.frame between).binds name = false := by
  classical
  obtain ⟨distance, houtward, hnearest⟩ := h
  have hmet : ∃ distance, store.Outward observer distance scope := ⟨distance, houtward⟩
  refine ⟨Nat.find hmet, Nat.find_spec hmet, ?_⟩
  intro nearer between hlt hbetween
  refine ⟨?_, ?_⟩
  · rintro rfl
    exact Nat.find_min hmet hlt hbetween
  · exact hnearest nearer between (Nat.lt_of_lt_of_le hlt (Nat.find_min' hmet houtward)) hbetween

/-- Those who see a frame see what is bound in it. -/
theorem Sees.lookup_define
    (h : store.Sees observer name scope)
    (hscope : scope.index < store.frames.size) :
    (store.define scope name value).lookup observer name = some value := by
  obtain ⟨distance, houtward, hfirst⟩ := h.exists_first
  rw [lookup_eq_some_iff]
  refine ⟨scope, ⟨⟨distance, outward_define_iff.mpr houtward, ?_⟩, ?_⟩, ?_⟩
  · intro nearer between hlt hbetween
    obtain ⟨hne, hfalse⟩ := hfirst nearer between hlt (outward_define_iff.mp hbetween)
    rw [binds_define hscope, hfalse, decide_eq_false fun hsame => hne hsame.1, Bool.or_false]
  · rw [binds_define hscope, decide_eq_true ⟨rfl, rfl⟩, Bool.true_or]
  · rw [get?_define hscope, if_pos ⟨rfl, rfl⟩]

/-- Those who do not see a frame see what they saw. -/
theorem lookup_define_of_unaffected
    (hscope : scope.index < store.frames.size)
    {other : String}
    (hunaffected : ¬(other = name ∧ store.Sees observer name scope)) :
    (store.define scope name value).lookup observer other = store.lookup observer other := by
  ext found
  rw [lookup_eq_some_iff, lookup_eq_some_iff]
  refine exists_congr fun id => ?_
  rw [resolves_define_iff hscope hunaffected]
  refine and_congr_right fun hresolves => ?_
  rw [get?_define hscope, if_neg]
  rintro ⟨rfl, rfl⟩
  exact hunaffected ⟨rfl, hresolves.1⟩

/-- A binding that is written is there for those who see its frame, and for no one else. -/
theorem rebinds_define
    (hscope : scope.index < store.frames.size)
    (name : String)
    (value : Value) :
    store.Rebinds (store.define scope name value) name value fun observer => store.Sees observer name scope := by
  intro observer other
  refine ⟨?_, lookup_define_of_unaffected hscope⟩
  rintro rfl hsees
  exact hsees.lookup_define hscope

/-- An assignment is there for those to whom the name means the same frame as where it was made. -/
theorem Resolves.rebinds_assign
    (h : store.Resolves id name scope)
    (value : Value) :
    store.Rebinds (store.assign id name value).2 name value fun observer => store.Resolves observer name scope := by
  rw [h.assign_eq]
  intro observer other
  obtain ⟨hseen, hunseen⟩ := rebinds_define (index_lt_of_binds h.2) name value observer other
  refine ⟨fun hother hresolves => hseen hother hresolves.1, ?_⟩
  intro hunaffected
  refine hunseen ?_
  rintro ⟨hother, hsees⟩
  exact hunaffected ⟨hother, hsees, h.2⟩

/-- Assigning moves no frame. -/
theorem parent_assign
    (store : Store)
    (id : FrameId)
    (name : String)
    (value : Value)
    (frame : FrameId) :
    ((store.assign id name value).2.frame frame).parent = (store.frame frame).parent := by
  rw [assign_eq]
  split
  · exact parent_define _ _ _ _ _
  · rfl

end Writes

end Store

/-- In a forest of frames each name means, as seen from a frame, what the nearest frame outward that binds it says,
if there is one. Looking the name up finds its value there, asking whether it is bound says whether there is such a
frame, and assigning succeeds if there is one. What is assigned is seen by those observers to whom the name means
the same frame; what is defined in a frame is seen by those on whose line the frame stands with no frame before it
that binds the name. All else looks as before to everyone, and an assignment that fails changes nothing. No frame
is moved, and the depth of a frame is the number of frames around it. -/
theorem names_mean_what_the_nearest_frame_says
    (store : Store)
    (hforest : store.Forest)
    (id : FrameId)
    (hid : id.index < store.frames.size)
    (name : String)
    (value : Value) :
    (∀ scope other, store.Resolves id name scope → store.Resolves id name other → scope = other) ∧
      (∀ found, store.lookup id name = some found ↔
        ∃ scope, store.Resolves id name scope ∧ (store.frame scope).get? name = some found) ∧
      (store.lookup id name = none ↔ ∀ scope, ¬store.Resolves id name scope) ∧
      (store.contains id name = true ↔ ∃ scope, store.Resolves id name scope) ∧
      ((store.assign id name value).1 = true ↔ ∃ scope, store.Resolves id name scope) ∧
      ((store.assign id name value).1 = false → (store.assign id name value).2 = store) ∧
      (∀ scope, store.Resolves id name scope →
        store.Rebinds (store.assign id name value).2 name value fun observer =>
          store.Resolves observer name scope) ∧
      (store.Rebinds (store.define id name value) name value fun observer => store.Sees observer name id) ∧
      (∀ frame,
        ((store.assign id name value).2.frame frame).parent = (store.frame frame).parent ∧
          ((store.define id name value).frame frame).parent = (store.frame frame).parent ∧
          ∀ made, frame.index < store.frames.size → (store.newFrame made).2.frame frame = store.frame frame) ∧
      {outer | Relation.TransGen store.Inside id outer}.encard = store.depth id := by
  have hassigned : (store.assign id name value).1 = true ↔ ∃ scope, store.Resolves id name scope := by
    rw [Store.fst_assign, Store.contains_iff_resolves]
  refine ⟨fun _ _ => Store.Resolves.unique, fun _ => Store.lookup_eq_some_iff, Store.lookup_eq_none_iff,
    Store.contains_iff_resolves, hassigned, ?_, ?_, Store.rebinds_define hid name value, ?_,
    Store.encard_outside hforest id⟩
  · intro hfails
    have hunbound : store.lookup id name = none := by
      rw [Store.fst_assign] at hfails
      exact Option.isNone_iff_eq_none.mp (Option.isSome_eq_false_iff.mp hfails)
    rw [Store.assign_of_unbound value hunbound]
  · intro scope hscope
    exact hscope.rebinds_assign value
  · intro frame
    refine ⟨store.parent_assign id name value frame, store.parent_define id name value frame, ?_⟩
    intro made hframe
    rw [Store.frame_newFrame, if_neg (Nat.ne_of_lt hframe)]

/-- Two frames around each other, the inner one with an `x` of its own, and an empty frame inside each. -/
def shadowStore : Store where
  pairs := #[]
  closures := #[]
  frames :=
    #[⟨none, [("x", .int 1), ("y", .int 2)]⟩, ⟨some ⟨0⟩, [("x", .int 3)]⟩, ⟨some ⟨1⟩, []⟩, ⟨some ⟨0⟩, []⟩]

theorem shadowStore_forest : shadowStore.Forest := by
  refine Store.forest_of_index_lt ?_
  rintro ⟨inner⟩ ⟨outer⟩ hinside
  have hinner : inner < 4 := shadowStore.index_lt_of_parent hinside
  unfold Store.Inside at hinside
  interval_cases inner <;> cases hinside <;> decide

/-- Two frames inside, `x` means the inner binding, and in the frame beside them the outer one. An assignment is
seen where `x` means the same, and a definition in the outermost frame only where nothing hides it. -/
theorem names_mean_what_the_nearest_frame_says_when_hidden :
    shadowStore.Forest ∧
      (shadowStore.assign ⟨2⟩ "x" (.int 5)).2.lookup ⟨1⟩ "x" = some (.int 5) ∧
      (shadowStore.assign ⟨2⟩ "x" (.int 5)).2.lookup ⟨3⟩ "x" = some (.int 1) ∧
      (shadowStore.define ⟨0⟩ "x" (.int 6)).lookup ⟨2⟩ "x" = some (.int 3) ∧
      (shadowStore.define ⟨0⟩ "x" (.int 6)).lookup ⟨3⟩ "x" = some (.int 6) := by
  have hinner : shadowStore.Resolves ⟨2⟩ "x" ⟨1⟩ := Store.binder?_eq_some_iff.mp rfl
  have hsame : shadowStore.Resolves ⟨1⟩ "x" ⟨1⟩ := Store.binder?_eq_some_iff.mp rfl
  have houter : shadowStore.Resolves ⟨3⟩ "x" ⟨0⟩ := Store.binder?_eq_some_iff.mp rfl
  obtain ⟨-, -, -, -, -, -, hassign, -, -, -⟩ :=
    names_mean_what_the_nearest_frame_says shadowStore shadowStore_forest ⟨2⟩ (by decide) "x" (.int 5)
  obtain ⟨-, -, -, -, -, -, -, hdefine, -, -⟩ :=
    names_mean_what_the_nearest_frame_says shadowStore shadowStore_forest ⟨0⟩ (by decide) "x" (.int 6)
  refine ⟨shadowStore_forest, (hassign ⟨1⟩ hinner ⟨1⟩ "x").1 rfl hsame, ?_, ?_,
    (hdefine ⟨3⟩ "x").1 rfl houter.1⟩
  · refine ((hassign ⟨1⟩ hinner ⟨3⟩ "x").2 ?_).trans rfl
    rintro ⟨-, hresolves⟩
    cases houter.unique hresolves
  · refine ((hdefine ⟨2⟩ "x").2 ?_).trans rfl
    rintro ⟨-, hsees⟩
    cases hinner.unique ⟨hsees, rfl⟩

end SmallLisp
