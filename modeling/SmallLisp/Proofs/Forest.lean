import SmallLisp.Proofs.Bounds
import SmallLisp.Proofs.Operands
import SmallLisp.Proofs.Presence
import SmallLisp.Proofs.Symbols

/-!
# The forest of frames

Frames stand inside other frames, and no frame stands inside itself. Code that runs in a frame keeps it so.
All that it does to the frames that are there is to bind names in the frame in which it runs and to give new
values to names that are bound; the frames that it makes stand inside frames that were there before.

* `Store.Forest` says that lines of frames do not run in a circle, and `Store.Forest.lineEnds` that they end;
* `Store.GrowsAt` lists what code that runs in a frame does to the frames of a store;
* `Changes.growsAt`: this is what code does that has got hold of all there is;
* `frames_grow_where_code_runs` is the main result.
-/

namespace SmallLisp

namespace Store

/-- A frame stands inside another one. -/
def Inside (store : Store) (inner outer : FrameId) : Prop :=
  (store.frame inner).parent = some outer

/-- No frame stands inside itself, at any distance. -/
def Forest (store : Store) : Prop :=
  ∀ id, ¬Relation.TransGen store.Inside id id

variable {store : Store}

theorem inside_of_mem_scopesUpTo
    {bound : Nat}
    {id parent scope : FrameId}
    (hparent : store.Inside id parent)
    (hscope : scope ∈ store.scopesUpTo bound parent) :
    Relation.TransGen store.Inside id scope := by
  induction bound generalizing id parent with
  | zero => cases hscope
  | succ bound ih =>
      cases hnext : (store.frame parent).parent with
      | none =>
          rw [store.scopesUpTo_of_outermost hnext] at hscope
          rw [List.mem_singleton.mp hscope]
          exact .single hparent
      | some next =>
          rw [store.scopesUpTo_of_parent hnext] at hscope
          rcases List.mem_cons.mp hscope with rfl | hscope
          · exact .single hparent
          · exact .head hparent (ih hnext hscope)

/-- Without a circle a line passes no frame twice. -/
theorem Forest.nodup_scopesUpTo
    (h : store.Forest)
    (bound : Nat)
    (id : FrameId) :
    (store.scopesUpTo bound id).Nodup := by
  induction bound generalizing id with
  | zero => exact List.nodup_nil
  | succ bound ih =>
      cases hparent : (store.frame id).parent with
      | none =>
          rw [store.scopesUpTo_of_outermost hparent]
          exact List.nodup_singleton id
      | some parent =>
          rw [store.scopesUpTo_of_parent hparent, List.nodup_cons]
          exact ⟨fun hmem => h id (inside_of_mem_scopesUpTo hparent hmem), ih parent⟩

/-- Without a circle every line ends. -/
theorem Forest.lineEnds
    (h : store.Forest)
    (id : FrameId) :
    store.LineEnds id := by
  by_contra hends
  have hall : ∀ scope ∈ store.scopes id, (store.frame scope).parent ≠ none :=
    fun scope hscope houtermost => hends ⟨scope, hscope, houtermost⟩
  have hlength := store.length_scopesUpTo_of_circle hall
  have hin : ∀ scope ∈ store.scopes id, scope.index < store.frames.size := by
    intro scope hscope
    obtain ⟨parent, hparent⟩ := Option.ne_none_iff_exists'.mp (hall scope hscope)
    exact store.index_lt_of_parent hparent
  have hle : (store.scopes id).length ≤ store.frames.size :=
    length_le_of_nodup FrameId.index_injective (h.nodup_scopesUpTo _ id) hin
  unfold scopes at hle
  omega

/-- The names that are bound as seen from a frame are bound in its line. -/
theorem contains_iff
    {id : FrameId}
    {name : String} :
    store.contains id name = true ↔
      ∃ scope ∈ store.scopes id, (store.frame scope).binds name = true := by
  unfold contains Frame.binds
  rw [lookup_eq_findSome?, List.isSome_findSome?]
  exact List.any_eq_true

/-- What happens to the frames of a store while code runs in the frame `home`. -/
structure GrowsAt (older newer : Store) (home : FrameId) : Prop where
  size : older.frames.size ≤ newer.frames.size
  parent : ∀ id, id.index < older.frames.size →
    (newer.frame id).parent = (older.frame id).parent
  depth : ∀ id, id.index < older.frames.size → newer.depth id = older.depth id
  binds : ∀ id name, id.index < older.frames.size → id ≠ home →
    (newer.frame id).binds name = (older.frame id).binds name
  binds_home : ∀ name,
    (older.frame home).binds name = true → (newer.frame home).binds name = true
  /-- A new frame stands inside one that was there when it was made. -/
  parent_new : ∀ id, older.frames.size ≤ id.index → id.index < newer.frames.size →
    ∃ parent, (newer.frame id).parent = some parent ∧ parent.index < id.index
  forest : newer.Forest
  /-- Searching outward from a frame comes to an end. -/
  lineEnds : ∀ id, newer.LineEnds id
  contains : ∀ id name, id.index < older.frames.size →
    older.contains id name = true → newer.contains id name = true

end Store

section Change

variable {given : Primitive → Bool} {w w' : World given} {id : FrameId}

/-- A change moves no frame. -/
theorem Change.parent_eq
    (h : Change w w')
    (hid : id.index < w.store.frames.size) :
    (w'.store.frame id).parent = (w.store.frame id).parent := by
  cases h with
  | newFrame =>
      exact congrArg Frame.parent ((Store.frame_newFrame _ _ id).trans (if_neg (Nat.ne_of_lt hid)))
  | @define changed name value | @assign changed name value | @fill changed name value =>
      rcases w.store.frame_define_cases changed id name value with hsame | ⟨rfl, hchanged⟩
      · exact congrArg Frame.parent hsame
      · exact (congrArg Frame.parent hchanged).trans (Frame.parent_insert _ _ _)
  | _ => rfl

/-- A change unbinds no name. -/
theorem Change.binds_of_binds
    (h : Change w w')
    (hid : id.index < w.store.frames.size)
    {name : String}
    (hbinds : (w.store.frame id).binds name = true) :
    (w'.store.frame id).binds name = true := by
  cases h with
  | newFrame =>
      exact (congrArg (Frame.binds · name)
        ((Store.frame_newFrame _ _ id).trans (if_neg (Nat.ne_of_lt hid)))).trans hbinds
  | @define changed bound value | @assign changed bound value | @fill changed bound value =>
      rcases w.store.frame_define_cases changed id bound value with hsame | ⟨rfl, hchanged⟩
      · exact (congrArg (Frame.binds · name) hsame).trans hbinds
      · refine (congrArg (Frame.binds · name) hchanged).trans ?_
        rw [Frame.binds_insert, hbinds, Bool.or_true]
  | _ => exact hbinds

/-- A change binds new names only where code may bind names. -/
theorem Change.binds_eq
    (h : Change w w')
    (hid : id.index < w.store.frames.size)
    (hhome : id ∉ w.homes)
    (name : String) :
    (w'.store.frame id).binds name = (w.store.frame id).binds name := by
  cases h with
  | newFrame =>
      exact congrArg (Frame.binds · name)
        ((Store.frame_newFrame _ _ id).trans (if_neg (Nat.ne_of_lt hid)))
  | @define changed bound value _ hchanged =>
      rcases w.store.frame_define_cases changed id bound value with hsame | ⟨rfl, -⟩
      · exact congrArg (Frame.binds · name) hsame
      · exact (hhome hchanged).elim
  | @assign changed bound value _ _ hbinds =>
      rcases w.store.frame_define_cases changed id bound value with hsame | ⟨rfl, hchanged⟩
      · exact congrArg (Frame.binds · name) hsame
      · refine (congrArg (Frame.binds · name) hchanged).trans ?_
        rw [Frame.binds_insert]
        by_cases hname : name = bound
        · rw [hname, hbinds, Bool.or_true]
        · simp [hname]
  | @fill changed bound value _ hchanged =>
      rcases w.store.frame_define_cases changed id bound value with hsame | ⟨rfl, -⟩
      · exact congrArg (Frame.binds · name) hsame
      · exact (hhome hchanged).elim
  | _ => rfl

theorem Change.home_or_new
    (h : Change w w')
    (hid : id ∈ w'.homes) :
    id ∈ w.homes ∨ w.store.frames.size ≤ id.index := by
  cases h with
  | newPair | newClosure => exact .inl (hid.resolve_right nofun)
  | newFrame =>
      rcases hid with hid | hmade
      · exact .inl hid
      · cases hmade
        exact .inr (Nat.le_refl _)
  | _ => exact .inl hid

/-- A frame that is made stands inside one that is there. -/
theorem Change.parent_new
    (h : Change w w')
    (hw : w.Present)
    (hmade : (Item.frame id).Made w.store w'.store) :
    ∃ parent, (w'.store.frame id).parent = some parent ∧ parent.index < id.index := by
  have hheld := h.holds_made hmade
  cases h with
  | newFrame hinside hparent =>
      obtain ⟨parent, hparentOf⟩ := hinside
      cases Item.eq_of_made_newFrame hmade
      refine ⟨parent, ?_, hw _ (hparent parent hparentOf)⟩
      exact (congrArg Frame.parent ((Store.frame_newFrame _ _ _).trans (if_pos rfl))).trans hparentOf
  | newPair => cases Item.eq_of_made_newPair hmade
  | newClosure => cases Item.eq_of_made_newClosure hmade
  | _ => exact (hmade.not_presentIn (hw _ hheld)).elim

end Change

namespace Changes

section

variable {given : Primitive → Bool} {w w' : World given} {id : FrameId}

theorem parent_eq
    (h : Changes w w')
    (hid : id.index < w.store.frames.size) :
    (w'.store.frame id).parent = (w.store.frame id).parent := by
  induction h with
  | refl => rfl
  | tail hfirst hlast ih =>
      rw [← ih]
      exact hlast.parent_eq (Nat.lt_of_lt_of_le hid (grows hfirst).frames)

theorem binds_of_binds
    (h : Changes w w')
    (hid : id.index < w.store.frames.size)
    {name : String}
    (hbinds : (w.store.frame id).binds name = true) :
    (w'.store.frame id).binds name = true := by
  induction h with
  | refl => exact hbinds
  | tail hfirst hlast ih =>
      exact hlast.binds_of_binds (Nat.lt_of_lt_of_le hid (grows hfirst).frames) ih

theorem home_or_new
    (h : Changes w w')
    (hid : id ∈ w'.homes) :
    id ∈ w.homes ∨ w.store.frames.size ≤ id.index := by
  induction h with
  | refl => exact .inl hid
  | tail hfirst hlast ih =>
      rcases hlast.home_or_new hid with hid | hnew
      · exact ih hid
      · exact .inr (Nat.le_trans (grows hfirst).frames hnew)

theorem binds_eq
    (h : Changes w w')
    (hid : id.index < w.store.frames.size)
    (hhome : id ∉ w.homes)
    (name : String) :
    (w'.store.frame id).binds name = (w.store.frame id).binds name := by
  induction h with
  | refl => rfl
  | tail hfirst hlast ih =>
      rw [← ih]
      refine hlast.binds_eq (Nat.lt_of_lt_of_le hid (grows hfirst).frames) ?_ name
      intro hmiddle
      rcases home_or_new hfirst hmiddle with hid' | hnew
      · exact hhome hid'
      · exact Nat.not_lt_of_le hnew hid

theorem parent_new
    (h : Changes w w')
    (hw : w.Present)
    (hmade : (Item.frame id).Made w.store w'.store) :
    ∃ parent, (w'.store.frame id).parent = some parent ∧ parent.index < id.index := by
  induction h with
  | refl => exact (Item.not_made_of_grows (.refl _) hmade).elim
  | @tail middle _ hfirst hlast ih =>
      rcases hmade.presentIn.older_or_made middle.store with hpresent | hmade'
      · obtain ⟨parent, hparent, hlt⟩ := ih ⟨hmade.1, hpresent⟩
        exact ⟨parent, (hlast.parent_eq hpresent).trans hparent, hlt⟩
      · exact hlast.parent_new (present hfirst hw) hmade'

/-- The line of a frame that code has got hold of stays the same. -/
theorem scopesUpTo_eq
    (h : Changes w w')
    (hw : w.Present)
    (hid : .frame id ∈ w.items)
    (bound : Nat) :
    w'.store.scopesUpTo bound id = w.store.scopesUpTo bound id := by
  induction bound generalizing id with
  | zero => rfl
  | succ bound ih =>
      have hsame : (w'.store.frame id).parent = (w.store.frame id).parent := h.parent_eq (hw _ hid)
      cases hparent : (w.store.frame id).parent with
      | none =>
          rw [w.store.scopesUpTo_of_outermost hparent,
            w'.store.scopesUpTo_of_outermost (hsame.trans hparent)]
      | some parent =>
          rw [w.store.scopesUpTo_of_parent hparent,
            w'.store.scopesUpTo_of_parent (hsame.trans hparent), ih (w.closed hid (.parent hparent))]

theorem scopes_eq
    (h : Changes w w')
    (hw : w.Present)
    (hid : .frame id ∈ w.items)
    (hline : w.store.LineEnds id) :
    w'.store.scopes id = w.store.scopes id := by
  rw [← hline.scopesUpTo_eq (Nat.succ_le_succ h.grows.frames)]
  exact h.scopesUpTo_eq hw hid _

theorem lineEnds
    (h : Changes w w')
    (hw : w.Present)
    (hid : .frame id ∈ w.items)
    (hline : w.store.LineEnds id) :
    w'.store.LineEnds id := by
  have hsame := h.scopes_eq hw hid hline
  obtain ⟨scope, hscope, houtermost⟩ := hline
  have hheld : .frame scope ∈ w.items := World.frame_mem_of_mem_scopesUpTo hid hscope
  exact ⟨scope, hsame ▸ hscope, (h.parent_eq (hw _ hheld)).trans houtermost⟩

end

section Everything

variable
  {store : Store}
  {hsound : store.Sound}
  {frame : FrameId}
  {hframe : frame.index < store.frames.size}
  {w : World fun _ => true}

/-- Going outward leads to a frame that was there, or to one that was made earlier. -/
theorem outward_or_older
    (h : Changes (World.everything store hsound hframe) w)
    {inner outer : FrameId}
    (hinside : Relation.TransGen w.store.Inside inner outer) :
    outer.index < store.frames.size ∧
        (inner.index < store.frames.size → Relation.TransGen store.Inside inner outer) ∨
      store.frames.size ≤ outer.index ∧ outer.index < inner.index := by
  have hstep : ∀ {one other : FrameId}, w.store.Inside one other →
      other.index < store.frames.size ∧
          (one.index < store.frames.size → store.Inside one other) ∨
        store.frames.size ≤ other.index ∧ other.index < one.index := by
    intro one other hparent
    rcases Nat.lt_or_ge one.index store.frames.size with hold | hnew
    · have hsame : (w.store.frame one).parent = (store.frame one).parent := h.parent_eq hold
      have hparent' : store.Inside one other := hsame.symm.trans hparent
      exact .inl ⟨hsound.parent hold hparent', fun _ => hparent'⟩
    · obtain ⟨parent, hmade, hlt⟩ :=
        h.parent_new (fun _ hitem => hitem) ⟨hnew, w.store.index_lt_of_parent hparent⟩
      obtain rfl : parent = other := Option.some.inj (hmade.symm.trans hparent)
      rcases Nat.lt_or_ge parent.index store.frames.size with hpresent | hnewParent
      · exact .inl ⟨hpresent, fun hold => (Nat.not_lt_of_le hnew hold).elim⟩
      · exact .inr ⟨hnewParent, hlt⟩
  induction hinside with
  | single hparent => exact (hstep hparent).imp_left fun hold => ⟨hold.1, fun hi => .single (hold.2 hi)⟩
  | tail _ hparent ih =>
      rcases hstep hparent with ⟨hold, hlast⟩ | ⟨hnew, hlt⟩
      · refine .inl ⟨hold, fun hinner => ?_⟩
        rcases ih with ⟨hmiddle, hfirst⟩ | ⟨hmiddle, hmiddleLt⟩
        · exact .tail (hfirst hinner) (hlast hmiddle)
        · omega
      · rcases ih with ⟨hmiddle, -⟩ | ⟨-, hmiddleLt⟩
        · omega
        · exact .inr ⟨hnew, Nat.lt_trans hlt hmiddleLt⟩

theorem forest
    (h : Changes (World.everything store hsound hframe) w)
    (hforest : store.Forest) :
    w.store.Forest := by
  intro id hcircle
  rcases h.outward_or_older hcircle with ⟨hold, hinside⟩ | ⟨-, hlt⟩
  · exact hforest id (hinside hold)
  · exact Nat.lt_irrefl _ hlt

/-- A name that is bound as seen from a frame stays so. -/
theorem contains
    (h : Changes (World.everything store hsound hframe) w)
    (hforest : store.Forest)
    {id : FrameId}
    {name : String}
    (hid : id.index < store.frames.size)
    (hcontains : store.contains id name = true) :
    w.store.contains id name = true := by
  obtain ⟨scope, hscope, hbinds⟩ := Store.contains_iff.mp hcontains
  have hpresent : scope.index < store.frames.size :=
    World.frame_mem_of_mem_scopesUpTo (w := World.everything store hsound hframe) hid hscope
  refine Store.contains_iff.mpr ⟨scope, ?_, h.binds_of_binds hpresent hbinds⟩
  rwa [h.scopes_eq (fun _ hitem => hitem) hid (hforest.lineEnds id)]

/-- What code does to the frames of a store that has got hold of all there is. -/
theorem growsAt
    (h : Changes (World.everything store hsound hframe) w)
    (hforest : store.Forest) :
    store.GrowsAt w.store frame where
  size := h.grows.frames
  parent _ hid := h.parent_eq hid
  depth id hid := by
    have hsame : w.store.scopes id = store.scopes id :=
      h.scopes_eq (fun _ hitem => hitem) hid (hforest.lineEnds id)
    rw [Store.depth_eq, Store.depth_eq, hsame]
  binds _ name hid hhome := h.binds_eq hid hhome name
  binds_home _ hbinds := h.binds_of_binds hframe hbinds
  parent_new _ hnew hpresent := h.parent_new (fun _ hitem => hitem) ⟨hnew, hpresent⟩
  forest := h.forest hforest
  lineEnds := (h.forest hforest).lineEnds
  contains _ _ hid hcontains := h.contains hforest hid hcontains

end Everything

end Changes

/-- Making the frame of a call and binding the operands in it are changes that the caller may make. -/
theorem exists_changes_bindInTurn
    {store started : Store}
    {frame captured : FrameId}
    (hsound : store.Sound)
    (hframe : frame.index < store.frames.size)
    (fuel : Nat)
    {parameters : List String}
    {operands : List Value}
    (hcaptured : captured.index < store.frames.size)
    (hoperands : ∀ operand ∈ operands, store.Holds operand)
    {result : Except Halt Unit}
    (hbound : outcome (bindInTurn (eval fuel) frame ⟨store.frames.size⟩ (parameters.zip operands))
        (store.newFrame ⟨some captured, []⟩).2 = (result, started)) :
    ∃ w, Changes (World.everything store hsound hframe) w ∧
      started = w.store ∧
      store.frames.size < started.frames.size := by
  let w := World.everything store hsound hframe
  have hitem : (Item.frame captured) ∈ w.items := hcaptured
  obtain ⟨w₁, h₁, hstore₁, hcall, hscope⟩ := within_newFrame hitem
  change (store.newFrame ⟨some captured, []⟩).2 = w₁.store at hstore₁
  change (⟨store.frames.size⟩ : FrameId) ∈ w₁.calls at hcall
  have hentries : ∀ entry ∈ parameters.zip operands, w₁.Has entry.2 :=
    fun entry hentry => h₁.has (hoperands _ (List.of_mem_zip hentry).2)
  obtain ⟨w₂, h₂, hstore₂, -⟩ :=
    within_bindInTurn (eval_confined fuel) (h₁.homes_subset (Set.mem_singleton frame)) hcall hscope hentries
  rw [← hstore₁, hbound] at hstore₂
  change started = w₂.store at hstore₂
  refine ⟨w₂, h₁.trans h₂, hstore₂, ?_⟩
  have hsize : store.frames.size + 1 = w₁.store.frames.size := by
    rw [← hstore₁]
    exact (Array.size_push _).symm
  have hgrows := h₂.grows.frames
  rw [hstore₂]
  omega

section Evaluation

variable
  {store : Store}
  {frame : FrameId}
  (hsound : store.Sound)
  (hforest : store.Forest)
  (hframe : frame.index < store.frames.size)
include hsound hforest hframe

theorem growsAt_of_within
    {α : Type}
    {run : EvalM α}
    {post : World (fun _ => true) → α → Prop}
    (h : Within run (World.everything store hsound hframe) post) :
    store.GrowsAt (outcome run store).2 frame ∧ (outcome run store).2.Sound := by
  obtain ⟨w, hchanges, hstore, -⟩ := h
  change (outcome run store).2 = w.store at hstore
  rw [hstore]
  exact ⟨hchanges.growsAt hforest, hchanges.sound⟩

theorem growsAt_eval
    (fuel : Nat)
    {expression : Value}
    (hexpression : store.Holds expression) :
    store.GrowsAt (outcome (eval fuel expression frame) store).2 frame :=
  (growsAt_of_within hsound hforest hframe
    (eval_confined fuel hexpression (Set.mem_singleton frame))).1

theorem growsAt_apply
    (fuel : Nat)
    {procedure : Value}
    {operands : List Value}
    (hprocedure : store.Holds procedure)
    (hoperands : ∀ operand ∈ operands, store.Holds operand) :
    store.GrowsAt (outcome (apply fuel procedure operands frame) store).2 frame := by
  rw [apply_eq_applyGiven]
  exact (growsAt_of_within hsound hforest hframe
    (within_applyGiven (eval_confined fuel) hprocedure (Set.mem_singleton frame) hoperands)).1

/-- The body of a procedure binds names in the frame of the call only: once the operands are bound, every other
frame keeps the names that it binds. -/
theorem binds_apply_closure
    (fuel : Nat)
    {id : ClosureId}
    {operands : List Value}
    {started : Store}
    (hclosure : store.Holds (.closure id))
    (hoperands : ∀ operand ∈ operands, store.Holds operand)
    (hcount : operands.length = (store.closure id).parameters.length)
    (hbound : outcome
        (bindInTurn (eval fuel) frame ⟨store.frames.size⟩ ((store.closure id).parameters.zip operands))
        (store.newFrame ⟨some (store.closure id).frame, []⟩).2 = (.ok (), started))
    {scope : FrameId}
    (hscope : scope.index < started.frames.size)
    (hother : scope ≠ ⟨store.frames.size⟩)
    (name : String) :
    ((outcome (apply fuel (.closure id) operands frame) store).2.frame scope).binds name =
      (started.frame scope).binds name := by
  have hpresent : (Item.closure id).PresentIn store := hclosure _ rfl
  obtain ⟨w, hchanges, hstore, hcall⟩ :=
    exists_changes_bindInTurn hsound hframe fuel (hsound hpresent (.captured id)) hoperands hbound
  have hgrows : store.Grows started := hstore ▸ hchanges.grows
  have hbody : ∀ expression ∈ (store.closure id).body, started.Holds expression :=
    fun expression hexpression item hitem => (hsound hpresent (.body hexpression hitem)).mono hgrows
  have hgrowsAt := (growsAt_of_within (hstore ▸ hchanges.sound) (hstore ▸ hchanges.forest hforest) hcall
    (within_evalBody (eval_confined fuel) (Set.mem_singleton _) World.has_nil hbody)).1
  rw [apply, outcome_apply_closure, Closure.outcome_apply hcount, outcome_bind_ok hbound]
  exact hgrowsAt.binds scope name hscope hother

end Evaluation

namespace Session

/-- A sound store whose frames stand in no circle, and a root frame in it. -/
structure WellFormed (session : Session) : Prop where
  sound : session.store.Sound
  forest : session.store.Forest
  root : session.root.index < session.store.frames.size

theorem start_wellFormed : start.WellFormed where
  sound := by
    intro item next hitem hlink
    cases hlink with
    | first h => cases h
    | second h => cases h
    | body hbody h => cases hbody
    | captured id => exact (Nat.not_lt_zero _ hitem).elim
    | @parent id _ h =>
        obtain ⟨index⟩ := id
        cases index <;> cases h
    | @bound id name value _ hbound h =>
        obtain ⟨index⟩ := id
        cases index with
        | zero =>
            obtain ⟨p, rfl⟩ := Frame.exists_primitive_of_get? hbound
            cases h
            trivial
        | succ index => cases hbound
  forest := by
    intro id hcircle
    obtain ⟨index⟩ := id
    obtain ⟨outer, hinside, -⟩ := Relation.TransGen.head'_iff.mp hcircle
    cases index <;> cases hinside
  root := Nat.zero_lt_one

/-- Evaluating a form makes only changes that code may make that has got hold of all there is. -/
theorem WellFormed.exists_changes
    {session : Session}
    (h : session.WellFormed)
    (fuel : Nat)
    (form : Datum) :
    ∃ w, Changes (World.everything session.store h.sound h.root) w ∧
      (session.valueOf fuel form).2 = w.store ∧
      (∀ value, (session.valueOf fuel form).1 = .ok value → w.Has value) ∧
      ∀ halt, (session.valueOf fuel form).1 = .error halt → w.Allows halt :=
  exists_changes_valueOf (w := World.everything session.store h.sound h.root) rfl
    (Set.mem_singleton session.root) (fun _ _ => trivial) fuel

/-- Evaluating a form grows the forest where the root frame is. -/
theorem WellFormed.evaluateForm
    {session : Session}
    (h : session.WellFormed)
    (fuel : Nat)
    (form : Datum) :
    (session.evaluateForm fuel form).2.WellFormed ∧
      session.store.GrowsAt (session.evaluateForm fuel form).2.store session.root := by
  obtain ⟨w, hchanges, hstore, -⟩ := h.exists_changes fuel form
  rw [evaluateForm_eq, hstore]
  refine ⟨⟨hchanges.sound, hchanges.forest h.forest, ?_⟩, hchanges.growsAt h.forest⟩
  exact Nat.lt_of_lt_of_le h.root hchanges.grows.frames

theorem Reachable.wellFormed
    {session : Session}
    (h : session.Reachable) :
    session.WellFormed :=
  h.induct start_wellFormed fun _ fuel _ form _ hwellFormed => (hwellFormed.evaluateForm fuel form).1

/-- In a session a name that is bound as seen from a frame stays so. -/
theorem Leads.contains
    {session later : Session}
    (hleads : session.Leads later)
    (h : session.WellFormed)
    {id : FrameId}
    {name : String}
    (hid : id.index < session.store.frames.size)
    (hcontains : session.store.contains id name = true) :
    later.store.contains id name = true := by
  let Kept := fun state : Session =>
    state.WellFormed ∧ id.index < state.store.frames.size ∧ state.store.contains id name = true
  have hkept : Kept later := by
    refine hleads.keeps (P := Kept) ?_ ⟨h, hid, hcontains⟩
    rintro state fuel text form - ⟨hstate, hstateId, hstateContains⟩
    obtain ⟨hafter, hgrows⟩ := hstate.evaluateForm fuel form
    exact ⟨hafter, Nat.lt_of_lt_of_le hstateId hgrows.size, hgrows.contains id name hstateId hstateContains⟩
  exact hkept.2.2

end Session

/-- Code that runs in a frame moves no frame, makes new frames inside older ones only, and binds new names in
its own frame only; no name is ever unbound. So lines of frames go on to end, and frames keep their depth.
This holds of an expression and of a procedure that is applied, with any fuel and however they end. The body
of a procedure binds new names in the frame of the call only, so never in the root frame: of the frames that are
there when the operands have been bound, every other one keeps the names that it binds. The store of a session is
always such a store, and names that are bound as seen from a frame stay so for the rest of it. -/
theorem frames_grow_where_code_runs :
    (∀ {store : Store} {frame : FrameId},
      store.Sound → store.Forest → frame.index < store.frames.size →
      (∀ fuel expression,
        store.Holds expression →
        store.GrowsAt (outcome (eval fuel expression frame) store).2 frame) ∧
      (∀ fuel procedure operands,
        store.Holds procedure →
        (∀ operand ∈ operands, store.Holds operand) →
        store.GrowsAt (outcome (apply fuel procedure operands frame) store).2 frame) ∧
      ∀ fuel id operands started,
        store.Holds (.closure id) →
        (∀ operand ∈ operands, store.Holds operand) →
        operands.length = (store.closure id).parameters.length →
        outcome (bindInTurn (eval fuel) frame ⟨store.frames.size⟩ ((store.closure id).parameters.zip operands))
            (store.newFrame ⟨some (store.closure id).frame, []⟩).2 = (.ok (), started) →
        ∀ scope name, scope.index < started.frames.size → scope ≠ ⟨store.frames.size⟩ →
          ((outcome (apply fuel (.closure id) operands frame) store).2.frame scope).binds name =
            (started.frame scope).binds name) ∧
    ∀ session : Session,
      session.Reachable →
      session.WellFormed ∧
      ∀ later id name,
        session.Leads later →
        id.index < session.store.frames.size →
        session.store.contains id name = true →
        later.store.contains id name = true := by
  refine ⟨?_, ?_⟩
  · intro store frame hsound hforest hframe
    refine ⟨?_, ?_, ?_⟩
    · intro fuel expression hexpression
      exact growsAt_eval hsound hforest hframe fuel hexpression
    · intro fuel procedure operands hprocedure hoperands
      exact growsAt_apply hsound hforest hframe fuel hprocedure hoperands
    · intro fuel id operands started hclosure hoperands hcount hbound scope name hscope hother
      exact binds_apply_closure hsound hforest hframe fuel hclosure hoperands hcount hbound hscope hother name
  · intro session hreachable
    refine ⟨hreachable.wellFormed, ?_⟩
    intro later id name hleads hid hcontains
    exact hleads.contains hreachable.wellFormed hid hcontains

/-- After `(define (f) (define y 1))`, the body of `f` binds `y` in the frame in which it is evaluated: in the
root frame as such, and in the frame of the call when `f` is called. -/
theorem frames_grow_where_code_runs_at_a_definition :
    let session := (Session.start.evaluate 3 "(define (f) (define y 1))").2
    let inRoot := (outcome (eval 2 (.pair ⟨3⟩) session.root) session.store).2
    let called := (outcome (apply 3 (.closure ⟨0⟩) [] session.root) session.store).2
    (session.store.closure ⟨0⟩).body = [.pair ⟨3⟩] ∧
      session.store.GrowsAt inRoot session.root ∧
      (inRoot.frame session.root).binds "y" = true ∧
      session.store.GrowsAt called session.root ∧
      (called.frame ⟨1⟩).binds "y" = true ∧
      (called.frame session.root).binds "y" = (session.store.frame session.root).binds "y" ∧
      (session.evaluate 4 "(f)").2.store.contains session.root "f" = true := by
  intro session inRoot called
  have hreachable : session.Reachable := .evaluate .start 3 "(define (f) (define y 1))"
  obtain ⟨hwellFormed, hlater⟩ := frames_grow_where_code_runs.2 session hreachable
  obtain ⟨heval, happly, hcall⟩ :=
    frames_grow_where_code_runs.1 hwellFormed.sound hwellFormed.forest hwellFormed.root
  have hbody : session.store.Holds (.pair ⟨3⟩) := by
    rintro _ ⟨⟩
    show 3 < session.store.pairs.size
    decide +kernel
  have hclosure : session.store.Holds (.closure ⟨0⟩) := by
    rintro _ ⟨⟩
    show 0 < session.store.closures.size
    decide +kernel
  refine ⟨by decide +kernel, heval 2 _ hbody, by decide +kernel, happly 3 _ [] hclosure nofun,
    by decide +kernel, ?_, ?_⟩
  · let made := (session.store.newFrame ⟨some (session.store.closure ⟨0⟩).frame, []⟩).2
    have hrun := hcall 3 ⟨0⟩ [] made hclosure nofun (by decide +kernel) (by rw [List.zip_nil_right]; rfl)
      session.root "y" (by decide +kernel) (by decide +kernel)
    exact hrun.trans (by decide +kernel)
  · exact hlater _ session.root "f" (.single (.evaluate session 4 "(f)")) hwellFormed.root
      (by decide +kernel)

end SmallLisp
