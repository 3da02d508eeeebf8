import ScopeFlow.Proofs.Tracing

/-!
# Binding agrees with its trace

Binding a module and the traced run of it end in the same way and in the same workspace, and the trace tells a story of each
module (`Traced.bindWithin_agrees`). The induction is on the depth. What carries it is that a module which is being bound
further out stays as it is while others are bound (`Traced.Later`), and that each module whose binding begins is one of
finitely many candidates, so that the depth never runs out.
-/

namespace ScopeFlow.Traced

variable {α β : Type} {strict : Prop} {w₀ : Workspace} {t t' t'' : Traced} {i j : Nat} {w : Workspace} {tree : Module}
  {path : String} {name : String} {f : WorkM α}

/-! ## Steps and traced steps -/

section

variable {Q Q' : α → Traced → Prop} {R : β → Traced → Prop} {E E' : Traced → Prop}

/-- A step and a traced step end in the same way and in the same workspace. -/
inductive Joins (Q : α → Traced → Prop) (E : Traced → Prop) :
    EStateM.Result Fault Workspace α → EStateM.Result Fault Traced α → Prop where
  | ok {a : α} {t : Traced} : Q a t → Joins Q E (.ok a t.workspace) (.ok a t)
  | error {fault : Fault} {t : Traced} : E t → Joins Q E (.error fault t.workspace) (.error fault t)

namespace Joins

theorem imp {x : EStateM.Result Fault Workspace α} {y : EStateM.Result Fault Traced α} (h : Joins Q E x y)
    (hq : ∀ a t, Q a t → Q' a t) (he : ∀ t, E t → E' t) : Joins Q' E' x y := by
  cases h with
  | ok ha => exact .ok (hq _ _ ha)
  | error ht => exact .error (he _ ht)

theorem bind {g : α → WorkM β} {f' : TraceM α} {g' : α → TraceM β} (hf : Joins Q E (f.run t.workspace) (f'.run t))
    (he : ∀ t, E t → E' t) (hg : ∀ a t', Q a t' → Joins R E' ((g a).run t'.workspace) ((g' a).run t')) :
    Joins R E' ((f >>= g).run t.workspace) ((f' >>= g').run t) := by
  show Joins R E' (EStateM.bind f g t.workspace) (EStateM.bind f' g' t)
  change Joins Q E (f t.workspace) (f' t) at hf
  unfold EStateM.bind
  cases hx : f t.workspace <;> cases hy : f' t <;> rw [hx, hy] at hf <;> cases hf
  case ok.ok.ok ha => exact hg _ _ ha
  case error.error.error ht => exact .error (he _ ht)

theorem tryCatch {g : Fault → WorkM α} {f' : TraceM α} {g' : Fault → TraceM α}
    (hf : Joins Q E (f.run t.workspace) (f'.run t)) (hq : ∀ a t, Q a t → Q' a t)
    (hg : ∀ fault t', E t' → Joins Q' E' ((g fault).run t'.workspace) ((g' fault).run t')) :
    Joins Q' E' ((MonadExcept.tryCatch f g).run t.workspace) ((MonadExcept.tryCatch f' g').run t) := by
  show Joins Q' E' (EStateM.tryCatch f g t.workspace) (EStateM.tryCatch f' g' t)
  change Joins Q E (f t.workspace) (f' t) at hf
  unfold EStateM.tryCatch
  cases hx : f t.workspace <;> cases hy : f' t <;> rw [hx, hy] at hf <;> cases hf
  case ok.ok.ok ha => exact .ok (hq _ _ ha)
  case error.error.error ht => exact hg _ _ ht

/-- What is read is the state. -/
theorem get {f : Workspace → WorkM α} {f' : Traced → TraceM α} (h : Joins Q E ((f t.workspace).run t.workspace) ((f' t).run t)) :
    Joins Q E ((MonadState.get >>= f).run t.workspace) ((MonadState.get >>= f').run t) := h

/-- A note changes nothing in the workspace. -/
theorem note {event : Event} {x : EStateM.Result Fault Workspace α} {f' : Unit → TraceM α}
    (h : Joins Q E x ((f' ()).run (t.noted i event))) : Joins Q E x ((Traced.note i event >>= f').run t) := h

/-- What is known of a module changes, with a note. -/
theorem move {f : ModuleRecord → ModuleRecord} {g : Unit → WorkM α} {g' : Unit → TraceM α}
    (h : Joins Q E ((g ()).run (t.moved i f).workspace) ((g' ()).run (t.moved i f))) :
    Joins Q E ((Workspace.adjust i f >>= g).run t.workspace) ((Traced.move i f >>= g').run t) := h

/-- A step that is traced without a note. -/
theorem lift {I : Workspace → Prop} {V : α → Workspace → Prop} (hf : Ends I V (f.run t.workspace)) :
    Joins (fun a t' => t'.log = t.log ∧ I t'.workspace ∧ V a t'.workspace) (fun t' => t'.log = t.log ∧ I t'.workspace)
      (f.run t.workspace) ((Traced.lift f).run t) := by
  show Joins _ _ (f t.workspace) (Traced.lift f t)
  change Ends I V (f t.workspace) at hf
  unfold Traced.lift
  cases hx : f t.workspace with
  | ok a w =>
    rw [hx] at hf
    cases hf with
    | ok hw ha => exact .ok (t := { t with workspace := w }) ⟨rfl, hw, ha⟩
  | error fault w =>
    rw [hx] at hf
    cases hf with
    | error hw => exact .error (t := { t with workspace := w }) ⟨rfl, hw⟩

end Joins

end

/-! ## What happens to a module -/

theorem of_noted (event : Event) : (t.noted i event).of j = if j = i then t.of j ++ [event] else t.of j := by
  unfold of noted
  split
  · rename_i h
    simp [h]
  · rename_i h
    simp [Ne.symm h]

theorem moduleAt_moved (f : ModuleRecord → ModuleRecord) (hi : i < t.workspace.modules.size) :
    (t.moved i f).moduleAt j = if j = i then f (t.moduleAt i) else t.moduleAt j := by
  show Workspace.moduleAt { t.workspace with modules := t.workspace.modules.modify i f } j = _
  rw [Workspace.moduleAt_modify]
  by_cases h : j = i
  · rw [if_pos ⟨h, hi⟩, if_pos h]
    rfl
  · rw [if_neg (fun hj => h hj.1), if_neg h]
    rfl

theorem of_moved (f : ModuleRecord → ModuleRecord) (hi : i < t.workspace.modules.size) :
    (t.moved i f).of j = if j = i then t.of j ++ [.moved (f (t.moduleAt i)).progress] else t.of j := by
  have hprogress : ∀ t' : Traced, t'.workspace = { t.workspace with modules := t.workspace.modules.modify i f } →
      t'.moduleAt i = f (t.moduleAt i) := fun t' ht' => by
    unfold moduleAt
    rw [ht', Workspace.moduleAt_modify, if_pos ⟨rfl, hi⟩]
  unfold moved
  rw [of_noted, hprogress _ rfl]
  rfl

/-- A module whose binding has begun is there. -/
theorem lt_of_progress (h : (t.moduleAt i).progress ≠ .unbound) : i < t.workspace.modules.size := by
  by_contra hle
  exact h (by rw [moduleAt, Workspace.moduleAt_of_le (by omega)])

/-! ## Later states -/

/-- What a module has in common with itself in a later state: its binding does not go back, and while it is being bound
further out nothing happens to it. -/
structure LaterAt (i : Nat) (t t' : Traced) : Prop where
  settled : (t.moduleAt i).progress ≠ .unbound → (t'.moduleAt i).progress ≠ .unbound
  binding : (t'.moduleAt i).progress = .binding ↔ (t.moduleAt i).progress = .binding
  log : (t.moduleAt i).progress = .binding → t'.of i = t.of i

/-- What modules have in common with themselves in a later state, for those with `P`. -/
structure Later (P : Nat → Prop) (t t' : Traced) : Prop where
  names : ∀ name i, t.workspace.names.lookup name = some i → t'.workspace.names.lookup name = some i
  atModule : ∀ i, P i → LaterAt i t t'

/-- All modules. -/
abbrev Every : Nat → Prop := fun _ => True

namespace Later

variable {P : Nat → Prop}

theorem ofSame (hw : t'.workspace.names = t.workspace.names) (hm : ∀ i, P i → t'.moduleAt i = t.moduleAt i)
    (hl : ∀ i, P i → t'.of i = t.of i) : Later P t t' where
  names _ _ h := hw ▸ h
  atModule i hi := by
    have h := hm i hi
    exact ⟨by rw [h]; exact id, by rw [h], fun _ => hl i hi⟩

theorem refl (t : Traced) : Later P t t := ofSame rfl (fun _ _ => rfl) fun _ _ => rfl

theorem trans (h : Later P t t') (h' : Later P t' t'') : Later P t t'' where
  names name i hi := h'.names name i (h.names name i hi)
  atModule i hi := by
    obtain ⟨hs, hb, hl⟩ := h.atModule i hi
    obtain ⟨hs', hb', hl'⟩ := h'.atModule i hi
    exact ⟨fun hne => hs' (hs hne), hb'.trans hb, fun hp => (hl' (hb.2 hp)).trans (hl hp)⟩

theorem mono {P' : Nat → Prop} (h : Later P t t') (hp : ∀ i, P' i → P i) : Later P' t t' :=
  ⟨h.names, fun i hi => h.atModule i (hp i hi)⟩

theorem every (h : Later Every t t') : Later P t t' := h.mono fun _ _ => trivial

/-- What resolving imports does. -/
theorem ofFinds (h : Workspace.Finds w₀ strict t.workspace t'.workspace) (hl : t'.log = t.log) : Later P t t' where
  names := h.names
  atModule i _ := by
    have hp : (t'.moduleAt i).progress = (t.moduleAt i).progress := (h.keeps i).progress
    exact ⟨fun hne => by rwa [hp], by rw [hp], fun _ => by unfold of; rw [hl]⟩

/-- Something happens to one module. -/
theorem noted (event : Event) : Later (· ≠ i) t (t.noted i event) :=
  ofSame rfl (fun _ _ => rfl) fun j hj => by rw [of_noted, if_neg hj]

theorem moved (f : ModuleRecord → ModuleRecord) (hi : i < t.workspace.modules.size) : Later (· ≠ i) t (t.moved i f) :=
  ofSame rfl (fun j hj => by rw [moduleAt_moved f hi, if_neg hj]) fun j hj => by rw [of_moved f hi, if_neg hj]

theorem withStore (store : Store) : Later P t (t.withStore store) := ofSame rfl (fun _ _ => rfl) fun _ _ => rfl

/-- What holds for all modules but one holds for all if that one is not being bound before or after. -/
theorem insert (h : Later (· ≠ i) t t') (hb : (t.moduleAt i).progress ≠ .binding) (hb' : (t'.moduleAt i).progress ≠ .binding)
    (hu : (t'.moduleAt i).progress ≠ .unbound) : Later Every t t' where
  names := h.names
  atModule j _ := by
    by_cases hj : j = i
    · subst hj
      exact ⟨fun _ => hu, by simp [hb, hb'], fun hp => absurd hp hb⟩
    · exact h.atModule j hj

end Later

/-! ## What holds between steps -/

/-- Each module has a story. -/
def Told (strict : Prop) (t : Traced) : Prop := ∀ i, Story strict (t.moduleAt i) (t.of i)

namespace Told

theorem ofKeeps (ht : Told strict t) (h : t.workspace.Keeps strict t'.workspace) (hl : t'.log = t.log) :
    Told strict t' := fun i => by
  have hof : t'.of i = t.of i := by unfold of; rw [hl]
  rw [hof]
  exact (ht i).keeps (h i)

theorem noted (ht : Told strict t) {event : Event} (h : Story strict (t.moduleAt i) (t.of i ++ [event])) :
    Told strict (t.noted i event) := fun j => by
  rw [of_noted]
  split
  · rename_i hj
    exact hj ▸ h
  · exact ht j

theorem moved (ht : Told strict t) {f : ModuleRecord → ModuleRecord} (hi : i < t.workspace.modules.size)
    (h : Story strict (f (t.moduleAt i)) (t.of i ++ [.moved (f (t.moduleAt i)).progress])) :
      Told strict (t.moved i f) := fun j => by
  rw [moduleAt_moved f hi, of_moved f hi]
  split
  · rename_i hj
    exact hj ▸ h
  · exact ht j

end Told

/-- Each module has a story, and the workspace is as it has to be. -/
structure Fits (strict : Prop) (C : Workspace → Prop) (t : Traced) : Prop where
  told : Told strict t
  state : C t.workspace

/-- What a step leads to. -/
structure Leads (strict : Prop) (C : Workspace → Prop) (P : Nat → Prop) (t t' : Traced) : Prop extends Fits strict C t' where
  later : Later P t t'

/-- Binding by name agrees with its trace. -/
def Agrees (strict : Prop) (C : Workspace → Prop) (bind : String → WorkM Nat) (bind' : String → TraceM Nat) : Prop :=
  ∀ ⦃t⦄, Fits strict C t → ∀ name,
    Joins (fun _ => Leads strict C Every t) (Leads strict C Every t) ((bind name).run t.workspace) ((bind' name).run t)

section

variable {C : Workspace → Prop} {bind : String → WorkM Nat} {bind' : String → TraceM Nat} {P : Nat → Prop}

theorem Fits.leads (h : Fits strict C t) : Leads strict C P t t := ⟨h, .refl t⟩

theorem Leads.trans (h : Leads strict C P t t') (h' : Leads strict C P t' t'') : Leads strict C P t t'' :=
  ⟨h'.toFits, h.later.trans h'.later⟩

/-- What is handed out comes from a module that is bound. -/
theorem handOut_joins (ht : Fits strict C t) (i : Nat) {E : Traced → Prop} :
    Joins (fun _ => Leads strict C Every t) E (.ok (t.workspace.shown i) t.workspace) ((handOut i).run t) := by
  have hrun : (handOut i).run t =
      .ok (t.workspace.shown i) (if (t.workspace.shown i).isSome then t.noted i .shown else t) := by
    show EStateM.Result.ok _ _ = _
    cases t.workspace.shown i <;> rfl
  rw [hrun]
  cases hshown : t.workspace.shown i with
  | none => exact .ok ht.leads
  | some exports =>
    have hscope : (t.moduleAt i).scope.isSome := by
      unfold Workspace.shown at hshown
      cases hs : (t.moduleAt i).scope with
      | some _ => rfl
      | none =>
        have hnone : (t.workspace.moduleAt i).scope = none := hs
        simp [hnone] at hshown
    obtain ⟨hbound, hstory⟩ := (ht.told i).show_scope hscope
    refine .ok (t := t.noted i .shown) ⟨⟨ht.told.noted hstory, ht.state⟩, (Later.noted _).insert ?_ ?_ ?_⟩
    · simp [hbound]
    · show (t.moduleAt i).progress ≠ _
      simp [hbound]
    · show (t.moduleAt i).progress ≠ _
      simp [hbound]

/-- What is seen of another module agrees with the trace, in the course of which the module may be bound. -/
theorem exportsBy_joins (h : Agrees strict C bind bind') (ht : Fits strict C t) (path : String) :
    Joins (fun _ => Leads strict C Every t) (Leads strict C Every t) ((Workspace.exportsBy bind path).run t.workspace)
      ((exportsBy bind' path).run t) := by
  unfold Workspace.exportsBy exportsBy
  refine Joins.get ?_
  cases t.workspace.paths.lookup path with
  | none => exact .ok ht.leads
  | some i =>
    have hmodule : t.moduleAt i = t.workspace.moduleAt i := rfl
    dsimp only
    rw [hmodule]
    cases (t.workspace.moduleAt i).progress with
    | binding => exact .ok ht.leads
    | bound => exact handOut_joins ht i
    | failed => exact handOut_joins ht i
    | unbound =>
      have hbind : Joins (fun _ => Leads strict C Every t) (Leads strict C Every t)
          ((do discard (bind (t.workspace.moduleAt i).name); return true : WorkM Bool).run t.workspace)
          ((do discard (bind' (t.workspace.moduleAt i).name); return true : TraceM Bool).run t) :=
        .bind (.bind (h ht _) (fun _ => id) fun _ _ ht' => .ok ht') (fun _ => id) fun _ _ ht' => .ok ht'
      refine Joins.bind (Joins.tryCatch hbind (fun _ _ => id) fun fault t' ht' => ?_) (fun _ => id) fun settled t' ht' => ?_
      · split
        · exact .ok ht'
        · exact .error ht'
      · cases settled with
        | false => exact .ok ht'
        | true => exact (handOut_joins ht'.toFits i).imp (fun _ _ => ht'.trans) fun _ => id

theorem scopeAround_joins (h : Agrees strict C bind bind') (ht : Fits strict C t) (i : Nat) :
    Joins (fun _ => Leads strict C Every t) (Leads strict C Every t) ((Workspace.scopeAround bind i).run t.workspace)
      ((scopeAround bind' i).run t) := by
  unfold Workspace.scopeAround scopeAround
  split
  · exact .ok ht.leads
  · exact .bind (h ht _) (fun _ => id) fun _ _ ht' => .get (.ok ht')

end

/-! ## How deep modules are bound one within another -/

/-- A run and its trace reach their limits of depth together, or neither does: there are not that many candidates. -/
structure Inside (limit : Nat → String → TraceM Nat) (depth depth' : Nat) (w₀ w : Workspace) : Prop where
  sound : w₀.Sound w
  reach : (limit = stop ∧ depth' = depth) ∨ (w₀.disk.Plain ∧ w₀.unsettled w ≤ depth ∧ w₀.unsettled w ≤ depth')

variable {limit : Nat → String → TraceM Nat} {depth depth' : Nat}

/-- What is settled stays settled if names and progress do not go back. -/
theorem isSettled_mono (hn : ∀ name i, t.workspace.names.lookup name = some i → t'.workspace.names.lookup name = some i)
    (hs : ∀ i, (t.moduleAt i).progress ≠ .unbound → (t'.moduleAt i).progress ≠ .unbound) (name : String)
    (h : t.workspace.isSettled name) : t'.workspace.isSettled name := by
  cases hi : t.workspace.names.lookup name with
  | none => simp [Workspace.isSettled, hi] at h
  | some i =>
    rw [Workspace.isSettled_of_lookup hi, bne_iff_ne] at h
    rw [Workspace.isSettled_of_lookup (hn name i hi), bne_iff_ne]
    exact hs i h

theorem Inside.later (h : Inside limit depth depth' w₀ t.workspace) (hl : Later Every t t') (hs : w₀.Sound t'.workspace) :
    Inside limit depth depth' w₀ t'.workspace := by
  refine ⟨hs, h.reach.imp id fun ⟨hplain, hd, hd'⟩ => ?_⟩
  have hle : w₀.unsettled t'.workspace ≤ w₀.unsettled t.workspace :=
    Workspace.unsettled_le (isSettled_mono hl.names fun i => (hl.atModule i trivial).settled)
  exact ⟨hplain, hle.trans hd, hle.trans hd'⟩

theorem Leads.ofFinds (ht : Fits strict (Inside limit depth depth' w₀) t)
    (h : Workspace.Finds w₀ strict t.workspace t'.workspace) (hl : t'.log = t.log) :
    Leads strict (Inside limit depth depth' w₀) Every t t' :=
  have hlater : Later Every t t' := .ofFinds h hl
  ⟨⟨ht.told.ofKeeps h.keeps hl, ht.state.later hlater h.sound⟩, hlater⟩

/-! ## Binding one module -/

section

variable {bind : String → WorkM Nat} {bind' : String → TraceM Nat}

/-- While a module is bound, the same is seen of other modules. -/
theorem view_worlds (h : Agrees strict (Inside limit depth depth' w₀) bind bind') (w : Workspace) (path : String)
    (outline : Outline) (builtins : Option Nat) : Bind.Worlds (w.setup i path outline builtins bind) (view bind') fun _ w t' =>
      t'.workspace = w ∧ Leads strict (Inside limit depth depth' w₀) Every t t' where
  opens _ _ := ⟨fun h _ _ => h, fun h _ _ _ => h, fun h _ => h, fun h _ => h⟩
  exports := by
    rintro st _ t' ⟨rfl, ht'⟩ path
    have hstore : Later Every t' (t'.withStore st) := .withStore st
    have hsound : w₀.Sound (t'.withStore st).workspace := by
      obtain ⟨hregistered, hdisk, hrooted⟩ := ht'.state.sound
      exact ⟨hregistered, hdisk, hrooted⟩
    have hfits : Leads strict (Inside limit depth depth' w₀) Every t (t'.withStore st) :=
      ⟨⟨ht'.told, ht'.state.later hstore hsound⟩, ht'.later.trans hstore⟩
    have hjoins := exportsBy_joins h hfits.toFits path
    simp only [Workspace.setup, view]
    change Joins _ _ ((Workspace.exportsBy bind path).run { t'.workspace with store := st }) _ at hjoins
    generalize (Workspace.exportsBy bind path).run { t'.workspace with store := st } = x at hjoins
    generalize (exportsBy bind' path).run (t'.withStore st) = y at hjoins
    cases hjoins with
    | ok ht'' => exact ⟨rfl, rfl, rfl, hfits.trans ht''⟩
    | error ht'' => exact ⟨rfl, rfl, rfl, hfits.trans ht''⟩

theorem index_of_number {x : Except Fault Module} (h : Module.number <$> x = .ok tree) : tree.mark.index = 0 := by
  cases x with
  | error fault => cases h
  | ok m =>
    cases h
    rfl

/-- The scope of a module is the one that is noted at the root of its tree, once it is bound. -/
theorem moduleScope?_isSome {ω : Type} {u : Bind.Setup ω} {m : ModuleRecord}
    (htree : w.treeOf m path = .ok tree) (hu : u.outline = Outline.ofModule tree) {store : Store} {world : ω}
    (hok : (bindModule u tree store world).1.isOk = true) (results : Option BindResults) :
    (Bound.ofState u.outline results (bindModule u tree store world).2).moduleScope?.isSome := by
  have hindex : tree.mark.index = 0 := index_of_number htree
  have hlt : tree.mark.index < u.outline.size := by
    rw [hindex, hu, Outline.ofModule, Outline.size_ofTree]
    unfold Module.tree NodeTree.size
    omega
  have hscoped := Bind.bindModule_scoped hlt hok
  rw [hindex] at hscoped
  exact hscoped

/-- Keeping the outcome ends the binding of a module, unless that failed. -/
theorem keepOutcome_joins {s : Bind.State Traced} (hs : Fits strict w₀.Sound (s.world.withStore s.store))
    (hp : ((s.world.withStore s.store).moduleAt i).progress = .binding)
    (hl : (s.world.withStore s.store).of i = [.moved .binding, .given]) {outline : Outline} {outcome : Except Fault BindResults}
    (hscope : outcome.isOk = true → (Bound.ofState outline outcome.toOption s).moduleScope?.isSome) :
    Joins
      (fun _ t' => Leads strict w₀.Sound (· ≠ i) (s.world.withStore s.store) t' ∧ (t'.moduleAt i).progress = .bound)
      (fun t' => Leads strict w₀.Sound (· ≠ i) (s.world.withStore s.store) t' ∧ (t'.moduleAt i).progress = .binding)
      ((Workspace.keepOutcome i outline outcome (s.inWorld s.world.workspace)).run w)
      ((keepOutcome i outline outcome s).run t) := by
  cases outcome with
  | error fault =>
    have hfinds : Workspace.Finds w₀ strict (s.world.withStore s.store).workspace
        { (s.world.withStore s.store).workspace with
          modules := (s.world.withStore s.store).workspace.modules.modify i fun m =>
            { m with analysis := some (Bound.ofState outline none s) } } :=
      ⟨hs.state.modify i fun _ => ⟨rfl, rfl, rfl⟩, .modify ⟨rfl, rfl, rfl, fun _ => rfl, fun _ _ => rfl⟩, fun _ _ => id⟩
    refine .error (t := { (s.world.withStore s.store) with workspace := _ })
      ⟨⟨⟨hs.told.ofKeeps hfinds.keeps rfl, hfinds.sound⟩, .ofFinds hfinds rfl⟩, ?_⟩
    exact (hfinds.keeps i).progress.trans hp
  | ok results =>
    have hi : i < (s.world.withStore s.store).workspace.modules.size := lt_of_progress (by simp [hp])
    have hmoved : Told strict ((s.world.withStore s.store).moved i fun m => { m with
        analysis := some (Bound.ofState outline (some results) s)
        scope := (Bound.ofState outline (some results) s).moduleScope?
        results := some results
        progress := .bound }) := by
      refine hs.told.moved hi ?_
      rw [hl]
      exact .bound 0 rfl (hscope rfl) rfl rfl
    refine .ok (t := (s.world.withStore s.store).moved i _) ⟨⟨⟨hmoved, ?_⟩, .moved _ hi⟩, ?_⟩
    · exact hs.state.modify i fun _ => ⟨rfl, rfl, rfl⟩
    · rw [moduleAt_moved _ hi, if_pos rfl]

/-- When the tree of a module is given to the binder, binding it agrees with its trace. -/
theorem bindGiven_joins (h : Agrees strict (Inside limit depth depth' w₀) bind bind')
    (ht : Fits strict (Inside limit depth depth' w₀) t) (hp : (t.moduleAt i).progress = .binding)
    (hl : t.of i = [.moved .binding]) {m : ModuleRecord}
    (htree : w.treeOf m path = .ok tree) (builtins : Option Nat) :
    let run := bindModule (t.workspace.setup i path (Outline.ofModule tree) builtins bind) tree t.workspace.store t.workspace
    let run' := bindModule ((t.workspace.setup i path (Outline.ofModule tree) builtins Workspace.bind).seeing (view bind')) tree
      t.workspace.store (t.noted i .given)
    Joins (fun _ t' => Leads strict w₀.Sound (· ≠ i) t t' ∧ (t'.moduleAt i).progress = .bound)
      (fun t' => Leads strict w₀.Sound (· ≠ i) t t' ∧ (t'.moduleAt i).progress = .binding)
      ((Workspace.keepOutcome i (Outline.ofModule tree) run.1 run.2).run t.workspace)
      ((keepOutcome i (Outline.ofModule tree) run'.1 run'.2).run (t.noted i .given)) := by
  intro run run'
  obtain ⟨_, hscope, hresults⟩ := (ht.told i).of_binding hp
  have hgiven : Fits strict (Inside limit depth depth' w₀) (t.noted i .given) :=
    ⟨ht.told.noted (hl ▸ .given hp hscope hresults), ht.state⟩
  have hof : (t.noted i .given).of i = [.moved .binding, .given] := by rw [of_noted, if_pos rfl, hl]; rfl
  obtain ⟨houtcome, world, hstate, ⟨hworkspace, hleads⟩, _⟩ :=
    (view_worlds h t.workspace path (Outline.ofModule tree) builtins).bindModule tree ⟨rfl, hgiven.leads⟩
  have hrun₁ : run.1 = run'.1 := houtcome.symm
  have hrun' : run'.2 = run.2.inWorld world := hstate
  have hworld : world.workspace = run.2.world := hworkspace
  have hrun₂ : run.2 = run'.2.inWorld run'.2.world.workspace := by
    rw [hrun']
    show run.2 = run.2.inWorld world.workspace
    rw [hworld]
    rfl
  have hsame : run'.2.world = world := by rw [hrun']; rfl
  rw [← hsame] at hleads
  have hstore : Later Every run'.2.world (run'.2.world.withStore run'.2.store) := .withStore _
  have hsound : w₀.Sound (run'.2.world.withStore run'.2.store).workspace := by
    obtain ⟨hregistered, hdisk, hrooted⟩ := hleads.state.sound
    exact ⟨hregistered, hdisk, hrooted⟩
  have hlater := hleads.later.trans hstore
  obtain ⟨_, hbinding, hlog⟩ := hlater.atModule i trivial
  rw [hrun₁, hrun₂]
  refine (keepOutcome_joins ⟨hleads.told, hsound⟩ (hbinding.2 hp) ((hlog hp).trans hof) fun hok => ?_).imp
    (fun _ t' ht' => ⟨⟨ht'.1.toFits, ?_⟩, ht'.2⟩) fun t' ht' => ⟨⟨ht'.1.toFits, ?_⟩, ht'.2⟩
  · exact moduleScope?_isSome htree rfl hok _
  · exact (Later.noted _).trans (hlater.every.trans ht'.1.later)
  · exact (Later.noted _).trans (hlater.every.trans ht'.1.later)

/-- Binding a module that has just begun agrees with its trace: it comes to an end, or it fails. -/
theorem bindRecord_joins (h : Agrees strict (Inside limit depth depth' w₀) bind bind')
    (ht : Fits strict (Inside limit depth depth' w₀) t) (hp : (t.moduleAt i).progress = .binding)
    (hl : t.of i = [.moved .binding]) (path : String) :
    Joins (fun _ t' => Leads strict w₀.Sound (· ≠ i) t t' ∧ (t'.moduleAt i).progress = .bound)
      (fun t' => Leads strict w₀.Sound (· ≠ i) t t' ∧ (t'.moduleAt i).progress = .binding)
      ((Workspace.bindRecord bind i path).run t.workspace) ((bindRecord bind' i path).run t) := by
  -- until the tree is given to the binder nothing happens to the module
  have hfails : ∀ t', Leads strict (Inside limit depth depth' w₀) Every t t' →
      Leads strict w₀.Sound (· ≠ i) t t' ∧ (t'.moduleAt i).progress = .binding := fun t' ht' =>
    ⟨⟨⟨ht'.told, ht'.state.sound⟩, ht'.later.every⟩, (ht'.later.atModule i trivial).binding.2 hp⟩
  unfold Workspace.bindRecord bindRecord
  refine .get ?_
  have hmodule : t.moduleAt i = t.workspace.moduleAt i := rfl
  rw [hmodule]
  cases htree : t.workspace.treeOf (t.workspace.moduleAt i) path with
  | error fault => exact .error (hfails t ht.leads)
  | ok tree =>
    have hblank : Ends (Workspace.Finds w₀ strict t.workspace) _ _ :=
      Workspace.Finds.adjustAside ht.state.sound i
        (f := fun m => { m with analysis := some (.blank (Outline.ofModule tree)), imports := [] }) (fun _ => ⟨rfl, rfl, rfl⟩)
        fun _ => ⟨rfl, rfl, rfl, fun _ => rfl, fun _ _ => rfl⟩
    refine Joins.bind (Joins.lift hblank) (fun t₁ h₁ => hfails t₁ (.ofFinds ht h₁.2 h₁.1)) fun _ t₁ ⟨hlog₁, hfinds₁, _⟩ => ?_
    have ht₁ : Leads strict (Inside limit depth depth' w₀) Every t t₁ := .ofFinds ht hfinds₁ hlog₁
    refine Joins.bind (Joins.lift (Workspace.resolveAll_finds hfinds₁.sound i tree))
      (fun t₂ h₂ => hfails t₂ (ht₁.trans (.ofFinds ht₁.toFits h₂.2 h₂.1))) fun _ t₂ ⟨hlog₂, hfinds₂, _⟩ => ?_
    have ht₂ : Leads strict (Inside limit depth depth' w₀) Every t t₂ := ht₁.trans (.ofFinds ht₁.toFits hfinds₂ hlog₂)
    refine Joins.bind (scopeAround_joins h ht₂.toFits i) (fun t₃ h₃ => hfails t₃ (ht₂.trans h₃)) fun builtins t₃ h₃ => ?_
    have ht₃ := ht₂.trans h₃
    obtain ⟨_, hbinding₃, hlog₃⟩ := ht₃.later.atModule i trivial
    refine .note (.get (t := t₃.noted i .given) ?_)
    refine (bindGiven_joins h ht₃.toFits (hbinding₃.2 hp) ((hlog₃ hp).trans hl) htree builtins).imp
      (fun _ t' ht' => ⟨⟨ht'.1.toFits, ?_⟩, ht'.2⟩) fun t' ht' => ⟨⟨ht'.1.toFits, ?_⟩, ht'.2⟩
    · exact ht₃.later.every.trans ht'.1.later
    · exact ht₃.later.every.trans ht'.1.later

/-- When the binding of a module with a file begins, there is one candidate less to settle. -/
theorem Inside.begin (h : Inside limit (depth + 1) (depth' + 1) w₀ t.workspace)
    (hi : t.workspace.names.lookup name = some i) (hp : (t.moduleAt i).progress = .unbound) (hc : (t.moduleAt i).code?.isSome) :
    Inside limit depth depth' w₀ (t.moved i fun m => { m with progress := .binding }).workspace := by
  refine ⟨h.sound.modify i fun _ => ⟨rfl, rfl, rfl⟩, h.reach.imp (fun ⟨hlimit, hd⟩ => ⟨hlimit, by omega⟩) fun ⟨hplain,
    hd, hd'⟩ => ?_⟩
  have hsize := (h.sound.registered name i hi).1
  have hat : ∀ j, (t.moved i fun m => { m with progress := .binding }).moduleAt j = _ := fun j => moduleAt_moved _ hsize
  have hmono : ∀ other, t.workspace.isSettled other →
      (t.moved i fun m => { m with progress := .binding }).workspace.isSettled other :=
    isSettled_mono (fun _ _ => id) fun j hj => by
      rw [hat]
      split
      · simp
      · exact hj
  have hunsettled : t.workspace.isSettled name = false := by
    rw [Workspace.isSettled_of_lookup hi, bne_eq_false_iff_eq]
    exact hp
  have hsettled : (t.moved i fun m => { m with progress := .binding }).workspace.isSettled name = true := by
    have hi' : (t.moved i fun m => { m with progress := .binding }).workspace.names.lookup name = some i := hi
    have hbinding := hat i
    rw [if_pos rfl] at hbinding
    rw [Workspace.isSettled_of_lookup hi', bne_iff_ne]
    show ((t.moved i fun m => { m with progress := .binding }).moduleAt i).progress ≠ _
    rw [hbinding]
    simp
  have hlt := Workspace.unsettled_lt hmono ((h.sound.rooted hplain name i hi).2 hc) hunsettled hsettled
  exact ⟨hplain, by omega, by omega⟩

/-- Binding a module from its file agrees with its trace. -/
theorem bindFile_joins (h : Agrees strict (Inside limit depth depth' w₀) bind bind')
    (ht : Fits strict (Inside limit (depth + 1) (depth' + 1) w₀) t)
    (hi : t.workspace.names.lookup name = some i) (hp : (t.moduleAt i).progress = .unbound)
    (hc : (t.moduleAt i).code? = some path) :
    Joins (fun _ => Leads strict (Inside limit (depth + 1) (depth' + 1) w₀) Every t)
      (Leads strict (Inside limit (depth + 1) (depth' + 1) w₀) Every t)
      ((Workspace.bindFile bind i path).run t.workspace) ((bindFile bind' i path).run t) := by
  have hsize := (ht.state.sound.registered name i hi).1
  obtain ⟨hnil, hscope, hresults⟩ := (ht.told i).eq_nil hp
  generalize hbegun : (t.moved i fun m => { m with progress := .binding }) = begun
  have hat : begun.moduleAt i = { t.moduleAt i with progress := .binding } := by
    rw [← hbegun, moduleAt_moved _ hsize, if_pos rfl]
  have hof : begun.of i = [.moved .binding] := by rw [← hbegun, of_moved _ hsize, if_pos rfl, hnil]; rfl
  have htold : Told strict begun := by
    rw [← hbegun]
    refine ht.told.moved hsize ?_
    rw [hnil]
    exact .begun rfl hscope hresults
  have hlater : Later (· ≠ i) t begun := hbegun ▸ .moved _ hsize
  have hfits : Fits strict (Inside limit depth depth' w₀) begun :=
    ⟨htold, hbegun ▸ ht.state.begin hi hp (by simp [hc])⟩
  -- the module is settled in the end, and was not before
  have hends : ∀ t', Fits strict w₀.Sound t' → Later (· ≠ i) t t' → (t'.moduleAt i).progress ≠ .binding →
      (t'.moduleAt i).progress ≠ .unbound → Leads strict (Inside limit (depth + 1) (depth' + 1) w₀) Every t t' :=
    fun t' ht' hl' hb hu =>
      have hall : Later Every t t' := hl'.insert (by simp [hp]) hb hu
      ⟨⟨ht'.told, ht.state.later hall ht'.state⟩, hall⟩
  refine .move (hbegun ▸ ?_)
  refine .bind (.tryCatch (bindRecord_joins h hfits (by rw [hat]) hof path) (fun _ t' ht' => ?_) fun fault t' ht' => ?_)
    (fun _ => id) fun _ _ ht' => .ok ht'
  · obtain ⟨hleads, hbound⟩ := ht'
    exact hends t' hleads.toFits (hlater.trans hleads.later) (by simp [hbound]) (by simp [hbound])
  · obtain ⟨hleads, hbinding⟩ := ht'
    have hsize' : i < t'.workspace.modules.size := lt_of_progress (by simp [hbinding])
    have hfailed : Told strict (t'.moved i fun m => { m with progress := .failed, scope := none, results := none }) := by
      refine hleads.told.moved hsize' ?_
      rcases ((hleads.told i).of_binding hbinding).1 with hof' | hof' <;> rw [hof']
      · exact .broken rfl rfl rfl
      · exact .failed rfl rfl rfl
    refine .move (.error (hends _ ⟨hfailed, ?_⟩ (hlater.trans (hleads.later.trans (.moved _ hsize'))) ?_ ?_))
    · exact hleads.state.modify i fun _ => ⟨rfl, rfl, rfl⟩
    · simp [moduleAt_moved _ hsize']
    · simp [moduleAt_moved _ hsize']

end

/-- Binding by name agrees with its trace if binding from a file does, for modules with a file that are not bound. -/
theorem bindNamed_joins {bindFile : Nat → String → WorkM Nat} {bindFile' : Nat → String → TraceM Nat}
    (ht : Fits strict (Inside limit depth depth' w₀) t) (name : String)
    (hfile : ∀ i path, t.workspace.names.lookup name = some i → (t.moduleAt i).progress = .unbound →
      (t.moduleAt i).code? = some path → Joins (fun _ => Leads strict (Inside limit depth depth' w₀) Every t)
        (Leads strict (Inside limit depth depth' w₀) Every t) ((bindFile i path).run t.workspace) ((bindFile' i path).run t)) :
    Joins (fun _ => Leads strict (Inside limit depth depth' w₀) Every t) (Leads strict (Inside limit depth depth' w₀) Every t)
      ((Workspace.bindNamed bindFile name).run t.workspace) ((bindNamed bindFile' name).run t) := by
  unfold Workspace.bindNamed bindNamed
  refine .get ?_
  unfold Workspace.find
  cases hi : t.workspace.names.lookup name with
  | none => exact .error ht.leads
  | some i =>
    refine .get ?_
    have hmodule : t.moduleAt i = t.workspace.moduleAt i := rfl
    rw [hmodule]
    dsimp only
    split
    · exact .ok ht.leads
    · rename_i hprogress
      have hp : (t.moduleAt i).progress = .unbound := by
        rw [hmodule]
        simpa using hprogress
      cases hc : (t.workspace.moduleAt i).code? with
      | some path => exact hfile i path hi hp hc
      | none =>
        have hsize := (ht.state.sound.registered name i hi).1
        obtain ⟨hnil, hscope, hresults⟩ := (ht.told i).eq_nil hp
        have hlater : Later Every t (t.moved i fun m => { m with progress := .bound }) :=
          (Later.moved _ hsize).insert (by simp [hp]) (by simp [moduleAt_moved _ hsize]) (by simp [moduleAt_moved _ hsize])
        refine .move (.ok ⟨⟨ht.told.moved hsize ?_, ht.state.later hlater ?_⟩, hlater⟩)
        · rw [hnil]
          exact .skipped rfl hscope hresults fun _ => hc
        · exact ht.state.sound.modify i fun _ => ⟨rfl, rfl, rfl⟩

/-- At a module with a file that is not bound, there is a candidate that is not settled. -/
theorem Inside.reach_of_unbound (h : Inside limit depth depth' w₀ t.workspace)
    (hi : t.workspace.names.lookup name = some i) (hp : (t.moduleAt i).progress = .unbound) (hc : (t.moduleAt i).code?.isSome) :
    (limit = stop ∧ depth' = depth) ∨ (0 < depth ∧ 0 < depth') := by
  refine h.reach.imp id fun ⟨hplain, hd, hd'⟩ => ?_
  have hmem := (h.sound.rooted hplain name i hi).2 hc
  have hpos : 0 < w₀.unsettled t.workspace := by
    refine List.countP_pos_iff.2 ⟨name, hmem, ?_⟩
    rw [Workspace.isSettled_of_lookup hi, Bool.not_eq_true', bne_eq_false_iff_eq]
    exact hp
  omega

/-- Binding by name agrees with its trace, as long as both stop at the same depth or at none. -/
theorem bindWithin_agrees (limit : Nat → String → TraceM Nat) (depth : Nat) : ∀ depth' : Nat,
    Agrees strict (Inside limit depth depth' w₀) (Workspace.bindWithin depth) (bindWithin limit depth') := by
  induction depth with
  | zero =>
    intro depth' t ht name
    cases depth' with
    | zero =>
      refine bindNamed_joins ht name fun i path hi hp hc => ?_
      obtain ⟨rfl, _⟩ | ⟨hpos, _⟩ := ht.state.reach_of_unbound hi hp (by simp [hc])
      · exact .error ht.leads
      · omega
    | succ depth' =>
      refine bindNamed_joins ht name fun i path hi hp hc => ?_
      obtain ⟨_, hd⟩ | ⟨hpos, _⟩ := ht.state.reach_of_unbound hi hp (by simp [hc]) <;> omega
  | succ depth ih =>
    intro depth' t ht name
    cases depth' with
    | zero =>
      refine bindNamed_joins ht name fun i path hi hp hc => ?_
      obtain ⟨_, hd⟩ | ⟨_, hpos⟩ := ht.state.reach_of_unbound hi hp (by simp [hc]) <;> omega
    | succ depth' => exact bindNamed_joins ht name fun i path hi hp hc => bindFile_joins (ih depth') ht hi hp hc

end ScopeFlow.Traced
