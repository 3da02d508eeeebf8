import ScopeFlow.Proofs.JobModules
import ScopeFlow.Proofs.LiveCode

/-!
# Job after job

`Resting` is what holds between two jobs: what holds while a job is at work, and that a node whose body was taken from the queue
is left over from then on and has a flow node behind it. Binding the body that has waited longest leads from rest to rest
(`Resting.next`), and so does binding the body of the module at first (`bindModuleBody_rests`). `Shifts` is a run of jobs with
what is known between them, and every module that is bound takes such a course (`bindModule_course`).
-/

namespace ScopeFlow.Bind

open NodeTree Store

variable {ω : Type} {u : Setup ω} {m : Module} {w w' : Job} {low : Nat} {s s' : State ω} {task : Task} {queue : List Task}
  {store : Store}

/-! ## The body of a function or lambda -/

theorem bindParameters_upholds (hv : Serves u w) {ctx : Context} (ps : List Parameter) : ∀ {s₀ : State ω},
    Stands w ctx.scope s₀.store → Upholds u w low s₀ (bindParameters u ctx ps) := by
  induction ps with
  | nil => exact fun _ => .pure _
  | cons p ps ih =>
    intro s₀ hc
    refine (bindHere_walks hc p.name).bind fun symbol s₁ hgo hbinds => ?_
    have hc₁ := hc.mono hgo.grows
    have hrest : ∀ s₂, Goes u w low s₁ s₂ →
        Upholds u w low s₂ (do assignName ctx p.mark.index p.name; bindParameters u ctx ps) := fun s₂ hgo₂ =>
      (assignName_upholds hv (hc₁.mono hgo₂.grows) _ (hbinds.2.mono hgo₂.grows) true false).seq fun _ => ih (hc₁.mono hgo₂.grows)
    refine .ite ?_ (hrest _ (.refl _))
    refine (declareAt_walks hbinds.1.fair rfl).bind fun place s₂ hgo₂ hplace => ?_
    exact (setDeclaration_upholds hplace).seq fun _ => hrest s₂ hgo₂

/-- The walk of a body that waited, which gives the flow node in force behind the body. -/
def walkBody (u : Setup ω) (task : Task) : BindM ω FlowRef :=
  match task.body with
  | .function mark params body => do
    setCurrent (← newStart)
    bindParameters u { scope := task.scope, owner := mark.index } params.all
    let returns ← newBranch
    walkStatements u { scope := task.scope, owner := mark.index, function := some mark.index, returnTarget := some returns } body
    stampAfterBody mark.index
    linkCurrent returns
    finished returns
  | .lambda mark params body => do
    setCurrent (← newStart)
    bindParameters u { scope := task.scope, owner := mark.index } params.all
    visitExpr u { scope := task.scope, owner := mark.index } .value body
    current

/-- A body that waited is walked, and then its node is stamped. -/
theorem replay_eq (u : Setup ω) (task : Task) : replay u task = walkBody u task >>= stampAfterWith task.body.mark.index := by
  unfold replay walkBody
  cases task.body with
  | function mark params body => simp only [bindFunctionBody, Body.mark, bind_assoc]
  | lambda mark params body => simp only [bindLambdaBody, stampAfter, Body.mark, bind_assoc]

theorem walkBody_upholds (hv : Serves u w) {l : Enclosure} {s₀ : State ω} (hr : Ready u w task.scope l s₀)
    (hb : task.body.Under (Admits u w) l) (hfirm : task.body.isFunction = true → Firm w task.scope s₀.store) :
    Upholds u w l.low s₀ (walkBody u task) := by
  unfold walkBody
  cases hbody : task.body with
  | function mark params body =>
    rw [hbody] at hb hfirm
    refine (newPlain_upholds _ rfl).seq fun _ => (setCurrent_upholds _).seq fun _ => ?_
    refine (bindParameters_upholds hv _ hr.stands).seq fun _ => newBranch_upholds.seq fun returns => ?_
    refine (walkStatements_upholds hv hr (hfirm rfl) body hb).seq fun _ => ?_
    exact (stampAfterBody_upholds _).seq fun _ => (linkCurrent_upholds _).seq fun _ => finished_upholds _
  | lambda mark params body =>
    rw [hbody] at hb
    refine (newPlain_upholds _ rfl).seq fun _ => (setCurrent_upholds _).seq fun _ => ?_
    refine (bindParameters_upholds hv _ hr.stands).seq fun _ => ?_
    exact (visitExpr_upholds hv hr .value body hb fun h => by cases h).seq fun _ => current_upholds

theorem scopeAt_stampAfter (s : State ω) (node : Nat) (ref : FlowRef) (i : Nat) :
    State.scopeAt { s with facts := s.facts.modify node fun f => { f with after := some ref } } i = s.scopeAt i := by
  rw [State.scopeAt, State.factsAt_modify]
  split <;> rfl

/-- What holds does not depend on the flow nodes behind nodes. -/
theorem Holds.stampAfter (h : Holds u w s) (node : Nat) (ref : FlowRef) :
    Holds u w { s with facts := s.facts.modify node fun f => { f with after := some ref } } := by
  set t : State ω := { s with facts := s.facts.modify node fun f => { f with after := some ref } } with ht
  have hscope : ∀ i, t.scopeAt i = s.scopeAt i := scopeAt_stampAfter s node ref
  have hdeclaration : ∀ i, (t.factsAt i).declaration = (s.factsAt i).declaration := fun i => by
    rw [ht, State.factsAt_modify]
    split <;> rfl
  exact
    { order := h.order
      size := by simpa [ht] using h.size
      listed := fun i ref slot hi => h.listed i ref slot ((hdeclaration i).symm.trans hi)
      privates := h.privates
      classes := fun i n sc hn hc hi => h.classes i n sc hn hc ((hscope i).symm.trans hi)
      bodies := fun i n sc hn hf hi => h.bodies i n sc hn hf ((hscope i).symm.trans hi)
      tasks := fun task htask => (h.tasks task htask).mono h.order (.refl _) fun i hi => (hscope i).symm ▸ hi
      queued := h.queued
      scopes := fun i sc hi => h.scopes i sc ((hscope i).symm.trans hi)
      numbers := h.numbers
      mentions := h.mentions
      homes := h.homes_of_steps hscope .refl }

/-! ## From rest to rest -/

/-- What holds between two jobs. -/
structure Resting (u : Setup ω) (m : Module) (w : Job) (s : State ω) : Prop where
  serves : Serves u w
  holds : Holds u w s
  root : s.scopeAt 0 = some w.base
  waiting : Waiting m s.queue
  apart : ∀ i, w.taken i → i ∉ claimed s.queue ∧ (s.scopeAt i).isSome
  after : ∀ i n, u.outline.node? i = some n → (n.isFunction || n.isLambda) = true →
    ((s.factsAt i).after.isSome ↔ w.taken i)

theorem mem_claimed (h : task ∈ queue) : task.body.mark.index ∈ claimed queue := by
  obtain ⟨before, after, rfl⟩ := List.append_of_mem h
  simp [claimed_append, claimed_cons]

/-- A body that waits has not been taken from the queue before. -/
theorem Resting.free (h : Resting u m w s) (hq : s.queue = task :: queue) :
    ¬ w.taken task.body.mark.index := fun ht => (h.apart _ ht).1 (mem_claimed (by simp [hq]))

/-- A body that waits has the scope of its node, and its node is not that of another one. -/
theorem Resting.scopeAt_first (h : Resting u m w s) (hnodup : (Node.numbers m.tree.nodes).Nodup)
    (hq : s.queue = task :: queue) : s.scopeAt task.body.mark.index = some task.scope := by
  have hclaimed := Multiset.nodup_of_le h.waiting.claims hnodup
  rw [hq, claimed_cons, Multiset.nodup_add, Multiset.disjoint_left] at hclaimed
  exact h.holds.scopeAt_first hq (fun t ht heq => hclaimed.2.2 (by simp) (heq ▸ mem_claimed ht)) (h.free hq)

/-- Binding the body that has waited longest leads to rest again, and it does not fail if nothing may fail. Either way each
change of the store is an edit with its reason. -/
theorem Resting.next (h : Resting u m w s) (hu : u.Steady) (hnodup : (Node.numbers m.tree.nodes).Nodup)
    (hq : s.queue = task :: queue) :
    (∀ x t, (replay u task).run { s with queue := queue } = .ok x t →
      (w.turn u task s).Trail s.stores t.stores ∧ Resting u m (w.turn u task s) t) ∧
    ∀ e t, (replay u task).run { s with queue := queue } = .error e t →
      w.strict = false ∧ (w.turn u task s).Trail s.stores t.stores := by
  have hwaiting := h.waiting
  have hclaimed := Multiset.nodup_of_le hwaiting.claims hnodup
  rw [hq] at hwaiting hclaimed
  simp only [claimed_cons, Multiset.nodup_add, Multiset.disjoint_left] at hclaimed
  obtain ⟨⟨_, _, hmark⟩, _, hothers⟩ := hclaimed
  obtain ⟨l, hlow, hunder, hready, hfirm⟩ := h.holds.ready hq (h.scopeAt_first hnodup hq)
  have hwalk := walkBody_upholds (h.serves.turn task s) hready hunder hfirm _ (.refl _) (h.holds.turn hq)
  refine ⟨fun x t hrun => ?_, fun e t hrun => ?_⟩
  · obtain ⟨new, hnew, hclaims, hinside⟩ := replay_queues hu task hrun
    rw [replay_eq] at hrun
    obtain ⟨ref, t₁, hbody, hstamp⟩ := bind_ok.1 hrun
    obtain ⟨hgo, hholds, _⟩ := hwalk.1 ref t₁ hbody
    obtain rfl := modifyFacts_ok.1 hstamp
    have hqueue : t₁.queue = queue ++ new := hnew
    have hscope := scopeAt_stampAfter t₁ task.body.mark.index ref
    refine ⟨hgo.trail, h.serves.turn task s, hholds.stampAfter _ _, ?_, ?_, fun i hi => ⟨?_, ?_⟩, fun i n hn hkind => ?_⟩
    · rw [hscope, hgo.frozen 0 hlow]
      exact h.root
    · show Waiting m t₁.queue
      rw [hqueue]
      exact hwaiting.next hclaims hinside
    · show i ∉ claimed t₁.queue
      rw [hqueue, claimed_append, Multiset.mem_add, not_or]
      rcases hi with hi | rfl
      · have hapart := (h.apart i hi).1
        rw [hq, claimed_cons, Multiset.mem_add, Multiset.mem_add, not_or, not_or] at hapart
        exact ⟨hapart.2, fun hmem => hapart.1.2 (Multiset.mem_of_le hclaims hmem)⟩
      · exact ⟨hothers (by simp), fun hmem => hmark (by simp) (Multiset.mem_of_le hclaims hmem)⟩
    · have hsome : (s.scopeAt i).isSome := by
        rcases hi with hi | rfl
        · exact (h.apart i hi).2
        · exact (h.holds.tasks task (by simp [hq])).marked
      rw [hscope]
      exact hgo.kept i hsome
    · rw [State.factsAt_modify]
      have hlt := node_lt_size hholds hn
      by_cases hi : i = task.body.mark.index
      · rw [if_pos ⟨hi, hi ▸ hlt⟩]
        exact ⟨fun _ => .inr hi, fun _ => rfl⟩
      · rw [if_neg fun hand => hi hand.1, hgo.after i n hn hkind]
        exact (h.after i n hn hkind).trans ⟨.inl, fun ht => ht.resolve_right hi⟩
  · rw [replay_eq] at hrun
    rcases bind_error.1 hrun with hrun | ⟨ref, t₁, _, hstamp⟩
    · exact hwalk.2 e t hrun
    · cases hstamp

/-! ## The body of the module -/

/-- The enclosure of the statements of a module. -/
def moduleEnclosure : Enclosure := { plain := some 0, inComprehension := some 0, low := 1 }

theorem index_number (m : Module) : m.number.mark.index = 0 := by
  have hlabels := m.labels_number
  rw [Module.tree, labels_mk, NodeTree.size, List.range_succ_eq_map] at hlabels
  exact (List.cons.inj hlabels).1

/-- Nothing is above the scope of a module but the builtins. -/
theorem Holds.firm_base (h : Holds u w s) : Firm w w.base s.store where
  closed := h.order.closed
  type := ⟨_, h.order.root.1, fun ht => by
    have hglobal := Stage.baseType_isGlobal w.toStage
    rw [ht] at hglobal
    cases hglobal⟩
  free := fun p hp j hj hb => by
    rw [h.order.root.2.1] at hp
    obtain ⟨_, hnone, _⟩ := h.order.outermost p hp
    rcases Climbs.cases_head hj with rfl | ⟨q, hq, _⟩
    · exact absurd hb (h.order.not_below_builtins hp)
    · rw [hnone] at hq
      cases hq

/-- The walk of a module from the moment when its scope has been opened. -/
def walkModule (u : Setup ω) (m : Module) (scope : Nat) : BindM ω Nat := do
  let ctx : Context := { scope := scope, owner := m.mark.index }
  setScope m.mark.index scope
  moduleIntrinsics.forM fun (name, type) => addIntrinsic u ctx name ⟨m.mark, "Module"⟩ type
  setCurrent (← newStart)
  stamp m.mark.index
  walkStatements u ctx m.body
  showKeys m.mark.index
  stampAfter m.mark.index
  return scope

theorem bindModuleBody_eq (u : Setup ω) (m : Module) (store : Store) (world : ω) :
    (bindModuleBody u m).run (State.initial u store world) = (walkModule u m store.scopes.size).run
      (State.entered u store world) := rfl

theorem walkModule_runs (hv : Serves u w) (hs : Holds u w s) (hhome : w.home = w.base)
    (hblank : Blank w s w.base) (hm : m.number.tree.Under (Admits u w) {}) :
    Runs u w 0 s (walkModule u m.number w.base) fun scope s' => scope = w.base ∧ s'.scopeAt 0 = some w.base := by
  have hindex := index_number m
  rw [Module.tree, under_mk, underIn_append] at hm
  obtain ⟨hroot, hbody, _⟩ := hm
  have hnode : u.outline.node? 0 = some (.root m.number) := by
    have h := hroot.encloses.1
    rwa [show (Node.root m.number).mark.index = 0 from hindex] at h
  have hinside : ∀ i, (Node.root m.number).inside {} i = moduleEnclosure := fun i => by
    simp [Node.inside, Node.isComprehension, Node.isFunction, Node.isLambda, Node.isClass, Node.isModule, Node.mark, hindex,
      moduleEnclosure]
  have hbody' : UnderIn (Admits u w) (fun _ => moduleEnclosure) (Stmt.trees m.number.body) :=
    hbody.congr fun t _ => (hinside _).symm
  unfold walkModule
  rw [hindex]
  refine (setScope_runs hs hnode rfl (Nat.zero_le _) hs.order.below_base hblank (fun h => by cases h)).bind
    fun _ s₁ hgo hs₁ hset => ?_
  obtain ⟨hat, _, _⟩ := hset
  have hstands : Stands w w.base s₁.store := ⟨hs₁.order.below_base, .inl hhome.symm⟩
  have hreceives : Receives w w.base 1 s₁ 0 := ⟨Nat.zero_lt_one, w.base, hat, .refl _⟩
  have hready : Ready u w w.base moduleEnclosure s₁ :=
    { stands := hstands
      type := by
        obtain ⟨t, ht, hne⟩ := hs₁.firm_base.type
        exact ⟨t, ht, fun h => absurd h hne⟩
      plain := fun c hc => by cases hc; exact hreceives
      inComprehension := fun c hc => by cases hc; exact hreceives
      cls := fun c hc => by cases hc
      owner := fun c hc => by cases hc }
  refine Runs.mono (Walks.seq (Walks.forM _ fun p _ => ?_) (fun _ => ?_) s₁ (.refl _) hs₁) (Nat.zero_le 1)
  · exact fun s₂ hgo₂ hs₂ => addIntrinsic_runs hs₂ (hstands.mono hgo₂.grows) _ _ (hs₂.order.root.2.2 _)
  refine (newPlain_upholds _ rfl).seq fun _ => (setCurrent_upholds _).seq fun _ => (stamp_upholds _).seq fun _ => ?_
  refine (walkStatements_upholds hv hready hs₁.firm_base m.number.body hbody').seq fun _ => (showKeys_upholds _).seq fun _ => ?_
  refine (stampAfter_upholds fun n hn => ?_).seq fun _ => .ret fun s₂ hgo₂ => ⟨rfl, (hgo₂.frozen 0 Nat.zero_lt_one).trans hat⟩
  rw [hnode] at hn
  cases hn
  rfl

/-- What a job needs of a module and of what it is bound with. -/
structure Suits (u : Setup ω) (m : Module) (store : Store) (strict : Bool) : Prop where
  outline : u.outline = Outline.ofModule m.number
  grounded : store.Grounded u.builtins
  aside : ∀ path st world, Stage.Aside u.builtins st (u.exports path st world).2.1
  parsed : strict = true → m.number.tree.All Node.Parsed
  regular : strict = true → u.file.isStub = false
  answers : strict = true → ∀ path st world, ∃ e, (u.exports path st world).1 = .ok e

theorem Suits.lax (ho : u.outline = Outline.ofModule m.number) (hg : store.Grounded u.builtins)
    (ha : ∀ path st world, Stage.Aside u.builtins st (u.exports path st world).2.1) : Suits u m store false :=
  ⟨ho, hg, ha, nofun, nofun, nofun⟩

/-- Binding the body of the module leads to rest, and it does not fail if nothing may fail. Either way each change of the
store is an edit with its reason, once the scope of the module has been opened. -/
theorem bindModuleBody_rests (hu : u.Steady) {strict : Bool} (hsuits : Suits u m store strict) (world : ω) :
    (∀ scope t, (bindModuleBody u m.number).run (State.initial u store world) = .ok scope t →
      scope = store.scopes.size ∧
        (Job.ofModule u m.number strict store.scopes.size).Trail (State.entered u store world).stores t.stores ∧
        Resting u m.number (Job.ofModule u m.number strict store.scopes.size) t) ∧
    ∀ e t, (bindModuleBody u m.number).run (State.initial u store world) = .error e t →
      strict = false ∧ (Job.ofModule u m.number strict store.scopes.size).Trail
        (State.entered u store world).stores t.stores := by
  set w := Job.ofModule u m.number strict store.scopes.size with hw
  have hserves : Serves u w := ⟨rfl, rfl, hsuits.aside, hsuits.regular, hsuits.answers⟩
  have hunder : m.number.tree.Under (Admits u w) {} := by
    have hglobals : m.number.tree.All fun n => ∀ x ∈ n.globals, w.globals x := fun n hn x hx => ⟨n, hn, hx⟩
    exact ((under_belongs hsuits.outline _ hsuits.parsed).and_all hglobals).imp fun _ _ h => { h.1 with globals := h.2 }
  have hblank : Blank w (State.entered u store world) w.base := by
    refine ⟨fun i hi => ?_, symbol?_emptyModule u.builtins, fun site => id⟩
    change ((State.initial u store world).factsAt i).scope = _ at hi
    rw [factsAt_initial] at hi
    cases hi
  have hruns := walkModule_runs hserves (holds_entered hsuits.grounded m.number strict world) rfl hblank hunder
  refine ⟨fun scope t hrun => ?_, fun e t hrun => ?_⟩
  · obtain ⟨new, hnew, hclaims, hinside⟩ := bindModuleBody_queues hu m.number hrun
    rw [bindModuleBody_eq] at hrun
    obtain ⟨hgo, hholds, hscope, hat⟩ := hruns.1 scope t hrun
    refine ⟨hscope, hgo.trail, hserves, hholds, hat, ?_, fun i hi => hi.elim, fun i n hn hkind => ?_⟩
    · have hqueue : t.queue = new := hnew
      have hbody : nodesIn (Stmt.trees m.number.body) ≤ m.number.tree.nodes := by
        rw [Module.tree, nodes_mk, nodesIn_append]
        exact (Multiset.le_add_right _ _).trans (Multiset.le_add_left _ _)
      rw [hqueue]
      exact ⟨((Multiset.le_add_left _ _).trans hinside).trans hbody, hclaims.trans (Node.numbers_le hbody)⟩
    · have hafter : (t.factsAt i).after = none := (hgo.after i n hn hkind).trans (by
        show ((State.initial u store world).factsAt i).after = none
        rw [factsAt_initial])
      rw [hafter]
      exact ⟨fun h => absurd h (by simp), fun h => h.elim⟩
  · rw [bindModuleBody_eq] at hrun
    exact hruns.2 e t hrun

/-! ## Runs of jobs -/

/-- A run of jobs, one for each body that waits, with what is known between them. -/
inductive Shifts (u : Setup ω) (m : Module) : Job → State ω → List (Phase ω) → Job → State ω → Prop where
  | done {w : Job} {s : State ω} : s.queue = [] → Resting u m w s → Shifts u m w s [] w s
  | next {w w' : Job} {s t s' : State ω} {task : Task} {queue : List Task} {phases : List (Phase ω)} :
      s.queue = task :: queue → Resting u m w s → (w.turn u task s).Steps s.store t.store →
      Shifts u m (w.turn u task s) t phases w' s' →
      Shifts u m w s (⟨some task, { s with queue := queue }, t⟩ :: phases) w' s'

theorem Replays.shifts (hu : u.Steady) (hnodup : (Node.numbers m.tree.nodes).Nodup) {phases : List (Phase ω)}
    (h : Replays u s phases s') : ∀ {w : Job}, Resting u m w s → ∃ w', Shifts u m w s phases w' s' := by
  induction h with
  | done hq => exact fun hr => ⟨_, .done hq hr⟩
  | next hq hrun _ ih =>
    intro w hr
    obtain ⟨htrail, hrest⟩ := (hr.next hu hnodup hq).1 _ _ hrun
    obtain ⟨w', hshifts⟩ := ih hrest
    exact ⟨w', .next hq hr htrail.steps hshifts⟩

/-- Jobs of the same module. -/
structure Job.Kin (w w' : Job) : Prop where
  base : w'.base = w.base
  builtins : w'.builtins = w.builtins
  isStub : w'.isStub = w.isStub
  nonlocals : w'.nonlocals = w.nonlocals
  walruses : w'.walruses = w.walruses
  members : w'.members = w.members

/-- The node whose body a phase binds. -/
def Phase.node? (p : Phase ω) : Option Nat := p.task.map fun t => t.body.mark.index

/-- Whether a `global` statement in the body that a phase binds names a name. -/
def Phase.Globalises (p : Phase ω) (name : String) : Prop := ∃ t ∈ p.task, ∃ n ∈ t.body.nodes, name ∈ n.globals

namespace Shifts

variable {phases : List (Phase ω)} {i : Nat} {name : String}

section

variable (h : Shifts u m w s phases w' s')
include h

theorem starts : Resting u m w s := by
  cases h with
  | done _ hr => exact hr
  | next _ hr _ _ => exact hr

theorem ends : Resting u m w' s' ∧ s'.queue = [] := by
  induction h with
  | done hq hr => exact ⟨hr, hq⟩
  | next _ _ _ _ ih => exact ih

theorem kin : w.Kin w' := by
  induction h with
  | done _ _ => exact ⟨rfl, rfl, rfl, rfl, rfl, rfl⟩
  | next _ _ _ _ ih => exact ⟨ih.base, ih.builtins, ih.isStub, ih.nonlocals, ih.walruses, ih.members⟩

/-- Every phase edits the store, and the phases after it go on from there. -/
theorem edits :
    s.store.Edits s'.store ∧ ∀ p ∈ phases,
      s.store.Edits p.before.store ∧ p.before.store.Edits p.after.store ∧ p.after.store.Edits s'.store := by
  induction h with
  | done _ _ => exact ⟨.refl, by simp⟩
  | @next w w' s t s' task queue phases _ _ hsteps _ ih =>
    have hedits : s.store.Edits t.store := Stage.Steps.edits hsteps
    refine ⟨hedits.trans ih.1, fun p hp => ?_⟩
    rcases List.mem_cons.1 hp with rfl | hp
    · exact ⟨.refl, hedits, ih.1⟩
    · exact ⟨hedits.trans (ih.2 p hp).1, (ih.2 p hp).2⟩

theorem grows : s.store.Grows s'.store := Store.Edits.grows h.edits.1

/-- No node has its body bound twice, and the bodies that are taken in the end are those that were and those of the phases. -/
theorem taken : (phases.filterMap Phase.node?).Nodup ∧
    (∀ i ∈ phases.filterMap Phase.node?, ¬ w.taken i) ∧ ∀ i, w'.taken i ↔ w.taken i ∨ i ∈ phases.filterMap Phase.node? := by
  induction h with
  | done _ _ => simp
  | @next w w' s t s' task queue phases hq hr _ _ ih =>
    obtain ⟨hnodup, hfree, htaken⟩ := ih
    have hfirst := hr.free hq
    have hcons : (⟨some task, { s with queue := queue }, t⟩ :: phases : List (Phase ω)).filterMap Phase.node? =
        task.body.mark.index :: phases.filterMap Phase.node? := rfl
    rw [hcons]
    refine ⟨List.nodup_cons.2 ⟨fun hmem => hfree _ hmem (.inr rfl), hnodup⟩, fun i hi => ?_, fun i => ?_⟩
    · rcases List.mem_cons.1 hi with rfl | hi
      · exact hfirst
      · exact fun ht => hfree i hi (.inl ht)
    · rw [htaken i, List.mem_cons, ← or_assoc]
      rfl

/-- A scope that is older than those of the bodies that wait gets no names any more, unless it is that of the module or of a
class; the module gets those that `global` statements of the bodies name. -/
theorem early (hi : i < s.store.scopes.size) (hold : ∀ t ∈ s.queue, i < t.scope)
    (hclass : s.store.type? i ≠ some .classBody) (hs : (s'.store.symbol? i name).isSome) :
    (s.store.symbol? i name).isSome ∨ i = w.base ∧ ∃ p ∈ phases, p.Globalises name := by
  induction h with
  | done _ _ => exact .inl hs
  | @next w w' s t s' task queue phases hq hr hsteps hrest ih =>
    have hgrows := Stage.Steps.grows hsteps
    have hhome : i < task.scope := hold task (by simp [hq])
    have hrests := hrest.starts
    have htype : t.store.type? i ≠ some .classBody := by rwa [hgrows.type?_eq hi]
    rcases ih (hi.trans_le hgrows.size_le) (fun t' ht' => hhome.trans (hrests.holds.queued.2 t' ht')) htype hs with
      hsome | ⟨hbase, p, hp, hglobal⟩
    · rcases Stage.Steps.adds_early hsteps hi hi hhome.ne hclass hsome with hsome | ⟨hbase, n, hn, hname⟩
      · exact .inl hsome
      · exact .inr ⟨hbase, _, List.mem_cons_self .., task, rfl, n, hn, hname⟩
    · exact .inr ⟨hbase, p, List.mem_cons_of_mem _ hp, hglobal⟩

end

end Shifts

/-! ## The end -/

theorem hidePrivates_upholds : Upholds u w low s (hidePrivates : BindM ω Unit) := fun s₁ hgo hs => by
  refine Runs.bind (Runs.get hs) fun t s₂ _ hs₂ heq => ?_
  obtain ⟨rfl, rfl⟩ := heq
  refine Walks.forM _ (fun p hp => ?_) s₂ (.refl _) hs₂
  exact .ite (.pure _) (hide_upholds (hs₂.privates p hp))

theorem markListed_upholds : Upholds u w low s (markListed w.base : BindM ω Unit) := by
  refine Walks.get.seq fun t => Walks.forM _ fun name _ => ?_
  exact adjustSymbol_upholds (fun _ _ hs => .inside hs.order.below_base .list) fun _ => .ofFlags _ _

/-- Which names there are. -/
def State.named (s : State ω) (i : Nat) (name : String) : Bool := (s.store.symbol? i name).isSome

/-- A step that neither adds nor drops a name. -/
abbrev KeepsNames {α : Type} (f : BindM ω α) : Prop := Along (Keeping State.named) f

theorem adjustSymbol_keepsNames (ref : SymbolRef) (f : Symbol → Symbol) : KeepsNames (adjustSymbol ref f : BindM ω Unit) := by
  refine .ofModify fun s => funext₂ fun i name => ?_
  show ((s.store.adjustSymbol ref.scope ref.name f).symbol? i name).isSome = (s.store.symbol? i name).isSome
  rw [symbol?_adjustSymbol]
  split <;> simp

theorem hidePrivates_keepsNames : KeepsNames (hidePrivates : BindM ω Unit) := by
  refine .bind .get fun t => .forM (fun p => ?_) _
  dsimp only
  split
  · exact .pure _
  · exact adjustSymbol_keepsNames _ _

theorem markListed_keepsNames (scope : Nat) : KeepsNames (markListed scope : BindM ω Unit) := by
  exact .bind .get fun t => .forM (fun name => adjustSymbol_keepsNames _ _) _

/-- How a module is bound: its scope is opened, its body is bound in the first job, the bodies that wait in one job each, and then
symbols are hidden and listed. -/
structure Course (u : Setup ω) (m : Module) (store : Store) (world : ω) (strict : Bool) (first : State ω)
    (phases : List (Phase ω)) (w' : Job) (last s' : State ω) : Prop where
  run : Phases u m.number (State.initial u store world) (⟨none, State.initial u store world, first⟩ :: phases) last
  quiet : Quiet last s'
  shifts : Shifts u m.number (Job.ofModule u m.number strict store.scopes.size) first phases w' last
  goes : Goes u w' 1 last s'
  holds : Holds u w' s'
  names : ∀ i name, (s'.store.symbol? i name).isSome = (last.store.symbol? i name).isSome

/-- Every module that is bound takes such a course. -/
theorem bindModule_course (hu : u.Steady) {world : ω} {strict : Bool} (hsuits : Suits u m store strict)
    {results : BindResults} (h : bindModule u m.number store world = (.ok results, s')) :
    ∃ first phases w' last, Course u m store world strict first phases w' last s' := by
  obtain ⟨scope, first, phases, last, hbody, hreplays, hend⟩ :=
    bindTree_replays hu hsuits.outline rfl (bindTree_of_bindModule h)
  obtain ⟨hscope, _, hrest⟩ := (bindModuleBody_rests hu hsuits world).1 scope first hbody
  obtain ⟨w', hshifts⟩ := hreplays.shifts hu (nodup_numbers m) hrest
  have hbase : scope = w'.base := hscope.trans hshifts.kin.base.symm
  have hmarks : Upholds u w' 1 last (markListed scope : BindM ω Unit) := hbase ▸ markListed_upholds
  obtain ⟨hgo, hholds, _⟩ := (hidePrivates_upholds.seq (fun _ => hmarks) last (.refl _) hshifts.ends.1.holds).1 _ _ hend
  exact ⟨first, phases, w', last,
    { run := .intro hbody hreplays
      quiet := Along.bind hidePrivates_quiet (fun _ => markListed_quiet scope) hend
      shifts := hshifts
      goes := hgo
      holds := hholds
      names := fun i name =>
        congrFun₂ (Along.bind hidePrivates_keepsNames (fun _ => markListed_keepsNames scope) hend) i name }⟩

end ScopeFlow.Bind
