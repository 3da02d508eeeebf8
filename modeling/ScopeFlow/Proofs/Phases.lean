import ScopeFlow.Proofs.Outlines
import ScopeFlow.Proofs.Scopes

/-!
# The phases of binding

Binding a module is a sequence of phases, one for each execution scope: the body of the module, and then, in the order of
their queueing, the bodies that wait. The bound on the number of bodies is never met (`bindTree_phases`): a body claims the
numbers of its nodes, what its walk queues claims numbers among them, and the number of the node it belongs to is left over.

Each phase extends the graph behind what was there when it began (`Phases.extends`).
-/

namespace ScopeFlow.Bind

open FlowGraph NodeTree

variable {ω : Type} {lax : Bool} {A : Nat → Prop} {u : Setup ω} {s s' : State ω} {m : Module}

/-- An execution scope that was bound: the body that had waited, none for the module itself, and the states before and
after. -/
structure Phase (ω : Type) where
  task : Option Task
  before : State ω
  after : State ω

/-- The runs that bind the bodies that wait, first come first served, until none waits. -/
inductive Replays (u : Setup ω) : State ω → List (Phase ω) → State ω → Prop where
  | done {s : State ω} : s.queue = [] → Replays u s [] s
  | next {s t s' : State ω} {task : Task} {queue : List Task} {phases : List (Phase ω)} : s.queue = task :: queue →
      (replay u task).run { s with queue := queue } = .ok () t → Replays u t phases s' →
      Replays u s (⟨some task, { s with queue := queue }, t⟩ :: phases) s'

theorem Replays.queue {phases : List (Phase ω)} (h : Replays u s phases s') : s'.queue = [] := by
  induction h with
  | done hq => exact hq
  | next _ _ _ ih => exact ih

/-- The runs that bind a module: its body, and then the bodies that wait. -/
inductive Phases (u : Setup ω) (m : Module) (s : State ω) : List (Phase ω) → State ω → Prop where
  | intro {t s' : State ω} {scope : Nat} {phases : List (Phase ω)} : (bindModuleBody u m).run s = .ok scope t →
      Replays u t phases s' → Phases u m s (⟨none, s, t⟩ :: phases) s'

/-! ## Every body that waits is bound -/

/-- The statements of the code of a body. -/
def Body.own : Body → Multiset Node
  | .function _ _ body => owns body
  | .lambda .. => 0

theorem bindParameters_still (u : Setup ω) (ctx : Context) (ps : List Parameter) : Still (bindParameters u ctx ps) := by
  induction ps with
  | nil => exact .pure _
  | cons p ps ih =>
    have hrest : Still (do assignName ctx p.mark.index p.name; bindParameters u ctx ps) :=
      .bind (assignName_law (still_assigns _) (assignable_true _) _ _ _) fun _ => ih
    refine .bind (bindHere_law still_binds _) fun symbol => .ite ?_ hrest
    exact .bind (.ofQuiet (declareAt_quiet _ _)) fun _ => .bind (.ofQuiet (setDeclaration_quiet _ _)) fun _ => hrest

/-- Binding a body that waited queues bodies of it, each once. -/
theorem replay_queues (hu : u.Steady) (task : Task) : Queues task.body.own task.body.nodes (replay u task) := by
  have henter : ∀ f : BindM ω Unit, Queues task.body.own task.body.nodes f →
      Queues task.body.own task.body.nodes (do setCurrent (← newStart); f) :=
    fun f hf => .after (still.newNode _) fun _ => .after (still.setCurrent _) fun _ => hf
  unfold replay
  cases hbody : task.body with
  | function mark params body =>
    rw [hbody] at henter
    refine henter _ (.after (bindParameters_still _ _ _) fun _ => .after still.newBranch fun returns => ?_)
    refine .before ((walkStatements_queues u hu _ body).mono (le_refl _) (Multiset.le_add_left _ _)) fun _ => ?_
    refine .bind (.bind (.ofQuiet .current) fun _ => still.modifyFacts _ _) fun _ => .bind (still.linkCurrent _) fun _ => ?_
    exact .bind (.ofQuiet (.bind .get fun _ => .pure _)) fun _ => still.modifyFacts _ _
  | lambda mark params body =>
    rw [hbody] at henter
    refine henter _ (.after (bindParameters_still _ _ _) fun _ => ?_)
    exact .before ((visitExpr_queues u hu _ .value body).mono (le_refl _) (Multiset.le_add_left _ _)) fun _ => still.stampAfter _

/-- Binding the body of a module queues bodies of the module, each once. -/
theorem bindModuleBody_queues (hu : u.Steady) (m : Module) :
    Queues (owns m.body) (nodesIn (Stmt.trees m.body)) (bindModuleBody u m) := by
  refine .after (.ofQuiet (newScope_quiet _ _)) fun scope => .after (still.modifyFacts _ _) fun _ => ?_
  refine .after (.forM (fun (p : String × String) => .ofQuiet (addIntrinsic_quiet u _ p.1 _ p.2)) _) fun _ =>
    .after (still.newNode _) fun _ => ?_
  refine .after (still.setCurrent _) fun _ => .after (still.stamp _) fun _ =>
    .before (walkStatements_queues u hu _ m.body) fun _ => ?_
  exact .bind (.ofQuiet (showKeys_quiet _)) fun _ => .bind (still.stampAfter _) fun _ => .pure _

theorem nextTask_nil (h : s.queue = []) : (nextTask : BindM ω (Option Task)).run s = .ok none s := by
  show EStateM.Result.ok _ _ = _
  rw [h]

theorem nextTask_cons {task : Task} {queue : List Task} (h : s.queue = task :: queue) :
    (nextTask : BindM ω (Option Task)).run s = .ok (some task) { s with queue := queue } := by
  show EStateM.Result.ok _ _ = _
  rw [h]

/-- A bound above the number of claimed numbers is not met. -/
theorem drain_replays (hu : u.Steady) (bound : Nat) : ∀ ⦃s s' : State ω⦄ ⦃count : Nat⦄, (claimed s.queue).card < bound →
    (drain nextTask (replay u) bound).run s = .ok count s' → ∃ phases, Replays u s phases s' := by
  induction bound with
  | zero => intro s s' count hlt; exact absurd hlt (by omega)
  | succ bound ih =>
    intro s s' count hlt h
    obtain ⟨next, t, h1, h⟩ := bind_ok.1 h
    cases hq : s.queue with
    | nil =>
      rw [nextTask_nil hq] at h1
      cases h1
      obtain ⟨_, rfl⟩ := pure_ok.1 h
      exact ⟨[], .done hq⟩
    | cons task queue =>
      rw [nextTask_cons hq] at h1
      cases h1
      obtain ⟨_, t, h2, h⟩ := bind_ok.1 h
      obtain ⟨more, t', h3, h⟩ := bind_ok.1 h
      obtain ⟨_, rfl⟩ := pure_ok.1 h
      -- What the walk queues claims less than the body it comes from.
      obtain ⟨new, hnew, hclaimed, _⟩ := replay_queues hu task h2
      have hrest : (claimed t.queue).card < bound := by
        have hcard := Multiset.card_le_card hclaimed
        rw [hq, claimed_cons, Multiset.card_add, Multiset.card_add, Multiset.card_singleton] at hlt
        rw [hnew, claimed_append, Multiset.card_add]
        show (claimed queue).card + (claimed new).card < bound
        omega
      obtain ⟨phases, hphases⟩ := ih hrest h3
      exact ⟨_, .next hq h2 hphases⟩

theorem hidePrivates_quiet : IsQuiet (hidePrivates : BindM ω Unit) := by
  refine .bind .get fun s => .forM (fun p => ?_) _
  exact .ite (.pure _) (adjustSymbol_quiet _ _)

theorem markListed_quiet (scope : Nat) : IsQuiet (markListed scope : BindM ω Unit) :=
  .bind .get fun _ => .forM (fun _ => adjustSymbol_quiet _ _) _

/-- Binding a module is binding its body and then, until none waits, the bodies that wait; in the end symbols are hidden and
listed. -/
theorem bindTree_replays (hu : u.Steady) (ho : u.outline = Outline.ofModule m) (hq : s.queue = [])
    {results : BindResults} (h : (bindTree u m).run s = .ok results s') :
    ∃ scope t₁ phases t₂, (bindModuleBody u m).run s = .ok scope t₁ ∧ Replays u t₁ phases t₂ ∧
      (do hidePrivates; markListed scope : BindM ω Unit).run t₂ = .ok () s' := by
  obtain ⟨scope, t1, h1, h⟩ := bind_ok.1 h
  obtain ⟨_, t2, h2, h⟩ := bind_ok.1 h
  obtain ⟨_, t3, h3, h⟩ := bind_ok.1 h
  obtain ⟨_, t4, h4, h⟩ := bind_ok.1 h
  obtain ⟨_, t5, h5, h⟩ := bind_ok.1 h
  obtain ⟨_, rfl⟩ := pure_ok.1 h
  obtain ⟨_, rfl⟩ := get_ok.1 h5
  obtain ⟨count, hdrain⟩ := discard_ok.1 h2
  have hlt : (claimed t1.queue).card < u.outline.size + 1 := by
    obtain ⟨new, hnew, hclaimed, _⟩ := bindModuleBody_queues hu m h1
    have hcard := Multiset.card_le_card hclaimed
    have hsize : u.outline.size = m.tree.size := by rw [ho, Outline.ofModule, Outline.size_ofTree]
    have hbody : (Node.numbers (nodesIn (Stmt.trees m.body))).card ≤ m.tree.size := by
      simp only [Node.numbers, nodesIn, Multiset.card_map, Multiset.coe_card, length_preorders, Module.tree, NodeTree.size,
        sizes_append]
      omega
    rw [hnew, hq, List.nil_append]
    omega
  obtain ⟨phases, hphases⟩ := drain_replays hu _ hlt hdrain
  exact ⟨scope, t1, phases, t2, h1, hphases, bind_ok.2 ⟨_, t3, h3, h4⟩⟩

theorem bindTree_phases (hu : u.Steady) (ho : u.outline = Outline.ofModule m) (hq : s.queue = [])
    {results : BindResults} (h : (bindTree u m).run s = .ok results s') :
    ∃ phases t, Phases u m s phases t ∧ Quiet t s' := by
  obtain ⟨scope, t₁, phases, t₂, hbody, hphases, hend⟩ := bindTree_replays hu ho hq h
  exact ⟨_, t₂, .intro hbody hphases, Along.bind hidePrivates_quiet (fun _ => markListed_quiet scope) hend⟩

/-! ## What a phase does -/

/-- What a phase builds: the graph grows behind what was there before, from a start of its own. -/
structure Phase.Builds (lax : Bool) (p : Phase ω) : Prop where
  grown : Extends lax p.before.graph.size (fun _ => True) p.before p.after
  begins : BeginsAt p.after.graph p.before.graph.size

/-- The phase of a body that waited. -/
theorem replay_builds (hu : u.Steady) (hs : Settled lax s) {task : Task} (hb : task.body.Fits lax fun _ => True) {x : Unit}
    (h : (replay u task).run s = .ok x s') : Phase.Builds lax ⟨some task, s, s'⟩ := by
  unfold replay at h
  cases hbody : task.body with
  | function mark params body =>
    rw [hbody] at h hb
    have hwalk := walkStatements_extends (a := s.graph.size) hu body hb.2
    obtain ⟨returns, t1, t2, w1, _, hstart, hinner, hrun, w2, _⟩ := bindFunctionBody_laid hs rfl
      (B := fun _ => True) (fun _ _ => trivial) hwalk h
    have x2 := hwalk _ w1.sound hinner hrun
    exact ⟨(w1.toExtends.trans x2).trans (w2.toExtends.mono fun _ _ => trivial), hstart.grow (x2.grows.trans w2.grows)⟩
  | lambda mark params body =>
    rw [hbody] at h hb
    obtain ⟨t1, w1, _, hstart, hrun⟩ := bindLambdaBody_laid hu hs rfl hb.1 hb.2 h
    have e2 := stampAfter_evaluates (A := fun _ => True) trivial w1.sound (.bare 0 0) hrun
    exact ⟨w1.toExtends.trans e2.toExtends, hstart.grow e2.grows⟩

/-- The phase of the module itself. -/
theorem bindModuleBody_builds (hu : u.Steady) (hs : Sound lax s.graph.size s)
    (hm : NodeTree.AllIn (Node.Fits lax fun _ => True) (Stmt.trees m.body)) {scope : Nat}
    (h : (bindModuleBody u m).run s = .ok scope s') : Phase.Builds lax ⟨none, s, s'⟩ := by
  have hwalk := walkStatements_extends (a := s.graph.size) hu m.body hm
  obtain ⟨t1, t2, w1, _, hstart, hrun, w2, _⟩ := bindModuleBody_laid (B := fun _ => True) hs trivial hwalk h
  have x2 := hwalk _ w1.sound (.bare _ _) hrun
  exact ⟨(w1.toExtends.trans x2).trans (w2.toExtends.mono fun _ _ => trivial), hstart.grow (x2.grows.trans w2.grows)⟩

/-- What is known between phases: what is stamped is the sentinel or leads back to a start. -/
structure Kept (lax : Bool) (s : State ω) : Prop where
  settled : Settled lax s
  tasks : ∀ t ∈ s.queue, t.body.Fits lax fun _ => True
  stamps : ∀ (m : Moment) (i : Nat) (r : FlowRef), (s.factsAt i).stamp? m = some r → r = 0 ∨ s.graph.Rooted lax r

theorem Phase.Builds.kept {p : Phase ω} (h : p.Builds lax) (hk : Kept lax p.before) : Kept lax p.after := by
  refine ⟨h.grown.sound.settled, fun t ht => ?_, fun m i r hr => ?_⟩
  · obtain ⟨new, hq, hnew⟩ := h.grown.tasks
    rw [hq] at ht
    rcases List.mem_append.1 ht with ht | ht
    · exact hk.tasks t ht
    · exact hnew t ht
  · rcases h.grown.stamps m i with hsame | ⟨_, r', hr', hknown⟩
    · rw [hsame] at hr
      exact (hk.stamps m i r hr).imp_right fun hroot => hroot.grow h.grown.grows
    · obtain rfl : r' = r := Option.some.inj (hr'.symm.trans hr)
      exact hknown.imp_right fun hroot => hroot.2

/-- The phases of the bodies that wait. Later phases leave what a phase built as it is. -/
theorem Replays.builds (hu : u.Steady) {phases : List (Phase ω)} (h : Replays u s phases s') (hk : Kept lax s) :
    Kept lax s' ∧ (∀ i < s.graph.size, s'.graph[i]? = s.graph[i]?) ∧
      ∀ p ∈ phases, p.Builds lax ∧ ∀ i < p.after.graph.size, s'.graph[i]? = p.after.graph[i]? := by
  induction h with
  | done _ => exact ⟨hk, fun _ _ => rfl, by simp⟩
  | @next s t s' task queue phases hq hrun hrest ih =>
    have hbefore : Kept lax { s with queue := queue } :=
      ⟨⟨hk.settled.formed, hk.settled.fresh⟩, fun t ht => hk.tasks t (by simp [hq, ht]), hk.stamps⟩
    have hb := replay_builds hu hbefore.settled (hk.tasks task (by simp [hq])) hrun
    obtain ⟨hend, hold, hphases⟩ := ih (hb.kept hbefore)
    have hsize : s.graph.size ≤ t.graph.size := hb.grown.grows.size_le
    refine ⟨hend, fun i hi => (hold i (hi.trans_le hsize)).trans (hb.grown.old i hi), fun p hp => ?_⟩
    rcases List.mem_cons.1 hp with rfl | hp
    · exact ⟨hb, hold⟩
    · exact hphases p hp

/-- Before anything is bound, nothing is known of any node. -/
theorem factsAt_initial (u : Setup ω) (store : Store) (world : ω) (i : Nat) :
    (State.initial u store world).factsAt i = {} := by
  simp only [State.factsAt, State.initial, Array.getElem?_replicate]
  split <;> rfl

/-- The phases of a module. -/
theorem Phases.builds (hu : u.Steady) {store : Store} {world : ω} (hid : 0 < store.nextFlowId)
    (hm : NodeTree.AllIn (Node.Fits lax fun _ => True) (Stmt.trees m.body)) {phases : List (Phase ω)}
    (h : Phases u m (State.initial u store world) phases s') :
    Kept lax s' ∧ ∀ p ∈ phases, p.Builds lax ∧ ∀ i < p.after.graph.size, s'.graph[i]? = p.after.graph[i]? := by
  obtain ⟨hrun, hrest⟩ := h
  have hs : Sound lax 1 (State.initial u store world) := sound_initial u hid world
  have hb := bindModuleBody_builds hu hs hm hrun
  have hk : Kept lax (State.initial u store world) := by
    refine ⟨hs.settled, by simp [State.initial], fun m i r hr => ?_⟩
    rw [factsAt_initial] at hr
    cases m <;> cases hr
  obtain ⟨hend, hold, hphases⟩ := hrest.builds hu (hb.kept hk)
  refine ⟨hend, fun p hp => ?_⟩
  rcases List.mem_cons.1 hp with rfl | hp
  · exact ⟨hb, hold⟩
  · exact hphases p hp

end ScopeFlow.Bind
