import ScopeFlow.Proofs.Phases
import ScopeFlow.Proofs.Walk
import ScopeFlow.Tree.Number

/-!
# The flow graph of a bound module

Two properties of the graph that binding leaves. The execution scopes of a module do not leak into one another: what is
stamped while one is bound leads back to nodes of that scope only. And without `finally` suites, a stamp is the sentinel
exactly if the walk back from it meets no start.
-/

namespace ScopeFlow

variable {g : FlowGraph}

namespace FlowGraph

/-- Whether a place is in the backward closure of another: antecedents lead back to it. -/
def LeadsTo (g : FlowGraph) : FlowRef → FlowRef → Prop :=
  Relation.ReflTransGen fun x y => x ∈ (g.nodeAt y).step.antecedents

theorem nodeAt_eq {r : FlowRef} {n : FlowNode} (h : g[r]? = some n) : g.nodeAt r = n := by
  simp [nodeAt, h]

/-- A set of places that holds the antecedents of its places holds all that leads to them. -/
theorem LeadsTo.closed {P : FlowRef → Prop} (hP : ∀ r, P r → ∀ x ∈ (g.nodeAt r).step.antecedents, P x)
    {x r : FlowRef} (h : g.LeadsTo x r) (hr : P r) : P x := by
  induction h using Relation.ReflTransGen.head_induction_on with
  | refl => exact hr
  | head hstep _ ih => exact hP _ ih _ hstep

/-- Nothing leads on from the sentinel but the sentinel itself. -/
theorem isReachable_sentinel (hg : g.Numbered) : g.isReachable 0 = false := by
  have hnode : g.nodeAt 0 = sentinel := nodeAt_eq hg.sentinel
  have hend : ∀ bound seen, g.reachFrom none bound [] seen = false := by
    intro bound seen
    cases bound <;> rfl
  simp [isReachable, reachFrom, hnode, sentinel, FlowStep.isUnreachable, hend]

end FlowGraph

namespace Bind

open FlowGraph

variable {ω : Type} {u : Setup ω} {m : Module} {store : Store} {world : ω} {results : BindResults} {s' : State ω}

/-- A run of `bindModule` is a run of `bindTree`. -/
theorem bindTree_of_bindModule (h : bindModule u m store world = (.ok results, s')) :
    (bindTree u m).run (State.initial u store world) = .ok results s' := by
  unfold bindModule at h
  split at h
  · rename_i hrun
    cases h
    exact hrun
  · cases h

/-- A run that ends without a fault gives results. -/
theorem bindModule_of_isOk (h : (bindModule u m store world).1.isOk = true) :
    ∃ results, bindModule u m store world = (.ok results, (bindModule u m store world).2) := by
  cases hrun : bindModule u m store world with
  | mk outcome s' =>
    rw [hrun] at h
    cases outcome with
    | ok results => exact ⟨results, rfl⟩
    | error => cases h

/-- The setup of a module from which no other module is seen. -/
def Setup.alone (m : Module) : Setup Unit :=
  { file := { path := "m.py", moduleName := "m" }
    outline := .ofModule m
    exports := fun _ store world => (.ok none, store, world) }

theorem Setup.alone_steady (m : Module) : (Setup.alone m).Steady := fun _ _ _ => le_refl _

/-- The state in which the first execution scope begins: there are the sentinel and a start. -/
def State.opened (u : Setup ω) (store : Store) (world : ω) : State ω :=
  { State.initial u store world with
    graph := FlowGraph.initial.push ⟨store.nextFlowId, .start⟩
    store := { store with nextFlowId := store.nextFlowId + 1 }
    past := (State.initial u store world).past.map (store :: ·)
    current := 1 }

theorem sound_opened {lax : Bool} (u : Setup ω) (hid : 0 < store.nextFlowId) (world : ω) :
    Sound lax 1 (State.opened u store world) :=
  (enterScope_walked (B := fun _ => True) (show Sound lax 1 _ from sound_initial u hid world).settled rfl).1.sound

/-- Whether a run ends without a fault, in a state that passes a test. -/
def endsIn {α : Type} (f : BindM ω α) (s : State ω) (test : State ω → Bool) : Bool :=
  match f.run s with
  | .ok _ s' => test s'
  | .error .. => false

theorem exists_of_endsIn {α : Type} {f : BindM ω α} {s : State ω} {test : State ω → Bool} (h : endsIn f s test = true) :
    ∃ x s', f.run s = .ok x s' ∧ test s' = true := by
  unfold endsIn at h
  split at h
  · rename_i x s' hrun
    exact ⟨x, s', hrun, h⟩
  · cases h

/-! ## Execution scopes -/

namespace Phase

/-- Whether a place is the sentinel or was created in a phase. -/
def Knows (p : Phase ω) (r : FlowRef) : Prop := r = 0 ∨ p.before.graph.size ≤ r ∧ r < p.after.graph.size

/-- What it is for the execution scope of a phase to be isolated from all others in a graph. -/
structure Isolated (p : Phase ω) (g : FlowGraph) : Prop where
  /-- The scope begins at its own start. -/
  entry : (g.nodeAt p.before.graph.size).step = .start
  /-- No node of an earlier scope changes, and no label of one gains an antecedent. -/
  untouched : ∀ i < p.before.graph.size, p.after.graph[i]? = p.before.graph[i]?
  /-- What is stamped is the sentinel or was created in the phase. -/
  stamped : ∀ (m : Moment) (i : Nat), (p.after.factsAt i).stamp? m = (p.before.factsAt i).stamp? m ∨
    ∃ r, (p.after.factsAt i).stamp? m = some r ∧ p.Knows r
  /-- So is all that leads to such a place, and there is no start among it but the scope's own. -/
  enclosed : ∀ r x, p.Knows r → g.LeadsTo x r →
    p.Knows x ∧ ((g.nodeAt x).step.isStart = true → x = p.before.graph.size)

theorem Builds.isolated {p : Phase ω} (h : p.Builds true)
    (hg : ∀ i < p.after.graph.size, g[i]? = p.after.graph[i]?) : p.Isolated g := by
  have hformed := h.grown.sound.formed
  have hzero : g.nodeAt 0 = sentinel :=
    nodeAt_eq ((hg 0 (hformed.base.trans_le hformed.within)).trans hformed.sentinel)
  have hnode : ∀ {r : FlowRef}, p.before.graph.size ≤ r → r < p.after.graph.size →
      ∃ n, p.after.graph[r]? = some n ∧ g.nodeAt r = n := by
    intro r _ hr
    obtain ⟨n, hn⟩ := exists_node hr
    exact ⟨n, hn, nodeAt_eq ((hg r hr).trans hn)⟩
  have hclosed : ∀ r, p.Knows r → ∀ x ∈ (g.nodeAt r).step.antecedents, p.Knows x := by
    rintro r (rfl | ⟨hle, hlt⟩) x hx
    · rw [hzero] at hx
      cases hx
    · obtain ⟨n, hn, heq⟩ := hnode hle hlt
      exact hformed.confined r n hle hn x (heq ▸ hx)
  refine ⟨?_, h.grown.old, fun m i => (h.grown.stamps m i).imp_right ?_, fun r x hr hx => ?_⟩
  · obtain ⟨id, hn⟩ := h.begins
    rw [nodeAt_eq ((hg _ (Array.getElem?_eq_some_iff.1 hn).1).trans hn)]
  · rintro ⟨_, r, hr, hk⟩
    exact ⟨r, hr, hk.imp_right fun hroot => ⟨hroot.1, hroot.2.lt_size⟩⟩
  · have hkx := hx.closed hclosed hr
    refine ⟨hkx, fun hstart => ?_⟩
    rcases hkx with rfl | ⟨hle, hlt⟩
    · rw [hzero] at hstart
      cases hstart
    · obtain ⟨n, hn, heq⟩ := hnode hle hlt
      exact hformed.entry x n hle hn (heq ▸ hstart)

end Phase

/-- The execution scopes of a module do not leak into one another: binding is a sequence of phases, one for each scope, and
each of them is isolated in the graph that is left. -/
theorem scopes_isolated (hu : u.Steady) (ho : u.outline = Outline.ofModule m) (hid : 0 < store.nextFlowId)
    (h : bindModule u m store world = (.ok results, s')) :
    ∃ phases t, Phases u m (State.initial u store world) phases t ∧ Quiet t s' ∧ ∀ p ∈ phases, p.Isolated s'.graph := by
  obtain ⟨phases, t, hphases, hquiet⟩ := bindTree_phases hu ho rfl (bindTree_of_bindModule h)
  have hm : NodeTree.AllIn (Node.Fits true fun _ => True) (Stmt.trees m.body) := fun _ _ => ⟨trivial, .inl rfl⟩
  obtain ⟨_, hbuilds⟩ := hphases.builds hu hid hm
  refine ⟨phases, t, hphases, hquiet, fun p hp => ?_⟩
  rw [hquiet.graph]
  exact (hbuilds p hp).1.isolated (hbuilds p hp).2

/-- A function and a jump inside a `try` with a `finally` suite, in a loop. -/
def sampleLoop : Module :=
  Module.number { body := [
    .whileLoop {} (.name {} "x") [
      .tryBlock {} false [
        .function {} false "f" (.mk {} [] [] none [] [] none []) [.returnValue {} none] [] none,
        .breakLoop {}] [] [] [.pass {}]] []] }

theorem sampleLoop_isOk : (bindModule (Setup.alone sampleLoop) sampleLoop {} ()).1.isOk = true := by decide +kernel

theorem sampleLoop_isolated : ∃ results s' phases t,
    bindModule (Setup.alone sampleLoop) sampleLoop {} () = (.ok results, s') ∧
    Phases (Setup.alone sampleLoop) sampleLoop (State.initial (Setup.alone sampleLoop) {} ()) phases t ∧ Quiet t s' ∧
    ∀ p ∈ phases, p.Isolated s'.graph := by
  obtain ⟨results, h⟩ := bindModule_of_isOk sampleLoop_isOk
  obtain ⟨phases, t, hphases⟩ := scopes_isolated (Setup.alone_steady _) rfl (by decide) h
  exact ⟨results, _, phases, t, h, hphases⟩

/-! ## Stamps -/

/-- Without `finally` suites, the walk back from a stamp meets a start unless the stamp is the sentinel, and the sentinel is
what marks code that cannot run. -/
theorem stamp_reachable_iff (hu : u.Steady) (ho : u.outline = Outline.ofModule m) (hid : 0 < store.nextFlowId)
    (hm : m.tree.All fun n => n.hasFinally = false) (h : bindModule u m store world = (.ok results, s')) (moment : Moment)
    (node : Nat) (r : FlowRef) (hr : (s'.factsAt node).stamp? moment = some r) :
    (s'.graph.isReachable r = true ↔ r ≠ 0) ∧ ((s'.graph.nodeAt r).step.isUnreachable = true ↔ r = 0) := by
  obtain ⟨phases, t, hphases, hquiet⟩ := bindTree_phases hu ho rfl (bindTree_of_bindModule h)
  have hfits : NodeTree.AllIn (Node.Fits false fun _ => True) (Stmt.trees m.body) := by
    simp only [Module.tree, NodeTree.all_mk, NodeTree.allIn_append] at hm
    exact hm.2.1.imp fun n hn => ⟨trivial, .inr hn⟩
  obtain ⟨hkept, _⟩ := hphases.builds hu hid hfits
  have hnumbered := hkept.settled.formed.toNumbered
  have hstamp : (t.factsAt node).stamp? moment = some r := by
    rw [← hr]
    exact (hquiet.stamp moment node).symm
  rw [hquiet.graph]
  rcases hkept.stamps moment node r hstamp with rfl | hroot
  · simp [isReachable_sentinel hnumbered, nodeAt_eq hnumbered.sentinel, sentinel, FlowStep.isUnreachable]
  · have hreach := isReachable_of_rooted hnumbered hroot
    have hne : r ≠ 0 := by
      rintro rfl
      rw [isReachable_sentinel hnumbered] at hreach
      cases hreach
    obtain ⟨n, hn⟩ := exists_node hroot.lt_size
    refine ⟨iff_of_true hreach hne, iff_of_false (fun hdead => ?_) hne⟩
    rw [nodeAt_eq hn] at hdead
    exact hne (hkept.settled.formed.living r n hn hdead)

/-- A statement behind a jump, in a loop, and a function. -/
def sampleJump : Module :=
  Module.number { body := [
    .whileLoop {} (.boolOp {} .or [.name {} "x", .name {} "y"]) [.breakLoop {}, .pass {}] [],
    .function {} false "f" (.mk {} [] [] none [] [] none []) [.returnValue {} none] [] none] }

theorem sampleJump_stamps :
    let s := (bindModule (Setup.alone sampleJump) sampleJump {} ()).2
    ((s.factsAt 6).stamp? .reached = some 0 ∧ s.graph.isReachable 0 = false) ∧
      ((s.factsAt 7).stamp? .left = some 12 ∧ s.graph.isReachable 12 = true) := by
  intro s
  have hm : ∀ n ∈ sampleJump.tree.preorder, n.hasFinally = false := by decide +kernel
  have hok : (bindModule (Setup.alone sampleJump) sampleJump {} ()).1.isOk = true := by decide +kernel
  obtain ⟨results, h⟩ := bindModule_of_isOk hok
  have hdead : (s.factsAt 6).stamp? .reached = some 0 := by decide +kernel
  have hlive : (s.factsAt 7).stamp? .left = some 12 := by decide +kernel
  refine ⟨⟨hdead, ?_⟩, hlive, ?_⟩
  · simpa using (stamp_reachable_iff (Setup.alone_steady _) rfl (by decide) hm h _ _ _ hdead).1
  · exact (stamp_reachable_iff (Setup.alone_steady _) rfl (by decide) hm h _ _ _ hlive).1.2 (by decide)

end Bind

end ScopeFlow
