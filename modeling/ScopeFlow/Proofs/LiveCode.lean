import ScopeFlow.Proofs.FlowGraphs
import ScopeFlow.Proofs.Liveness
import ScopeFlow.Proofs.Numbering

/-!
# Live code is never marked dead

What an execution scope may run to, its walk shows at the end of its phase (`walkStatements_lives`). What the walk has shown
is still there when all phases are over: the bodies that wait have nodes of their own (`Waiting`), and the phase of a body
stamps only those and the node that the body belongs to (`replay_touches`).
-/

namespace ScopeFlow.Bind

open FlowGraph NodeTree

variable {ω : Type} {u : Setup ω} {m : Module} {s s' : State ω} {dead : Nat → Bool} {i : Nat}

/-! ## Statements that are reached -/

mutual

/-- A statement that is reached on the way through a statement belongs to its code. -/
theorem mem_own_of_runsTo {c : StaticContext} (s : Stmt)
    (h : s.RunsTo dead c (.reaches i)) : i ∈ Node.numbers (own s) := by
  match s with
  | .classDef _ _ _ _ body _ =>
    rw [Stmt.RunsTo] at h
    simp [own, mem_owns_of_allRunTo body h]
  | .forLoop _ _ _ _ body orElse =>
    rw [Stmt.RunsTo] at h
    simp only [own, Node.numbers_add, Multiset.mem_add]
    generalize ho : Outcome.reaches i = o at h
    induction h with
    | exhausted h => exact .inr (mem_owns_of_allRunTo orElse (ho ▸ h))
    | again _ _ ih => exact ih ho
    | broken _ => cases ho
    | left _ h => exact .inl (.inr (mem_owns_of_allRunTo body (ho ▸ h)))
  | .whileLoop _ _ body orElse =>
    rw [Stmt.RunsTo] at h
    simp only [own, Node.numbers_add, Multiset.mem_add]
    generalize ho : Outcome.reaches i = o at h
    induction h with
    | exhausted h => exact .inr (mem_owns_of_allRunTo orElse (ho ▸ h.2))
    | again _ _ ih => exact ih ho
    | broken _ => cases ho
    | left _ h => exact .inl (.inr (mem_owns_of_allRunTo body (ho ▸ h.2)))
  | .ifElse _ _ body orElse =>
    rw [Stmt.RunsTo] at h
    simp only [own, Node.numbers_add, Multiset.mem_add]
    rcases h with ⟨_, h⟩ | ⟨_, h⟩
    · exact .inl (.inr (mem_owns_of_allRunTo body h))
    · exact .inr (mem_owns_of_allRunTo orElse h)
  | .withBlock _ _ _ body =>
    rw [Stmt.RunsTo] at h
    rcases h with h | ⟨h, _⟩
    · simp [own, mem_owns_of_allRunTo body h]
    · cases h
  | .matchOn _ _ cases =>
    rw [Stmt.RunsTo] at h
    simp [own, mem_ownsCases_of_oneRunsTo cases h]
  | .tryBlock _ _ body handlers orElse final =>
    rw [Stmt.RunsTo] at h
    simp only [own, Node.numbers_add, Multiset.mem_add]
    rcases h with ⟨_, ⟨_, h⟩ | ⟨_, h⟩ | ⟨_, h⟩⟩ | ⟨o, hend, _, ⟨_, h⟩ | ⟨_, rfl⟩⟩
    · exact .inl (.inr (mem_owns_of_allRunTo orElse h))
    · exact .inl (.inl (.inl (.inr (mem_owns_of_allRunTo body h))))
    · exact .inl (.inl (.inr (mem_ownsHandlers_of_oneRunsTo handlers h)))
    · exact .inr (mem_owns_of_allRunTo final h)
    · cases hend
  | .function .. | .returnValue .. | .delete .. | .assign .. | .augAssign .. | .annAssign .. | .raise .. | .importModules ..
  | .importFrom .. | .globals .. | .nonlocals .. | .expr .. | .pass .. | .breakLoop .. | .continueLoop .. | .typeAlias ..
  | .nested .. =>
    rw [Stmt.RunsTo] at h
    · cases h
    all_goals simp
  | .assertion .. =>
    rw [Stmt.RunsTo] at h
    rcases h with ⟨_, h⟩ | ⟨_, h⟩ <;> cases h

theorem mem_owns_of_allRunTo {c : StaticContext} (ss : List Stmt)
    (h : Stmt.AllRunTo dead c ss (.reaches i)) : i ∈ Node.numbers (owns ss) := by
  match ss with
  | [] =>
    rw [Stmt.AllRunTo] at h
    cases h
  | s :: ss =>
    rw [Stmt.AllRunTo] at h
    simp only [owns, Node.numbers_add, Multiset.mem_add]
    rcases h with h | h | ⟨_, h⟩ | ⟨_, h⟩
    · obtain rfl : i = s.mark.index := Outcome.reaches.inj h
      exact .inl (mem_own s)
    · cases h
    · exact .inl (mem_own_of_runsTo s h)
    · exact .inr (mem_owns_of_allRunTo ss h)

theorem mem_ownsHandlers_of_oneRunsTo {c : StaticContext} (hs : List Handler)
    (h : Handler.OneRunsTo dead c hs (.reaches i)) : i ∈ Node.numbers (ownsHandlers hs) := by
  match hs with
  | [] => exact h.elim
  | .mk _ _ _ body :: hs =>
    rw [Handler.OneRunsTo] at h
    simp only [ownsHandlers, Node.numbers_add, Multiset.mem_add]
    exact h.imp (mem_owns_of_allRunTo body) (mem_ownsHandlers_of_oneRunsTo hs)

theorem mem_ownsCases_of_oneRunsTo {c : StaticContext} (cs : List MatchCase)
    (h : MatchCase.OneRunsTo dead c cs (.reaches i)) : i ∈ Node.numbers (ownsCases cs) := by
  match cs with
  | [] =>
    rw [MatchCase.OneRunsTo] at h
    cases h
  | .mk _ _ _ body :: cs =>
    rw [MatchCase.OneRunsTo] at h
    simp only [ownsCases, Node.numbers_add, Multiset.mem_add]
    rcases h with ⟨_, h⟩ | ⟨_, h⟩
    · exact .inl (mem_owns_of_allRunTo body h)
    · exact .inr (mem_ownsCases_of_oneRunsTo cs h)

end

/-! ## Marks that stay -/

/-- Whether a node is stamped for a moment, and not with the sentinel. -/
def State.Marks (s : State ω) (moment : Moment) (i : Nat) : Prop := ∃ r, (s.factsAt i).stamp? moment = some r ∧ r ≠ 0

/-- Whether a node is marked as dead. -/
def State.marksDead (s : State ω) (i : Nat) : Bool := (s.factsAt i).flow == some 0

/-- What is known of the bodies that wait: their nodes, each counted once, are nodes of the module, and so are those that the
bodies belong to. -/
structure Waiting (m : Module) (queue : List Task) : Prop where
  nodes : inside queue ≤ m.tree.nodes
  claims : claimed queue ≤ Node.numbers m.tree.nodes

/-- Whether the bodies that wait may be bound without a stamp on other nodes: control reaches nodes of the bodies, and what the
bodies belong to is left as well. -/
structure Touches (queue : List Task) (s s' : State ω) : Prop where
  stamps : ∀ (moment : Moment) (i : Nat), i ∉ claimed queue → (s'.factsAt i).stamp? moment = (s.factsAt i).stamp? moment
  flow : ∀ i, i ∉ Node.numbers (inside queue) → (s'.factsAt i).flow = (s.factsAt i).flow

theorem Touches.ofQuiet (h : Quiet s s') : Touches [] s s' :=
  ⟨fun moment i _ => h.stamp moment i, fun i _ => h.stamp .reached i⟩

/-- When the first body has been bound, what waits is the rest and bodies of the first one. -/
theorem Waiting.next {task : Task} {queue new : List Task} (hw : Waiting m (task :: queue))
    (hc : claimed new ≤ Node.numbers task.body.nodes) (hi : task.body.own + inside new ≤ task.body.nodes) :
    Waiting m (queue ++ new) := by
  refine ⟨le_trans ?_ hw.nodes, le_trans ?_ hw.claims⟩
  · rw [inside_append, inside_cons, add_comm]
    exact add_le_add ((Multiset.le_add_left _ _).trans hi) (le_refl _)
  · rw [claimed_append, claimed_cons, add_comm]
    exact add_le_add (hc.trans (Multiset.le_add_left _ _)) (le_refl _)

/-- The code of an execution scope: no statements, if it is that of a lambda. -/
def Phase.code (m : Module) (p : Phase ω) : List Stmt :=
  match p.task.map Task.body with
  | none => m.body
  | some (.function _ _ body) => body
  | some (.lambda ..) => []

/-- The node that an execution scope belongs to. -/
def Phase.node (m : Module) (p : Phase ω) : Nat := (p.task.elim m.mark fun t => t.body.mark).index

/-- Whether the execution scope is the body of a function. -/
def Phase.isFunction (p : Phase ω) : Bool :=
  match p.task.map Task.body with
  | some (.function ..) => true
  | _ => false

/-- What there is to see of an outcome when an execution scope has been bound: a statement is marked as live, and an end marks
the node that the scope belongs to. -/
def Phase.Shows (m : Module) (p : Phase ω) (s : State ω) : Outcome → Prop
  | .reaches i => s.MarksLive i
  | .completes => s.Marks .left (p.node m) ∧ (p.isFunction = true → s.Marks .bodyLeft (p.node m))
  | .returns => p.isFunction = true → s.Marks .left (p.node m)
  | _ => True

/-- What a phase has shown stays, while bodies of other nodes are bound. -/
theorem Phase.Shows.later {p : Phase ω} {queue : List Task} {o : Outcome} (h : p.Shows m s o) (ht : Touches queue s s')
    (hnode : p.node m ∉ claimed queue) (hreach : ∀ i, o = .reaches i → i ∉ Node.numbers (inside queue)) :
    p.Shows m s' o := by
  have hstays : ∀ moment, s.Marks moment (p.node m) → s'.Marks moment (p.node m) := by
    rintro moment ⟨r, hr, hne⟩
    exact ⟨r, (ht.stamps moment _ hnode).trans hr, hne⟩
  cases o with
  | reaches i =>
    obtain ⟨r, hr, hne⟩ := h
    exact ⟨r, (ht.flow i (hreach i rfl)).trans hr, hne⟩
  | completes => exact ⟨hstays _ h.1, fun hf => hstays _ (h.2 hf)⟩
  | returns => exact fun hf => hstays _ (h hf)
  | breaks | continues | raises => trivial

/-! ## One phase -/

theorem mem_numbers_paramNodes {ps : List Parameter} {p : Parameter} (hp : p ∈ ps) :
    p.mark.index ∈ Node.numbers (paramNodes ps) := by
  have hmem : Node.parameter p ∈ paramNodes ps := by simp [paramNodes, hp]
  exact Multiset.mem_map_of_mem (fun n => n.mark.index) hmem

/-- The phase of a body that waited: it stamps nodes of the body and the one that it belongs to, and it shows what the body may
run to. -/
theorem replay_lives (hu : u.Steady) (hs : Settled true s) {task : Task} {d : Nat → Bool}
    (hshape : ∀ n ∈ task.body.nodes, HasAlternatives n) (hnodup : (Node.numbers task.body.nodes).Nodup)
    (hsize : ∀ i ∈ claimed [task], i < s.facts.size) {x : Unit} (h : (replay u task).run s = .ok x s') :
    Settled true s' ∧ s'.facts.size = s.facts.size ∧ Touches [task] s s' ∧
      (Agrees d (Node.numbers task.body.own) s' → ∀ o,
        Stmt.AllRunTo d (s.static u) (Phase.code m ⟨some task, s, s'⟩) o → Phase.Shows m ⟨some task, s, s'⟩ s' o) := by
  simp only [claimed, List.map_cons, List.map_nil, List.sum_cons, List.sum_nil, add_zero, Multiset.mem_add,
    Multiset.mem_singleton] at hsize
  have hmark := hsize task.body.mark.index (.inl rfl)
  unfold replay at h
  obtain ⟨scope, body⟩ := task
  cases body with
  | function mark params body =>
    simp only [Body.nodes, Node.numbers_add, Multiset.mem_add] at hsize hnodup hshape
    have hwalk := walkStatements_extends (a := s.graph.size) hu body (fitsIn_region (Stmt.trees body))
    obtain ⟨returns, t1, t2, w1, h01, _, hinner, hrun, w2, hflow, hends⟩ := bindFunctionBody_laid
      (B := (· ∈ Node.numbers (paramNodes params.all))) hs rfl (fun p hp => mem_numbers_paramNodes hp) hwalk h
    have x2 := hwalk _ w1.sound hinner hrun
    obtain ⟨hbody, r, hafter, hlive⟩ := hends hmark
    have htouch : ∀ (moment : Moment) (i : Nat), i ∉ claimed [⟨scope, .function mark params body⟩] →
        (s'.factsAt i).stamp? moment = (s.factsAt i).stamp? moment := by
      intro moment i hi
      simp only [claimed, Body.mark, Body.nodes, List.map_cons, List.map_nil, List.sum_cons, List.sum_nil, add_zero,
        Multiset.mem_add, Multiset.mem_singleton, Node.numbers_add, not_or] at hi
      exact ((w2.stamps moment i).resolve_right fun h => hi.1 h.1).trans
        (((x2.stamps moment i).resolve_right fun h => hi.2.2 h.1).trans
          ((w1.stamps moment i).resolve_right fun h => hi.2.1 h.1))
    refine ⟨w2.sound.settled, (w2.nodes.trans x2.nodes).trans w1.nodes, ⟨htouch, fun i hi => ?_⟩, fun hdead o ho => ?_⟩
    · simp only [inside, Body.nodes, List.map_cons, List.map_nil, List.sum_cons, List.sum_nil, add_zero, Node.numbers_add,
        Multiset.mem_add, not_or] at hi
      rw [hflow, x2.flow_eq hi.2, w1.flow_eq hi.1]
    · have hspares : Spares (region (Stmt.trees body)) t2 s' := ⟨fun i _ => hflow i, w2.grows⟩
      obtain ⟨_, hshows⟩ := walkStatements_lives hu body (fun n hn => hshape n (.inr hn))
        (Multiset.nodup_add.1 hnodup).2.1 w1.sound hinner (fun i hi => w1.nodes ▸ hsize i (.inr (.inr hi)))
        (hdead.before hspares (owns_subset body)) hrun
      rw [w1.static] at hshows
      have hshow := hshows h01 o ho
      cases o with
      | reaches i => exact hspares.marksLive hshow.1 hshow.2
      | completes => exact ⟨⟨r, hafter, hlive (.inl hshow)⟩, fun _ => ⟨_, hbody, hshow⟩⟩
      | returns => exact fun _ => ⟨r, hafter, hlive (.inr (hshow returns rfl))⟩
      | breaks | continues | raises => trivial
  | lambda mark params body =>
    have hfits : body.tree.All (Node.Fits true (· ∈ Node.numbers (Body.lambda mark params body).nodes)) := by
      intro n hn
      have hmem : n ∈ (Body.lambda mark params body).nodes := Multiset.mem_add.2 (.inr hn)
      exact ⟨Multiset.mem_map_of_mem (fun n => n.mark.index) hmem, .inl rfl⟩
    obtain ⟨t1, w1, h01, _, hrun⟩ := bindLambdaBody_laid hu hs rfl
      (fun p hp => by simp [Body.nodes, mem_numbers_paramNodes hp]) hfits h
    have e2 := stampAfter_evaluates (A := (· = mark.index)) rfl w1.sound (.bare 0 0) hrun
    have hflow := (stampAfter_spares (u := u) (N := Node.numbers (Body.lambda mark params body).nodes) hrun).1
    simp only [stampAfter, bind_ok, current_ok] at hrun
    obtain ⟨_, _, ⟨rfl, rfl⟩, hrun⟩ := hrun
    have htouch : ∀ (moment : Moment) (i : Nat), i ∉ claimed [⟨scope, .lambda mark params body⟩] →
        (s'.factsAt i).stamp? moment = (s.factsAt i).stamp? moment := by
      intro moment i hi
      simp only [claimed, List.map_cons, List.map_nil, List.sum_cons, List.sum_nil, add_zero, Multiset.mem_add,
        Multiset.mem_singleton, not_or] at hi
      exact ((e2.stamps moment i).resolve_right fun h => hi.1 h.1).trans
        ((w1.stamps moment i).resolve_right fun h => hi.2 h.1)
    refine ⟨e2.sound.settled, e2.nodes.trans w1.nodes, ⟨htouch, fun i hi => ?_⟩, fun _ o ho => ?_⟩
    · simp only [inside, List.map_cons, List.map_nil, List.sum_cons, List.sum_nil, add_zero] at hi
      rw [flow_of_modifyFacts hrun fun _ => rfl, w1.flow_eq hi]
    · obtain rfl : o = .completes := ho
      refine ⟨⟨t1.current, ?_, h01⟩, fun hf => by cases hf⟩
      show (s'.factsAt mark.index).after = some t1.current
      rw [factsAt_of_modifyFacts hrun (w1.nodes ▸ hmark)]

/-- The phase of the module itself. -/
theorem bindModuleBody_lives (hu : u.Steady) (hs : Sound true s.graph.size s) {d : Nat → Bool}
    (hshape : m.tree.All HasAlternatives) (hnodup : (Node.numbers m.tree.nodes).Nodup)
    (hsize : ∀ i ∈ Node.numbers m.tree.nodes, i < s.facts.size) {scope : Nat}
    (h : (bindModuleBody u m).run s = .ok scope s') :
    Settled true s' ∧ s'.facts.size = s.facts.size ∧
      (Agrees d (Node.numbers (owns m.body)) s' → ∀ o,
        Stmt.AllRunTo d (s.static u) m.body o → Phase.Shows m ⟨none, s, s'⟩ s' o) := by
  simp only [Module.tree, all_mk, allIn_append] at hshape
  simp only [Module.tree, numbers_nodes_mk, region_append, Multiset.nodup_add] at hnodup
  simp only [Module.tree, numbers_nodes_mk, region_append, Multiset.mem_add, Multiset.mem_singleton] at hsize
  have hwalk := walkStatements_extends (a := s.graph.size) hu m.body (fitsIn_region (Stmt.trees m.body))
  obtain ⟨t1, t2, w1, h01, _, hrun, w2, hflow, hafter⟩ := bindModuleBody_laid (B := (· = m.mark.index)) hs rfl hwalk h
  have x2 := hwalk _ w1.sound (.bare _ _) hrun
  refine ⟨w2.sound.settled, (w2.nodes.trans x2.nodes).trans w1.nodes, fun hdead o ho => ?_⟩
  have hspares : Spares (region (Stmt.trees m.body)) t2 s' := ⟨fun i _ => hflow i, w2.grows⟩
  obtain ⟨_, hshows⟩ := walkStatements_lives hu m.body hshape.2.1 hnodup.2.1.1 w1.sound (.bare _ _)
    (fun i hi => w1.nodes ▸ hsize i (.inr (.inl hi))) (hdead.before hspares (owns_subset m.body)) hrun
  rw [w1.static] at hshows
  have hshow := hshows h01 o ho
  cases o with
  | reaches i => exact hspares.marksLive hshow.1 hshow.2
  | completes => exact ⟨⟨_, hafter (hsize _ (.inl rfl)), hshow⟩, fun hf => by cases hf⟩
  | returns => exact fun hf => by cases hf
  | breaks | continues | raises => trivial

/-! ## All phases -/

/-- The phases of the bodies that wait: they stamp nodes of the bodies and those that the bodies belong to, and what each of
them has shown is there in the end. -/
theorem Replays.lives (hu : u.Steady) (hshape : m.tree.All HasAlternatives) (hnodup : (Node.numbers m.tree.nodes).Nodup)
    {phases : List (Phase ω)} (h : Replays u s phases s') (hs : Settled true s) (hw : Waiting m s.queue)
    (hsize : ∀ i ∈ Node.numbers m.tree.nodes, i < s.facts.size) :
    Touches s.queue s s' ∧ ∀ p ∈ phases, ∀ o,
      Stmt.AllRunTo s'.marksDead (p.before.static u) (p.code m) o → p.Shows m s' o := by
  induction h with
  | done _ => exact ⟨⟨fun _ _ _ => rfl, fun _ _ => rfl⟩, by simp⟩
  | @next s t s' task queue phases hq hrun hrest ih =>
    rw [hq] at hw ⊢
    obtain ⟨new, hnew, hclaims, hinside⟩ := replay_queues hu task hrun
    have hnodes : task.body.nodes ≤ m.tree.nodes := by
      refine le_trans ?_ hw.nodes
      rw [inside_cons]
      exact Multiset.le_add_right _ _
    -- The first body claims numbers that no other body claims, and its own statements are not among those it queues.
    have hclaimed := Multiset.nodup_of_le hw.claims hnodup
    simp only [claimed_cons, Multiset.nodup_add, Multiset.disjoint_left] at hclaimed
    obtain ⟨⟨_, hbody, hmark⟩, _, hothers⟩ := hclaimed
    have hnode : task.body.mark.index ∉ claimed (queue ++ new) := by
      rw [claimed_append, Multiset.mem_add, not_or]
      exact ⟨hothers (by simp), fun hmem => hmark (by simp) (Multiset.mem_of_le hclaims hmem)⟩
    have hown : ∀ i ∈ Node.numbers task.body.own, i ∉ Node.numbers (inside (queue ++ new)) := by
      have hle : task.body.own + inside (queue ++ new) ≤ m.tree.nodes := by
        refine le_trans ?_ hw.nodes
        rw [inside_append, inside_cons, add_comm (inside queue), ← add_assoc]
        exact add_le_add hinside (le_refl _)
      have hdisjoint := Multiset.nodup_of_le (Node.numbers_le hle) hnodup
      rw [Node.numbers_add, Multiset.nodup_add, Multiset.disjoint_left] at hdisjoint
      exact fun i hi => hdisjoint.2.2 hi
    obtain ⟨hs', hfacts, htouch, hlives⟩ :=
      replay_lives (m := m) (s := { s with queue := queue }) (d := s'.marksDead) hu ⟨hs.formed, hs.fresh⟩
      (fun n hn => hshape n (Multiset.mem_of_le hnodes hn)) hbody
      (fun i hi => hsize i (Multiset.mem_of_le (le_trans (by rw [claimed_cons, claimed_cons]; simp [claimed]) hw.claims) hi))
      hrun
    have hqueue : t.queue = queue ++ new := hnew
    obtain ⟨hafter, hphases⟩ := ih hs' (hqueue ▸ hw.next hclaims hinside) (fun i hi => hfacts ▸ hsize i hi)
    rw [hqueue] at hafter
    have hdead : Agrees s'.marksDead (Node.numbers task.body.own) t := by
      intro i hi
      rw [State.marksDead, hafter.flow i (hown i hi)]
    refine ⟨⟨fun moment i hi => ?_, fun i hi => ?_⟩, fun p hp o ho => ?_⟩
    · rw [claimed_cons, Multiset.mem_add, Multiset.mem_add, not_or, not_or] at hi
      have hlater : i ∉ claimed (queue ++ new) := by
        rw [claimed_append, Multiset.mem_add, not_or]
        exact ⟨hi.2, fun hmem => hi.1.2 (Multiset.mem_of_le hclaims hmem)⟩
      exact (hafter.stamps moment i hlater).trans (htouch.stamps moment i (by simpa [claimed] using hi.1))
    · rw [inside_cons, Node.numbers_add, Multiset.mem_add, not_or] at hi
      have hlater : i ∉ Node.numbers (inside (queue ++ new)) := by
        rw [inside_append, Node.numbers_add, Multiset.mem_add, not_or]
        exact ⟨hi.2, fun hmem => hi.1 (Multiset.mem_of_le (Node.numbers_le ((Multiset.le_add_left _ _).trans hinside)) hmem)⟩
      exact (hafter.flow i hlater).trans (htouch.flow i (by simpa [inside] using hi.1))
    · rcases List.mem_cons.1 hp with rfl | hp
      · refine (hlives hdead o ho).later hafter hnode fun i hi => hown i ?_
        subst hi
        cases hb : task.body with
        | function mark params body =>
          simp only [Phase.code, Option.map_some, hb] at ho
          exact mem_owns_of_allRunTo body ho
        | lambda mark params body =>
          simp only [Phase.code, Option.map_some, hb, Stmt.AllRunTo] at ho
          cases ho
      · exact hphases p hp o ho

/-- The nodes of a numbered module have different numbers. -/
theorem nodup_numbers (m : Module) : (Node.numbers m.number.tree.nodes).Nodup := by
  have hlabels : m.number.tree.labels.Nodup := by
    rw [Module.labels_number]
    exact List.nodup_range
  exact hlabels

/-- There are facts of every node of a numbered module. -/
theorem lt_size_of_mem {u : Setup ω} (ho : u.outline = Outline.ofModule m.number) (store : Store) (world : ω) :
    ∀ i ∈ Node.numbers m.number.tree.nodes, i < (State.initial u store world).facts.size := by
  intro i hi
  have hlabel : i ∈ m.number.tree.labels := hi
  rw [Module.labels_number, List.mem_range] at hlabel
  simp only [State.initial, Array.size_replicate, ho, Outline.ofModule, Outline.size_ofTree]
  exact hlabel

/-- Live code is never marked dead. Binding is a sequence of phases, one for each execution scope. Whatever the code of a scope
may run to, from what decided static conditions when its phase began, is there to be seen when binding is over: statements
that may be reached are marked as live, and ends that may be met mark the node that the scope belongs to. -/
theorem live_code_marked (hu : u.Steady) (ho : u.outline = Outline.ofModule m.number) {store : Store} {world : ω}
    (hid : 0 < store.nextFlowId) (hshape : m.number.tree.All HasAlternatives) {results : BindResults}
    (h : bindModule u m.number store world = (.ok results, s')) :
    ∃ phases t, Phases u m.number (State.initial u store world) phases t ∧ Quiet t s' ∧ ∀ p ∈ phases, ∀ o,
      Stmt.AllRunTo s'.marksDead (p.before.static u) (p.code m.number) o → p.Shows m.number s' o := by
  obtain ⟨phases, t, hphases, hquiet⟩ := bindTree_phases hu ho rfl (bindTree_of_bindModule h)
  refine ⟨phases, t, hphases, hquiet, ?_⟩
  have hnodup := nodup_numbers m
  have hsize := lt_size_of_mem ho store world
  have hdeads : s'.marksDead = t.marksDead := by
    funext i
    have hflow : (s'.factsAt i).flow = (t.factsAt i).flow := hquiet.stamp .reached i
    rw [State.marksDead, State.marksDead, hflow]
  rw [hdeads]
  suffices hshows : ∀ p ∈ phases, ∀ o,
      Stmt.AllRunTo t.marksDead (p.before.static u) (p.code m.number) o → p.Shows m.number t o from
    fun p hp o hrun => (hshows p hp o hrun).later (Touches.ofQuiet hquiet) (by simp [claimed]) (by simp [inside])
  cases hphases with
  | @intro t1 _ scope phases hrun hrest =>
    obtain ⟨new, hnew, hclaims, hinside⟩ := bindModuleBody_queues hu m.number hrun
    have hqueue : t1.queue = new := hnew
    obtain ⟨hs, hfacts, hlives⟩ := bindModuleBody_lives (d := t.marksDead) hu (sound_initial u hid world) hshape hnodup
      hsize hrun
    have hbody : {Node.root m.number} + nodesIn (Stmt.trees m.number.body) ≤ m.number.tree.nodes := by
      rw [Module.tree, nodes_mk, nodesIn_append]
      exact add_le_add (le_refl _) (Multiset.le_add_right _ _)
    have hwaiting : Waiting m.number t1.queue := by
      rw [hqueue]
      have hle := (Multiset.le_add_left _ _).trans hbody
      exact ⟨((Multiset.le_add_left _ _).trans hinside).trans hle, hclaims.trans (Node.numbers_le hle)⟩
    obtain ⟨hafter, hphases⟩ := hrest.lives hu hshape hnodup hs hwaiting fun i hi => hfacts ▸ hsize i hi
    rw [hqueue] at hafter
    -- The module itself and the statements of its body do not wait.
    have hapart := Multiset.nodup_of_le (Node.numbers_le hbody) hnodup
    simp only [Node.numbers_add, Multiset.nodup_add, Multiset.disjoint_left] at hapart
    have hnode : m.number.mark.index ∉ claimed new := fun hmem =>
      hapart.2.2 (by simp [Node.mark]) (Multiset.mem_of_le hclaims hmem)
    have hown : ∀ i ∈ Node.numbers (owns m.number.body), i ∉ Node.numbers (inside new) := by
      have hdisjoint := Multiset.nodup_of_le (Node.numbers_le hinside) hapart.2.1
      rw [Node.numbers_add, Multiset.nodup_add, Multiset.disjoint_left] at hdisjoint
      exact fun i hi => hdisjoint.2.2 hi
    have hdead : Agrees t.marksDead (Node.numbers (owns m.number.body)) t1 := by
      intro i hi
      rw [State.marksDead, hafter.flow i (hown i hi)]
    intro p hp o ho
    rcases List.mem_cons.1 hp with rfl | hp
    · refine (hlives hdead o ho).later hafter hnode fun i hi => hown i ?_
      subst hi
      exact mem_owns_of_allRunTo _ ho
    · exact hphases p hp o ho

instance : DecidablePred HasAlternatives
  | .pattern (.alternatives _ ps) => inferInstanceAs (Decidable (ps ≠ []))
  | .pattern (.value ..) | .pattern (.singleton ..) | .pattern (.sequence ..) | .pattern (.mapping ..)
  | .pattern (.classOf ..) | .pattern (.star ..) | .pattern (.capture ..) | .root _ | .stmt _ | .expr _ | .handler _
  | .matchCase _ | .clause _ | .parameters _ | .parameter _ | .keyword _ | .importName _ | .withItem _ | .typeParameter _
  | .ignore _ => isTrue trivial

/-- A jump out of a loop through a `finally` suite. -/
def sampleRetry : Module :=
  { body := [.whileLoop {} (.name {} "x") [.tryBlock {} false [.breakLoop {}] [] [] [.pass {}]] [], .pass {}] }

theorem sampleRetry_live :
    let s := (bindModule (Setup.alone sampleRetry.number) sampleRetry.number {} ()).2
    Stmt.AllRunTo s.marksDead {} sampleRetry.number.body (.reaches 5) ∧ s.MarksLive 5 := by
  intro s
  have hok : (bindModule (Setup.alone sampleRetry.number) sampleRetry.number {} ()).1.isOk = true := by decide +kernel
  have hshape : ∀ n ∈ sampleRetry.number.tree.preorder, HasAlternatives n := by decide +kernel
  obtain ⟨results, h⟩ := bindModule_of_isOk hok
  obtain ⟨phases, t, hphases, _, hlive⟩ := live_code_marked (Setup.alone_steady _) rfl (by decide) hshape h
  have hreach : Stmt.AllRunTo s.marksDead {} sampleRetry.number.body (.reaches 5) := by
    -- One more round of the loop; the body breaks, and the `finally` suite is entered.
    have hbody : sampleRetry.number.body = [.whileLoop ⟨1, none⟩ (.name ⟨2, none⟩ "x")
      [.tryBlock ⟨3, none⟩ false [.breakLoop ⟨4, none⟩] [] [] [.pass ⟨5, none⟩]] [], .pass ⟨6, none⟩] := rfl
    rw [hbody, Stmt.AllRunTo, Stmt.RunsTo]
    refine .inr (.inr (.inl ⟨by simp, .left rfl ⟨.inl rfl, ?_⟩⟩))
    rw [Stmt.AllRunTo, Stmt.RunsTo]
    refine .inr (.inr (.inl ⟨by simp, .inr ⟨.breaks, rfl, .inr (.inl ⟨by simp, ?_⟩), .inl ⟨by simp, ?_⟩⟩⟩))
    · rw [Stmt.AllRunTo, Stmt.RunsTo]
      exact .inr (.inr (.inl ⟨by simp, rfl⟩))
    · rw [Stmt.AllRunTo]
      exact .inl rfl
  refine ⟨hreach, ?_⟩
  cases hphases with
  | intro hrun hrest => exact hlive _ (List.mem_cons_self ..) _ hreach

end ScopeFlow.Bind
