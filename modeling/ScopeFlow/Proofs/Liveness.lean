import ScopeFlow.Proofs.Execution
import ScopeFlow.Proofs.Scopes

/-!
# Code that may run is live

The walk of statements follows their abstract execution: what the execution may come to, the walk shows (`Shows`). An end that
may be reached is a live place or makes its label live, and a statement that may be reached is marked as live
(`walkStatements_lives`).

Marks that are made stay, because the nodes of different parts of a statement have different numbers. The walk in between
stamps only nodes of the part that is walked (`Spares`).
-/

namespace ScopeFlow.Bind

open FlowGraph NodeTree

variable {ω : Type} {a : Nat} {N M : Multiset Nat} {u : Setup ω} {s t s' : State ω} {o : Outcome} {ctx : Context}
  {dead : Nat → Bool} {stmt : Stmt} {lax : Bool} {m : Mark}

/-- A run that leaves the stamps on nodes with some numbers alone, while the graph grows. -/
structure Spares (N : Multiset Nat) (s s' : State ω) : Prop where
  flow : ∀ i ∈ N, (s'.factsAt i).flow = (s.factsAt i).flow
  grows : s.graph.Grows s'.graph

namespace Spares

theorem trans (h : Spares N s t) (h' : Spares N t s') : Spares N s s' :=
  ⟨fun i hi => (h'.flow i hi).trans (h.flow i hi), h.grows.trans h'.grows⟩

theorem mono (h : Spares N s s') (hsub : ∀ i ∈ M, i ∈ N) : Spares M s s' := ⟨fun i hi => h.flow i (hsub i hi), h.grows⟩

/-- A run around suites with the numbers `N`, which stamps none of their nodes. -/
theorem around (h : Extends lax a (· ∉ N) s s') : Spares N s s' :=
  ⟨fun _ hi => h.flow_eq (not_not.2 hi), h.grows⟩

/-- A run of a suite that has no node with the numbers `N`. -/
theorem apart (h : Extends lax a (· ∈ M) s s') (hd : Disjoint N M) : Spares N s s' :=
  ⟨fun _ hi => h.flow_eq (Multiset.disjoint_left.1 hd hi), h.grows⟩

/-- A run that stamps nothing. -/
theorem ofNone (h : Extends lax a (fun _ => False) s s') : Spares N s s' :=
  ⟨fun _ _ => h.flow_eq id, h.grows⟩

theorem ofQuiet (h : Quiet s s') : Spares N s s' := ⟨fun i _ => h.stamp .reached i, h.graph ▸ Grows.refl _⟩

theorem marksLive (h : Spares N s s') {i : Nat} (hi : i ∈ N) (hlive : s.MarksLive i) : s'.MarksLive i := by
  rw [State.MarksLive, h.flow i hi]
  exact hlive

end Spares

theorem stampAfter_spares {node : Nat} {x : Unit} (h : (stampAfter node : BindM ω Unit).run s = .ok x s') :
    Spares N s s' ∧ s'.current = s.current ∧ s'.static u = s.static u := by
  simp only [stampAfter, bind_ok, current_ok] at h
  obtain ⟨_, _, ⟨rfl, rfl⟩, h⟩ := h
  have hflow : ∀ i, (s'.factsAt i).flow = (s.factsAt i).flow := fun i => flow_of_modifyFacts h (fun _ => rfl) i
  obtain rfl := modifyFacts_ok.1 h
  exact ⟨⟨fun i _ => hflow i, Grows.refl _⟩, rfl, rfl⟩

/-! ## What a walk shows -/

/-- What there is to see of an outcome in the state in which a walk has ended: an end is live code or its label is live, and a
statement, one of those with the numbers `N`, is marked as live. -/
def Shows (ctx : Context) (N : Multiset Nat) (ended : Prop) (s : State ω) : Outcome → Prop
  | .completes => ended
  | .breaks => ∀ l ∈ ctx.breakTarget, s.graph.Live l
  | .returns => ∀ l ∈ ctx.returnTarget, s.graph.Live l
  | .continues | .raises => True
  | .reaches i => i ∈ N ∧ s.MarksLive i

/-- What was shown is still there after a run that spares the marks. -/
theorem Shows.later {ctx inner : Context} {ended ended' : Prop} (h : Shows inner N ended s o)
    (hs : Spares N s s') (hsub : ∀ i ∈ N, i ∈ M) (he : o = .completes → ended → ended')
    (hb : o = .breaks → ctx.breakTarget = inner.breakTarget) (hr : ctx.returnTarget = inner.returnTarget) :
    Shows ctx M ended' s' o := by
  cases o with
  | completes => exact he rfl h
  | breaks =>
    intro l hl
    rw [hb rfl] at hl
    exact (h l hl).grow hs.grows
  | returns =>
    intro l hl
    rw [hr] at hl
    exact (h l hl).grow hs.grows
  | continues | raises => trivial
  | reaches i => exact ⟨hsub i h.1, hs.marksLive h.1 h.2⟩

/-- The outcomes of a loop are shown if those of its rounds and of the code behind the last one are. -/
theorem Shows.rounds {ctx inner : Context} {ended again : Prop} {round exhausted : Outcome → Prop}
    (hround : ∀ o, round o → Shows inner N again t o) (hspares : Spares N t s') (hsub : ∀ i ∈ N, i ∈ M)
    (hexhausted : ∀ o, exhausted o → Shows ctx M ended s' o) (hbreak : (∀ l ∈ inner.breakTarget, t.graph.Live l) → ended)
    (hr : ctx.returnTarget = inner.returnTarget) (h : Rounds round exhausted o) : Shows ctx M ended s' o := by
  induction h with
  | exhausted ho => exact hexhausted _ ho
  | again _ _ ih => exact ih
  | broken hb => exact hbreak (hround _ hb)
  | @left o hl ho =>
    refine (hround o ho).later hspares hsub (fun h => ?_) (fun h => ?_) hr
    · subst h
      cases hl
    · subst h
      cases hl

/-- The outcomes of code that a `finally` suite follows are shown if those of the code and of the suite are. -/
theorem Shows.finally {ended : Prop} {tried final : Outcome → Prop}
    (htried : ∀ o, tried o → Shows ctx N ended s o) (hfinal : ∀ o, o ≠ .completes → final o → Shows ctx N ended s o)
    (h : Finally tried final o) : Shows ctx N ended s o := by
  rcases h with ⟨_, ho⟩ | ⟨o', _, ho', ⟨hne, ho⟩ | ⟨_, rfl⟩⟩
  · exact htried o ho
  · exact hfinal o hne ho
  · exact htried o ho'

/-- Marks that say of nodes with some numbers that they are dead exactly if they are stamped with the sentinel. -/
def Agrees (dead : Nat → Bool) (N : Multiset Nat) (s : State ω) : Prop :=
  ∀ i ∈ N, dead i = ((s.factsAt i).flow == some 0)

theorem Agrees.before (h : Agrees dead N s') (hs : Spares M s s') (hsub : ∀ i ∈ N, i ∈ M) :
    Agrees dead N s := by
  intro i hi
  rw [h i hi, hs.flow i (hsub i hi)]

theorem Agrees.mono (h : Agrees dead N s) (hsub : ∀ i ∈ M, i ∈ N) : Agrees dead M s :=
  fun i hi => h i (hsub i hi)

theorem Agrees.not_dead (h : Agrees dead N s) {i : Nat} (hi : i ∈ N) (hlive : s.MarksLive i) : dead i = false := by
  obtain ⟨r, hr, hne⟩ := hlive
  rw [h i hi, hr]
  simpa using hne

/-! ## The numbers of the parts of a statement -/

/-- The nodes of a tree may be walked around suites that share no number with it. -/
theorem fits_of_disjoint {t : NodeTree} (h : Disjoint (Node.numbers t.nodes) N) : t.All (Node.Fits true (· ∉ N)) := by
  intro n hn
  refine ⟨fun hi => Multiset.disjoint_left.1 h ?_ hi, .inl rfl⟩
  exact Multiset.mem_map_of_mem _ (show n ∈ t.nodes from hn)

theorem fitsIn_of_disjoint {ts : List NodeTree} (h : Disjoint (Node.numbers (nodesIn ts)) N) :
    AllIn (Node.Fits true (· ∉ N)) ts := by
  intro n hn
  refine ⟨fun hi => Multiset.disjoint_left.1 h ?_ hi, .inl rfl⟩
  exact Multiset.mem_map_of_mem _ (show n ∈ nodesIn ts from hn)

/-- The numbers of the nodes of trees. -/
def region (ts : List NodeTree) : Multiset Nat := Node.numbers (nodesIn ts)

@[simp] theorem region_nil : region [] = 0 := rfl

@[simp] theorem region_cons (t : NodeTree) (ts : List NodeTree) : region (t :: ts) = Node.numbers t.nodes + region ts := by
  simp [region]

@[simp] theorem region_append (ts us : List NodeTree) : region (ts ++ us) = region ts + region us := by simp [region]

@[simp] theorem numbers_nodes_mk (n : Node) (cs : List NodeTree) :
    Node.numbers (NodeTree.mk n cs).nodes = {n.mark.index} + region cs := by
  rw [nodes_mk, Node.numbers_add, Node.numbers_singleton, region]

/-- The nodes of trees may be walked as nodes of their region. -/
theorem fitsIn_region (ts : List NodeTree) : AllIn (Node.Fits true (· ∈ region ts)) ts := by
  intro n hn
  have hmem : n ∈ nodesIn ts := hn
  exact ⟨Multiset.mem_map_of_mem (fun n => n.mark.index) hmem, .inl rfl⟩

theorem mem_own (stmt : Stmt) : stmt.mark.index ∈ Node.numbers (own stmt) := by
  have h : Node.stmt stmt ∈ own stmt := by cases stmt <;> simp [own]
  exact Multiset.mem_map_of_mem _ h

theorem numbers_stmt (stmt : Stmt) : Node.numbers stmt.tree.nodes = {stmt.mark.index} + region stmt.tree.children := by
  cases stmt <;> simp only [Stmt.tree, numbers_nodes_mk, Node.mark, NodeTree.children]

theorem own_subset (stmt : Stmt) : ∀ i ∈ Node.numbers (own stmt), i ∈ Node.numbers stmt.tree.nodes :=
  fun _ => Multiset.mem_of_le (Node.numbers_le (own_le stmt))

theorem owns_subset (ss : List Stmt) : ∀ i ∈ Node.numbers (owns ss), i ∈ region (Stmt.trees ss) :=
  fun _ => Multiset.mem_of_le (Node.numbers_le (owns_le ss))

theorem ownsHandlers_subset (hs : List Handler) : ∀ i ∈ Node.numbers (ownsHandlers hs), i ∈ region (Handler.trees hs) :=
  fun _ => Multiset.mem_of_le (Node.numbers_le (ownsHandlers_le hs))

theorem ownsCases_subset (cs : List MatchCase) : ∀ i ∈ Node.numbers (ownsCases cs), i ∈ region (MatchCase.trees cs) :=
  fun _ => Multiset.mem_of_le (Node.numbers_le (ownsCases_le cs))

/-- Of numbers without repetitions, those of two parts have none in common. -/
theorem split_of_nodup {L X N : Multiset Nat} (h : L.Nodup) (heq : L = X + N) : Disjoint X N ∧ N.Nodup := by
  rw [heq, Multiset.nodup_add] at h
  exact ⟨h.2.2, h.2.1⟩

/-! ## Statements -/

/-- What it is for the walk of a statement to end: going on as live code, or, for an `elif`, a live label behind it. -/
def Ended (join : Option FlowRef) (s : State ω) : Prop :=
  match join with
  | none => s.current ≠ 0
  | some label => s.graph.Live label

theorem behind_of_isPlain (c : StaticContext) (h : isPlain stmt = true) :
    c.behind dead stmt = c := by
  cases stmt <;> simp_all [isPlain, StaticContext.behind]

theorem runsTo_of_isPlain {c : StaticContext} (h : isPlain stmt = true)
    (ho : stmt.RunsTo dead c o) : o = .completes := by
  cases stmt <;> simp_all [isPlain, Stmt.RunsTo]

/-- A simple statement leaves live code live and keeps its mark. -/
theorem visitStmt_plain_lives (hu : u.Steady) (hp : isPlain stmt = true)
    (hnodup : (Node.numbers stmt.tree.nodes).Nodup) (hs : Sound true a s) (hw : ctx.Within a s.graph)
    (h0 : s.current ≠ 0) (hlive : s.MarksLive stmt.mark.index) {x : Unit}
    (hrun : (visitStmt u ctx none stmt).run s = .ok x s') :
    s'.static u = (s.static u).behind dead stmt ∧ s'.MarksLive stmt.mark.index ∧
      ∀ o, stmt.RunsTo dead (s.static u) o → Shows ctx (Node.numbers stmt.tree.nodes) (Ended none s') s' o := by
  rw [numbers_stmt, Multiset.nodup_add, Multiset.disjoint_left] at hnodup
  obtain ⟨e, hmark⟩ := visitStmt_plain hu none hp (fitsIn_region stmt.tree.children) hs hw hrun
  refine ⟨?_, hmark (hnodup.2.2 (by simp)) h0 hlive, fun o ho => ?_⟩
  · rw [behind_of_isPlain _ hp, e.static]
  · rw [runsTo_of_isPlain hp ho]
    exact e.awake h0

theorem guardedBy_breakTarget (ctx : Context) (hasFinally : Bool) (abrupt : FlowRef) :
    (guardedBy ctx hasFinally abrupt).breakTarget = ctx.breakTarget := by
  unfold guardedBy
  split <;> rfl

theorem guardedBy_returnTarget (ctx : Context) (hasFinally : Bool) (abrupt : FlowRef) :
    (guardedBy ctx hasFinally abrupt).returnTarget = ctx.returnTarget := by
  unfold guardedBy
  split <;> rfl

/-- What it is for the walk of statements from one state to another to show what they may run to, where `ended` is what is seen
of their end. -/
def Reveals (u : Setup ω) (dead : Nat → Bool) (stmts : List Stmt) (ctx : Context) (s s' : State ω) (ended : Prop) : Prop :=
  s'.static u = (s.static u).behindAll dead stmts ∧
    (s.current ≠ 0 → ∀ o, Stmt.AllRunTo dead (s.static u) stmts o → Shows ctx (region (Stmt.trees stmts)) ended s' o)

/-- Whether statements show what they may run to, wherever they are walked. -/
def SuiteShows (u : Setup ω) (dead : Nat → Bool) (a : Nat) (stmts : List Stmt) : Prop :=
  (region (Stmt.trees stmts)).Nodup → ∀ ⦃ctx : Context⦄ ⦃s s' : State ω⦄ ⦃x : Unit⦄, Sound true a s → ctx.Within a s.graph →
    (∀ i ∈ region (Stmt.trees stmts), i < s.facts.size) → Agrees dead (Node.numbers (owns stmts)) s' →
    (walkStatements u ctx stmts).run s = .ok x s' → Reveals u dead stmts ctx s s' (s'.current ≠ 0)

/-- Whether the `elif` behind an `if` shows what it may run to; its end leads to the label behind both. -/
def ElifShows (u : Setup ω) (dead : Nat → Bool) (a : Nat) (stmts : List Stmt) : Prop :=
  (region (Stmt.trees stmts)).Nodup → isElif stmts = true → ∀ ⦃ctx : Context⦄ ⦃after : FlowRef⦄ ⦃s s' : State ω⦄ ⦃x : Unit⦄,
    Sound true a s → ctx.Within a s.graph → Joint a s.graph after → s.current ≠ 0 →
    (∀ i ∈ region (Stmt.trees stmts), i < s.facts.size) → Agrees dead (Node.numbers (owns stmts)) s' →
    (visitElif u ctx after stmts).run s = .ok x s' → Reveals u dead stmts ctx s s' (s'.graph.Live after)

/-- Whether `except` clauses show what they may run to if their labels are live. -/
def HandlersShow (u : Setup ω) (dead : Nat → Bool) (a : Nat) (handlers : List Handler) : Prop :=
  (region (Handler.trees handlers)).Nodup → ∀ ⦃ctx : Context⦄ ⦃after : FlowRef⦄ ⦃labels : List FlowRef⦄ ⦃s s' : State ω⦄
    ⦃ends : Bool⦄, Sound true a s → ctx.Within a s.graph → Joint a s.graph after → labels.length = handlers.length →
    (∀ l ∈ labels, a ≤ l ∧ s.graph.IsBranch l ∧ s.graph.Live l) → (∀ i ∈ region (Handler.trees handlers), i < s.facts.size) →
    Agrees dead (Node.numbers (ownsHandlers handlers)) s' → (visitHandlers u ctx after labels handlers).run s = .ok ends s' →
    s'.static u = (s.static u).behindHandlers dead handlers ∧
      ∀ o, Handler.OneRunsTo dead (s.static u) handlers o →
        Shows ctx (region (Handler.trees handlers)) (ends = true ∧ s'.graph.Live after) s' o

/-- Whether a statement shows what it may run to, wherever it is walked as live code. -/
def StmtShows (u : Setup ω) (dead : Nat → Bool) (a : Nat) (stmt : Stmt) : Prop :=
  (Node.numbers stmt.tree.nodes).Nodup → ∀ ⦃ctx : Context⦄ ⦃join : Option FlowRef⦄ ⦃s s' : State ω⦄ ⦃x : Unit⦄, Sound true a s →
    ctx.Within a s.graph → (∀ l ∈ join, Joint a s.graph l) → (isElif [stmt] = false → join = none) → s.current ≠ 0 →
    s.MarksLive stmt.mark.index → (∀ i ∈ Node.numbers stmt.tree.nodes, i < s.facts.size) →
      Agrees dead (Node.numbers (own stmt)) s' →
    (visitStmt u ctx join stmt).run s = .ok x s' →
    s'.static u = (s.static u).behind dead stmt ∧ s'.MarksLive stmt.mark.index ∧
      ∀ o, stmt.RunsTo dead (s.static u) o → Shows ctx (Node.numbers stmt.tree.nodes) (Ended join s') s' o

/-- A statement that is laid out around one suite keeps its mark, and behind the suite it spares the marks in it. -/
theorem suite_spared {t1 t2 : State ω} (hd : Disjoint {m.index} N) (x1 : Extends true a (· ∉ {m.index} + N) s t1)
    (x2 : Extends true a (· ∈ N) t1 t2) (x3 : Extends true a (· ∉ {m.index} + N) t2 s') (hlive : s.MarksLive m.index) :
    Spares N t2 s' ∧ s'.MarksLive m.index := by
  have hafter : Spares {m.index} t2 s' := (Spares.around x3).mono (by simp)
  have hspares := ((Spares.around x1).mono (by simp)).trans ((Spares.apart x2 hd).trans hafter)
  exact ⟨(Spares.around x3).mono (by simp +contextual), hspares.marksLive (by simp) hlive⟩

/-- The numbers of a statement and of its two suites. -/
abbrev sides (m : Mark) (body orElse : List Stmt) : Multiset Nat :=
    {m.index} + (region (Stmt.trees body) + region (Stmt.trees orElse))

section

variable {m : Mark} {body orElse : List Stmt} {after : FlowRef} {p q e : Prop} {t1 t2 t3 t4 : State ω} {X : Multiset Nat}

/-- A statement that is laid out around two suites keeps its mark, and behind each suite it spares the marks in it. -/
theorem suites_spared (hN : (sides m body orElse).Nodup) (w1 : Walked true a (· ∉ sides m body orElse) s t1)
    (x2 : Extends true a (· ∈ region (Stmt.trees body)) t1 t2) (w3 : Walked true a (· ∉ sides m body orElse) t2 t3)
    (x4 : Extends true a (· ∈ region (Stmt.trees orElse)) t3 t4) (hs4 : Spares (sides m body orElse) t4 s')
      (hlive : s.MarksLive m.index) :
    Spares (region (Stmt.trees body)) t2 s' ∧ Spares (region (Stmt.trees orElse)) t4 s' ∧ s'.MarksLive m.index := by
  simp only [Multiset.nodup_add, Multiset.disjoint_add_right] at hN
  obtain ⟨_, ⟨_, _, hbe⟩, hmb, hme⟩ := hN
  have hs1 := Spares.around w1.toExtends
  have hs3 := Spares.around w3.toExtends
  have hmark : Spares {m.index} s s' := ((hs1.mono (by simp +contextual)).trans (Spares.apart x2 hmb)).trans
    (((hs3.mono (by simp +contextual)).trans (Spares.apart x4 hme)).trans (hs4.mono (by simp +contextual)))
  exact ⟨(hs3.mono (by simp +contextual)).trans ((Spares.apart x4 hbe).trans (hs4.mono (by simp +contextual))),
    hs4.mono (by simp +contextual), hmark.marksLive (by simp) hlive⟩

theorem suite_extends (hu : u.Steady) (ss : List Stmt) (ctx : Context) :
    Performs true a (· ∈ region (Stmt.trees ss)) ctx (walkStatements u ctx ss) :=
  walkStatements_extends hu ss (fitsIn_region (Stmt.trees ss)) ctx

theorem suite_keeps (hu : u.Steady) (ss : List Stmt) (ctx : Context) : Keeps true a ctx (walkStatements u ctx ss) :=
  (suite_extends hu ss ctx).keeps

/-- A loop that is laid out around its suites shows what it may run to: its rounds begin if `p` holds, and the code behind the
last one is reached if `q` holds. -/
theorem loop_lives (hu : u.Steady) (hnodup : M.Nodup) (heq : M = X + sides m body orElse)
    (hsize : ∀ i ∈ M, i < s.facts.size) (hw : ctx.Within a s.graph)
    (hloop : LaysLoop true a (· ∉ sides m body orElse) ctx m.index (walkStatements u · body)
      (walkStatements u ctx orElse) p q s s')
    (hdead : Agrees dead (Node.numbers (owns body) + Node.numbers (owns orElse)) s') (hlive : s.MarksLive m.index)
    (hbody : SuiteShows u dead a body) (helse : SuiteShows u dead a orElse) :
    s'.static u = ((s.static u).behindAll dead body).behindAll dead orElse ∧ s'.MarksLive m.index ∧
      ∀ o, Rounds (fun o => p ∧ Stmt.AllRunTo dead (s.static u) body o)
        (fun o => q ∧ Stmt.AllRunTo dead ((s.static u).behindAll dead body) orElse o) o →
        Shows ctx M (s'.current ≠ 0) s' o := by
  obtain ⟨before, after, t1, t2, t3, t4, t5, w1, h1, hinner, hr1, w3, h3, hr2, w5, h5, hstamp⟩ := hloop
  have hN := (split_of_nodup hnodup heq).2
  have hparts := Multiset.nodup_add.1 (Multiset.nodup_add.1 hN).2.1
  have x2 := suite_extends hu body _ w1.sound hinner hr1
  have hw3 := ((hw.grow w1.grows).grow x2.grows).grow w3.grows
  have x4 := suite_extends hu orElse ctx w3.sound hw3 hr2
  have hsize3 : t3.facts.size = s.facts.size := (w3.nodes.trans x2.nodes).trans w1.nodes
  obtain ⟨hs6, hc6, hst6⟩ := stampAfter_spares (N := sides m body orElse) (u := u) hstamp
  obtain ⟨hs26, hs46, hmark⟩ := suites_spared hN w1 x2 w3 x4 ((Spares.around w5.toExtends).trans hs6) hlive
  obtain ⟨hstatic2, hshows2⟩ := hbody hparts.1 w1.sound hinner (fun i hi => w1.nodes ▸ hsize i (by simp [heq, hi]))
    ((hdead.mono (by simp +contextual)).before hs26 (owns_subset body)) hr1
  obtain ⟨hstatic4, hshows4⟩ := helse hparts.2.1 w3.sound hw3 (fun i hi => hsize3 ▸ hsize i (by simp [heq, hi]))
    ((hdead.mono (by simp +contextual)).before hs46 (owns_subset orElse)) hr2
  rw [w1.static] at hstatic2 hshows2
  rw [w3.static, hstatic2] at hstatic4 hshows4
  have hend : t4.current ≠ 0 ∨ t4.graph.Live after → s'.current ≠ 0 := fun h => hc6 ▸ h5 h
  refine ⟨by rw [hst6, w5.static, hstatic4], hmark, fun o ho => ?_⟩
  refine Shows.rounds (t := t2) (fun o ho => hshows2 (h1 ho.1) o ho.2) hs26 (by simp +contextual [heq]) (fun o ho => ?_)
    (fun hb => hend (.inr ?_)) rfl ho
  · exact (hshows4 (h3 ho.1) o ho.2).later hs46 (by simp +contextual [heq]) (fun _ h => hend (.inl h)) (fun _ => rfl) rfl
  · exact (hb after rfl).grow (w3.grows.trans x4.grows)

/-- An `if` that is laid out around its sides shows what it may run to: its body begins if `p` holds, and its other side if `q`
holds. -/
theorem branches_lives (hnodup : M.Nodup) (heq : M = X + sides m body orElse)
    (w1 : Walked true a (· ∉ sides m body orElse) s t1) (h1 : p → t1.current ≠ 0)
    (x2 : Extends true a (· ∈ region (Stmt.trees body)) t1 t2) (w3 : Walked true a (· ∉ sides m body orElse) t2 t3)
    (h3 : q → t3.current ≠ 0) (hjoins : t2.current ≠ 0 → t3.graph.Live after)
    (x4 : Extends true a (· ∈ region (Stmt.trees orElse)) t3 t4) (w5 : Walked true a (· ∉ sides m body orElse) t4 s')
    (hend : t4.graph.Live after → e)
    (hdead : Agrees dead (Node.numbers (owns body) + Node.numbers (owns orElse)) s') (hlive : s.MarksLive m.index)
    (hbody : Agrees dead (Node.numbers (owns body)) t2 → Reveals u dead body ctx t1 t2 (t2.current ≠ 0))
    (helse : Agrees dead (Node.numbers (owns orElse)) t4 → Reveals u dead orElse ctx t3 t4 (t4.graph.Live after)) :
    s'.static u = ((s.static u).behindAll dead body).behindAll dead orElse ∧ s'.MarksLive m.index ∧
      ∀ o, (p ∧ Stmt.AllRunTo dead (s.static u) body o ∨
        q ∧ Stmt.AllRunTo dead ((s.static u).behindAll dead body) orElse o) → Shows ctx M e s' o := by
  obtain ⟨hs25, hs45, hmark⟩ := suites_spared (split_of_nodup hnodup heq).2 w1 x2 w3 x4 (Spares.around w5.toExtends) hlive
  obtain ⟨hstatic2, hshows2⟩ := hbody ((hdead.mono (by simp +contextual)).before hs25 (owns_subset body))
  obtain ⟨hstatic4, hshows4⟩ := helse ((hdead.mono (by simp +contextual)).before hs45 (owns_subset orElse))
  rw [w1.static] at hstatic2 hshows2
  rw [w3.static, hstatic2] at hstatic4 hshows4
  refine ⟨by rw [w5.static, hstatic4], hmark, fun o ho => ?_⟩
  rcases ho with ⟨hp, ho⟩ | ⟨hq, ho⟩
  · exact (hshows2 (h1 hp) o ho).later hs25 (by simp +contextual [heq])
      (fun _ h => hend ((hjoins h).grow x4.grows)) (fun _ => rfl) rfl
  · exact (hshows4 (h3 hq) o ho).later hs45 (by simp +contextual [heq]) (fun _ => hend) (fun _ => rfl) rfl

end

theorem ifElse_shows (hu : u.Steady) {test : Expr} {body orElse : List Stmt} (hbody : SuiteShows u dead a body)
    (helse : SuiteShows u dead a orElse) (helif : ElifShows u dead a orElse) :
      StmtShows u dead a (.ifElse m test body orElse) := by
  intro hnodup ctx join s s' x hs hw hjoin hif h0 hlive hsize hdead hrun
  have heq : Node.numbers (Stmt.ifElse m test body orElse).tree.nodes = Node.numbers test.tree.nodes +
      sides m body orElse := by
    simp only [Stmt.tree, numbers_nodes_mk, region_append, region_cons, Node.mark, Stmt.mark, sides]
    abel
  obtain ⟨hX, hN⟩ := split_of_nodup hnodup heq
  simp only [Multiset.nodup_add] at hN
  have hwalk := suite_extends (a := a) hu orElse
  have xelif := visitElif_extends (a := a) hu orElse (fitsIn_region (Stmt.trees orElse))
  rw [visitStmt] at hrun
  obtain ⟨after, t1, t2, t3, t4, w1, h01, hr1, w3, h03, hj, hjoins, hr2, w5, hsame, hend⟩ := layOutIf_laid
    ((visitExpr_sees hu test (fits_of_disjoint hX)).tests ctx) (suite_keeps hu body ctx)
    (fun t t' y after hs hw hj hr => (layOutElse_extends (hwalk ctx) hs hw hj (xelif hs hw hj) hr).kept) hs hw hjoin h0 hrun
  have hw1 := hw.grow w1.grows
  have x2 := suite_extends hu body ctx w1.sound hw1 hr1
  have hw3 := (hw1.grow x2.grows).grow w3.grows
  have x4 := layOutElse_extends (hwalk ctx) w3.sound hw3 hj (xelif w3.sound hw3 hj) hr2
  have hsize3 : ∀ i ∈ region (Stmt.trees orElse), i < t3.facts.size := fun i hi =>
    ((w3.nodes.trans x2.nodes).trans w1.nodes) ▸ hsize i (by simp [heq, hi])
  obtain ⟨hstatic, hmark, hshows⟩ := branches_lives (e := Ended join s') hnodup heq w1 h01 x2 w3 h03 hjoins x4 w5
    (fun hl => by
      cases join with
      | none => exact hend rfl hl
      | some l => exact hsame l rfl ▸ hl.grow w5.grows)
    (hdead.mono (by simp +contextual [own])) hlive
    (fun hd => hbody hN.2.1.1 w1.sound hw1
      (fun i hi => w1.nodes ▸ hsize i (by simp [heq, hi])) hd hr1)
    (fun hd => by
      rcases layOutElse_laid (B := fun _ => False) (suite_keeps hu orElse ctx) w3.sound hw3 hj hr2 with
        ⟨_, h0, hr⟩ | ⟨rfl, w, hl⟩ | ⟨t, hr, w, hl, _⟩
      · exact helif hN.2.1.2.1 ‹_› w3.sound hw3 hj h0 hsize3 hd hr
      · refine ⟨by rw [w.static, StaticContext.behindAll], fun h0 o ho => ?_⟩
        obtain rfl : o = .completes := by simpa only [Stmt.AllRunTo] using ho
        exact hl h0
      · have hspares : Spares (region (Stmt.trees orElse)) t t4 := Spares.ofNone w.toExtends
        obtain ⟨hstatic, hshows⟩ := helse hN.2.1.2.1 w3.sound hw3 hsize3
          (hd.before hspares (owns_subset orElse)) hr
        exact ⟨by rw [w.static, hstatic], fun h0 o ho => (hshows h0 o ho).later hspares (fun _ => id) (fun _ => hl)
          (fun _ => rfl) rfl⟩)
  refine ⟨by rw [hstatic, StaticContext.behind], hmark, fun o ho => hshows o ?_⟩
  simpa only [Stmt.RunsTo] using ho

theorem tryBlock_shows (hu : u.Steady) {isGroup : Bool} {body orElse final : List Stmt} {handlers : List Handler}
    (hbody : SuiteShows u dead a body) (hhandlers : HandlersShow u dead a handlers) (helse : SuiteShows u dead a orElse)
    (hfinal : SuiteShows u dead a final) : StmtShows u dead a (.tryBlock m isGroup body handlers orElse final) := by
  intro hnodup ctx join s s' x hs hw hjoin hif h0 hlive hsize hdead hrun
  obtain rfl := hif rfl
  have heq : Node.numbers (Stmt.tryBlock m isGroup body handlers orElse final).tree.nodes =
      {m.index} + (region (Stmt.trees body) + (region (Handler.trees handlers) +
        (region (Stmt.trees orElse) + region (Stmt.trees final)))) := by
    simp only [Stmt.tree, numbers_nodes_mk, region_append, Node.mark, Stmt.mark]
    abel
  generalize Node.numbers (Stmt.tryBlock m isGroup body handlers orElse final).tree.nodes = R at hnodup hsize heq ⊢
  simp only [own, Node.numbers_add] at hdead
  have hparts := heq ▸ hnodup
  simp only [Multiset.nodup_add, Multiset.disjoint_add_right] at hparts
  obtain ⟨_, ⟨hbody1, ⟨hhandlers1, ⟨helse1, hfinal1, hef⟩, hhe, hhf⟩, hbh, hbe, hbf⟩, hmb, hmh, hme, hmf⟩ := hparts
  have xhandlers := visitHandlers_extends (a := a) hu handlers (fitsIn_region (Handler.trees handlers))
  rw [visitStmt] at hrun
  obtain ⟨abrupt, targets, labels, after, handlerEnds, t1, t2, t3, t4, t5, t6, w1, h01, hinner, hguarded, hr2, hr3, w4, hj,
    hlen, hlabels, hr5, w6, hfin, hnofin⟩ := layOutTry_laid (B := (· ∉ R)) (fun _ => rfl)
    (suite_keeps hu body) (suite_keeps hu orElse)
    (fun t t' y inner after labels hs hw hj hlen hl hr => (xhandlers hs hw hj hlen hl hr).kept)
    (suite_keeps hu final ctx) hs hw h0 hrun
  have x2 := suite_extends hu body _ w1.sound hinner hr2
  have hw2 := hguarded.grow x2.grows
  have x3 := suite_extends hu orElse _ x2.sound hw2 hr3
  have hw4 : Context.Within { guardedBy ctx (!final.isEmpty) abrupt with exceptDepth := ctx.exceptDepth + 1 } a
      t4.graph := (hw2.grow x3.grows).grow w4.grows
  have x5 := xhandlers w4.sound hw4 hj hlen (fun l hl => ⟨(hlabels l hl).1, (hlabels l hl).2.1⟩) hr5
  have x15 := (x2.grows.trans x3.grows).trans (w4.grows.trans x5.grows)
  have n5 : t5.facts.size = s.facts.size := (x5.nodes.trans w4.nodes).trans ((x3.nodes.trans x2.nodes).trans w1.nodes)
  obtain ⟨hspares6, hstatic7, hend, hshows7⟩ :
      (∀ N, Disjoint N (region (Stmt.trees final)) → (∀ i ∈ N, i ∈ R) → Spares N t6 s') ∧
      s'.static u = (t6.static u).behindAll dead final ∧
      (t3.current ≠ 0 ∨ handlerEnds = true ∧ t5.graph.Live after → s'.current ≠ 0) ∧
      ∀ o, o ≠ .completes → Stmt.AllRunTo dead (t6.static u) final o → Shows ctx R (s'.current ≠ 0) s' o := by
    cases hempty : final.isEmpty with
    | true =>
      obtain rfl := List.isEmpty_iff.1 hempty
      obtain ⟨rfl, hend⟩ := hnofin rfl
      refine ⟨fun _ _ _ => ⟨fun _ _ => rfl, Grows.refl _⟩, by rw [StaticContext.behindAll],
        fun h => hend (h.imp_right And.right), fun o hne ho => absurd ?_ hne⟩
      simpa only [Stmt.AllRunTo] using ho
    | false =>
      obtain ⟨h06, t7, hr7, w8, hend⟩ := hfin (by simp [hempty])
      have hw6 : ctx.Within a t6.graph := (hw.grow w1.grows).grow (x15.trans w6.grows)
      have x7 := suite_extends hu final ctx w6.sound hw6 hr7
      have hs8 := Spares.around w8.toExtends
      have hafter : Spares (region (Stmt.trees final)) t7 s' := hs8.mono (by simp +contextual [heq])
      obtain ⟨hstatic, hshows⟩ := hfinal hfinal1 w6.sound hw6
        (fun i hi => (w6.nodes.trans n5) ▸ hsize i (by simp [heq, hi]))
        ((hdead.mono (by simp +contextual)).before hafter (owns_subset final)) hr7
      refine ⟨fun N hd hsub => (Spares.apart x7 hd).trans (hs8.mono hsub), by rw [w8.static, hstatic],
        fun h => hend (h.imp_right And.left), fun o hne ho => ?_⟩
      exact (hshows h06 o ho).later hafter (by simp +contextual [heq]) (fun h => absurd h hne) (fun _ => rfl) rfl
  have hs4 := Spares.around w4.toExtends
  have hs6 := Spares.around w6.toExtends
  have hafter5 : Spares (region (Handler.trees handlers)) t5 s' :=
    (hs6.mono (by simp +contextual [heq])).trans (hspares6 _ hhf (by simp +contextual [heq]))
  have hafter3 : Spares (region (Stmt.trees orElse)) t3 s' :=
    ((hs4.mono (by simp +contextual [heq])).trans (Spares.apart x5 hhe.symm)).trans
      ((hs6.mono (by simp +contextual [heq])).trans (hspares6 _ hef (by simp +contextual [heq])))
  have hafter2 : Spares (region (Stmt.trees body)) t2 s' :=
    (((Spares.apart x3 hbe).trans (hs4.mono (by simp +contextual [heq]))).trans (Spares.apart x5 hbh)).trans
      ((hs6.mono (by simp +contextual [heq])).trans (hspares6 _ hbf (by simp +contextual [heq])))
  have hmark : Spares {m.index} s s' :=
    ((((Spares.around w1.toExtends).mono (by simp [heq])).trans (Spares.apart x2 hmb)).trans
      ((Spares.apart x3 hme).trans (hs4.mono (by simp [heq])))).trans
      ((Spares.apart x5 hmh).trans ((hs6.mono (by simp [heq])).trans (hspares6 _ hmf (by simp [heq]))))
  obtain ⟨hstatic2, hshows2⟩ := hbody hbody1 w1.sound hinner
    (fun i hi => w1.nodes ▸ hsize i (by simp [heq, hi]))
    ((hdead.mono (by simp +contextual)).before hafter2 (owns_subset body)) hr2
  obtain ⟨hstatic3, hshows3⟩ := helse helse1 x2.sound hw2
    (fun i hi => (x2.nodes.trans w1.nodes) ▸ hsize i (by simp [heq, hi]))
    ((hdead.mono (by simp +contextual)).before hafter3 (owns_subset orElse)) hr3
  obtain ⟨hstatic5, hshows5⟩ := hhandlers hhandlers1 w4.sound hw4 hj hlen hlabels
    (fun i hi => x5.nodes ▸ n5 ▸ hsize i (by simp [heq, hi]))
    ((hdead.mono (by simp +contextual)).before hafter5 (ownsHandlers_subset handlers)) hr5
  rw [w1.static] at hstatic2 hshows2
  rw [hstatic2] at hstatic3 hshows3
  rw [w4.static, hstatic3] at hstatic5 hshows5
  rw [w6.static, hstatic5] at hstatic7 hshows7
  refine ⟨by rw [hstatic7, StaticContext.behind], hmark.marksLive (by simp [Stmt.mark]) hlive, fun o ho => ?_⟩
  rw [Stmt.RunsTo] at ho
  refine Shows.finally (fun o ho => ?_) hshows7 ho
  rcases ho with ⟨hb, ho⟩ | ⟨hne, ho⟩ | ⟨_, ho⟩
  · exact (hshows3 (hshows2 h01 _ hb) o ho).later hafter3 (by simp +contextual [heq]) (fun _ h => hend (.inl h))
      (fun _ => (guardedBy_breakTarget ..).symm) (guardedBy_returnTarget ..).symm
  · exact (hshows2 h01 o ho).later hafter2 (by simp +contextual [heq]) (fun h => absurd h hne)
      (fun _ => (guardedBy_breakTarget ..).symm) (guardedBy_returnTarget ..).symm
  · exact (hshows5 o ho).later hafter5 (by simp +contextual [heq]) (fun _ h => hend (.inr h))
      (fun _ => (guardedBy_breakTarget ..).symm) (guardedBy_returnTarget ..).symm

section

variable (hu : u.Steady)
include hu

mutual

/-- What a statement that is walked from live code may run to, its walk shows. -/
theorem visitStmt_lives (stmt : Stmt) (hshape : stmt.tree.All HasAlternatives) : StmtShows u dead a stmt := by
  intro hnodup ctx join s s' x hs hw hjoin hif h0 hlive hsize hdead hrun
  match stmt with
  | .function .. | .delete .. | .assign .. | .augAssign .. | .annAssign .. | .importFrom .. | .globals .. | .nonlocals ..
  | .expr .. | .pass .. | .typeAlias .. =>
    obtain rfl := hif rfl
    exact visitStmt_plain_lives hu rfl hnodup hs hw h0 hlive hrun
  | .importModules m names =>
    obtain rfl := hif rfl
    simp only [Stmt.tree, numbers_nodes_mk, Multiset.nodup_add, Multiset.disjoint_left, Node.mark, Stmt.mark] at hnodup
    rw [visitStmt] at hrun
    obtain ⟨c, hlearn⟩ := importModules_completed names (names_of_fits (fitsIn_region _)) hs hw hrun
    refine ⟨by rw [hlearn, StaticContext.behind], ?_, fun o ho => ?_⟩
    · rw [State.MarksLive, c.flow_eq (hnodup.2.2 (by simp [Stmt.mark]))]
      exact hlive
    · obtain rfl : o = .completes := by simpa only [Stmt.RunsTo] using ho
      exact c.awake h0
  | .classDef m name bases keywords body decorators =>
    obtain rfl := hif rfl
    have heq : Node.numbers (Stmt.classDef m name bases keywords body decorators).tree.nodes =
        (region (Expr.trees bases) + region (Keyword.trees keywords) + region (Expr.trees decorators)) +
          ({m.index} + region (Stmt.trees body)) := by
      simp only [Stmt.tree, numbers_nodes_mk, region_append, Node.mark, Stmt.mark]
      abel
    obtain ⟨hX, hN⟩ := split_of_nodup hnodup heq
    simp only [Multiset.disjoint_add_left] at hX
    simp only [Multiset.nodup_add] at hN
    simp only [Stmt.tree, all_mk, allIn_append] at hshape
    obtain ⟨scope, t1, t2, e1, hrun, e3⟩ := visitClass_laid hu hs hw (fitsIn_of_disjoint hX.2) (fitsIn_of_disjoint hX.1.1)
      (fitsIn_of_disjoint hX.1.2) (suite_keeps hu body) hrun
    have hinner : Context.Within { ctx with scope := scope } a t1.graph := hw.grow e1.grows
    have x2 := suite_extends hu body _ e1.sound hinner hrun
    obtain ⟨hafter, hmark⟩ := suite_spared hN.2.2 e1.toExtends x2 e3.toExtends hlive
    have hdead' : Agrees dead (Node.numbers (owns body)) s' := hdead.mono (by simp +contextual [own])
    obtain ⟨hstatic, hshows⟩ := walkStatements_lives body hshape.2.1.2 hN.2.1 e1.sound hinner
      (fun i hi => e1.nodes ▸ hsize i (by simp [heq, hi])) (hdead'.before hafter (owns_subset body)) hrun
    rw [e1.static] at hstatic hshows
    refine ⟨by rw [e3.static, hstatic, StaticContext.behind], hmark, fun o ho => ?_⟩
    rw [Stmt.RunsTo] at ho
    exact (hshows (e1.awake h0) o ho).later hafter (by simp +contextual [heq]) (fun _ => e3.awake) (fun _ => rfl) rfl
  | .returnValue m value =>
    obtain rfl := hif rfl
    obtain ⟨hX, hN⟩ := split_of_nodup hnodup (X := region (Expr.givenTree value)) (N := {m.index}) (by
      simp only [Stmt.tree, numbers_nodes_mk, Node.mark, Stmt.mark, add_comm])
    obtain ⟨t1, t2, e1, h2, ht, h3⟩ :=
      visitReturn_laid (A := (· ∉ ({m.index} : Multiset Nat))) hu hs hw (fitsIn_of_disjoint hX) hrun
    obtain ⟨e2, hmark⟩ := stamp_evaluatesAt (A := fun _ => False) e1.sound (hw.grow e1.grows) h2
    obtain ⟨w3, hlives⟩ := jump_laid (B := (· ∉ ({m.index} : Multiset Nat))) e2.sound ht h3
    refine ⟨by simp only [w3.static, e2.static, e1.static, StaticContext.behind], ?_, fun o ho => ?_⟩
    · have hmark1 := (Spares.around e1.toExtends).marksLive (i := m.index) (by simp) hlive
      exact (Spares.around w3.toExtends).marksLive (by simp [Stmt.mark]) (hmark (fun h => h) (e1.awake h0) hmark1)
    · obtain rfl : o = .returns := by simpa only [Stmt.RunsTo] using ho
      intro l hl
      exact hlives (e2.awake (e1.awake h0)) l (by simp [Option.mem_toList.2 hl])
  | .forLoop m isAsync target iterable body orElse =>
    obtain rfl := hif rfl
    have heq : Node.numbers (Stmt.forLoop m isAsync target iterable body orElse).tree.nodes =
        (Node.numbers target.tree.nodes + Node.numbers iterable.tree.nodes) + sides m body orElse := by
      simp only [Stmt.tree, numbers_nodes_mk, region_append, region_cons, Node.mark, Stmt.mark, sides]
      abel
    obtain ⟨hX, _⟩ := split_of_nodup hnodup heq
    simp only [Multiset.disjoint_add_left] at hX
    simp only [Stmt.tree, all_mk, allIn_cons, allIn_append] at hshape
    have hloop := visitFor_laid hu hs hw (fits_of_disjoint hX.1) (fits_of_disjoint hX.2) (suite_keeps hu body)
      (suite_keeps hu orElse ctx) h0 hrun
    obtain ⟨hstatic, hmark, hshows⟩ := loop_lives hu hnodup heq hsize hw hloop
      (hdead.mono (by simp +contextual [own])) hlive
      (walkStatements_lives body hshape.2.2.2.1) (walkStatements_lives orElse hshape.2.2.2.2)
    refine ⟨by rw [hstatic, StaticContext.behind], hmark, fun o ho => hshows o ?_⟩
    simpa only [Stmt.RunsTo, true_and] using ho
  | .whileLoop m test body orElse =>
    obtain rfl := hif rfl
    have heq : Node.numbers (Stmt.whileLoop m test body orElse).tree.nodes = Node.numbers test.tree.nodes +
        sides m body orElse := by
      simp only [Stmt.tree, numbers_nodes_mk, region_append, region_cons, Node.mark, Stmt.mark, sides]
      abel
    obtain ⟨hX, _⟩ := split_of_nodup hnodup heq
    simp only [Stmt.tree, all_mk, allIn_cons, allIn_append] at hshape
    rw [visitStmt] at hrun
    have hloop := layOutWhile_laid ((visitExpr_sees hu test (fits_of_disjoint hX)).tests ctx) (suite_keeps hu body)
      (suite_keeps hu orElse ctx) hs hw h0 hrun
    obtain ⟨hstatic, hmark, hshows⟩ := loop_lives hu hnodup heq hsize hw hloop
      (hdead.mono (by simp +contextual [own])) hlive
      (walkStatements_lives body hshape.2.2.1) (walkStatements_lives orElse hshape.2.2.2)
    refine ⟨by rw [hstatic, StaticContext.behind], hmark, fun o ho => hshows o ?_⟩
    simpa only [Stmt.RunsTo] using ho
  | .ifElse m test body orElse =>
    simp only [Stmt.tree, all_mk, allIn_cons, allIn_append] at hshape
    exact ifElse_shows hu (walkStatements_lives body hshape.2.2.1) (walkStatements_lives orElse hshape.2.2.2)
      (visitElif_lives orElse hshape.2.2.2) hnodup hs hw hjoin hif h0 hlive hsize hdead hrun
  | .withBlock m isAsync items body =>
    obtain rfl := hif rfl
    have heq : Node.numbers (Stmt.withBlock m isAsync items body).tree.nodes = region (items.map WithItem.tree) +
        ({m.index} + region (Stmt.trees body)) := by
      simp only [Stmt.tree, numbers_nodes_mk, region_append, Node.mark, Stmt.mark]
      abel
    obtain ⟨hX, hN⟩ := split_of_nodup hnodup heq
    simp only [Multiset.nodup_add] at hN
    simp only [Stmt.tree, all_mk, allIn_append] at hshape
    simp only [visitStmt, bind_ok] at hrun
    obtain ⟨_, q1, h1, h2⟩ := hrun
    have e1 := visitWithItems_evaluates hu items (fitsIn_of_disjoint hX) hs hw h1
    obtain ⟨swallowed, t1, t2, w1, h01, hinner, hr1, w3, h03⟩ := layOutWith_laid (suite_keeps hu body) e1.sound
      (hw.grow e1.grows) (e1.awake h0) h2
    have w01 := e1.toWalked.trans w1
    have x2 := suite_extends hu body _ w1.sound hinner hr1
    obtain ⟨hafter, hmark⟩ := suite_spared hN.2.2 w01.toExtends x2 w3.toExtends hlive
    have hdead' : Agrees dead (Node.numbers (owns body)) s' := hdead.mono (by simp +contextual [own])
    obtain ⟨hstatic, hshows⟩ := walkStatements_lives body hshape.2.2 hN.2.1 w1.sound hinner
      (fun i hi => w01.nodes ▸ hsize i (by simp [heq, hi])) (hdead'.before hafter (owns_subset body)) hr1
    rw [w01.static] at hstatic hshows
    refine ⟨by rw [w3.static, hstatic, StaticContext.behind], hmark, fun o ho => ?_⟩
    rw [Stmt.RunsTo] at ho
    rcases ho with ho | ⟨rfl, _⟩
    · exact (hshows h01 o ho).later hafter (by simp +contextual [heq]) (fun _ _ => h03) (fun _ => rfl) rfl
    · exact h03
  | .matchOn m subject cases =>
    obtain rfl := hif rfl
    have heq : Node.numbers (Stmt.matchOn m subject cases).tree.nodes = Node.numbers subject.tree.nodes +
        ({m.index} + region (MatchCase.trees cases)) := by
      simp only [Stmt.tree, numbers_nodes_mk, region_cons, Node.mark, Stmt.mark]
      abel
    obtain ⟨hX, hN⟩ := split_of_nodup hnodup heq
    simp only [Multiset.nodup_add] at hN
    simp only [Stmt.tree, all_mk, allIn_cons] at hshape
    have hcases := visitCases_extends (a := a) hu cases (fitsIn_region (MatchCase.trees cases))
    simp only [visitStmt, bind_ok] at hrun
    obtain ⟨_, q1, h1, h2⟩ := hrun
    have e1 := (visitExpr_sees hu subject (fits_of_disjoint hX)).value ctx hs hw h1
    obtain ⟨after, t1, t2, w1, h01, hj, hr1, w3, h03⟩ := layOutMatch_laid
      (fun t t' y after hs hw hj hr => (hcases hs hw hj hr).kept) e1.sound
      (hw.grow e1.grows) h2
    have w01 := e1.toWalked.trans w1
    have hw1 := hw.grow w01.grows
    have x2 := hcases w1.sound hw1 hj hr1
    obtain ⟨hafter, hmark⟩ := suite_spared hN.2.2 w01.toExtends x2 w3.toExtends hlive
    have hdead' : Agrees dead (Node.numbers (ownsCases cases)) s' := hdead.mono (by simp +contextual [own])
    obtain ⟨hstatic, hshows⟩ := visitCases_lives cases hshape.2.2 hN.2.1 w1.sound hw1 hj
      (fun i hi => w01.nodes ▸ hsize i (by simp [heq, hi])) (hdead'.before hafter (ownsCases_subset cases)) hr1
    rw [w01.static] at hstatic hshows
    refine ⟨by rw [w3.static, hstatic, StaticContext.behind], hmark, fun o ho => ?_⟩
    rw [Stmt.RunsTo] at ho
    exact (hshows (h01 (e1.awake h0)) o ho).later hafter (by simp +contextual [heq]) (fun _ => h03) (fun _ => rfl) rfl
  | .raise m exception cause =>
    obtain rfl := hif rfl
    obtain ⟨hX, hN⟩ := split_of_nodup hnodup (X := region (Expr.givenTree exception) + region (Expr.givenTree cause))
      (N := {m.index}) (by simp only [Stmt.tree, numbers_nodes_mk, region_append, Node.mark, Stmt.mark, add_comm])
    simp only [Multiset.disjoint_add_left] at hX
    have w := visitRaise_laid hu hs hw (fitsIn_of_disjoint hX.1) (fitsIn_of_disjoint hX.2) hrun
    refine ⟨by simp only [w.static, StaticContext.behind], ?_, fun o ho => ?_⟩
    · exact (Spares.around w.toExtends).marksLive (by simp [Stmt.mark]) hlive
    · obtain rfl : o = .raises := by simpa only [Stmt.RunsTo] using ho
      trivial
  | .assertion m test message =>
    obtain rfl := hif rfl
    have heq : Node.numbers (Stmt.assertion m test message).tree.nodes =
        (Node.numbers test.tree.nodes + region (Expr.givenTree message)) + {m.index} := by
      simp only [Stmt.tree, numbers_nodes_mk, region_cons, Node.mark, Stmt.mark]
      abel
    obtain ⟨hX, hN⟩ := split_of_nodup hnodup heq
    simp only [Multiset.disjoint_add_left] at hX
    obtain ⟨w, h01⟩ := visitAssert_laid hu hs hw (fits_of_disjoint hX.1) (fitsIn_of_disjoint hX.2) hrun
    refine ⟨by simp only [w.static, StaticContext.behind], ?_, fun o ho => ?_⟩
    · exact (Spares.around w.toExtends).marksLive (by simp [Stmt.mark]) hlive
    · rw [Stmt.RunsTo] at ho
      rcases ho with ⟨hb, rfl⟩ | ⟨_, rfl⟩
      · exact h01 h0 hb
      · trivial
  | .breakLoop m =>
    obtain rfl := hif rfl
    rw [visitStmt] at hrun
    obtain ⟨w, hlives⟩ := jump_laid (B := fun _ => False) hs
      (fun l hl => hw l (by grind [Context.labels])) hrun
    refine ⟨by simp only [w.static, StaticContext.behind], ?_, fun o ho => ?_⟩
    · exact (Spares.ofNone w.toExtends).marksLive (Multiset.mem_singleton_self _) hlive
    · obtain rfl : o = .breaks := by simpa only [Stmt.RunsTo] using ho
      exact fun l hl => hlives h0 l (Option.mem_toList.2 hl)
  | .continueLoop m =>
    obtain rfl := hif rfl
    rw [visitStmt] at hrun
    obtain ⟨w, _⟩ := jump_laid (B := fun _ => False) hs
      (fun l hl => hw l (by grind [Context.labels])) hrun
    refine ⟨by simp only [w.static, StaticContext.behind], ?_, fun o ho => ?_⟩
    · exact (Spares.ofNone w.toExtends).marksLive (Multiset.mem_singleton_self _) hlive
    · obtain rfl : o = .continues := by simpa only [Stmt.RunsTo] using ho
      trivial
  | .nested m body ignores =>
    rw [visitStmt] at hrun
    exact absurd hrun (by simp)
  | .tryBlock m isGroup body handlers orElse final =>
    simp only [Stmt.tree, all_mk, allIn_append] at hshape
    exact tryBlock_shows hu (walkStatements_lives body hshape.2.1.1.1) (visitHandlers_lives handlers hshape.2.1.1.2)
      (walkStatements_lives orElse hshape.2.1.2) (walkStatements_lives final hshape.2.2) hnodup hs hw hjoin hif h0 hlive hsize
      hdead hrun

/-- What statements may run to, their walk shows. -/
theorem walkStatements_lives (stmts : List Stmt) (hshape : AllIn HasAlternatives (Stmt.trees stmts)) :
    SuiteShows u dead a stmts := by
  intro hnodup ctx s s' x hs hw hsize hdead hrun
  match stmts with
  | [] =>
    obtain ⟨_, rfl⟩ := pure_ok.1 hrun
    refine ⟨rfl, fun h0 o ho => ?_⟩
    obtain rfl : o = .completes := by simpa only [Stmt.AllRunTo] using ho
    exact h0
  | stmt :: stmts =>
    simp only [Stmt.trees, allIn_cons] at hshape
    simp only [Stmt.trees, region_cons, Multiset.nodup_add] at hnodup
    simp only [Stmt.trees, region_cons, Multiset.mem_add] at hsize
    simp only [owns, Node.numbers_add] at hdead
    have hperforms := suite_extends (a := a) hu stmts ctx
    have hmem : stmt.mark.index ∈ Node.numbers stmt.tree.nodes := by simp [numbers_stmt]
    rw [walkStatements] at hrun
    simp only [bind_ok, isDead_ok] at hrun
    obtain ⟨_, t1, h1, _, _, ⟨rfl, rfl⟩, hrun⟩ := hrun
    have e1 := stamp_evaluates (A := (· = stmt.mark.index)) rfl hs hw h1
    have hflow : (t1.factsAt stmt.mark.index).flow = some s.current := by
      rw [factsAt_of_modifyFacts (stamp_ok.1 h1) (hsize _ (.inl hmem))]
    split at hrun
    · rename_i hd
      obtain ⟨_, t2, h2, h3⟩ := bind_ok.1 hrun
      have hquiet := noteYield_quiet _ _ h2
      have e2 := e1.trans (.ofQuiet e1.sound hquiet)
      have x3 := hperforms e2.sound (hw.grow e2.grows) h3
      have hcurrent : s.current = 0 := by
        by_contra h0
        exact e1.awake h0 (e1.sound.isDead_iff.1 hd)
      have hmark : dead stmt.mark.index = true := by
        have hspares := (Spares.ofQuiet hquiet).trans (Spares.apart x3 hnodup.2.2)
        rw [hdead _ (Multiset.mem_add.2 (.inl (mem_own stmt))), hspares.flow _ hmem, hflow, hcurrent]
        rfl
      obtain ⟨hstatic, _⟩ := walkStatements_lives stmts hshape.2 hnodup.2.1 e2.sound (hw.grow e2.grows)
        (fun i hi => e2.nodes ▸ hsize i (.inr hi)) (hdead.mono (by simp +contextual)) h3
      refine ⟨?_, fun h0 => absurd hcurrent h0⟩
      rw [hstatic, e2.static, StaticContext.behindAll, if_pos hmark]
    · rename_i hd
      obtain ⟨_, t2, h2, h3⟩ := bind_ok.1 hrun
      have h01 : t1.current ≠ 0 := fun h0 => hd (e1.sound.isDead_iff.2 h0)
      have hcurrent : t1.current = s.current := by rw [modifyFacts_ok.1 (stamp_ok.1 h1)]
      have hfits : stmt.tree.All (Node.Fits true (· ∈ Node.numbers stmt.tree.nodes)) := by
        simpa using fitsIn_region [stmt.tree]
      have hw1 := hw.grow e1.grows
      have x2 := visitStmt_extends hu stmt hfits e1.sound hw1 (by simp) h01 h2
      have x3 := hperforms x2.sound (hw1.grow x2.grows) h3
      have hafter : Spares (Node.numbers stmt.tree.nodes) t2 s' := Spares.apart x3 hnodup.2.2
      have hdead' : Agrees dead (Node.numbers (own stmt)) s' := hdead.mono (by simp +contextual)
      obtain ⟨hstatic2, hmark2, hshows2⟩ := visitStmt_lives stmt hshape.1 hnodup.1 e1.sound hw1 (by simp) (fun _ => rfl)
        h01 ⟨_, hflow, hcurrent ▸ h01⟩ (fun i hi => e1.nodes ▸ hsize i (.inl hi)) (hdead'.before hafter (own_subset stmt)) h2
      obtain ⟨hstatic3, hshows3⟩ := walkStatements_lives stmts hshape.2 hnodup.2.1 x2.sound (hw1.grow x2.grows)
        (fun i hi => (x2.nodes.trans e1.nodes) ▸ hsize i (.inr hi)) (hdead.mono (by simp +contextual)) h3
      have hmark := hafter.marksLive hmem hmark2
      have hnot := hdead'.not_dead (mem_own stmt) hmark
      rw [e1.static] at hstatic2 hshows2
      rw [hstatic2] at hstatic3 hshows3
      refine ⟨?_, fun _ o ho => ?_⟩
      · rw [hstatic3, StaticContext.behindAll, hnot]
        rfl
      · rw [Stmt.AllRunTo, hnot] at ho
        rcases ho with rfl | rfl | ⟨hne, ho⟩ | ⟨hstmt, ho⟩
        · exact ⟨by simp [Stmt.trees, hmem], hmark⟩
        · trivial
        · exact (hshows2 o ho).later hafter (by simp +contextual [Stmt.trees]) (fun h => absurd h hne) (fun _ => rfl) rfl
        · refine (hshows3 (hshows2 _ hstmt) o ho).later ⟨fun _ _ => rfl, Grows.refl _⟩ (by simp +contextual [Stmt.trees])
            (fun _ => id) (fun _ => rfl) rfl

theorem visitElif_lives (stmts : List Stmt) (hshape : AllIn HasAlternatives (Stmt.trees stmts)) : ElifShows u dead a stmts := by
  intro hnodup helif ctx after s s' x hs hw hj h0 hsize hdead hrun
  match stmts with
  | [] => simp [isElif] at helif
  | _ :: _ :: _ => simp [isElif] at helif
  | [stmt] =>
    simp only [Stmt.trees, allIn_cons] at hshape
    simp only [Stmt.trees, region_cons, region_nil, add_zero] at hnodup hsize
    simp only [owns, add_zero] at hdead
    have hmem : stmt.mark.index ∈ Node.numbers stmt.tree.nodes := by simp [numbers_stmt]
    rw [visitElif] at hrun
    obtain ⟨_, t1, h1, h2⟩ := bind_ok.1 hrun
    have e1 := stamp_evaluates (A := (· = stmt.mark.index)) rfl hs hw h1
    have hflow : (t1.factsAt stmt.mark.index).flow = some s.current := by
      rw [factsAt_of_modifyFacts (stamp_ok.1 h1) (hsize _ hmem)]
    have hjoin : ∀ l ∈ some after, Joint a t1.graph l := by
      rintro l ⟨⟩
      exact hj.grow e1.grows
    obtain ⟨hstatic, hmark, hshows⟩ := visitStmt_lives stmt hshape.1 hnodup e1.sound (hw.grow e1.grows) hjoin
      (fun h => absurd helif (by simp [h])) (e1.awake h0) ⟨_, hflow, h0⟩ (fun i hi => e1.nodes ▸ hsize i hi) hdead h2
    have hnot := hdead.not_dead (mem_own stmt) hmark
    rw [e1.static] at hstatic hshows
    refine ⟨?_, fun _ o ho => ?_⟩
    · rw [hstatic, StaticContext.behindAll, hnot]
      rfl
    · simp only [Stmt.AllRunTo] at ho
      simp only [Stmt.trees, region_cons, region_nil, add_zero]
      rcases ho with rfl | rfl | ⟨_, ho⟩ | ⟨ho, rfl⟩
      · exact ⟨hmem, hmark⟩
      · trivial
      · exact hshows o ho
      · exact hshows _ ho

theorem visitHandlers_lives (handlers : List Handler) (hshape : AllIn HasAlternatives (Handler.trees handlers)) :
    HandlersShow u dead a handlers := by
  intro hnodup ctx after labels s s' ends hs hw hj hlen hlabels hsize hdead hrun
  match handlers, labels with
  | [], labels =>
    rw [visitHandlers] at hrun
    obtain ⟨_, rfl⟩ := pure_ok.1 hrun
    exact ⟨by rw [StaticContext.behindHandlers], fun o ho => absurd ho (by simp [Handler.OneRunsTo])⟩
  | .mk m type name body :: handlers, label :: labels =>
    have heq : region (Handler.trees (.mk m type name body :: handlers)) = ({m.index} + region (Expr.givenTree type)) +
        (region (Stmt.trees body) + region (Handler.trees handlers)) := by
      simp only [Handler.trees, region_cons, region_append, numbers_nodes_mk, Node.mark]
      abel
    obtain ⟨hX, hN⟩ := split_of_nodup hnodup heq
    simp only [Multiset.disjoint_add_left] at hX
    simp only [Multiset.nodup_add] at hN
    simp only [Handler.trees, allIn_cons, all_mk, allIn_append] at hshape
    simp only [ownsHandlers, Node.numbers_add] at hdead
    have hbody := suite_extends (a := a) hu body ctx
    have hhandlers := visitHandlers_extends (a := a) hu handlers (fitsIn_region (Handler.trees handlers))
    rw [visitHandlers] at hrun
    simp only [bind_ok, pure_ok, List.headD_cons, List.tail_cons] at hrun
    obtain ⟨first, t3, h1, more, t4, h2, rfl, rfl⟩ := hrun
    obtain ⟨hla, hlb, hll⟩ := hlabels label (by simp)
    obtain ⟨t1, t2, w1, h01, hr, w3, hends⟩ := layOutHandler_laid (fun hi => Multiset.disjoint_left.1 hX.1 (by simp) hi)
      (visitGiven_evaluates hu type (fitsIn_of_disjoint hX.2) ctx) hbody.keeps hs hw hj hla hlb h1
    have hw1 := hw.grow w1.grows
    have x2 := hbody w1.sound hw1 hr
    have g3 := (w1.grows.trans x2.grows).trans w3.grows
    have hlabels3 : ∀ l ∈ labels, a ≤ l ∧ t3.graph.IsBranch l ∧ t3.graph.Live l := fun l hl =>
      have hl := hlabels l (by simp [hl])
      ⟨hl.1, hl.2.1.grow g3, hl.2.2.grow g3⟩
    have hlen3 : labels.length = handlers.length := by simpa using hlen
    have x4 := hhandlers w3.sound (hw.grow g3) (hj.grow g3) hlen3 (fun l hl => ⟨(hlabels3 l hl).1, (hlabels3 l hl).2.1⟩) h2
    have hafter : Spares (region (Stmt.trees body)) t2 t4 :=
      ((Spares.around w3.toExtends).mono (by simp +contextual)).trans (Spares.apart x4 hN.2.2)
    have hdead' : Agrees dead (Node.numbers (owns body)) t4 := hdead.mono (by simp +contextual)
    obtain ⟨hstatic2, hshows2⟩ := walkStatements_lives body hshape.1.2.2 hN.1 w1.sound hw1
      (fun i hi => w1.nodes ▸ hsize i (by simp [heq, hi])) (hdead'.before hafter (owns_subset body)) hr
    obtain ⟨hstatic4, hshows4⟩ := visitHandlers_lives handlers hshape.2 hN.2.1 w3.sound (hw.grow g3) (hj.grow g3) hlen3
      hlabels3 (fun i hi => ((w3.nodes.trans x2.nodes).trans w1.nodes) ▸ hsize i (by simp [heq, hi]))
      (hdead.mono (by simp +contextual)) h2
    rw [w1.static] at hstatic2 hshows2
    rw [w3.static, hstatic2] at hstatic4 hshows4
    refine ⟨by rw [hstatic4, StaticContext.behindHandlers], fun o ho => ?_⟩
    rw [Handler.OneRunsTo] at ho
    rcases ho with ho | ho
    · refine (hshows2 (h01 hll) o ho).later hafter (by simp +contextual [heq]) (fun _ h => ?_) (fun _ => rfl) rfl
      exact ⟨by simp [(hends h).1], (hends h).2.grow x4.grows⟩
    · refine (hshows4 o ho).later ⟨fun _ _ => rfl, Grows.refl _⟩ (by simp +contextual [heq]) (fun _ h => ?_) (fun _ => rfl) rfl
      exact ⟨by simp [h.1], h.2⟩
  | .mk .. :: _, [] => simp at hlen

/-- What `case` clauses that are tried from live code may run to, their walk shows. -/
theorem visitCases_lives (cases : List MatchCase)
    (hshape : AllIn HasAlternatives (MatchCase.trees cases)) (hnodup : (region (MatchCase.trees cases)).Nodup)
    ⦃ctx : Context⦄ ⦃after : FlowRef⦄ ⦃s s' : State ω⦄ ⦃x : Unit⦄ (hs : Sound true a s) (hw : ctx.Within a s.graph)
    (hj : Joint a s.graph after) (hsize : ∀ i ∈ region (MatchCase.trees cases), i < s.facts.size)
    (hdead : Agrees dead (Node.numbers (ownsCases cases)) s')
    (hrun : (visitCases u ctx after cases).run s = .ok x s') :
    s'.static u = (s.static u).behindCases dead cases ∧
      (s.current ≠ 0 → ∀ o, MatchCase.OneRunsTo dead (s.static u) cases o →
        Shows ctx (region (MatchCase.trees cases)) (s'.current ≠ 0 ∨ s'.graph.Live after) s' o) := by
  match cases with
  | [] =>
    rw [visitCases] at hrun
    obtain ⟨_, rfl⟩ := pure_ok.1 hrun
    refine ⟨by rw [StaticContext.behindCases], fun h0 o ho => ?_⟩
    obtain rfl : o = .completes := by simpa only [MatchCase.OneRunsTo] using ho
    exact .inl h0
  | .mk m pattern guard body :: cases =>
    have heq : region (MatchCase.trees (.mk m pattern guard body :: cases)) =
        (({m.index} + Node.numbers pattern.tree.nodes) + region (Expr.givenTree guard)) +
          (region (Stmt.trees body) + region (MatchCase.trees cases)) := by
      simp only [MatchCase.trees, region_cons, region_append, numbers_nodes_mk, Node.mark]
      abel
    obtain ⟨hX, hN⟩ := split_of_nodup hnodup heq
    simp only [Multiset.disjoint_add_left] at hX
    simp only [Multiset.nodup_add] at hN
    simp only [MatchCase.trees, allIn_cons, all_mk, allIn_append] at hshape
    simp only [ownsCases, Node.numbers_add] at hdead
    have hbody := suite_extends (a := a) hu body ctx
    have hcases := visitCases_extends (a := a) hu cases (fitsIn_region (MatchCase.trees cases))
    rw [visitCases] at hrun
    obtain ⟨_, t3, h1, h2⟩ := bind_ok.1 hrun
    obtain ⟨t1, t2, w1, h01, hr, w3, hjoins, hwild, hguard⟩ := layOutCase_laid
      (visitPattern_walksIf hu pattern (fits_of_disjoint hX.1.2)) (visitGuard_tests hu guard ctx (fitsIn_of_disjoint hX.2))
      hbody.keeps hs hw hj h1
    have hw1 := hw.grow w1.grows
    have x2 := hbody w1.sound hw1 hr
    have hw3 := (hw1.grow x2.grows).grow w3.grows
    have hj3 := hj.grow ((w1.grows.trans x2.grows).trans w3.grows)
    have x4 := hcases w3.sound hw3 hj3 h2
    have hafter : Spares (region (Stmt.trees body)) t2 s' :=
      ((Spares.around w3.toExtends).mono (by simp +contextual)).trans (Spares.apart x4 hN.2.2)
    have hdead' : Agrees dead (Node.numbers (owns body)) s' := hdead.mono (by simp +contextual)
    obtain ⟨hstatic2, hshows2⟩ := walkStatements_lives body hshape.1.2.2.2 hN.1 w1.sound hw1
      (fun i hi => w1.nodes ▸ hsize i (by simp [heq, hi])) (hdead'.before hafter (owns_subset body)) hr
    obtain ⟨hstatic4, hshows4⟩ := visitCases_lives cases hshape.2 hN.2.1 w3.sound hw3 hj3
      (fun i hi => ((w3.nodes.trans x2.nodes).trans w1.nodes) ▸ hsize i (by simp [heq, hi]))
      (hdead.mono (by simp +contextual)) h2
    rw [w1.static] at hstatic2 hshows2
    rw [w3.static, hstatic2] at hstatic4 hshows4
    refine ⟨by rw [hstatic4, StaticContext.behindCases], fun h0 o ho => ?_⟩
    rw [MatchCase.OneRunsTo] at ho
    rcases ho with ⟨hb, ho⟩ | ⟨hb, ho⟩
    · exact (hshows2 (h01 hshape.1.2.1 h0 hb) o ho).later hafter (by simp +contextual [heq])
        (fun _ h => .inr ((hjoins h).grow x4.grows)) (fun _ => rfl) rfl
    · have h03 : t3.current ≠ 0 := hb.elim (hwild h0) (hguard hshape.1.2.1 h0)
      exact (hshows4 h03 o ho).later ⟨fun _ _ => rfl, Grows.refl _⟩ (by simp +contextual [heq]) (fun _ => id) (fun _ => rfl)
        rfl

end

end

end ScopeFlow.Bind
