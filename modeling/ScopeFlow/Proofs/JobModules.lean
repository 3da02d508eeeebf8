import ScopeFlow.Proofs.JobStmts
import ScopeFlow.Proofs.Phases

/-!
# The jobs of a module

Binding a module is a sequence of jobs, one for each of its phases: the job of the body of the module (`Job.ofModule`) and one
for each body that waits (`Job.turn`). They share what is known of the module as a whole, and every node of a numbered module
belongs to all of them (`under_belongs`).

The first edit of a module opens its scope. From then on what holds while a job is at work holds (`holds_entered`), and it
carries over from job to job (`Holds.turn`). The body that has waited longest can be bound (`Holds.ready`).
-/

namespace ScopeFlow

open NodeTree

/-! ## The trees in a tree -/

/-- The tree of a node. -/
def Node.tree : Node → NodeTree
  | .root m => m.tree
  | .stmt s => s.tree
  | .expr e => e.tree
  | .pattern p => p.tree
  | .handler (.mk m type name body) =>
    .mk (.handler (.mk m type name body)) (Expr.givenTree type ++ Stmt.trees body)
  | .matchCase (.mk m p guard body) =>
    .mk (.matchCase (.mk m p guard body)) (p.tree :: (Expr.givenTree guard ++ Stmt.trees body))
  | .clause (.mk m target iterable conditions) =>
    .mk (.clause (.mk m target iterable conditions)) (target.tree :: iterable.tree :: Expr.trees conditions)
  | .parameters p => p.tree
  | .parameter (.mk m name hint) => .mk (.parameter (.mk m name hint)) (Expr.givenTree hint)
  | .keyword (.mk m name value) => .mk (.keyword (.mk m name value)) [value.tree]
  | .importName n => n.tree
  | .withItem w => w.tree
  | .typeParameter t => t.tree
  | .ignore m => NodeTree.ofIgnore m

theorem Node.node_tree (n : Node) : n.tree.node = n := by
  cases n with
  | stmt s => exact s.node_tree
  | expr e => exact e.node_tree
  | pattern p => rcases p with _ | _ | _ | _ | _ | _ | ⟨_, _ | _, _⟩ | _ <;> rfl
  | handler h => cases h; rfl
  | matchCase c => cases c; rfl
  | clause c => cases c; rfl
  | parameters p => cases p; rfl
  | parameter p => cases p; rfl
  | keyword k => cases k; rfl
  | _ => rfl

namespace NodeTree

/-- Whether a tree is the tree of its top node. -/
def Own (t : NodeTree) : Prop := t = t.node.tree

/-- Whether trees are the trees of their top nodes. -/
def OwnIn (ts : List NodeTree) : Prop := ∀ t ∈ ts, t.Own

variable {t : NodeTree} {ts us : List NodeTree}

@[simp] theorem ownIn_nil : OwnIn [] := by simp [OwnIn]

@[simp] theorem ownIn_cons : OwnIn (t :: ts) ↔ t.Own ∧ OwnIn ts := by simp [OwnIn]

@[simp] theorem ownIn_append : OwnIn (ts ++ us) ↔ OwnIn ts ∧ OwnIn us := by
  simp only [OwnIn, List.mem_append]
  exact ⟨fun h => ⟨fun t ht => h t (.inl ht), fun t ht => h t (.inr ht)⟩, fun h t ht => ht.elim (h.1 t) (h.2 t)⟩

theorem ownIn_map {α : Type} {f : α → NodeTree} (h : ∀ a, (f a).Own) (as : List α) : OwnIn (as.map f) := by
  intro t ht
  obtain ⟨a, _, rfl⟩ := List.mem_map.1 ht
  exact h a

end NodeTree

@[simp] theorem Expr.own_tree (e : Expr) : e.tree.Own := by rw [NodeTree.Own, e.node_tree]; rfl

@[simp] theorem Stmt.own_tree (s : Stmt) : s.tree.Own := by rw [NodeTree.Own, s.node_tree]; rfl

@[simp] theorem Pattern.own_tree (p : Pattern) : p.tree.Own := by
  rw [NodeTree.Own, show p.tree.node = .pattern p from Node.node_tree (.pattern p)]
  rfl

@[simp] theorem Parameters.own_tree (ps : Parameters) : ps.tree.Own := by rw [NodeTree.Own, ps.node_tree]; rfl

@[simp] theorem Expr.ownIn_givenTree (e : Option Expr) : OwnIn (Expr.givenTree e) := by
  cases e <;> simp [Expr.givenTree]

@[simp] theorem Expr.ownIn_trees (es : List Expr) : OwnIn (Expr.trees es) := by
  induction es with
  | nil => simp [Expr.trees]
  | cons e es ih => simp [Expr.trees, ih]

@[simp] theorem Expr.ownIn_givenTrees (es : List (Option Expr)) : OwnIn (Expr.givenTrees es) := by
  induction es with
  | nil => simp [Expr.givenTrees]
  | cons e es ih => simp [Expr.givenTrees, ih]

@[simp] theorem Clause.ownIn_trees (cs : List Clause) : OwnIn (Clause.trees cs) := by
  induction cs with
  | nil => simp [Clause.trees]
  | cons c cs ih =>
    obtain ⟨m, target, iterable, conditions⟩ := c
    exact ownIn_cons.2 ⟨rfl, ih⟩

@[simp] theorem Keyword.ownIn_trees (ks : List Keyword) : OwnIn (Keyword.trees ks) := by
  induction ks with
  | nil => simp [Keyword.trees]
  | cons k ks ih =>
    obtain ⟨m, name, value⟩ := k
    exact ownIn_cons.2 ⟨rfl, ih⟩

@[simp] theorem Parameter.ownIn_trees (ps : List Parameter) : OwnIn (Parameter.trees ps) := by
  induction ps with
  | nil => simp [Parameter.trees]
  | cons p ps ih =>
    obtain ⟨m, name, hint⟩ := p
    exact ownIn_cons.2 ⟨rfl, ih⟩

@[simp] theorem Parameter.ownIn_givenTree (p : Option Parameter) : OwnIn (Parameter.givenTree p) := by
  cases p with
  | none => simp [Parameter.givenTree]
  | some p =>
    obtain ⟨m, name, hint⟩ := p
    exact ownIn_cons.2 ⟨rfl, ownIn_nil⟩

@[simp] theorem Pattern.ownIn_trees (ps : List Pattern) : OwnIn (Pattern.trees ps) := by
  induction ps with
  | nil => simp [Pattern.trees]
  | cons p ps ih => simp [Pattern.trees, ih]

@[simp] theorem Stmt.ownIn_trees (ss : List Stmt) : OwnIn (Stmt.trees ss) := by
  induction ss with
  | nil => simp [Stmt.trees]
  | cons s ss ih => simp [Stmt.trees, ih]

@[simp] theorem Handler.ownIn_trees (hs : List Handler) : OwnIn (Handler.trees hs) := by
  induction hs with
  | nil => simp [Handler.trees]
  | cons h hs ih =>
    obtain ⟨m, type, name, body⟩ := h
    exact ownIn_cons.2 ⟨rfl, ih⟩

@[simp] theorem MatchCase.ownIn_trees (cs : List MatchCase) : OwnIn (MatchCase.trees cs) := by
  induction cs with
  | nil => simp [MatchCase.trees]
  | cons c cs ih =>
    obtain ⟨m, pattern, guard, body⟩ := c
    exact ownIn_cons.2 ⟨rfl, ih⟩

/-- The children of the tree of a node are the trees of their nodes. -/
theorem Node.ownIn_children (n : Node) : OwnIn n.tree.children := by
  have hitems := ownIn_map (f := WithItem.tree) fun _ => rfl
  have hnames := ownIn_map (f := ImportName.tree) fun _ => rfl
  have htypes := ownIn_map (f := TypeParameter.tree) fun _ => rfl
  have hignores := ownIn_map (f := NodeTree.ofIgnore) fun _ => rfl
  cases n with
  | root m => simp [Node.tree, Module.tree, NodeTree.children, hignores]
  | stmt s => cases s <;> simp [Node.tree, Stmt.tree, NodeTree.children, hitems, hnames, htypes, hignores]
  | expr e => cases e <;> simp [Node.tree, Expr.tree, NodeTree.children]
  | pattern p =>
    rcases p with _ | _ | _ | _ | _ | _ | ⟨_, _ | _, _⟩ | _ <;> simp [Node.tree, Pattern.tree, NodeTree.children]
  | handler c | matchCase c | clause c => cases c; simp [Node.tree, NodeTree.children]
  | parameters p => cases p; simp [Node.tree, Parameters.tree, NodeTree.children]
  | parameter p => cases p; simp [Node.tree, NodeTree.children]
  | keyword k => cases k; simp [Node.tree, NodeTree.children]
  | importName n => simp [Node.tree, ImportName.tree, NodeTree.children]
  | withItem w => simp [Node.tree, WithItem.tree, NodeTree.children]
  | typeParameter t => simp [Node.tree, TypeParameter.tree, NodeTree.children]
  | ignore m => simp [Node.tree, NodeTree.ofIgnore, NodeTree.children]

mutual

/-- In a tree whose nodes have different numbers, the trees in it are such trees. -/
theorem NodeTree.Own.distinct {t : NodeTree} (ht : t.Own) (hd : t.labels.Nodup) : t.All Node.Distinct := by
  match t with
  | .mk n cs =>
    have hcs : OwnIn cs := by
      have h := n.ownIn_children
      rwa [← show NodeTree.mk n cs = n.tree from ht] at h
    rw [all_mk]
    refine ⟨?_, OwnIn.distinct hcs (by rw [labels_mk] at hd; exact hd.of_cons)⟩
    rw [show NodeTree.mk n cs = n.tree from ht] at hd
    cases n with
    | stmt s => exact hd
    | expr e => exact hd
    | _ => trivial

theorem NodeTree.OwnIn.distinct {ts : List NodeTree} (hts : OwnIn ts) (hd : (labelsIn ts).Nodup) : AllIn Node.Distinct ts := by
  match ts with
  | [] => simp
  | t :: ts =>
    rw [labelsIn_cons, List.nodup_append] at hd
    rw [ownIn_cons] at hts
    rw [allIn_cons]
    exact ⟨Own.distinct hts.1 hd.1, OwnIn.distinct hts.2 hd.2.1⟩

end

/-! ## The jobs -/

/-- Whether a node of a module gives a name, by some function of nodes. -/
def Module.Gives (m : Module) (f : Node → List String) (x : String) : Prop := ∃ n ∈ m.tree.preorder, x ∈ f n

/-- A store that a module can be bound in: parents are there, and the builtins stand in nothing and redirect nothing to a
module. -/
structure Store.Grounded (st : Store) (builtins : Option Nat) : Prop where
  closed : st.Closed
  builtins : ∀ b, builtins = some b →
    b < st.scopes.size ∧ st.parent? b = none ∧ ∀ name, st.redirection? b name ≠ some .global

namespace Bind

open Store

variable {ω : Type} {u : Setup ω} {m : Module} {w : Job} {s s' : State ω}

/-- The job of the body of a module, given the number of its scope. -/
def Job.ofModule (u : Setup ω) (m : Module) (strict : Bool) (base : Nat) : Job where
  base := base
  builtins := u.builtins
  start := base + 1
  home := base
  isStub := u.file.isStub
  nonlocals := m.Gives Node.nonlocals
  globals := m.Gives Node.globals
  walruses := m.Gives Node.named
  members := m.Gives Node.assignedMembers
  receives := fun _ _ => False
  strict := strict
  taken := fun _ => False

/-- The job of a body that has waited, after another one. -/
def Job.turn (w : Job) (u : Setup ω) (task : Task) (r : State ω) : Job :=
  { w with
    start := r.store.scopes.size
    home := task.scope
    globals := fun x => ∃ n ∈ task.body.nodes, x ∈ n.globals
    receives := fun i site => ∃ c, r.scopeAt c = some i ∧ u.outline.Claims c site
    taken := fun i => w.taken i ∨ i = task.body.mark.index }

theorem Serves.turn (hv : Serves u w) (task : Task) (r : State ω) : Serves u (w.turn u task r) :=
  ⟨hv.builtins, hv.isStub, hv.aside, hv.regular, hv.answers⟩

theorem Belongs.turn {l : Enclosure} {n : Node} (h : Belongs u w l n) (task : Task) (r : State ω) :
    Belongs u (w.turn u task r) l n :=
  ⟨h.encloses, h.parsed, h.nonlocals, h.members, h.named, h.distinct⟩

/-- Every node of a numbered module belongs to its jobs. -/
theorem under_belongs (ho : u.outline = Outline.ofModule m.number) {strict : Bool} (base : Nat)
    (hparsed : strict = true → m.number.tree.All Node.Parsed) :
    m.number.tree.Under (Belongs u (Job.ofModule u m.number strict base)) {} := by
  have hdistinct : m.number.tree.All Node.Distinct := by
    refine NodeTree.Own.distinct rfl ?_
    rw [Module.labels_number]
    exact List.nodup_range
  have hself : m.number.tree.All (· ∈ m.number.tree.preorder) := fun n hn => hn
  refine (((m.under_number.and_all hself).and_all hdistinct)).imp fun l n h => ?_
  obtain ⟨⟨hencloses, hmem⟩, hd⟩ := h
  exact
    { encloses := by rw [ho]; exact hencloses
      parsed := fun hs => hparsed hs n hmem
      nonlocals := fun x hx => ⟨n, hmem, hx⟩
      members := fun x hx => ⟨n, hmem, hx⟩
      named := fun _ x hx => ⟨n, hmem, hx⟩
      distinct := hd }

/-! ## The first job -/

section

variable {st : Store} {sc : Scope}

/-- Only the new scope itself stands in a new scope. -/
theorem eq_of_climbs_addScope (hc : st.Closed) (hsc : ∀ p, sc.parent = some p → p < st.scopes.size) {i : Nat}
    (h : (st.addScope sc).2.Climbs i st.scopes.size) : i = st.scopes.size := by
  rcases Relation.ReflTransGen.cases_tail h with heq | ⟨j, _, hj⟩
  · exact heq.symm
  · -- the parent of an old scope is old, and so is that of the new one
    have hlt : st.scopes.size < st.scopes.size := by
      rw [Store.parent?, scope?_addScope] at hj
      split at hj
      · exact hsc _ hj
      · exact hc j _ hj
    exact absurd hlt (lt_irrefl _)

/-- The scope of a module when it is opened. -/
def emptyModule (builtins : Option Nat) : Scope :=
  { type := if builtins.isNone then .builtin else .moduleBody, parent := builtins }

theorem symbol?_emptyModule (builtins : Option Nat) (name : String) :
    (st.addScope (emptyModule builtins)).2.symbol? st.scopes.size name = none := by
  simp [Store.symbol?, scope?_addScope, emptyModule, Scope.symbol?]

theorem redirection?_emptyModule (builtins : Option Nat) (name : String) :
    (st.addScope (emptyModule builtins)).2.redirection? st.scopes.size name = none := by
  simp [Store.redirection?, scope?_addScope, emptyModule, Scope.redirection?]

theorem orderly_initial (h : st.Grounded u.builtins) (m : Module) (strict : Bool) :
    Orderly (Job.ofModule u m strict st.scopes.size).toStage (st.addScope (emptyModule u.builtins)).2 := by
  have hown : ∀ i, (st.addScope (emptyModule u.builtins)).2.Climbs i st.scopes.size → i = st.scopes.size := fun i hi =>
    eq_of_climbs_addScope h.closed (fun p hp => (h.builtins p hp).1) hi
  have htype : (st.addScope (emptyModule u.builtins)).2.type? st.scopes.size = some (emptyModule u.builtins).type := by
    simp [Store.type?, scope?_addScope]
  have hparent : (st.addScope (emptyModule u.builtins)).2.parent? st.scopes.size = u.builtins := by
    simp [Store.parent?, scope?_addScope, emptyModule]
  have hplain : (emptyModule u.builtins).type ≠ .classBody ∧ (emptyModule u.builtins).type ≠ .comprehension := by
    unfold emptyModule
    dsimp only
    split <;> simp
  have hredirection : ∀ name, (st.addScope (emptyModule u.builtins)).2.redirection? st.scopes.size name = none :=
    redirection?_emptyModule u.builtins
  exact
    { closed := fun i p hp => by
        rw [size_addScope]
        rw [Store.parent?, scope?_addScope] at hp
        split at hp
        · exact Nat.lt_succ_of_lt (h.builtins p hp).1
        · exact Nat.lt_succ_of_lt (h.closed i p hp)
      root := ⟨htype, hparent, hredirection⟩
      outermost := fun b hb => by
        obtain ⟨hlt, hnone, hglobal⟩ := h.builtins b hb
        have hold : (st.addScope (emptyModule u.builtins)).2.scope? b = st.scope? b := by rw [scope?_addScope, if_neg hlt.ne]
        refine ⟨hlt, ?_, fun name => ?_⟩
        · rw [Store.parent?, hold]
          exact hnone
        · rw [Store.redirection?, hold]
          exact hglobal name
      inner := fun i p hb hne _ => absurd (hown i hb) hne
      nested := fun i p hb hlate _ _ => by
        rw [hown i hb] at hlate
        exact absurd hlate (Nat.not_succ_le_self _)
      plain := fun i name hb _ => hown i hb ▸ hredirection name
      bare := fun i name s hb _ hs => by
        rw [hown i hb, symbol?_emptyModule] at hs
        cases hs
      toGlobal := fun i name hb hr => by
        rw [hown i hb, hredirection] at hr
        cases hr
      toOuter := fun i name hb hr => by
        rw [hown i hb, hredirection] at hr
        cases hr
      home := by
        refine ⟨.refl _ _, ?_⟩
        show Store.type? _ st.scopes.size ≠ _ ∧ Store.type? _ st.scopes.size ≠ _
        simpa only [htype, ne_eq, Option.some.injEq] using hplain
      started := by
        show st.scopes.size + 1 ≤ _
        rw [size_addScope] }

/-- The state in which the scope of a module has been opened. -/
def State.entered (u : Setup ω) (st : Store) (world : ω) : State ω :=
  { State.initial u st world with
    store := (st.addScope (emptyModule u.builtins)).2
    past := (State.initial u st world).past.map (st :: ·) }

/-- When the scope of a module has been opened, nothing is known that could be wrong. -/
theorem holds_entered (h : st.Grounded u.builtins) (m : Module) (strict : Bool) (world : ω) :
    Holds u (Job.ofModule u m strict st.scopes.size) (State.entered u st world) := by
  set s : State ω := State.entered u st world with hs
  have hfacts : ∀ i, s.factsAt i = {} := factsAt_initial u st world
  have hscope : ∀ {i sc}, s.scopeAt i = some sc → False := fun {i sc} hi => by
    rw [State.scopeAt, hfacts] at hi
    cases hi
  have hempty : ∀ {i name sym}, s.store.Climbs i st.scopes.size → s.store.symbol? i name = some sym → False := by
    intro i name sym hb hsym
    rw [eq_of_climbs_addScope h.closed (fun p hp => (h.builtins p hp).1) hb,
      show s.store.symbol? st.scopes.size name = none from symbol?_emptyModule _ _] at hsym
    cases hsym
  exact
    { order := orderly_initial h m strict
      size := by simp [hs, State.entered, State.initial]
      listed := fun i ref slot hi => by
        rw [hfacts] at hi
        cases hi
      privates := fun p hp => by cases hp
      classes := fun i n sc _ _ hi => (hscope hi).elim
      bodies := fun i n sc _ _ hi => (hscope hi).elim
      tasks := fun t ht => by cases ht
      queued := ⟨.nil, fun t ht => by cases ht⟩
      scopes := fun i sc hi => (hscope hi).elim
      numbers :=
        ⟨fun i name sym hb hsym => (hempty hb hsym).elim, fun i j name other sym sym' hb _ hsym _ _ => (hempty hb hsym).elim⟩
      mentions := fun id hid => by
        obtain ⟨i, n, hn, hid⟩ := hid
        have hn' : FlowGraph.initial[i]? = some n := hn
        obtain rfl : n = FlowGraph.sentinel := by simpa [FlowGraph.initial] using Array.mem_of_getElem? hn'
        cases hid
      homes := ⟨fun i j sc hi => (hscope hi).elim, fun sc site hr => hr.elim, fun c sc site hc => (hscope hc).elim⟩ }

end

/-! ## From job to job -/

theorem Waits.turn {t : Task} (h : Waits u w s t) (task : Task) (r : State ω) : Waits u (w.turn u task r) s t where
  below := h.below
  type := h.type
  marked := h.marked
  node := h.node
  code := by
    obtain ⟨l, hl, hcode, hrest⟩ := h.code
    refine ⟨l, hl, ?_, hrest⟩
    cases hbody : t.body with
    | function mark params body =>
      rw [hbody] at hcode
      exact UnderIn.imp hcode fun _ _ hb => hb.turn task r
    | lambda mark params body =>
      rw [hbody] at hcode
      exact Under.imp hcode fun _ _ hb => hb.turn task r
  free := h.free

/-- What holds while a job is at work holds of the next one, when its body has been taken from the queue. -/
theorem Holds.turn (h : Holds u w s) {task : Task} {queue : List Task} (hq : s.queue = task :: queue) :
    Holds u (w.turn u task s) { s with queue := queue } := by
  have hfirst := h.tasks task (by simp [hq])
  have hsorted := h.queued.1
  rw [hq, List.map_cons, List.pairwise_cons] at hsorted
  exact
    { order := h.order.turn rfl rfl rfl rfl rfl ⟨hfirst.below, by
        show s.store.type? task.scope ≠ _ ∧ s.store.type? task.scope ≠ _
        rw [hfirst.type]
        simp⟩
      size := h.size
      listed := h.listed
      privates := h.privates
      classes := h.classes
      bodies := fun i n sc hn hf hi => by
        rcases h.bodies i n sc hn hf hi with ⟨t, ht, hmark, hscope⟩ | htaken
        · rw [hq] at ht
          rcases List.mem_cons.1 ht with rfl | ht
          · exact .inr (.inr hmark.symm)
          · exact .inl ⟨t, ht, hmark, hscope⟩
        · exact .inr (.inl htaken)
      tasks := fun t ht => by
        have hwaits := (h.tasks t (by rw [hq]; exact List.mem_cons_of_mem _ ht)).turn task s
        exact ⟨hwaits.below, hwaits.type, hwaits.marked, hwaits.node, hwaits.code, hwaits.free⟩
      queued := ⟨hsorted.2, fun t ht => hsorted.1 _ (List.mem_map_of_mem ht)⟩
      scopes := h.scopes
      numbers := ⟨h.numbers.fresh, h.numbers.distinct⟩
      mentions := h.mentions
      homes := ⟨h.homes.once, fun sc site hr => by
        obtain ⟨c, hc, hclaims⟩ := hr
        exact ⟨h.scope_lt hc, fun c' hc' => h.homes.once c c' sc hc hc' ▸ hclaims⟩, h.homes.members⟩ }

/-- The scope of the body that has waited longest is that of its node, if no other body waits or was bound there. -/
theorem Holds.scopeAt_first (h : Holds u w s) {task : Task} {queue : List Task} (hq : s.queue = task :: queue)
    (hother : ∀ t ∈ queue, t.body.mark.index ≠ task.body.mark.index) (htaken : ¬ w.taken task.body.mark.index) :
    s.scopeAt task.body.mark.index = some task.scope := by
  have hfirst := h.tasks task (by simp [hq])
  obtain ⟨sc, hsc⟩ := Option.isSome_iff_exists.1 hfirst.marked
  obtain ⟨n, hn, hkind⟩ := hfirst.node
  obtain ⟨t, ht, hmark, hscope⟩ := (h.bodies _ n sc hn hkind hsc).resolve_right htaken
  rw [hq] at ht
  rcases List.mem_cons.1 ht with rfl | ht
  · rw [hsc, hscope]
  · exact absurd hmark (hother t ht)

/-- The body that has waited longest can be bound. -/
theorem Holds.ready (h : Holds u w s) {task : Task} {queue : List Task} (hq : s.queue = task :: queue)
    (hscope : s.scopeAt task.body.mark.index = some task.scope) :
    ∃ l : Enclosure, 0 < l.low ∧ task.body.Under (Admits u (w.turn u task s)) l ∧
      Ready u (w.turn u task s) task.scope l { s with queue := queue } ∧
      (task.body.isFunction = true → Firm (w.turn u task s) task.scope s.store) := by
  have hfirst := h.tasks task (by simp [hq])
  obtain ⟨l, hl, hcode, hcls, howner⟩ := hfirst.code
  have hreceives : Receives (w.turn u task s) task.scope l.low { s with queue := queue } task.body.mark.index :=
    ⟨by rw [hl.low]; omega, task.scope, hscope, .refl _⟩
  refine ⟨l, by rw [hl.low]; omega, ?_, ?_, fun hf => ⟨h.order.closed, ⟨_, hfirst.type, by simp⟩, hfirst.free hf⟩⟩
  · cases hbody : task.body with
    | function mark params body =>
      rw [hbody] at hcode
      have hglobals : AllIn (fun n => ∀ x ∈ n.globals, (w.turn u task s).globals x) (Stmt.trees body) :=
        fun n hn x hx => ⟨n, by simp [hbody, Body.nodes, nodesIn, hn], hx⟩
      exact (UnderIn.and_all hcode hglobals).imp fun _ _ hb => { hb.1.turn task s with globals := hb.2 }
    | lambda mark params body =>
      rw [hbody] at hcode
      have hglobals : body.tree.All (fun n => ∀ x ∈ n.globals, (w.turn u task s).globals x) :=
        fun n hn x hx => ⟨n, by simp [hbody, Body.nodes, nodes, hn], hx⟩
      exact (Under.and_all hcode hglobals).imp fun _ _ hb => { hb.1.turn task s with globals := hb.2 }
  · exact
      { stands := ⟨hfirst.below, .inl rfl⟩
        type := ⟨_, hfirst.type, fun ht => by cases ht⟩
        plain := fun c hc => by
          rw [hl.plain] at hc
          cases hc
          exact hreceives
        inComprehension := fun c hc => by
          rw [hl.inComprehension] at hc
          cases hc
          exact hreceives
        cls := hcls
        owner := fun c hc => ⟨howner c hc, fun i hi => ⟨h.scope_lt hi, fun site hclaims => ⟨c, hi, hclaims⟩⟩⟩ }

end Bind

end ScopeFlow
