import ScopeFlow.Proofs.Edits
import ScopeFlow.Proofs.Enclosures
import ScopeFlow.Proofs.Queue

/-!
# Jobs: the binding of one body

A `Job` is a stage with what is known of the run of the module so far. `Holds` is what holds of the state whenever a job is at
work: the store is orderly, what is recorded of nodes refers to scopes of the module, and every body that waits can be bound.
`Goes` is how a job moves the state on: by edits of the store with their reasons, each of which is on record, and without a
change to the scopes of nodes below a number.

`Walks` says of a step that, from wherever the job has gone to since a state, it goes on and keeps what holds. A step that fails
has still changed the store by edits with their reasons only, and it does not fail if the job is strict. So facts about the first
state that stay true as the job goes on are at hand at every later step.
-/

namespace ScopeFlow

/-! ## What a tree says by its form -/

/-- Whether a node has the form that a parser gives it. -/
def Node.Parsed : Node → Prop
  | .stmt (.nested ..) => False
  | .stmt (.importFrom _ _ _ level) => level.isSome
  | .expr (.named _ target _) => target.isName = true
  | .expr (.comprehension _ _ _ clauses) => clauses ≠ []
  | .expr (.boolOp _ _ values) => values ≠ []
  | .expr (.compare _ _ ops comparators) => ops.length = comparators.length ∧ ops ≠ []
  | _ => True

/-- The names that a node declares as `nonlocal`. -/
def Node.nonlocals : Node → List String
  | .stmt (.nonlocals _ names) => names
  | _ => []

/-- The names that a node declares as `global`. -/
def Node.globals : Node → List String
  | .stmt (.globals _ names) => names
  | _ => []

/-- The name that a node assigns as an assignment expression. -/
def Node.named : Node → List String
  | .expr (.named _ (.name _ id) _) => [id]
  | _ => []

mutual

/-- The members of names that a target assigns. -/
def Expr.assignedMembers (e : Expr) : List String :=
  match e with
  | .member _ (.name ..) attr => [attr]
  | .tuple _ elements => Expr.membersAssigned elements
  | .list _ elements => Expr.membersAssigned elements
  | .starred _ value => value.assignedMembers
  | _ => []

/-- The members of names that several targets assign. -/
def Expr.membersAssigned (es : List Expr) : List String :=
  match es with
  | [] => []
  | e :: es => e.assignedMembers ++ Expr.membersAssigned es

end

/-- The members of names that the targets of a node assign. -/
def Node.assignedMembers : Node → List String
  | .stmt (.assign _ targets _) => Expr.membersAssigned targets
  | .stmt (.augAssign _ target _ _) => target.assignedMembers
  | .stmt (.annAssign _ target _ _) => target.assignedMembers
  | .stmt (.forLoop _ _ target _ _ _) => target.assignedMembers
  | .stmt (.typeAlias _ name _ _) => name.assignedMembers
  | .withItem w => (w.target.map Expr.assignedMembers).getD []
  | .clause (.mk _ target _ _) => target.assignedMembers
  | _ => []

/-- Whether the nodes of the tree of a statement or expression have different numbers. -/
def Node.Distinct : Node → Prop
  | .stmt s => s.tree.labels.Nodup
  | .expr e => e.tree.labels.Nodup
  | _ => True

/-- The numbers of the symbols that a flow node mentions. -/
def FlowStep.symbols : FlowStep → List Int
  | .assign _ _ _ target _ => target.toList
  | .takeOver _ target source => [target, source]
  | _ => []

/-- Whether the node at a site is a member of a bare name that belongs to a class: the name is the first parameter of the function
around the node or the name of the class, and the class is the nearest one around this function. -/
def Outline.Claims (o : Outline) (cls : Nat) (site : Site) : Prop :=
  ∃ m k base attr name isInstance, o.node? site.index = some (.expr (.member m (.name k base) attr)) ∧
    o.memberOwner? site.index base = some (cls, name, isInstance)

namespace Bind

open Store NodeTree

variable {ω : Type} {α β : Type} {c : Prop}

/-- A stage of a run. -/
structure Job extends Stage where
  /-- Whether nothing may fail. -/
  strict : Bool
  /-- The nodes whose bodies have been taken from the queue. -/
  taken : Nat → Prop

/-- The scope that a node opens. -/
def State.scopeAt (s : State ω) (i : Nat) : Option Nat := (s.factsAt i).scope

/-- The stores of a run up to a state, the latest first. -/
noncomputable def State.stores (s : State ω) : List Store := s.store :: s.past.value

/-- Whether a flow node mentions the symbol with a number. -/
def State.Mentions (s : State ω) (id : Int) : Prop := ∃ (i : Nat) (n : FlowNode), s.graph[i]? = some n ∧ id ∈ n.step.symbols

section

variable (u : Setup ω) (w : Job)

/-- What a job relies on: what other modules look like is found out without a change to the scopes that are there. -/
structure Serves : Prop where
  builtins : w.builtins = u.builtins
  isStub : w.isStub = u.file.isStub
  aside : ∀ path st world, Stage.Aside u.builtins st (u.exports path st world).2.1
  regular : w.strict = true → u.file.isStub = false
  answers : w.strict = true → ∀ path st world, ∃ e, (u.exports path st world).1 = .ok e

/-- What every node of the module is known to be. -/
structure Belongs (l : Enclosure) (n : Node) : Prop where
  encloses : u.outline.Encloses l n
  parsed : w.strict = true → n.Parsed
  nonlocals : ∀ x ∈ n.nonlocals, w.nonlocals x
  members : ∀ x ∈ n.assignedMembers, w.members x
  named : l.isNested = true → ∀ x ∈ n.named, w.walruses x
  distinct : n.Distinct

/-- What every node that a job meets is known to be. -/
structure Admits (l : Enclosure) (n : Node) : Prop extends Belongs u w l n where
  globals : ∀ x ∈ n.globals, w.globals x

/-- Whether a node is a class whose scope has been opened. -/
def ClassAt (s : State ω) (c : Nat) : Prop :=
  (∃ n, u.outline.node? c = some n ∧ n.isClass = true) ∧ (s.scopeAt c).isSome

/-- Whether a node is a class whose scope has been opened, and stands below a number. -/
def ClassBefore (s : State ω) (low c : Nat) : Prop := ClassAt u s c ∧ c < low

/-- Whether no class of the module is above a scope. -/
def ClassFree (st : Store) (i : Nat) : Prop :=
  ∀ p, st.parent? i = some p → ∀ j, st.Climbs p j → w.Below st j → st.type? j ≠ some .classBody

/-- What is known of the code of a body in its enclosure. -/
def Body.Under (P : Enclosure → Node → Prop) (l : Enclosure) : Body → Prop
  | .function _ _ body => UnderIn P (fun _ => l) (Stmt.trees body)
  | .lambda _ _ body => body.tree.Under P l

/-- Whether a body is that of a function. -/
def Body.isFunction : Body → Bool
  | .function .. => true
  | .lambda .. => false

/-- Whether an enclosure is that of the body of a node. -/
structure Enclosure.Within (l : Enclosure) (node : Nat) : Prop where
  plain : l.plain = some node
  inComprehension : l.inComprehension = some node
  isNested : l.isNested = false
  low : l.low = node + 1

/-- A body that waits and that can be bound. -/
structure Waits (s : State ω) (t : Task) : Prop where
  below : w.Below s.store t.scope
  type : s.store.type? t.scope = some .function
  marked : (s.scopeAt t.body.mark.index).isSome
  node : ∃ n, u.outline.node? t.body.mark.index = some n ∧ (n.isFunction || n.isLambda) = true
  code : ∃ l : Enclosure, Enclosure.Within l t.body.mark.index ∧ t.body.Under (Belongs u w) l ∧
    (∀ c, l.cls = some c → ClassBefore u s l.low c) ∧ ∀ c, l.owner = some c → ClassBefore u s l.low c
  free : t.body.isFunction = true → ClassFree w s.store t.scope

/-- Whether a symbol is one of the module, or one that a `nonlocal` statement names. -/
def Fair (st : Store) (ref : SymbolRef) : Prop := w.Below st ref.scope ∨ w.nonlocals ref.name

/-- Scopes belong to their nodes: no two nodes have one scope, and the members that a scope has or may get are those of its
node. -/
structure Homes (s : State ω) : Prop where
  once : ∀ i j sc, s.scopeAt i = some sc → s.scopeAt j = some sc → i = j
  early : ∀ sc site, w.receives sc site → sc < w.start ∧ ∀ c, s.scopeAt c = some sc → u.outline.Claims c site
  members : ∀ c sc site, s.scopeAt c = some sc → s.store.HasMember sc site → u.outline.Claims c site

/-- A scope that no node has and that neither has members nor may get some. -/
structure Blank (s : State ω) (scope : Nat) : Prop where
  unused : ∀ i, s.scopeAt i ≠ some scope
  empty : ∀ name, s.store.symbol? scope name = none
  closed : ∀ site, ¬ w.receives scope site

/-- What holds of the state while a job is at work. -/
structure Holds (s : State ω) : Prop where
  order : Orderly w.toStage s.store
  size : s.facts.size = u.outline.size
  listed : ∀ i ref slot, (s.factsAt i).declaration = some (.listed ref slot) → Fair w s.store ref
  privates : ∀ p ∈ s.privates, w.Below s.store p.2.scope
  classes : ∀ i n sc, u.outline.node? i = some n → n.isClass = true → s.scopeAt i = some sc →
    w.Below s.store sc ∧ s.store.type? sc = some .classBody
  bodies : ∀ i n sc, u.outline.node? i = some n → (n.isFunction || n.isLambda) = true → s.scopeAt i = some sc →
    (∃ t ∈ s.queue, t.body.mark.index = i ∧ t.scope = sc) ∨ w.taken i
  tasks : ∀ t ∈ s.queue, Waits u w s t
  queued : (s.queue.map Task.scope).Pairwise (· < ·) ∧ ∀ t ∈ s.queue, w.home < t.scope
  scopes : ∀ i sc, s.scopeAt i = some sc → w.Below s.store sc
  numbers : w.Numbers s.store
  mentions : ∀ id, s.Mentions id → w.Names s.store id
  homes : Homes u w s

/-- How a job moves the state on, without a change to the scopes of nodes below a number. -/
structure Goes (low : Nat) (s s' : State ω) : Prop where
  trail : w.Trail s.stores s'.stores
  frozen : ∀ i < low, s'.scopeAt i = s.scopeAt i
  kept : ∀ i, (s.scopeAt i).isSome → (s'.scopeAt i).isSome
  after : ∀ i n, u.outline.node? i = some n → (n.isFunction || n.isLambda) = true →
    (s'.factsAt i).after = (s.factsAt i).after

/-- A step, from a state: it goes on, keeps what holds and has a result; or it fails after edits with their reasons, which it does
not if the job is strict. -/
def Runs (low : Nat) (s : State ω) (f : BindM ω α) (Q : α → State ω → Prop) : Prop :=
  (∀ a s', f.run s = .ok a s' → Goes u w low s s' ∧ Holds u w s' ∧ Q a s') ∧
    ∀ e s', f.run s = .error e s' → w.strict = false ∧ w.Trail s.stores s'.stores

/-- A step, from any state that the job has gone to since a state. -/
def Walks (low : Nat) (s₀ : State ω) (f : BindM ω α) (Q : α → State ω → Prop) : Prop :=
  ∀ s, Goes u w low s₀ s → Holds u w s → Runs u w low s f Q

/-- A step that goes on and keeps what holds. -/
abbrev Upholds (low : Nat) (s₀ : State ω) (f : BindM ω α) : Prop := Walks u w low s₀ f fun _ _ => True

end

variable {u : Setup ω} {w : Job} {low : Nat} {s s' s'' s₀ s₁ : State ω}

namespace Goes

theorem refl (s : State ω) : Goes u w low s s := ⟨.refl, fun _ _ => rfl, fun _ h => h, fun _ _ _ _ => rfl⟩

theorem trans (h : Goes u w low s s') (h' : Goes u w low s' s'') : Goes u w low s s'' :=
  ⟨h.trail.trans h'.trail, fun i hi => (h'.frozen i hi).trans (h.frozen i hi), fun i hi => h'.kept i (h.kept i hi),
    fun i n hn hf => (h'.after i n hn hf).trans (h.after i n hn hf)⟩

theorem steps (h : Goes u w low s s') : w.Steps s.store s'.store := h.trail.steps

theorem grows (h : Goes u w low s s') : s.store.Grows s'.store := Stage.Steps.grows h.steps

/-- What leaves more nodes alone leaves fewer alone. -/
theorem mono {low' : Nat} (h : Goes u w low' s s') (hle : low ≤ low') : Goes u w low s s' :=
  { h with frozen := fun i hi => h.frozen i (hi.trans_le hle) }

end Goes

theorem ClassAt.mono {c : Nat} (h : ClassAt u s c) (hk : ∀ i, (s.scopeAt i).isSome → (s'.scopeAt i).isSome) :
    ClassAt u s' c := ⟨h.1, hk c h.2⟩

theorem ClassBefore.mono {c : Nat} (h : ClassBefore u s low c) (hk : ∀ i, (s.scopeAt i).isSome → (s'.scopeAt i).isSome) :
    ClassBefore u s' low c := ⟨h.1.mono hk, h.2⟩

/-- Parents of scopes that are there do not change, so no class comes to stand above. -/
theorem ClassFree.mono {st st' : Store} {i : Nat} (h : ClassFree w st i) (hg : st.Grows st') (hc : st.Closed)
    (hi : i < st.scopes.size) : ClassFree w st' i := by
  intro p hp j hj hbelow
  rw [hg.parent? hi] at hp
  have hback : ∀ {a b}, st'.Climbs a b → a < st.scopes.size → st.Climbs a b ∧ b < st.scopes.size := by
    intro a b hab ha
    induction hab with
    | refl => exact ⟨.refl _ _, ha⟩
    | tail _ hstep ih =>
      rw [hg.parent? ih.2] at hstep
      exact ⟨Relation.ReflTransGen.tail ih.1 hstep, hc _ _ hstep⟩
  obtain ⟨hclimb, hlt⟩ := hback hj (hc i p hp)
  obtain ⟨sc, hsc⟩ := Option.isSome_iff_exists.1 (scope?_isSome.2 hlt)
  have htype : st.type? j = some sc.type := by simp [Store.type?, hsc]
  rw [hg.type? htype, ← htype]
  exact h p hp j hclimb (hback hbelow hlt).1

theorem Fair.mono {st st' : Store} {ref : SymbolRef} (h : Fair w st ref) (hg : st.Grows st') : Fair w st' ref :=
  h.imp (fun hb => hb.mono hg) id

theorem Waits.mono {t : Task} (h : Waits u w s t) (ho : Orderly w.toStage s.store) (hg : s.store.Grows s'.store)
    (hk : ∀ i, (s.scopeAt i).isSome → (s'.scopeAt i).isSome) : Waits u w s' t where
  below := h.below.mono hg
  type := hg.type? h.type
  marked := hk _ h.marked
  node := h.node
  code := by
    obtain ⟨l, hl, hcode, hcls, howner⟩ := h.code
    exact ⟨l, hl, hcode, fun c hc => (hcls c hc).mono hk, fun c hc => (howner c hc).mono hk⟩
  free := fun hf => (h.free hf).mono hg ho.closed (ho.lt_of_below h.below)

theorem Holds.scope_lt (h : Holds u w s) {i sc : Nat} (hi : s.scopeAt i = some sc) : sc < s.store.scopes.size :=
  h.order.lt_of_below (h.scopes i sc hi)

/-- Scopes stay with their nodes if no scope of a node changes. -/
theorem Holds.homes_of_steps (h : Holds u w s) (hscope : ∀ i, s'.scopeAt i = s.scopeAt i) (hsteps : w.Steps s.store s'.store) :
    Homes u w s' where
  once := fun i j sc hi hj => h.homes.once i j sc ((hscope i).symm.trans hi) ((hscope j).symm.trans hj)
  early := fun sc site hr => ⟨(h.homes.early sc site hr).1, fun c hc => (h.homes.early sc site hr).2 c ((hscope c).symm.trans hc)⟩
  members := fun c sc site hc hm => by
    have hc' := (hscope c).symm.trans hc
    exact (Stage.Steps.members hsteps (h.scope_lt hc') hm).elim (h.homes.members c sc site hc') fun hr =>
      (h.homes.early sc site hr).2 c hc'

/-- A node gets a scope of its own. -/
theorem Homes.note (h : Homes u w s) {node scope : Nat} (hat : ∀ i, s'.scopeAt i = if i = node then some scope else s.scopeAt i)
    (hstore : s'.store = s.store) (hblank : Blank w s scope) : Homes u w s' := by
  have hcases : ∀ {i sc}, s'.scopeAt i = some sc → i = node ∧ sc = scope ∨ s.scopeAt i = some sc := by
    intro i sc hi
    rw [hat] at hi
    split at hi
    · rename_i heq
      exact .inl ⟨heq, (Option.some.inj hi).symm⟩
    · exact .inr hi
  refine ⟨fun i j sc hi hj => ?_, fun sc site hr => ⟨(h.early sc site hr).1, fun c hc => ?_⟩, fun c sc site hc hm => ?_⟩
  · rcases hcases hi with ⟨rfl, rfl⟩ | hi
    · exact (hcases hj).elim (fun heq => heq.1.symm) fun hj => absurd hj (hblank.unused j)
    · rcases hcases hj with ⟨rfl, rfl⟩ | hj
      · exact absurd hi (hblank.unused i)
      · exact h.once i j sc hi hj
  · rcases hcases hc with ⟨_, rfl⟩ | hc
    · exact absurd hr (hblank.closed site)
    · exact (h.early sc site hr).2 c hc
  · rcases hcases hc with ⟨_, rfl⟩ | hc
    · obtain ⟨name, symbol, hs, _⟩ := hm
      rw [hstore, hblank.empty] at hs
      cases hs
    · exact h.members c sc site hc (hstore ▸ hm)

/-- A change of the state that leaves the scopes and declarations of nodes, the names kept back and the queue alone. -/
structure Passes (u : Setup ω) (w : Job) (s s' : State ω) : Prop where
  trail : w.Trail s.stores s'.stores
  size : s'.facts.size = s.facts.size
  scope : ∀ i, s'.scopeAt i = s.scopeAt i
  declaration : ∀ i, (s'.factsAt i).declaration = (s.factsAt i).declaration
  after : ∀ i n, u.outline.node? i = some n → (n.isFunction || n.isLambda) = true →
    (s'.factsAt i).after = (s.factsAt i).after
  privates : s'.privates = s.privates
  queue : s'.queue = s.queue
  mentions : ∀ id, s'.Mentions id → s.Mentions id ∨ w.Names s'.store id

namespace Passes

theorem goes (h : Passes u w s s') : Goes u w low s s' :=
  ⟨h.trail, fun i _ => h.scope i, fun i hi => (h.scope i).symm ▸ hi, h.after⟩

theorem holds (h : Passes u w s s') (hs : Holds u w s) : Holds u w s' := by
  have hsteps : w.Steps s.store s'.store := h.trail.steps
  have hg := Stage.Steps.grows hsteps
  refine
    { order := hs.order.steps hsteps
      size := h.size.trans hs.size
      listed := fun i ref slot hi => (hs.listed i ref slot ((h.declaration i).symm.trans hi)).mono hg
      privates := fun p hp => (hs.privates p (h.privates ▸ hp)).mono hg
      classes := fun i n sc hn hc hi => ?_
      bodies := fun i n sc hn hf hi => ?_
      tasks := fun t ht => ?_
      queued := h.queue.symm ▸ hs.queued
      scopes := fun i sc hi => (hs.scopes i sc ((h.scope i).symm.trans hi)).mono hg
      numbers := hs.numbers.steps hs.order hsteps
      mentions := fun id hid => (h.mentions id hid).elim (fun hold => (hs.mentions id hold).mono hg) fun hnew => hnew
      homes := hs.homes_of_steps h.scope hsteps }
  · obtain ⟨hb, ht⟩ := hs.classes i n sc hn hc ((h.scope i).symm.trans hi)
    exact ⟨hb.mono hg, hg.type? ht⟩
  · rw [h.queue]
    exact hs.bodies i n sc hn hf ((h.scope i).symm.trans hi)
  · exact (hs.tasks t (h.queue ▸ ht)).mono hs.order hg fun i hi => (h.scope i).symm ▸ hi

/-- An edit that is put on record. -/
theorem trail_record (h : w.Step s.store s'.store) (hpast : s'.past = s.past.map (s.store :: ·)) :
    w.Trail s.stores s'.stores := by
  rw [State.stores, State.stores, hpast, Ghost.value_map]
  exact .step .refl h

/-- An edit of the store alone. -/
theorem ofStore {st : Store} (h : w.Step s.store st) :
    Passes u w s { s with store := st, past := s.past.map (s.store :: ·) } :=
  ⟨trail_record h rfl, rfl, fun _ => rfl, fun _ => rfl, fun _ _ _ _ => rfl, rfl, rfl, fun _ => .inl⟩

/-- A change that leaves the store, the facts, the names kept back and the queue alone, and that mentions no new symbol. -/
theorem ofRest (hstore : s'.stores = s.stores) (hfacts : s'.facts = s.facts) (hprivates : s'.privates = s.privates)
    (hqueue : s'.queue = s.queue) (hmentions : ∀ id, s'.Mentions id → s.Mentions id) : Passes u w s s' := by
  have hf : ∀ i, s'.factsAt i = s.factsAt i := fun i => by simp [State.factsAt, hfacts]
  exact ⟨hstore ▸ .refl, by rw [hfacts], fun i => by simp [State.scopeAt, hf], fun i => by rw [hf],
    fun i _ _ _ => by rw [hf], hprivates, hqueue, fun id hid => .inl (hmentions id hid)⟩

/-- A change of what is known of a node that leaves its scope and declaration alone. -/
theorem ofFacts {node : Nat} {f : NodeFacts → NodeFacts} (hscope : ∀ x, (f x).scope = x.scope)
    (hdeclaration : ∀ x, (f x).declaration = x.declaration)
    (hafter : (∀ x, (f x).after = x.after) ∨ ∀ n, u.outline.node? node = some n → (n.isFunction || n.isLambda) = false) :
    Passes u w s { s with facts := s.facts.modify node f } := by
  refine ⟨.refl, by simp, fun i => ?_, fun i => ?_, fun i n hn hf => ?_, rfl, rfl, fun _ => .inl⟩
  · rw [State.scopeAt, State.factsAt_modify]
    split
    · exact hscope _
    · rfl
  · rw [State.factsAt_modify]
    split
    · exact hdeclaration _
    · rfl
  · rw [State.factsAt_modify]
    split
    · rename_i hi
      rcases hafter with hafter | hafter
      · exact hafter _
      · rw [hi.1] at hn
        rw [hafter n hn] at hf
        cases hf
    · rfl

end Passes

/-! ## How walks compose -/

/-- A run of two steps fails in the first, or in the second after the first. -/
theorem bind_error {f : BindM ω α} {g : α → BindM ω β} {e : Fault} :
    (f >>= g).run s = .error e s' ↔ f.run s = .error e s' ∨ ∃ a t, f.run s = .ok a t ∧ (g a).run t = .error e s' := by
  show EStateM.bind f g s = _ ↔ f s = .error e s' ∨ ∃ a t, f s = .ok a t ∧ g a t = .error e s'
  unfold EStateM.bind
  cases f s <;> simp

namespace Runs

variable {f : BindM ω α} {g : α → BindM ω β} {Q : α → State ω → Prop} {R : β → State ω → Prop}

theorem bind (hf : Runs u w low s f Q) (hg : ∀ a s', Goes u w low s s' → Holds u w s' → Q a s' → Runs u w low s' (g a) R) :
    Runs u w low s (f >>= g) R := by
  refine ⟨fun b s' h => ?_, fun e s' h => ?_⟩
  · obtain ⟨a, t, h1, h2⟩ := bind_ok.1 h
    obtain ⟨hgo, hholds, hq⟩ := hf.1 a t h1
    obtain ⟨hgo', hrest⟩ := (hg a t hgo hholds hq).1 b s' h2
    exact ⟨hgo.trans hgo', hrest⟩
  · rcases bind_error.1 h with h | ⟨a, t, h1, h2⟩
    · exact hf.2 e s' h
    · obtain ⟨hgo, hholds, hq⟩ := hf.1 a t h1
      obtain ⟨hstrict, htrail⟩ := (hg a t hgo hholds hq).2 e s' h2
      exact ⟨hstrict, hgo.trail.trans htrail⟩

theorem pure {a : α} (hs : Holds u w s) (hq : Q a s) : Runs u w low s (Pure.pure a : BindM ω α) Q := by
  refine ⟨fun b s' h => ?_, fun e s' h => nomatch h⟩
  obtain ⟨rfl, rfl⟩ := pure_ok.1 h
  exact ⟨.refl _, hs, hq⟩

theorem map {f : BindM ω α} (k : α → β) (hf : Runs u w low s f Q) :
    Runs u w low s (k <$> f) fun b s' => ∃ a, k a = b ∧ Q a s' := by
  refine ⟨fun b s' h => ?_, fun e s' h => hf.2 e s' ?_⟩
  · obtain ⟨a, hrun, rfl⟩ := map_ok.1 h
    obtain ⟨hgo, hholds, hq⟩ := hf.1 a s' hrun
    exact ⟨hgo, hholds, a, rfl, hq⟩
  · have heq : EStateM.map k f s = .error e s' := h
    unfold EStateM.map at heq
    show f s = .error e s'
    cases hfs : f s with
    | ok a t => rw [hfs] at heq; cases heq
    | error e' t => rw [hfs] at heq; cases heq; rfl

/-- What leaves more nodes alone leaves fewer alone. -/
theorem mono {low' : Nat} (hf : Runs u w low' s f Q) (hle : low ≤ low') : Runs u w low s f Q :=
  ⟨fun a s' h => ⟨(hf.1 a s' h).1.mono hle, (hf.1 a s' h).2⟩, hf.2⟩

theorem imp {R : α → State ω → Prop} (hf : Runs u w low s f Q) (hi : ∀ a s', Goes u w low s s' → Q a s' → R a s') :
    Runs u w low s f R :=
  ⟨fun a s' h => ⟨(hf.1 a s' h).1, (hf.1 a s' h).2.1, hi a s' (hf.1 a s' h).1 (hf.1 a s' h).2.2⟩, hf.2⟩

theorem throw (hstrict : w.strict = false) (fault : Fault) : Runs u w low s (MonadExcept.throw fault : BindM ω α) Q := by
  refine ⟨fun a s' h => absurd h (by simp), fun e s' h => ⟨hstrict, ?_⟩⟩
  have heq : EStateM.Result.error fault s = EStateM.Result.error e s' := h
  cases heq
  exact .refl

theorem get (hs : Holds u w s) : Runs u w low s (MonadState.get : BindM ω (State ω)) fun t s' => t = s ∧ s' = s := by
  refine ⟨fun t s' h => ?_, fun e s' h => nomatch h⟩
  obtain ⟨rfl, rfl⟩ := get_ok.1 h
  exact ⟨.refl _, hs, rfl, rfl⟩

theorem ofModify {f : State ω → State ω} {Q : Unit → State ω → Prop} (hs : Holds u w s) (hf : Passes u w s (f s))
    (hq : Q () (f s)) : Runs u w low s (modify f : BindM ω Unit) Q := by
  refine ⟨fun a s' h => ?_, fun e s' h => nomatch h⟩
  obtain rfl := modify_ok.1 h
  exact ⟨hf.goes, hf.holds hs, hq⟩

theorem ofModifyGet {f : State ω → α × State ω} (hs : Holds u w s) (hf : Passes u w s (f s).2) (hq : Q (f s).1 (f s).2) :
    Runs u w low s (modifyGet f : BindM ω α) Q := by
  refine ⟨fun a s' h => ?_, fun e s' h => nomatch h⟩
  obtain ⟨rfl, rfl⟩ := modifyGet_ok.1 h
  exact ⟨hf.goes, hf.holds hs, hq⟩

end Runs

namespace Walks

variable {f : BindM ω α} {g : α → BindM ω β} {Q : α → State ω → Prop} {R : β → State ω → Prop}

theorem later (h : Walks u w low s₀ f Q) (hgo : Goes u w low s₀ s₁) : Walks u w low s₁ f Q :=
  fun s hgo' hs => h s (hgo.trans hgo') hs

theorem imp {R : α → State ω → Prop} (h : Walks u w low s₀ f Q) (hi : ∀ a s, Goes u w low s₀ s → Q a s → R a s) :
    Walks u w low s₀ f R :=
  fun s hgo hs => (h s hgo hs).imp fun a s' hgo' => hi a s' (hgo.trans hgo')

theorem upholds (h : Walks u w low s₀ f Q) : Upholds u w low s₀ f := h.imp fun _ _ _ _ => trivial

theorem bind (hf : Walks u w low s₀ f Q) (hg : ∀ a s₁, Goes u w low s₀ s₁ → Q a s₁ → Walks u w low s₁ (g a) R) :
    Walks u w low s₀ (f >>= g) R :=
  fun s hgo hs => (hf s hgo hs).bind fun a s' hgo' hs' hq => hg a s' (hgo.trans hgo') hq s' (.refl _) hs'

/-- Two steps of which the second does not depend on what is known of the result of the first. -/
theorem seq (hf : Walks u w low s₀ f Q) (hg : ∀ a, Walks u w low s₀ (g a) R) : Walks u w low s₀ (f >>= g) R :=
  hf.bind fun a _ hgo _ => (hg a).later hgo

theorem ret {a : α} (hq : ∀ s, Goes u w low s₀ s → Q a s) : Walks u w low s₀ (Pure.pure a : BindM ω α) Q :=
  fun s hgo hs => .pure hs (hq s hgo)

theorem pure (a : α) : Upholds u w low s₀ (Pure.pure a : BindM ω α) := ret fun _ _ => trivial

theorem ite [Decidable c] {f' : BindM ω α} (hf : Walks u w low s₀ f Q) (hg : Walks u w low s₀ f' Q) :
    Walks u w low s₀ (if c then f else f') Q := by
  split
  · exact hf
  · exact hg

/-- The same where the condition is needed. -/
theorem branch [Decidable c] {f' : BindM ω α} (hf : c → Walks u w low s₀ f Q) (hg : ¬ c → Walks u w low s₀ f' Q) :
    Walks u w low s₀ (if c then f else f') Q := by
  split
  · rename_i h
    exact hf h
  · rename_i h
    exact hg h

/-- A step that is taken under a condition, in front of what follows in any case. -/
theorem when [Decidable c] {f : BindM ω PUnit} {g : PUnit → BindM ω β} {Q : PUnit → State ω → Prop}
    (hf : c → Walks u w low s₀ f Q) (hg : ∀ x, Walks u w low s₀ (g x) R) : Walks u w low s₀ (if c then f >>= g else g ⟨⟩) R :=
  branch (fun h => (hf h).seq hg) fun _ => hg _

theorem throw (hstrict : w.strict = false) (fault : Fault) :
    Walks u w low s₀ (MonadExcept.throw fault : BindM ω α) Q := fun _ _ _ => .throw hstrict fault

theorem ofModify {f : State ω → State ω} (hf : ∀ s, Holds u w s → Passes u w s (f s)) :
    Upholds u w low s₀ (modify f : BindM ω Unit) := fun s _ hs => .ofModify hs (hf s hs) trivial

theorem get : Upholds u w low s₀ (MonadState.get : BindM ω (State ω)) := fun _ _ hs => (Runs.get hs).imp fun _ _ _ _ => trivial

theorem discard (hf : Walks u w low s₀ f Q) : Upholds u w low s₀ (Functor.discard f : BindM ω Unit) :=
  fun s hgo hs => ((hf s hgo hs).map (Function.const α ())).imp fun _ _ _ _ => trivial

theorem forM {f : α → BindM ω Unit} (xs : List α) (hf : ∀ x ∈ xs, Upholds u w low s₀ (f x)) : Upholds u w low s₀ (xs.forM f) := by
  induction xs with
  | nil => exact pure ()
  | cons x xs ih => exact (hf x (by simp)).seq fun _ => ih fun y hy => hf y (by simp [hy])

end Walks

end Bind

end ScopeFlow
