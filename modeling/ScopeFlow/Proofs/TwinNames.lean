import ScopeFlow.Proofs.LayoutLaws
import ScopeFlow.Proofs.Relabel
import ScopeFlow.Proofs.Trees

/-!
# Binding names in two runs

The two setups of `Twins` are for one module: they differ in the rules that are switched on and in how other modules are seen. A
relation between the states of the two runs is a `Mirror` if related states look alike and if the primitive steps of binding lead
from related states to related ones. Then all steps of binding mirror each other; this module says so of those that deal with flow
nodes, names, declarations and exported names.

Stamps need not be alike everywhere: a deletion asks whether a node is stamped, and that is a parameter (`Mirror`).
-/

namespace ScopeFlow

/-- Whether a flow node neither tracks a reference nor mentions a symbol. -/
def FlowStep.isPlain : FlowStep → Bool
  | assign .. | takeOver .. | condition .. => false
  | _ => true

theorem FlowStep.isPlain_of_isFrame {step : FlowStep} (h : step.isFrame = true) : step.isPlain = true := by
  cases step <;> first | rfl | cases h

namespace Bind

open Store NodeTree

variable {ω ω' : Type} {α β : Type} {s : State ω} {t : State ω'} {node : Nat}

/-- Two setups for one module: a first one, and the rules and the view of other modules of the second. -/
structure Twins (ω ω' : Type) where
  left : Setup ω
  rules : RuleSet
  exports : String → Store → ω' → Except Fault (Option Exports) × Store × ω'

/-- The second setup. -/
def Twins.right (p : Twins ω ω') : Setup ω' where
  file := { p.left.file with rules := p.rules }
  policy := p.left.policy
  outline := p.left.outline
  imports := p.left.imports
  builtins := p.left.builtins
  exports := p.exports

/-- The setup, twice. -/
def Setup.twice (u : Setup ω) : Twins ω ω := ⟨u, u.file.rules, u.exports⟩

/-- The flags of a member that is added to a class. -/
def Setup.memberFlags (u : Setup ω) (name : String) : SymbolFlags :=
  { initiallyUnbound := true, privateMember := isPrivateOrProtectedName name && u.file.rules.privateUsage }

/-- What is known of a node, but for its stamps and keys. -/
structure NodeFacts.Like (f g : NodeFacts) : Prop where
  scope : g.scope = f.scope
  declaration : g.declaration = f.declaration

/-- States that look alike to the steps of binding. -/
structure Look (s : State ω) (t : State ω') : Prop where
  store : s.store.Like t.store
  current : t.current = s.current
  dead : ∀ i, (t.graph.nodeAt i).step.isUnreachable = (s.graph.nodeAt i).step.isUnreachable
  finish : ∀ label, t.graph.finish label = s.graph.finish label
  facts : ∀ i, (s.factsAt i).Like (t.factsAt i)
  queue : t.queue = s.queue
  typingNames : t.typingNames = s.typingNames
  systemNames : t.systemNames = s.systemNames
  typingSymbols : t.typingSymbols = s.typingSymbols
  privates : t.privates = s.privates
  all : t.all = s.all

theorem Look.ofEq {s t : State ω} (h : s = t) : Look s t := by
  subst h
  exact ⟨.refl _, rfl, fun _ => rfl, fun _ => rfl, fun _ => ⟨rfl, rfl⟩, rfl, rfl, rfl, rfl, rfl, rfl⟩

/-- A relation between states that look alike. -/
structure Looks (R : State ω → State ω' → Prop) : Prop where
  look : ∀ {s t}, R s t → Look s t

/-- A relation that is kept when control goes on elsewhere. -/
structure Flows (R : State ω → State ω' → Prop) : Prop extends Looks R where
  setCurrent : ∀ {s t}, R s t → ∀ ref, R { s with current := ref } { t with current := ref }
  addAntecedent : ∀ {s t}, R s t → ∀ label ref,
    R { s with graph := s.graph.addAntecedent label ref } { t with graph := t.graph.addAntecedent label ref }

/-- A relation that is kept when reports are made, symbols are added and changed, and names are kept back. -/
structure Notes (p : Twins ω ω') (R : State ω → State ω' → Prop) : Prop extends Looks R where
  keep : ∀ {s t}, R s t →
    ∀ privates all, R { s with privates := privates, all := all } { t with privates := privates, all := all }
  setDeclaration : ∀ node place, Mirrors R (setDeclaration node place) (setDeclaration node place)
  reportError : ∀ key mark name, Mirrors R (reportError key mark name) (reportError key mark name)
  reportRule : ∀ rule key mark name actions,
    Mirrors R (reportRule p.left rule key mark name actions) (reportRule p.right rule key mark name actions)
  newMember : ∀ {s t}, R s t → ∀ scope name, s.store.symbol? scope name = none →
    Meets R Eq ((newSymbol scope name (p.left.memberFlags name)).run s) ((newSymbol scope name (p.right.memberFlags name)).run t)
  newSymbol : ∀ {s t}, R s t → ∀ scope name flags, s.store.symbol? scope name = none →
    Meets R Eq ((newSymbol scope name flags).run s) ((newSymbol scope name flags).run t)
  adjustSymbol : ∀ ref f, Symbol.Blind f → Mirrors R (adjustSymbol ref f) (adjustSymbol ref f)

/-- A relation that is kept, moreover, when other modules are looked at. -/
structure Views (p : Twins ω ω') (R : State ω → State ω' → Prop) : Prop extends Notes p R where
  exports : ∀ path, Mirrors R (lookUpExports p.left path) (lookUpExports p.right path)

/-- A relation that is kept, moreover, when scopes are opened and bodies are put aside. -/
structure Names (p : Twins ω ω') (R : State ω → State ω' → Prop) : Prop extends Flows R, Views p R where
  notes : ∀ {s t}, R s t → ∀ typing system symbols,
    R { s with typingNames := typing, systemNames := system, typingSymbols := symbols }
      { t with typingNames := typing, systemNames := system, typingSymbols := symbols }
  queue : ∀ {s t}, R s t → ∀ queue, R { s with queue := queue } { t with queue := queue }
  openScope : ∀ ctx type, type = .function ∨ type = .classBody →
    Mirrors R (nonClassScope ctx >>= newScope type) (nonClassScope ctx >>= newScope type)
  openComprehension : ∀ parent, Mirrors R (newScope .comprehension (some parent)) (newScope .comprehension (some parent))
  redirect : ∀ {s t}, R s t → ∀ scope name r,
    R { s with store := s.store.adjustScope scope fun sc => (sc.redirect name r).2, past := s.past.map (s.store :: ·) }
      { t with store := t.store.adjustScope scope fun sc => (sc.redirect name r).2, past := t.past.map (t.store :: ·) }

/-- Whether a property holds of the index of a node. -/
abbrev On (N : Nat → Prop) (n : Node) : Prop := N n.mark.index

/-- A relation that the primitive steps of binding keep. Stamps are alike on the nodes that `N` holds of. -/
structure Mirror (p : Twins ω ω') (N : Nat → Prop) (R : State ω → State ω' → Prop) : Prop extends Names p R where
  newNode : ∀ step : FlowStep, step.isPlain = true → Mirrors R (newNode step) (newNode step)
  facts : ∀ {s t}, R s t → ∀ (node : Nat) (f : NodeFacts → NodeFacts),
    (∀ x, (∀ r, f { x with flow := r } = { f x with flow := r }) ∧ (x.scope.isSome → (f x).scope.isSome)) →
    R { s with facts := s.facts.modify node f } { t with facts := t.facts.modify node f }
  stamped : ∀ {s t}, R s t → ∀ node, N node → (t.factsAt node).flow = (s.factsAt node).flow
  stampWith : ∀ {s t}, R s t → ∀ (node : Nat) ref,
    R { s with facts := s.facts.modify node fun f => { f with flow := some ref } }
      { t with facts := t.facts.modify node fun f => { f with flow := some ref } }
  takeOver : ∀ {s t}, R s t → ∀ {a a' b b'}, SameId s.store t.store a a' → SameId s.store t.store b b' →
    Meets R Eq ((takeOver a b).run s) ((takeOver a' b').run t)
  assignKey : ∀ {s t}, R s t → ∀ ctx {target target'}, Option.Rel (SameId s.store t.store) target target' →
    ∀ node key raises unbound,
    Meets R Eq ((assignKey ctx node key target raises unbound).run s) ((assignKey ctx node key target' raises unbound).run t)
  conditional : ∀ ctx kind antecedent e,
    Mirrors R (conditional p.left ctx kind antecedent e) (conditional p.right ctx kind antecedent e)

variable {p : Twins ω ω'} {N : Nat → Prop} {R : State ω → State ω' → Prop}

instance : CoeOut (Mirror p N R) (Flows R) := ⟨fun H => H.toFlows⟩

instance : CoeOut (Flows R) (Looks R) := ⟨fun H => H.toLooks⟩

instance : CoeOut (Notes p R) (Looks R) := ⟨fun H => H.toLooks⟩

instance : CoeOut (Views p R) (Notes p R) := ⟨fun H => H.toNotes⟩

theorem ofExcept_mirrors (x : Except Fault α) : Mirrors R (ofExcept x) (ofExcept x) := by
  cases x with
  | error fault => exact .throw _
  | ok a => exact .pure rfl

/-- A step that reads from two stores fails alike or gives related answers. -/
theorem consult_meets {f : Store → Except Fault α} {g : Store → Except Fault β} {V : α → β → Prop}
    (h : R s t) (hv : (∃ fault, f s.store = .error fault ∧ g t.store = .error fault) ∨
      ∃ a b, f s.store = .ok a ∧ g t.store = .ok b ∧ V a b) :
    Meets R V ((consult f).run s) ((consult g).run t) := by
  show Meets R V ((ofExcept (f s.store)).run s) ((ofExcept (g t.store)).run t)
  rcases hv with ⟨fault, hf, hg⟩ | ⟨a, b, hf, hg, hab⟩
  · rw [hf, hg]
    exact .error h
  · rw [hf, hg]
    exact .ok hab h

/-- A look-up finds the same symbol in both runs. -/
theorem lookUp_meets (h : R s t) (hl : s.store.Like t.store) (scope : Nat) (name : String) :
    Meets R (Option.Rel fun a b => b.scope = a.scope ∧ SameId s.store t.store a.symbol.id b.symbol.id)
      ((lookUp scope name).run s) ((lookUp scope name).run t) := by
  have hsame := hl.lookUpFrom name (s.store.scopes.size + 1) scope false false
  refine consult_meets h ?_
  unfold Store.lookUp
  rw [hl.size]
  rcases hx : s.store.lookUpFrom name (s.store.scopes.size + 1) scope false false with fault | _ | a <;>
    rcases hy : t.store.lookUpFrom name (s.store.scopes.size + 1) scope false false with fault' | _ | b <;>
    rw [hx, hy] at hsame <;> simp only [Except.map, Option.map, reduceCtorEq, Except.error.injEq, Except.ok.injEq,
      Option.some.injEq] at hsame
  · exact .inl ⟨fault, rfl, by rw [hsame]⟩
  · exact .inr ⟨_, _, rfl, rfl, .none⟩
  · refine .inr ⟨_, _, rfl, rfl, .some ⟨hsame, a.scope, name, a.symbol, b.symbol, (climbs_of_lookUpFrom hx).2, ?_, rfl, rfl⟩⟩
    rw [← hsame]
    exact (climbs_of_lookUpFrom hy).2

section

variable (H : Looks R)
include H

/-! ## Reading and going on -/

theorem current_mirrors : Mirrors R current current := fun _ _ h => .ok (H.look h).current.symm h

theorem isDead_mirrors : Mirrors R isDead isDead := by
  intro s t h
  refine .ok ?_ h
  rw [(H.look h).current, (H.look h).dead]

theorem finished_mirrors (label : FlowRef) : Mirrors R (finished label) (finished label) :=
  fun _ _ h => .ok ((H.look h).finish label).symm h

theorem factsOf_alike (node : Nat) : Alike R NodeFacts.Like (factsOf node) (factsOf node) :=
  fun _ _ h => .ok ((H.look h).facts node) h

theorem scopeType_mirrors (ctx : Context) : Mirrors R (scopeType ctx) (scopeType ctx) := by
  intro s t h
  refine .ok ?_ h
  rw [(H.look h).store.type?]

theorem typingNames_mirrors : Mirrors R typingNames typingNames := by
  intro s t h
  refine .ok ?_ h
  rw [(H.look h).typingNames, (H.look h).typingSymbols]

theorem staticValue_mirrors (e : Expr) : Mirrors R (staticValue p.left e) (staticValue p.right e) := by
  refine .read fun s t h => ?_
  rw [(H.look h).typingNames, (H.look h).systemNames]
  exact ofExcept_mirrors _ h

theorem symbolIn_alike (scope : Nat) (name : String) :
    Alike R (Option.Rel Symbol.Like) (symbolIn scope name) (symbolIn scope name) :=
  fun _ _ h => .ok ((H.look h).store.symbol? scope name) h

theorem lookUp_alike (scope : Nat) (name : String) :
    Alike R (Option.Rel fun a b => b.scope = a.scope) (lookUp scope name) (lookUp scope name) := by
  refine fun s t h => (lookUp_meets h (H.look h).store scope name).imp fun a b hab => ?_
  cases hab with
  | none => exact .none
  | some hab => exact .some hab.1

theorem globalScope_mirrors (scope : Nat) : Mirrors R (globalScope scope) (globalScope scope) := by
  intro s t h
  refine consult_meets h ?_
  rw [(H.look h).store.globalScope]
  rcases s.store.globalScope scope with fault | g
  · exact .inl ⟨fault, rfl, rfl⟩
  · exact .inr ⟨g, g, rfl, rfl, rfl⟩

theorem nonClassScope_mirrors (ctx : Context) : Mirrors R (nonClassScope ctx) (nonClassScope ctx) := by
  intro s t h
  refine .ok ?_ h
  rw [(H.look h).store.climbTo, (H.look h).store.size]

end

section

variable (H : Flows R)
include H

theorem setCurrent_mirrors (ref : FlowRef) : Mirrors R (setCurrent ref) (setCurrent ref) :=
  .ofModify fun _ _ h => H.setCurrent h ref

theorem link_mirrors (label ref : FlowRef) : Mirrors R (link label ref) (link label ref) :=
  .seq (isDead_mirrors H) fun _ => .ite (.pure rfl) (.ofModify fun _ _ h => H.addAntecedent h label ref)

theorem linkCurrent_mirrors (label : FlowRef) : Mirrors R (linkCurrent label) (linkCurrent label) :=
  .seq (current_mirrors H) fun _ => link_mirrors H _ _

theorem linkRaise_mirrors (ctx : Context) (ref : FlowRef) : Mirrors R (linkRaise ctx ref) (linkRaise ctx ref) :=
  .forM fun label _ => link_mirrors H label ref

theorem finish_mirrors (label : FlowRef) : Mirrors R (finish label) (finish label) :=
  .seq (finished_mirrors H label) fun _ => setCurrent_mirrors H _

/-- A new node behind the current one, if such a node can be made in both runs. -/
theorem advance_of_newNode {step step' : FlowRef → FlowStep} (hn : ∀ ref, Mirrors R (newNode (step ref)) (newNode (step' ref))) :
    Mirrors R (advance step) (advance step') :=
  .seq (isDead_mirrors H) fun _ => .ite (.pure rfl) <|
    .seq (current_mirrors H) fun _ => .seq (hn _) fun _ => setCurrent_mirrors H _

end

section

variable (H : Mirror p N R)
include H

/-! ## Flow nodes -/

theorem newBranch_mirrors : Mirrors R newBranch newBranch := H.newNode _ rfl

theorem modifyFacts_mirrors (node : Nat) {f : NodeFacts → NodeFacts}
    (hf : ∀ x, (∀ r, f { x with flow := r } = { f x with flow := r }) ∧ (x.scope.isSome → (f x).scope.isSome)) :
    Mirrors R (modifyFacts node f) (modifyFacts node f) := .ofModify fun _ _ h => H.facts h node f hf

theorem addKey_mirrors (owner : Nat) (key : String) : Mirrors R (addKey owner key) (addKey owner key) :=
  modifyFacts_mirrors H owner fun _ => ⟨fun _ => rfl, id⟩

theorem stampWith_mirrors (node : Nat) (ref : FlowRef) : Mirrors R (stampWith node ref) (stampWith node ref) :=
  .ofModify fun _ _ h => H.stampWith h node ref

theorem stamp_mirrors (node : Nat) : Mirrors R (stamp node) (stamp node) :=
  .seq (current_mirrors H) fun _ => stampWith_mirrors H node _

theorem stampAfter_mirrors (node : Nat) : Mirrors R (stampAfter node) (stampAfter node) :=
  .seq (current_mirrors H) fun _ => modifyFacts_mirrors H node fun _ => ⟨fun _ => rfl, id⟩

theorem Mirror.frames : Frames p.left p.right (fun _ => True) (fun _ => True) fun _ f g => Mirrors R f g where
  bind := .seq
  pure _ := .pure rfl
  current := current_mirrors H
  isDead := isDead_mirrors H
  newNode h := H.newNode _ (FlowStep.isPlain_of_isFrame h)
  setCurrent := setCurrent_mirrors H
  link := link_mirrors H
  finish := finish_mirrors H
  stampAfter _ := stampAfter_mirrors H _
  staticValue _ := staticValue_mirrors H _

theorem advance_mirrors {step : FlowRef → FlowStep} (hs : ∀ ref, (step ref).isPlain = true) :
    Mirrors R (advance step) (advance step) := advance_of_newNode H fun ref => H.newNode _ (hs ref)

theorem call_mirrors (ctx : Context) (node : Nat) (function : Expr) :
    Mirrors R (call ctx node function) (call ctx node function) :=
  .seq (advance_mirrors H fun _ => rfl) fun _ => .seq (stamp_mirrors H node) fun _ => .seq (isDead_mirrors H) fun _ =>
    .ite (.pure rfl) (.seq (current_mirrors H) fun _ => linkRaise_mirrors H ctx _)

theorem importAll_mirrors (ctx : Context) (node : Nat) (names : List String) :
    Mirrors R (importAll ctx node names) (importAll ctx node names) := by
  refine .seq (isDead_mirrors H) fun dead => ?_
  have hstamp := stamp_mirrors H node
  refine .ite hstamp (.seq (current_mirrors H) fun _ => .seq (H.newNode _ rfl) fun ref => ?_)
  exact .seq (linkRaise_mirrors H ctx ref) fun _ => .seq (setCurrent_mirrors H ref) fun _ => hstamp

end

/-- Symbols that are like each other have the same declarations. -/
theorem declarations_of_like {x y : Option Symbol} (h : Option.Rel Symbol.Like x y) :
    y.map Symbol.declarations = x.map Symbol.declarations := by
  cases h with
  | none => rfl
  | some h => simp [h.declarations]

section

variable (H : Notes p R)
include H

/-! ## Symbols and declarations -/

theorem Notes.declare_mirrors (ref : SymbolRef) (d : Declaration) : Mirrors R (declare ref d) (declare ref d) :=
  H.adjustSymbol ref _ (.declare d)

theorem Notes.declareAt_mirrors (ref : Option SymbolRef) (d : Declaration) : Mirrors R (declareAt ref d) (declareAt ref d) := by
  cases ref with
  | none => exact .pure rfl
  | some ref =>
    refine .bind (symbolIn_alike H ref.scope ref.name) fun x y hxy => ?_
    rw [declarations_of_like hxy]
    exact .seq (H.declare_mirrors ref d) fun _ => .ite (.pure rfl) (.pure rfl)

theorem Notes.adjustFunction_mirrors (node : Nat) (f : FunctionInfo → FunctionInfo) :
    Mirrors R (adjustFunction node f) (adjustFunction node f) := by
  refine .bind (factsOf_alike H node) fun _ _ hfacts => ?_
  rw [hfacts.declaration]
  split
  · exact H.adjustSymbol _ _ fun _ _ _ => rfl
  · exact H.setDeclaration _ _
  · exact .pure rfl

/-- A change of the names that are kept back or exported, which are the same in both runs. -/
theorem Notes.change (h : R s t) (privates : Table SymbolRef → Table SymbolRef)
    (all : Option (List String) → Option (List String)) :
    R { s with privates := privates s.privates, all := all s.all }
      { t with privates := privates t.privates, all := all t.all } := by
  have hl := H.look h
  rw [hl.privates, hl.all]
  exact H.keep h _ _

theorem Notes.keepBack_mirrors (name : String) (ref : SymbolRef) :
    Mirrors R (modify fun s => { s with privates := s.privates.put name ref } : BindM ω Unit)
      (modify fun s => { s with privates := s.privates.put name ref } : BindM ω' Unit) :=
  .ofModify fun _ _ h => H.change h (·.put name ref) id

theorem Notes.hidePrivate_mirrors (ctx : Context) (ref : SymbolRef) :
    Mirrors R (hidePrivate p.left ctx ref) (hidePrivate p.right ctx ref) :=
  .ite (.ite (H.adjustSymbol _ _ fun _ _ _ => rfl) (.seq (scopeType_mirrors H ctx) fun _ =>
    .ite (H.keepBack_mirrors _ _) (.pure rfl))) (.pure rfl)

theorem Notes.addSymbol_mirrors (ctx : Context) (name : String) (isInitiallyUnbound : Bool) :
    Mirrors R (addSymbol p.left ctx name isInitiallyUnbound) (addSymbol p.right ctx name isInitiallyUnbound) := by
  refine .read fun s t h => ?_
  have hs := (H.look h).store.symbol? ctx.scope name
  rcases hx : s.store.symbol? ctx.scope name with _ | x <;> rcases hy : t.store.symbol? ctx.scope name with _ | y <;>
    rw [hx, hy] at hs <;> cases hs
  · have htype : Meets (fun a b => a = s ∧ b = t) Eq ((scopeType ctx).run s) ((scopeType ctx).run t) :=
      .ok (by rw [(H.look h).store.type?]) ⟨rfl, rfl⟩
    refine htype.andThen (fun _ _ hs => by rwa [hs.1, hs.2]) fun type _ _ _ ht hs => ?_
    obtain ⟨rfl, rfl⟩ := hs
    subst ht
    exact H.newSymbol h ctx.scope name _ hx
  · exact .ok rfl h

theorem Notes.addIntrinsic_mirrors (ctx : Context) (name : String) (site : Site) (type : String) :
    Mirrors R (addIntrinsic p.left ctx name site type) (addIntrinsic p.right ctx name site type) :=
  .seq (H.addSymbol_mirrors ctx name false) fun _ => .seq (H.declare_mirrors _ _) fun _ => H.adjustSymbol _ _ fun _ _ _ => rfl

/-! ## Variables -/

theorem Notes.memberAccess_mirrors (node : Nat) (base : String) :
    Mirrors R (memberAccess p.left node base) (memberAccess p.right node base) := by
  unfold memberAccess
  dsimp only [Twins.right]
  split
  · exact .pure rfl
  · refine .bind (factsOf_alike H _) fun _ _ hfacts => ?_
    rw [hfacts.scope]
    split
    · exact .throw _
    · exact .pure rfl

theorem Notes.memberSymbol_mirrors (access : MemberAccess) (name : String) :
    Mirrors R (memberSymbol p.left access name) (memberSymbol p.right access name) := by
  refine .read fun s t h => ?_
  have hs := (H.look h).store.symbol? access.classScope name
  rcases hx : s.store.symbol? access.classScope name with _ | x <;>
    rcases hy : t.store.symbol? access.classScope name with _ | y <;> rw [hx, hy] at hs <;> cases hs
  · exact H.newMember h access.classScope name hx
  · exact .ok rfl h

theorem Notes.inferMember_mirrors (source : Nat) (target : Expr) (mark : Mark) (base attr : String) :
    Mirrors R (inferMember p.left source target mark base attr) (inferMember p.right source target mark base attr) := by
  refine .seq (H.memberAccess_mirrors _ _) fun access => ?_
  cases access with
  | none => exact .pure rfl
  | some access =>
    refine .seq (H.memberSymbol_mirrors _ _) fun ref => ?_
    have hmark : ∀ f : Symbol → Symbol, Symbol.Blind f → Mirrors R (Bind.adjustSymbol ref f) (Bind.adjustSymbol ref f) :=
      H.adjustSymbol ref
    dsimp only
    split
    · refine .bind (symbolIn_alike H _ _) fun x y hxy => ?_
      cases hxy with
      | none => exact H.declare_mirrors _ _
      | @some x y hxy =>
        have hmethod : isMethodSymbol y = isMethodSymbol x := by simp only [isMethodSymbol, hxy.classMember, hxy.declarations]
        dsimp only
        rw [hmethod]
        split
        · exact H.declare_mirrors _ _
        · exact .seq (hmark _ fun _ _ _ => rfl) fun _ => H.declare_mirrors _ _
    · exact .seq (hmark _ fun _ _ _ => rfl) fun _ => H.declare_mirrors _ _

section

variable (ctx : Context)
include ctx

mutual

theorem Notes.inferVariable_mirrors (source : Nat) (maybeAlias : Bool) (target : Expr) :
    Mirrors R (inferVariable p.left ctx source maybeAlias target) (inferVariable p.right ctx source maybeAlias target) := by
  unfold inferVariable
  split
  · refine .bind (lookUp_alike H _ _) fun a b hab => ?_
    cases hab with
    | none => exact .pure rfl
    | some hab =>
      dsimp only
      rw [hab]
      exact H.declare_mirrors _ _
  · exact H.inferMember_mirrors _ _ _ _ _
  · rename_i elements
    exact inferVariables_mirrors source elements
  · rename_i elements
    exact inferVariables_mirrors source elements
  · rename_i value
    exact inferVariable_mirrors source false value
  · exact .pure rfl

theorem Notes.inferVariables_mirrors (source : Nat) (targets : List Expr) :
    Mirrors R (inferVariables p.left ctx source targets) (inferVariables p.right ctx source targets) := by
  unfold inferVariables
  split
  · exact .pure rfl
  · rename_i target targets
    exact .seq (inferVariable_mirrors source false target) fun _ => inferVariables_mirrors source targets

end

end

theorem Notes.annotateName_mirrors (ctx : Context) (mark : Mark) (id : String) (hint : Expr) :
    Mirrors R (annotateName p.left ctx mark id hint) (annotateName p.right ctx mark id hint) := by
  refine .bind (lookUp_alike H _ _) fun a b hab => ?_
  cases hab with
  | none => exact .pure rfl
  | @some a b hab =>
    dsimp only
    rw [hab]
    refine .seq (typingNames_mirrors H) fun typing => .seq (scopeType_mirrors H ctx) fun _ => ?_
    refine .when (H.reportError _ _ _) fun _ => .seq (H.declare_mirrors _ _) fun _ => ?_
    exact .ite (H.adjustSymbol _ _ fun _ _ _ => rfl) (H.adjustSymbol _ _ fun _ _ _ => rfl)

theorem Notes.annotateMember_mirrors (mark : Mark) (base attr : String) (hint : Expr) :
    Mirrors R (annotateMember p.left mark base attr hint) (annotateMember p.right mark base attr hint) := by
  refine .seq (H.memberAccess_mirrors _ _) fun access => ?_
  cases access with
  | none => exact .pure rfl
  | some access =>
    refine .seq (H.memberSymbol_mirrors _ _) fun ref => ?_
    have hrest : ∀ f : Symbol → Symbol, Symbol.Blind f → ∀ d : TypingNames → Declaration,
        Mirrors R (do Bind.adjustSymbol ref f; declare ref (d (← typingNames)); return true)
          (do Bind.adjustSymbol ref f; declare ref (d (← typingNames)); return true) := fun f hf d =>
      .seq (H.adjustSymbol _ _ hf) fun _ => .seq (typingNames_mirrors H) fun _ => .seq (H.declare_mirrors _ _) fun _ => .pure rfl
    dsimp only
    split
    · exact hrest _ (fun _ _ _ => rfl) _
    · exact hrest _ (fun _ _ _ => rfl) _

theorem Notes.annotateVariable_mirrors (ctx : Context) (target hint : Expr) :
    Mirrors R (annotateVariable p.left ctx target hint) (annotateVariable p.right ctx target hint) := by
  unfold annotateVariable
  split
  · exact H.annotateName_mirrors _ _ _ _
  · exact .seq (H.annotateMember_mirrors _ _ _ _) fun _ => .ite (.pure rfl) (H.reportError _ _ _)
  · exact H.reportError _ _ _

end

/-- A change of what is noted of other modules, which is the same in both runs. -/
theorem Names.note (H : Names p R) (h : R s t) (typing system : List String → List String)
    (symbols : Table String → Table String) :
    R { s with typingNames := typing s.typingNames, systemNames := system s.systemNames,
               typingSymbols := symbols s.typingSymbols }
      { t with typingNames := typing t.typingNames, systemNames := system t.systemNames,
               typingSymbols := symbols t.typingSymbols } := by
  have hl := H.look h
  rw [hl.typingNames, hl.systemNames, hl.typingSymbols]
  exact H.notes h _ _ _

theorem sameId_of_like {scope : Nat} {name : String}
    (h : Option.Rel Symbol.Like (s.store.symbol? scope name) (t.store.symbol? scope name)) :
    Option.Rel (fun x y => SameId s.store t.store x.id y.id) (s.store.symbol? scope name) (t.store.symbol? scope name) := by
  rcases hx : s.store.symbol? scope name with _ | x <;> rcases hy : t.store.symbol? scope name with _ | y <;>
    rw [hx, hy] at h <;> cases h
  · exact .none
  · exact .some ⟨scope, name, x, y, hx, hy, rfl, rfl⟩

/-- An assigned name stands for the same symbol in both runs, and nothing changes. -/
theorem assignedSymbol_meets (hl : s.store.Like t.store) (ctx : Context) (name : Option String) :
    Meets (fun a b => a = s ∧ b = t) (Option.Rel (SameId s.store t.store)) ((assignedSymbol ctx name).run s)
      ((assignedSymbol ctx name).run t) := by
  cases name with
  | none => exact .ok .none ⟨rfl, rfl⟩
  | some name =>
    refine (lookUp_meets (R := fun a b => a = s ∧ b = t) ⟨rfl, rfl⟩ hl ctx.scope name).bind fun a b hab => ?_
    cases hab with
    | none => exact .throw _
    | some hab => exact .pure (.some hab.2)

section

variable (H : Mirror p N R)
include H

/-! ## Binding names -/

/-- A name that is new to a scope is added in both runs. -/
theorem addBoundName_meets (h : R s t) (ctx : Context) {scope : Nat} {name : String}
    (hnone : s.store.symbol? scope name = none) :
    Meets R Eq ((addBoundName p.left ctx scope name).run s) ((addBoundName p.right ctx scope name).run t) := by
  refine (H.newSymbol h scope name _ hnone).bind fun ref ref' href => ?_
  subst href
  have hrest : ∀ x : Unit, Mirrors R (do hidePrivate p.left ctx ref; return ref) (do hidePrivate p.right ctx ref; return ref) :=
    fun _ => .seq (H.hidePrivate_mirrors ctx ref) fun _ => .pure rfl
  refine .read fun s t h => ?_
  have hl := (H.look h).store
  have hown := sameId_of_like (hl.symbol? scope name)
  have houter : Option.Rel (fun x y => SameId s.store t.store x.id y.id)
      ((s.store.parent? scope).bind fun p => s.store.symbol? p name) ((t.store.parent? scope).bind fun p =>
        t.store.symbol? p name) := by
    rw [hl.parent?]
    cases s.store.parent? scope with
    | none => exact .none
    | some p => exact sameId_of_like (hl.symbol? p name)
  dsimp only
  rw [hl.type?]
  split
  · generalize (s.store.parent? scope).bind (fun p => s.store.symbol? p name) = x at houter
    generalize (t.store.parent? scope).bind (fun p => t.store.symbol? p name) = y at houter
    generalize s.store.symbol? scope name = x' at hown
    generalize t.store.symbol? scope name = y' at hown
    cases houter with
    | none => exact hrest ⟨⟩ h
    | some houter =>
      cases hown with
      | none => exact hrest ⟨⟩ h
      | some hown => exact (H.takeOver h hown houter).bind fun x _ _ => hrest x
  · exact hrest ⟨⟩ h

theorem bindName_mirrors (ctx : Context) (scope : Nat) (name : String) :
    Mirrors R (bindName p.left ctx scope name) (bindName p.right ctx scope name) := by
  refine .read fun s t h => ?_
  have hl := (H.look h).store
  dsimp only
  rw [hl.redirection?]
  have hfind : ∀ start : Option Nat, Mirrors R
      (start.elim (pure ⟨none, false⟩) fun start => do return ⟨(← lookUp start name).map (fun found => ⟨found.scope, name⟩),
        false⟩ : BindM ω Binding)
      (start.elim (pure ⟨none, false⟩) fun start => do return ⟨(← lookUp start name).map (fun found => ⟨found.scope, name⟩),
        false⟩ : BindM ω' Binding) := by
    intro start
    cases start with
    | none => exact .pure rfl
    | some start =>
      refine .bind (lookUp_alike H start name) fun a b hab => .pure ?_
      cases hab with
      | none => rfl
      | some hab => simp [hab]
  cases (s.store.scope? ctx.scope).bind (·.redirection? name) with
  | some r =>
    cases r with
    | «nonlocal» =>
      rw [hl.parent?]
      cases s.store.parent? ctx.scope with
      | none => exact hfind none h
      | some start => exact hfind (some start) h
    | global =>
      refine Alike.seq (Alike.map (globalScope_mirrors H ctx.scope) fun _ _ hab => congrArg some hab) (fun start => ?_) h
      cases start with
      | none => exact hfind none
      | some start => exact hfind (some start)
  | none =>
    have hs := hl.symbol? scope name
    rcases hx : s.store.symbol? scope name with _ | x <;> rcases hy : t.store.symbol? scope name with _ | y <;>
      rw [hx, hy] at hs <;> cases hs
    · exact (addBoundName_meets H h ctx hx).bind fun _ _ hab => .pure (by rw [hab])
    · exact .ok rfl h

theorem bindHere_mirrors (ctx : Context) (name : String) :
    Mirrors R (bindHere p.left ctx name) (bindHere p.right ctx name) :=
  .seq (bindName_mirrors H ctx ctx.scope name) fun _ => .pure rfl

section

variable (ctx : Context)
include ctx

mutual

theorem bindTarget_mirrors (target : Expr) :
    Mirrors R (bindTarget p.left ctx target) (bindTarget p.right ctx target) := by
  unfold bindTarget
  split
  · exact .seq (bindName_mirrors H _ _ _) fun _ => .pure rfl
  · rename_i elements
    exact bindTargets_mirrors elements
  · rename_i elements
    exact bindTargets_mirrors elements
  · rename_i value
    exact bindTarget_mirrors value
  · exact .pure rfl

theorem bindTargets_mirrors (targets : List Expr) :
    Mirrors R (bindTargets p.left ctx targets) (bindTargets p.right ctx targets) := by
  unfold bindTargets
  split
  · exact .pure rfl
  · rename_i target targets
    exact .seq (bindTarget_mirrors target) fun _ => .seq (bindTargets_mirrors targets) fun _ => .pure rfl

end

end

/-! ## Assignments -/

theorem stampAssigned_mirrors (hn : N node) (before : FlowRef) (unbound : Bool) :
    Mirrors R (stampAssigned node before unbound) (stampAssigned node before unbound) := by
  unfold stampAssigned
  refine .ite (.bind (V := fun f g => g.flow = f.flow) (fun _ _ h => .ok (H.stamped h node hn) h) fun _ _ hflow => ?_)
    (stamp_mirrors H node)
  rw [hflow]
  exact .ite (stampWith_mirrors H node before) (.pure rfl)

theorem assign_mirrors (ctx : Context) {stamps : Bool} (hn : stamps = true → N node) (name key : Option String)
    (raises unbound : Bool) :
    Mirrors R (assign ctx node name key raises stamps unbound) (assign ctx node name key raises stamps unbound) := by
  intro s t h
  refine (assignedSymbol_meets (H.look h).store ctx name).andThen (fun _ _ hs => by rwa [hs.1, hs.2])
    fun target target' s t hrel hs => ?_
  obtain ⟨rfl, rfl⟩ := hs
  have hstamp : ∀ before : FlowRef, Mirrors R (if stamps then stampAssigned node before unbound else pure ())
      (if stamps then stampAssigned node before unbound else pure ()) := by
    intro before
    cases stamps with
    | false => exact .pure rfl
    | true => exact stampAssigned_mirrors H (hn rfl) before unbound
  have hcurrent : Meets (fun a b => a = s ∧ b = t) Eq (current.run s) (current.run t) := .ok (H.look h).current.symm ⟨rfl, rfl⟩
  refine hcurrent.andThen (fun _ _ hs => by rwa [hs.1, hs.2]) fun before _ _ _ hb hs => ?_
  obtain ⟨rfl, rfl⟩ := hs
  subst hb
  cases key with
  | none => exact hstamp before h
  | some key => exact (H.assignKey h ctx hrel node key raises unbound).bind fun _ _ _ => hstamp before

theorem assignName_mirrors (ctx : Context) {stamps : Bool} (hn : stamps = true → N node) (name : String)
    (unbound : Bool) : Mirrors R (assignName ctx node name stamps unbound) (assignName ctx node name stamps unbound) :=
  assign_mirrors H ctx hn _ _ _ _

theorem assignReference_mirrors (ctx : Context) {e : Expr} (hn : N e.index) (unbound : Bool) :
    Mirrors R (assignReference ctx e unbound) (assignReference ctx e unbound) := by
  unfold assignReference
  split <;> exact assign_mirrors H ctx (fun _ => hn) _ _ _ _

section

variable (ctx : Context) (unbound : Bool)
include ctx unbound

mutual

theorem assignTarget_mirrors (target : Expr) (hn : target.tree.All (On N)) :
    Mirrors R (assignTarget ctx unbound target) (assignTarget ctx unbound target) := by
  unfold assignTarget
  split
  · exact assignReference_mirrors H ctx (all_mk.1 hn).1 unbound
  · exact assignReference_mirrors H ctx (all_mk.1 hn).1 unbound
  · exact assignReference_mirrors H ctx (all_mk.1 hn).1 unbound
  · rename_i elements
    exact assignTargets_mirrors elements (all_mk.1 hn).2
  · rename_i elements
    exact assignTargets_mirrors elements (all_mk.1 hn).2
  · rename_i value
    exact assignTarget_mirrors value (allIn_cons.1 (all_mk.1 hn).2).1
  · exact .pure rfl

theorem assignTargets_mirrors (targets : List Expr) (hn : AllIn (On N) (Expr.trees targets)) :
    Mirrors R (assignTargets ctx unbound targets) (assignTargets ctx unbound targets) := by
  unfold assignTargets
  split
  · exact .pure rfl
  · rename_i target targets
    obtain ⟨ht, hts⟩ := allIn_cons.1 hn
    exact .seq (assignTarget_mirrors target ht) fun _ => assignTargets_mirrors targets hts

end

end

end

end Bind

end ScopeFlow
