import ScopeFlow.Proofs.TwinExprs

/-!
# Quiet steps

The steps that deal with names, declarations, exported names and diagnostics leave the flow graph alone: the current flow
node, the marks of the nodes of the tree, the queue and the local names of the typing and system modules stay as they are.
A look-up of exports is quiet because it may hand out flow numbers of its own but never takes one back (`Setup.Steady`). Of
the steps that are put together from quiet ones this follows from what is known of two runs, which here are one (`quiet_notes`).
-/

namespace ScopeFlow.Bind

variable {ω : Type} {α β : Type}

/-- What binding marks a node with: the scope it opens and the flow nodes in force at it, after it and at the end of its
body. -/
def NodeFacts.marks (f : NodeFacts) : Option Nat × Option FlowRef × Option FlowRef × Option FlowRef :=
  (f.scope, f.flow, f.after, f.afterBody)

/-- A look-up of exports never takes back a flow number. In a workspace none does (`Workspace.setup_steady`). -/
def Setup.Steady (u : Setup ω) : Prop :=
  ∀ path store world, store.nextFlowId ≤ (u.exports path store world).2.1.nextFlowId

/-- What a quiet step leaves as it is. -/
structure Quiet (s s' : State ω) : Prop where
  graph : s'.graph = s.graph
  current : s'.current = s.current
  marks : ∀ n, (s'.factsAt n).marks = (s.factsAt n).marks
  nodes : s'.facts.size = s.facts.size
  queue : s'.queue = s.queue
  typing : s'.typingNames = s.typingNames
  system : s'.systemNames = s.systemNames
  count : s.store.nextFlowId ≤ s'.store.nextFlowId

theorem Quiet.refl (s : State ω) : Quiet s s := ⟨rfl, rfl, fun _ => rfl, rfl, rfl, rfl, rfl, le_refl _⟩

theorem Quiet.trans {s t s' : State ω} (h : Quiet s t) (h' : Quiet t s') : Quiet s s' :=
  ⟨h'.graph.trans h.graph, h'.current.trans h.current, fun n => (h'.marks n).trans (h.marks n), h'.nodes.trans h.nodes,
    h'.queue.trans h.queue, h'.typing.trans h.typing, h'.system.trans h.system, h.count.trans h'.count⟩

instance : IsPreorder (State ω) Quiet where
  refl := .refl
  trans _ _ _ := .trans

/-- A step is quiet if each of its runs is. -/
abbrev IsQuiet (f : BindM ω α) : Prop := Along Quiet f

namespace IsQuiet

/-- A change of the store that takes back no flow number is quiet. -/
theorem store {f : Store → Store} (hf : ∀ store, store.nextFlowId ≤ (f store).nextFlowId) :
    IsQuiet (modifyStore f : BindM ω Unit) :=
  .ofModify fun s => ⟨rfl, rfl, fun _ => rfl, rfl, rfl, rfl, rfl, hf s.store⟩

/-- A change of what is known of a node that keeps its marks is quiet. -/
theorem facts {node : Nat} {f : NodeFacts → NodeFacts} (hf : ∀ x, (f x).marks = x.marks) :
    IsQuiet (modifyFacts node f : BindM ω Unit) := by
  intro s a s' h
  rw [modifyFacts_ok] at h
  subst h
  refine ⟨rfl, rfl, fun n => ?_, by simp, rfl, rfl, rfl, le_refl _⟩
  rw [State.factsAt_modify]
  split
  · exact hf _
  · rfl

end IsQuiet

/-! ## Names and declarations -/

theorem setDeclaration_quiet (node : Nat) (place : DeclarationPlace) :
    IsQuiet (setDeclaration node place : BindM ω Unit) :=
  .facts fun _ => rfl

theorem addKey_quiet (owner : Nat) (key : String) : IsQuiet (addKey owner key : BindM ω Unit) := .facts fun _ => rfl

theorem showKeys_quiet (owner : Nat) : IsQuiet (showKeys owner : BindM ω Unit) := .facts fun _ => rfl

theorem report_quiet (d : Diagnostic) : IsQuiet (report d : BindM ω Unit) :=
  .ofModify fun _ => ⟨rfl, rfl, fun _ => rfl, rfl, rfl, rfl, rfl, le_refl _⟩

theorem reportError_quiet (key : MessageKey) (mark : Mark) (name : String) :
    IsQuiet (reportError key mark name : BindM ω Unit) :=
  report_quiet _

theorem reportRule_quiet (u : Setup ω) (rule : Rule) (key : MessageKey) (mark : Mark) (name : String)
    (actions : List DiagnosticAction) : IsQuiet (reportRule u rule key mark name actions) :=
  .ite (report_quiet _) (.pure ())

theorem lookUpExports_quiet {u : Setup ω} (hu : u.Steady) (path : String) : IsQuiet (lookUpExports u path) := by
  intro s a s' h
  have hc := hu path s.store s.world
  simp only [lookUpExports, EStateM.run] at h
  split at h
  · rename_i exports store world he
    rw [he] at hc
    cases h
    exact ⟨rfl, rfl, fun _ => rfl, rfl, rfl, rfl, rfl, hc⟩
  · cases h

theorem lookUp_quiet (scope : Nat) (name : String) : IsQuiet (lookUp scope name : BindM ω (Option Found)) :=
  .consult _

theorem globalScope_quiet (scope : Nat) : IsQuiet (globalScope scope : BindM ω Nat) := .consult _

theorem newScope_quiet (type : ScopeType) (parent : Option Nat) : IsQuiet (newScope type parent : BindM ω Nat) := by
  intro s a s' h
  rw [newScope, modifyGet_ok] at h
  obtain ⟨_, rfl⟩ := h
  exact ⟨rfl, rfl, fun _ => rfl, rfl, rfl, rfl, rfl, le_refl _⟩

theorem newSymbol_quiet (scope : Nat) (name : String) (flags : SymbolFlags) :
    IsQuiet (newSymbol scope name flags : BindM ω SymbolRef) := by
  intro s a s' h
  rw [newSymbol, modifyGet_ok] at h
  obtain ⟨_, rfl⟩ := h
  exact ⟨rfl, rfl, fun _ => rfl, rfl, rfl, rfl, rfl, le_refl _⟩

theorem symbolIn_quiet (scope : Nat) (name : String) : IsQuiet (symbolIn scope name : BindM ω (Option Symbol)) :=
  .bind .get fun _ => .pure _

theorem adjustSymbol_quiet (ref : SymbolRef) (f : Symbol → Symbol) : IsQuiet (adjustSymbol ref f : BindM ω Unit) :=
  .store fun _ => le_refl _

theorem declare_quiet (ref : SymbolRef) (d : Declaration) : IsQuiet (declare ref d : BindM ω Unit) :=
  adjustSymbol_quiet ref _

theorem declareAt_quiet (ref : Option SymbolRef) (d : Declaration) :
    IsQuiet (declareAt ref d : BindM ω DeclarationPlace) := by
  cases ref with
  | none => exact .pure _
  | some ref =>
    exact .bind (symbolIn_quiet _ _) fun _ => .bind (declare_quiet _ _) fun _ => .ite (.pure _) (.pure _)

theorem adjustFunction_quiet (node : Nat) (f : FunctionInfo → FunctionInfo) :
    IsQuiet (adjustFunction node f : BindM ω Unit) := by
  refine .bind (.factsOf _) fun facts => ?_
  split
  · exact adjustSymbol_quiet _ _
  · exact setDeclaration_quiet _ _
  · exact .pure _

theorem staticValue_quiet (u : Setup ω) (e : Expr) : IsQuiet (staticValue u e) :=
  .bind .get fun _ => .ofExcept _

theorem addKeys_quiet (owner : Nat) (es : List Expr) : IsQuiet (addKeys owner es : BindM ω Unit) := by
  induction es with
  | nil => exact .pure _
  | cons e es ih => exact .bind (.ofExcept _) fun _ => .bind (addKey_quiet _ _) fun _ => ih

/-! ## Declarations, jumps and checks -/

theorem declareModule_quiet (site : Site) (localName : Option String) (record : Option ImportRecord) (ref : SymbolRef)
    (parts : List String) : IsQuiet (declareModule site localName record ref parts : BindM ω Unit) := by
  unfold declareModule
  split
  · refine .bind (symbolIn_quiet _ _) fun known => ?_
    dsimp only
    split
    · exact adjustSymbol_quiet _ _
    · exact declare_quiet _ _
  · exact declare_quiet _ _

theorem nonClassScope_quiet (ctx : Context) : IsQuiet (nonClassScope ctx : BindM ω (Option Nat)) :=
  .bind .get fun _ => .pure _

theorem visitNonlocals_quiet (ctx : Context) (mark : Mark) (names : List String) :
    IsQuiet (visitNonlocals ctx mark names : BindM ω Unit) := by
  induction names with
  | nil => exact .pure _
  | cons name names ih =>
    unfold visitNonlocals
    refine .bind .get fun _ => .when (reportError_quiet _ _ _) fun _ => .bind (lookUp_quiet _ _) fun found => ?_
    cases found with
    | none => exact .bind (reportError_quiet _ _ _) fun _ => ih
    | some found =>
      have hredirect : ∀ f : Store → Store, (∀ st, st.nextFlowId ≤ (f st).nextFlowId) →
          IsQuiet (do modifyStore f; visitNonlocals ctx mark names : BindM ω Unit) :=
            fun f hf => .bind (IsQuiet.store hf) fun _ => ih
      refine .ite (.bind (reportError_quiet _ _ _) fun _ => hredirect _ fun _ => le_refl _) (.bind .get fun _ => ?_)
      exact .when (reportError_quiet _ _ _) fun _ => hredirect _ fun _ => le_refl _

theorem noteYield_quiet (ctx : Context) (s : Stmt) : IsQuiet (noteYield ctx s : BindM ω Unit) := by
  unfold noteYield
  split
  · exact .ite (adjustFunction_quiet _ _) (.pure _)
  · exact .pure _

theorem noteJump_quiet (ctx : Context) (f : FunctionInfo → FunctionInfo) :
    IsQuiet (noteJump ctx f : BindM ω Unit) := by
  unfold noteJump
  split
  · exact adjustFunction_quiet _ _
  · exact .pure _

/-! ## Names in two runs that are one -/

/-- Two runs that are one, in a state that quiet steps have led to. -/
def Quietly (start s t : State ω) : Prop := s = t ∧ Quiet start s

/-- A step that leads on from what quiet steps have led to is quiet. -/
theorem Along.ofMirrors {f : BindM ω α} (h : ∀ start, Mirrors (Quietly start) f f) : IsQuiet f := by
  intro s a s' hrun
  have hmeets := h s ⟨rfl, .refl s⟩
  rw [hrun] at hmeets
  cases hmeets with
  | ok _ hs => exact hs.2

/-- A quiet step that does not fail leads on from what quiet steps have led to. -/
theorem Along.mirrors {f : BindM ω α} (h : IsQuiet f) (hok : ∀ s, ∃ a s', f.run s = .ok a s') (start : State ω) :
    Mirrors (Quietly start) f f := by
  rintro s _ ⟨rfl, hs⟩
  obtain ⟨a, s', hrun⟩ := hok s
  rw [hrun]
  exact .ok rfl ⟨rfl, hs.trans (h hrun)⟩

/-- The steps that deal with names and declarations are quiet. -/
theorem quiet_notes (u : Setup ω) (start : State ω) : Notes u.twice (Quietly start) where
  look h := .ofEq h.1
  keep := by
    rintro s _ ⟨rfl, hs⟩ privates all
    exact ⟨rfl, hs.trans ⟨rfl, rfl, fun _ => rfl, rfl, rfl, rfl, rfl, le_refl _⟩⟩
  setDeclaration _ _ := (setDeclaration_quiet _ _).mirrors (fun _ => ⟨_, _, rfl⟩) start
  reportError _ _ _ := (reportError_quiet _ _ _).mirrors (fun _ => ⟨_, _, rfl⟩) start
  reportRule rule key mark name actions := by
    refine (reportRule_quiet u rule key mark name actions).mirrors (fun _ => ?_) start
    unfold reportRule
    split <;> exact ⟨_, _, rfl⟩
  newMember h scope name _ := (newSymbol_quiet scope name _).mirrors (fun _ => ⟨_, _, rfl⟩) start h
  newSymbol h scope name flags _ := (newSymbol_quiet scope name flags).mirrors (fun _ => ⟨_, _, rfl⟩) start h
  adjustSymbol ref f _ := (adjustSymbol_quiet ref f).mirrors (fun _ => ⟨_, _, rfl⟩) start

/-- With a look-up of exports that is quiet, also if it fails. -/
theorem quiet_views {u : Setup ω} (hu : u.Steady) (start : State ω) : Views u.twice (Quietly start) where
  toNotes := quiet_notes u start
  exports := by
    rintro path s _ ⟨rfl, hs⟩
    have hc := hu path s.store s.world
    show Meets _ _ (lookUpExports u path s) (lookUpExports u path s)
    unfold lookUpExports
    generalize u.exports path s.store s.world = seen at hc ⊢
    obtain ⟨answer, store, world⟩ := seen
    cases answer with
    | error fault => exact .error ⟨rfl, hs.trans ⟨rfl, rfl, fun _ => rfl, rfl, rfl, rfl, rfl, hc⟩⟩
    | ok exports => exact .ok rfl ⟨rfl, hs.trans ⟨rfl, rfl, fun _ => rfl, rfl, rfl, rfl, rfl, hc⟩⟩

section

variable (u : Setup ω)

theorem hidePrivate_quiet (ctx : Context) (ref : SymbolRef) : IsQuiet (hidePrivate u ctx ref) :=
  .ofMirrors fun start => (quiet_notes u start).hidePrivate_mirrors ctx ref

theorem addIntrinsic_quiet (ctx : Context) (name : String) (site : Site) (type : String) :
    IsQuiet (addIntrinsic u ctx name site type) :=
  .ofMirrors fun start => (quiet_notes u start).addIntrinsic_mirrors ctx name site type

theorem inferVariable_quiet (ctx : Context) (source : Nat) (maybeAlias : Bool) (target : Expr) :
    IsQuiet (inferVariable u ctx source maybeAlias target) :=
  .ofMirrors fun start => (quiet_notes u start).inferVariable_mirrors ctx source maybeAlias target

theorem annotateVariable_quiet (ctx : Context) (target hint : Expr) : IsQuiet (annotateVariable u ctx target hint) :=
  .ofMirrors fun start => (quiet_notes u start).annotateVariable_mirrors ctx target hint

theorem followAssign_quiet (ctx : Context) (mark : Mark) (targets : List Expr) (value : Expr) :
    IsQuiet (followAssign u ctx mark targets value) :=
  .ofMirrors fun start => (quiet_notes u start).followAssign_mirrors ctx mark targets value

theorem reportImport_quiet (mark : Mark) (record : Option ImportRecord) : IsQuiet (reportImport u mark record) :=
  .ofMirrors fun start => (quiet_notes u start).reportImport_mirrors mark record

theorem hideImported_quiet (ctx : Context) (name : String) (ref : SymbolRef) : IsQuiet (hideImported u ctx name ref) :=
  .ofMirrors fun start => (quiet_notes u start).hideImported_mirrors ctx name ref

theorem enterYield_quiet (ctx : Context) (mark : Mark) (isFrom : Bool) : IsQuiet (enterYield u ctx mark isFrom) :=
  .ofMirrors fun start => (quiet_notes u start).enterYield_mirrors ctx mark isFrom

theorem enterAwait_quiet (mark : Mark) : IsQuiet (enterAwait u mark) :=
  .ofMirrors fun start => (quiet_notes u start).enterAwait_mirrors mark

end

section

variable {u : Setup ω} (hu : u.Steady)
include hu

theorem followCall_quiet (ctx : Context) (mark : Mark) (func : Expr) (args : List Expr) :
    IsQuiet (followCall u ctx mark func args) :=
  .ofMirrors fun start => (quiet_views hu start).followCall_mirrors ctx mark func args

theorem followAdd_quiet (ctx : Context) (mark : Mark) (target : Expr) (op : BinaryOperator) (value : Expr) :
    IsQuiet (followAdd u ctx mark target op value) :=
  .ofMirrors fun start => (quiet_views hu start).followAdd_mirrors ctx mark target op value

end

end ScopeFlow.Bind
