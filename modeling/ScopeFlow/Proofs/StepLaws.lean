import ScopeFlow.Proofs.Quiet

/-!
# Properties of compound steps

Much of what is proved of a walk is a property of steps that quiet steps have and that goes over from steps to what is put
together from them (`Compound`). Binding a name, assigning to a target and importing are put together from a few steps that
touch the flow graph, so that they have such a property as soon as these have it (`Binds`, `Assigns`). The nodes that are
assigned have `K`.
-/

namespace ScopeFlow.Bind

variable {ω : Type} {α β : Type} {u : Setup ω} {ctx : Context} {K : Node → Prop} {Φ : (α : Type) → BindM ω α → Prop}
  {site : Site}

/-- A property of steps that goes over to what is put together from them. -/
structure Compound (Φ : (α : Type) → BindM ω α → Prop) : Prop where
  ofQuiet : ∀ {α : Type} {f : BindM ω α}, IsQuiet f → Φ α f
  bind : ∀ {α β : Type} {f : BindM ω α} {g : α → BindM ω β}, Φ α f → (∀ x, Φ β (g x)) → Φ β (f >>= g)

namespace Compound

variable (H : Compound Φ)
include H

theorem pure (x : α) : Φ _ (Pure.pure x) := H.ofQuiet (.pure x)

theorem throw (fault : Fault) : Φ α (MonadExcept.throw fault) := H.ofQuiet (.throw fault)

omit H in
theorem ite (_ : Compound Φ) {c : Prop} [Decidable c] {f g : BindM ω α} (hf : Φ _ f) (hg : Φ _ g) : Φ _ (if c then f else g) := by
  split
  · exact hf
  · exact hg

/-- A step that is taken under a condition, in front of what follows in any case. -/
theorem when {c : Prop} [Decidable c] {f : BindM ω PUnit} {g : PUnit → BindM ω β} (hf : Φ _ f) (hg : ∀ x, Φ _ (g x)) :
    Φ _ (if c then f >>= g else g ⟨⟩) := H.ite (H.bind hf hg) (hg _)

theorem discard {f : BindM ω α} (hf : Φ _ f) : Φ _ (Functor.discard f : BindM ω Unit) := by
  have h : (Functor.discard f : BindM ω Unit) = f >>= fun _ => Pure.pure () := by
    rw [bind_pure_comp]
    rfl
  exact h ▸ H.bind hf fun _ => H.pure _

end Compound

/-! ## Names -/

/-- A property that binding a name has: the value of an outer name may be taken over. -/
structure Binds (Φ : (α : Type) → BindM ω α → Prop) : Prop extends Compound Φ where
  takeOver : ∀ target source, Φ Unit (takeOver target source)

section

variable (H : Binds Φ)
include H

theorem addBoundName_law (scope : Nat) (name : String) : Φ _ (addBoundName u ctx scope name) := by
  refine H.bind (H.ofQuiet (newSymbol_quiet _ _ _)) fun ref => H.bind (H.ofQuiet .get) fun t => ?_
  have hend : Φ _ (hidePrivate u ctx ref >>= fun _ => pure ref) :=
    H.ofQuiet (.bind (hidePrivate_quiet _ _ _) fun _ => .pure _)
  refine H.ite ?_ hend
  split
  · exact H.bind (H.takeOver _ _) fun _ => hend
  · exact hend

theorem bindName_law (scope : Nat) (name : String) : Φ _ (bindName u ctx scope name) := by
  refine H.bind (H.ofQuiet .get) fun t => ?_
  dsimp only
  split
  · refine H.ofQuiet ?_
    split
    · refine .bind (.pure _) fun start => ?_
      cases start with
      | none => exact .pure _
      | some start => exact .bind (lookUp_quiet _ _) fun _ => .pure _
    · refine .bind (.map (globalScope_quiet _)) fun start => ?_
      cases start with
      | none => exact .pure _
      | some start => exact .bind (lookUp_quiet _ _) fun _ => .pure _
  · split
    · exact H.pure _
    · exact H.bind (addBoundName_law H scope name) fun _ => H.pure _

theorem bindHere_law (name : String) : Φ _ (bindHere u ctx name) := H.bind (bindName_law H _ name) fun _ => H.pure _

mutual

theorem bindTarget_law (target : Expr) : Φ _ (bindTarget u ctx target) := by
  unfold bindTarget
  split
  · exact H.bind (bindName_law H _ _) fun _ => H.pure _
  · rename_i elements
    exact bindTargets_law elements
  · rename_i elements
    exact bindTargets_law elements
  · rename_i value
    exact bindTarget_law value
  · exact H.pure _

theorem bindTargets_law (targets : List Expr) : Φ _ (bindTargets u ctx targets) := by
  unfold bindTargets
  split
  · exact H.pure _
  · rename_i target targets
    exact H.bind (bindTarget_law target) fun _ => H.bind (bindTargets_law targets) fun _ => H.pure _

end

theorem bindClauses_law (clauses : List Clause) : Φ _ (bindClauses u ctx clauses) := by
  induction clauses with
  | nil => exact H.pure _
  | cons c clauses ih =>
    obtain ⟨m, target, iterable, conditions⟩ := c
    exact H.bind (bindTarget_law H target) fun _ => H.bind (H.ofQuiet (inferVariable_quiet _ _ _ _ _)) fun _ =>
      H.bind ih fun _ => H.pure _

theorem takeOverOuter_law (outer : Nat) (refs : List SymbolRef) : Φ _ (takeOverOuter outer refs) := by
  induction refs with
  | nil => exact H.pure _
  | cons ref refs ih =>
    refine H.bind (H.ofQuiet (symbolIn_quiet _ _)) fun source => H.bind (H.ofQuiet (symbolIn_quiet _ _)) fun own => ?_
    dsimp only
    split
    · exact H.bind (H.takeOver _ _) fun _ => ih
    · exact ih

theorem bindNamed_law (container : Nat) (mark : Mark) (name : String) : Φ _ (bindNamed u ctx container mark name) :=
  H.bind (H.ofQuiet .get) fun _ => H.when (H.ofQuiet (reportError_quiet _ _ _)) fun _ => H.discard (bindName_law H _ _)

end

/-! ## Assignments and imports -/

/-- Whether a number is that of a node with `K`. -/
def Assignable (K : Node → Prop) (i : Nat) : Prop := ∃ n, K n ∧ n.mark.index = i

theorem assignable_true (i : Nat) : Assignable (fun _ => True) i := ⟨.ignore { index := i }, trivial, rfl⟩

/-- A property that assigning and importing have. -/
structure Assigns (K : Node → Prop) (ctx : Context) (Φ : (α : Type) → BindM ω α → Prop) : Prop extends Binds Φ where
  assign : ∀ {node}, Assignable K node → ∀ name key raises stamps unbound, Φ Unit (assign ctx node name key raises stamps unbound)
  importAll : ∀ {node}, Assignable K node → ∀ names, Φ Unit (importAll ctx node names)

section

variable (H : Assigns K ctx Φ)
include H

theorem assignName_law {node : Nat} (hn : Assignable K node) (name : String) (stamps unbound : Bool) :
    Φ _ (assignName ctx node name stamps unbound) := H.assign hn _ _ _ _ _

theorem assignReference_law {e : Expr} (hk : K (.expr e)) (unbound : Bool) : Φ _ (assignReference ctx e unbound) := by
  unfold assignReference
  split <;> exact H.assign ⟨_, hk, rfl⟩ _ _ _ _ _

mutual

theorem assignTarget_law (unbound : Bool) (target : Expr) (h : target.tree.All K) :
    Φ _ (assignTarget ctx unbound target) := by
  have hk := target.node_of_all h
  unfold assignTarget
  split
  · exact assignReference_law H hk _
  · exact assignReference_law H hk _
  · exact assignReference_law H hk _
  · rename_i elements
    exact assignTargets_law unbound elements (NodeTree.all_mk.1 h).2
  · rename_i elements
    exact assignTargets_law unbound elements (NodeTree.all_mk.1 h).2
  · rename_i value
    exact assignTarget_law unbound value (NodeTree.allIn_cons.1 (NodeTree.all_mk.1 h).2).1
  · exact H.pure _

theorem assignTargets_law (unbound : Bool) (targets : List Expr) (h : NodeTree.AllIn K (Expr.trees targets)) :
    Φ _ (assignTargets ctx unbound targets) := by
  unfold assignTargets
  split
  · exact H.pure _
  · rename_i target targets
    rw [Expr.trees, NodeTree.allIn_cons] at h
    exact H.bind (assignTarget_law unbound target h.1) fun _ => assignTargets_law unbound targets h.2

end

theorem introduce_law (hn : Assignable K site.index) (name : String) : Φ _ (introduce u ctx site name) := by
  refine H.bind (bindHere_law H.toBinds _) fun symbol => H.bind (assignName_law H hn _ _ _) fun _ => ?_
  cases symbol with
  | none => exact H.pure _
  | some ref => exact H.ofQuiet (declare_quiet _ _)

theorem capture_law (hn : Assignable K site.index) (name : Option String) : Φ _ (capture u ctx site name) := by
  cases name with
  | none => exact H.pure _
  | some name => exact H.ite (H.pure _) (introduce_law H hn _)

omit H in
/-- Noting the symbols of a typing module is quiet. -/
theorem noteSymbols_quiet (f : Table String → Table String) :
    IsQuiet (modify fun s => { s with typingSymbols := f s.typingSymbols } : BindM ω Unit) :=
  .ofModify fun _ => ⟨rfl, rfl, fun _ => rfl, rfl, rfl, rfl, rfl, le_refl _⟩

theorem importModule_law {n : ImportName} (hk : K (.importName n)) (hnote : Φ _ (noteModule n)) : Φ _ (importModule u ctx n) := by
  refine H.bind (H.bind (bindHere_law H.toBinds _) fun symbol => ?_) fun _ =>
    H.bind (assignName_law H ⟨_, hk, rfl⟩ _ _ _) fun _ => hnote
  cases symbol with
  | none => exact H.ofQuiet (reportImport_quiet _ _ _)
  | some ref =>
    have hrest := H.ofQuiet (Along.bind (reportImport_quiet u n.mark (importRecord u n.mark.index)) fun _ =>
      declareModule_quiet n.site n.asName (importRecord u n.mark.index) ref (DottedName.parts n.name))
    exact H.ite hrest (H.bind (H.ofQuiet (hideImported_quiet _ _ _ _)) fun _ => hrest)

theorem importSubmodule_law (hn : ∀ name, Φ _ (assignName ctx site.index name false)) (record : Option ImportRecord)
    (parts : List String) : Φ _ (importSubmodule u ctx site record parts) := by
  refine H.bind (bindHere_law H.toBinds _) fun symbol => ?_
  cases symbol with
  | none => exact hn _
  | some ref => exact H.bind (H.ofQuiet (declareModule_quiet _ _ _ _ _)) fun _ => hn _

theorem importWildcardNames_law (site : Site) (record : ImportRecord) (exports : Exports) (names : List String) :
    Φ _ (importWildcardNames u ctx site record exports names) := by
  induction names with
  | nil => exact H.pure _
  | cons name names ih =>
    refine H.bind (H.bind (bindHere_law H.toBinds _) fun symbol => ?_) fun _ => H.bind ih fun _ => H.pure _
    cases symbol with
    | none => exact H.pure _
    | some ref =>
      refine H.ofQuiet (.ite (.bind (declare_quiet _ _) fun _ => .pure _) ?_)
      split
      · exact .bind (declare_quiet _ _) fun _ => .pure _
      · exact .pure _

theorem importWildcard_law (hu : u.Steady) (hn : ∀ name, Φ _ (assignName ctx site.index name false))
    (ha : ∀ names, Φ _ (importAll ctx site.index names)) (record : Option ImportRecord) (level : Option Int) (parts : List String)
    (inPackage : Bool) : Φ _ (importWildcard u ctx site record level parts inPackage) := by
  unfold importWildcard
  refine H.when (H.ofQuiet (reportError_quiet _ _ _)) fun _ => ?_
  cases record with
  | none => exact H.ite (H.throw _) (H.pure _)
  | some r =>
    refine H.bind (H.ofQuiet (lookUpExports_quiet hu _)) fun exports => ?_
    cases exports with
    | none => exact H.when (H.throw _) fun _ => ha _
    | some exports =>
      exact H.when (importSubmodule_law H hn _ _) fun _ =>
        H.bind (importWildcardNames_law H _ _ _ _) fun _ => ha _

theorem importNames_law (record : Option ImportRecord) (parts : List String) (isOwnPackage : Bool) (names : List ImportName)
    (hk : ∀ n ∈ names, K (.importName n)) : Φ _ (importNames u ctx record parts isOwnPackage names) := by
  induction names with
  | nil => exact H.pure _
  | cons n names ih =>
    refine H.bind (H.bind (bindHere_law H.toBinds _) fun symbol => ?_) fun _ => ih fun n hn => hk n (List.mem_cons_of_mem _ hn)
    cases symbol with
    | none => exact H.pure _
    | some ref =>
      refine H.when (H.ofQuiet (hideImported_quiet _ _ _ _)) fun _ => H.bind (H.ofQuiet (declare_quiet _ _)) fun _ =>
        H.bind (assignName_law H ⟨_, hk n (List.mem_cons_self ..), rfl⟩ _ _ _) fun _ => ?_
      split
      · exact H.ite (H.ofQuiet (noteSymbols_quiet fun t => t.put (n.given.getD n.name) n.name)) (H.pure _)
      · exact H.pure _

theorem importFrom_law (hu : u.Steady) (hn : ∀ name, Φ _ (assignName ctx site.index name false))
    (ha : ∀ names, Φ _ (importAll ctx site.index names)) (source : Option String) (names : List ImportName)
    (level : Option Int) (hk : ∀ n ∈ names, K (.importName n)) : Φ _ (importFrom u ctx site source names level) := by
  refine H.when (H.throw _) fun _ => H.bind (H.ofQuiet (reportImport_quiet _ _ _)) fun _ => ?_
  dsimp only
  split
  · refine H.bind (importWildcard_law H hu hn ha _ _ _ _) fun _ => ?_
    split
    · exact H.ite (H.ofQuiet (noteSymbols_quiet fun t => formsOfInterest.foldl (fun t form => t.put form form) t)) (H.pure _)
    · exact H.pure _
  · exact H.when (importSubmodule_law H hn _ _) fun _ => importNames_law H _ _ _ _ hk

theorem declareSpecialForm_law (site : Site) (target : Expr) : Φ _ (declareSpecialForm u ctx site target) := by
  unfold declareSpecialForm
  split
  · refine H.ite (H.bind (bindHere_law H.toBinds _) fun symbol => ?_) (H.pure _)
    cases symbol with
    | none => exact H.pure _
    | some ref => exact H.bind (H.ofQuiet (declare_quiet _ _)) fun _ => H.pure _
  · exact H.pure _

theorem visitGlobals_law (mark : Mark) (global : Nat) (names : List String) : Φ _ (visitGlobals u ctx mark global names) := by
  induction names with
  | nil => exact H.pure _
  | cons name names ih =>
    have hbind : Φ _ (do
        discard (bindName u ctx global name)
        if ctx.scope != global then
          modifyStore fun store => store.adjustScope ctx.scope (fun scope => (scope.redirect name .global).2)
        visitGlobals u ctx mark global names) :=
      H.bind (H.discard (bindName_law H.toBinds _ _)) fun _ => H.when (H.ofQuiet (.store fun _ => le_refl _)) fun _ => ih
    unfold visitGlobals
    refine H.bind (H.ofQuiet .get) fun _ => H.when (H.ofQuiet (reportError_quiet _ _ _)) fun _ => ?_
    refine H.bind (H.ofQuiet (lookUp_quiet _ _)) fun found => ?_
    cases found with
    | none => exact hbind
    | some found => exact H.when (H.ofQuiet (reportError_quiet _ _ _)) fun _ => hbind

end

end ScopeFlow.Bind
