import ScopeFlow.Proofs.Entering
import ScopeFlow.Proofs.Worlds

/-!
# What binding modules keeps

Binding a module of a workspace adjusts its record, resolves its imports and binds its tree, which reaches the workspace only
where it looks at other modules. What these steps keep is kept when modules are bound one within another (`Bindings`). So flow
numbers are never taken back, and what the modules of a workspace are bound with is steady (`setup_steady`).
-/

namespace ScopeFlow

/-- A fault that is caught. -/
theorem Ends.tryCatch {σ α : Type} {I I' : σ → Prop} {V V' : α → σ → Prop} {f : EStateM Fault σ α}
    {g : Fault → EStateM Fault σ α} {s : σ} (hf : Ends I V (f.run s)) (hok : ∀ a s', I s' → V a s' → I' s' ∧ V' a s')
    (hg : ∀ fault s', I s' → Ends I' V' ((g fault).run s')) : Ends I' V' ((MonadExcept.tryCatch f g).run s) := by
  show Ends I' V' (EStateM.tryCatch f g s)
  change Ends I V (f s) at hf
  unfold EStateM.tryCatch
  cases hrun : f s with
  | ok a s' =>
    rw [hrun] at hf
    cases hf with
    | ok hs ha => exact .ok (hok a s' hs ha).1 (hok a s' hs ha).2
  | error fault s' =>
    rw [hrun] at hf
    cases hf with
    | error hs => exact hg fault s' hs

namespace Workspace

variable {α β : Type} {I : Workspace → Prop} {n : Int}

/-- A step that keeps what holds of a workspace, also if it fails. -/
def Maintains (I : Workspace → Prop) (f : WorkM α) : Prop := ∀ w, I w → Ends I (fun _ _ => True) (f.run w)

namespace Maintains

theorem bind {f : WorkM α} {g : α → WorkM β} (hf : Maintains I f) (hg : ∀ a, Maintains I (g a)) : Maintains I (f >>= g) :=
  fun w h => (hf w h).bind (fun _ => id) fun a w' hw _ => hg a w' hw

theorem get {f : Workspace → WorkM α} (hf : ∀ w, Maintains I (f w)) : Maintains I (MonadState.get >>= f) := fun w => hf w w

theorem pure (a : α) : Maintains I (Pure.pure a : WorkM α) := fun _ h => .ok h trivial

theorem throw (fault : Fault) : Maintains I (MonadExcept.throw fault : WorkM α) := fun _ h => .error h

theorem tryCatch {f : WorkM α} {g : Fault → WorkM α} (hf : Maintains I f) (hg : ∀ fault, Maintains I (g fault)) :
    Maintains I (MonadExcept.tryCatch f g) :=
  fun w h => (hf w h).tryCatch (fun _ _ hw _ => ⟨hw, trivial⟩) fun fault w' hw => hg fault w' hw

theorem mapM {f : α → WorkM β} (hf : ∀ a, Maintains I (f a)) (xs : List α) : Maintains I (xs.mapM f) := by
  induction xs with
  | nil =>
    rw [List.mapM_nil]
    exact pure _
  | cons x xs ih =>
    rw [List.mapM_cons]
    exact (hf x).bind fun _ => ih.bind fun _ => pure _

theorem forM {f : α → WorkM Unit} (hf : ∀ a, Maintains I (f a)) (xs : List α) : Maintains I (xs.forM f) := by
  induction xs with
  | nil => exact pure _
  | cons x xs ih => exact (hf x).bind fun _ => ih

end Maintains

/-! ## Binding modules -/

/-- What binding a module by itself keeps. -/
structure Bindings (I : Workspace → Prop) : Prop where
  adjust : ∀ i {f : ModuleRecord → ModuleRecord}, (∀ m, (f m).name = m.name) → Maintains I (adjust i f)
  resolveAll : ∀ i tree, Maintains I (resolveAll i tree)
  opens : ∀ builtins (w : Workspace), Bind.Opens builtins fun st => I { w with store := st }

section

variable {binds : String → WorkM Nat}

theorem exportsBy_keeps (hb : ∀ name, Maintains I (binds name)) (path : String) : Maintains I (exportsBy binds path) := by
  refine .get fun w => ?_
  cases w.paths.lookup path with
  | none => exact .pure _
  | some i =>
    dsimp only
    cases (w.moduleAt i).progress with
    | binding => exact .pure _
    | unbound =>
      refine .bind (.tryCatch (.bind (.bind (hb _) fun _ => .pure _) fun _ => .pure _) fun fault => ?_) fun _ =>
        .get fun _ => .pure _
      split
      · exact .pure _
      · exact .throw _
    | bound => exact .pure _
    | failed => exact .pure _

theorem scopeAround_keeps (hb : ∀ name, Maintains I (binds name)) (i : Nat) : Maintains I (scopeAround binds i) := by
  unfold scopeAround
  split
  · exact .pure _
  · exact .bind (hb _) fun _ => .get fun _ => .pure _

variable (H : Bindings I)
include H

/-- Binding a tree reaches the workspace only through what it sees of other modules. -/
theorem setup_lasts (hb : ∀ name, Maintains I (binds name)) (w : Workspace) (i : Nat) (path : String) (outline : Outline)
    (builtins : Option Nat) :
    Bind.Lasts (w.setup i path outline builtins binds) fun store world => I { world with store := store } where
  opens := H.opens builtins
  exports {store world} h seen := by
    have hends := exportsBy_keeps hb seen { world with store := store } h
    dsimp only [setup]
    generalize (exportsBy binds seen).run _ = x at hends
    cases hends with
    | ok hw _ => exact hw
    | error hw => exact hw

theorem keepOutcome_keeps (i : Nat) (outline : Outline) (outcome : Except Fault BindResults) {s : Bind.State Workspace}
    (h : I { s.world with store := s.store }) {w : Workspace} :
    Ends I (fun _ _ => True) ((keepOutcome i outline outcome s).run w) := by
  refine Ends.bind (I := I) (V := fun _ _ => True) (.ok h trivial) (fun _ => id) fun _ w₁ hw₁ _ => ?_
  cases outcome with
  | error fault =>
    refine Maintains.bind (H.adjust i fun m => ?_) (fun _ => .throw fault) w₁ hw₁
    rfl
  | ok results =>
    refine H.adjust i (fun m => ?_) w₁ hw₁
    rfl

theorem bindRecord_keeps (hb : ∀ name, Maintains I (binds name)) (i : Nat) (path : String) :
    Maintains I (bindRecord binds i path) := by
  refine .get fun w => ?_
  cases w.treeOf (w.moduleAt i) path with
  | error fault => exact .throw fault
  | ok tree =>
    refine .bind (H.adjust i fun m => rfl) fun _ => .bind (H.resolveAll i tree) fun _ => ?_
    refine .bind (scopeAround_keeps hb i) fun builtins w₁ hw₁ => .get ?_
    exact keepOutcome_keeps H i _ _ ((setup_lasts H hb w₁ i path _ builtins).bindModule tree hw₁)

theorem bindFile_keeps (hb : ∀ name, Maintains I (binds name)) (i : Nat) (path : String) :
    Maintains I (bindFile binds i path) := by
  refine .bind (H.adjust i fun m => rfl) fun _ =>
    .bind (.tryCatch (bindRecord_keeps H hb i path) fun fault => ?_) fun _ => .pure _
  exact .bind (H.adjust i fun m => rfl) fun _ => .throw _

theorem bindNamed_keeps {bindFile : Nat → String → WorkM Nat} (hb : ∀ i path, Maintains I (bindFile i path)) (name : String) :
    Maintains I (bindNamed bindFile name) := by
  refine .get fun w => ?_
  cases w.find name with
  | error fault => exact .throw fault
  | ok i =>
    refine .get fun w => ?_
    dsimp only
    split
    · exact .pure i
    · split
      · exact .bind (H.adjust i fun m => rfl) fun _ => .pure i
      · exact hb i _

/-- What binding one module keeps is kept by binding modules one within another, however deep. -/
theorem bindWithin_keeps (depth : Nat) : ∀ name, Maintains I (bindWithin depth name) := by
  induction depth with
  | zero => exact bindNamed_keeps H fun _ _ => .throw _
  | succ depth ih => exact bindNamed_keeps H fun i path => bindFile_keeps H ih i path

theorem bind_keeps (name : String) : Maintains I (Workspace.bind name) := .get fun w => bindWithin_keeps H w.depthBound name

end

/-! ## Flow numbers -/

/-- No flow number below `n` is handed out. -/
abbrev CountsFrom (n : Int) (w : Workspace) : Prop := n ≤ w.store.nextFlowId

/-- Registering a module leaves the flow numbers alone, and so does whatever resolving an import does. -/
theorem enterFound_counts (name : String) (location : Location) (type : ImportType) :
    Maintains (CountsFrom n) (enterFound name location type) := by
  refine .bind (fun w h => ?_) fun i => .get fun w => .bind (fun _ h => .ok h trivial) fun _ => .get fun w => ?_
  · cases hname : w.names.lookup name with
    | some i => exact enter_known hname ▸ .ok h trivial
    | none => exact enter_new hname ▸ .ok h trivial
  · split
    · exact .bind (fun _ h => .ok h trivial) fun _ => .pure _
    · exact .pure _

theorem load_counts (part name : String) (parent : Option Nat) : Maintains (CountsFrom n) (load part name parent) := by
  refine .get fun w => ?_
  split
  · exact .pure _
  · split
    · exact .pure _
    · split
      · exact .bind (enterFound_counts _ _ _) fun _ => .pure _
      · exact .pure _

theorem follow_counts (caller : Nat) (parts : List String) : ∀ start, Maintains (CountsFrom n) (follow caller start parts) := by
  induction parts with
  | nil => exact fun _ => .pure _
  | cons part parts ih =>
    refine fun start => .get fun w => .bind (load_counts _ _ _) fun found => ?_
    cases found with
    | none => exact .bind (fun _ h => .ok h trivial) fun _ => .pure _
    | some i => exact .bind (ih _) fun _ => .pure _

theorem implicitImports_counts (i : Nat) (caller : Option Nat) : Maintains (CountsFrom n) (implicitImports i caller) := by
  have hload : Maintains (CountsFrom n) (loadSubmodules i caller) := by
    refine .get fun w => .forM (fun part => .get fun w => ?_) _
    dsimp only
    split
    · refine .bind (load_counts _ _ _) fun found => ?_
      split
      · exact fun _ h => .ok h trivial
      · exact .pure _
    · exact .pure _
  refine .get fun w => ?_
  dsimp only
  split
  · exact .pure _
  · split
    · exact .bind hload fun _ => .get fun _ => .pure _
    · exact .get fun _ => .pure _

theorem describe_counts (caller : Nat) (unresolved : ImportRecord) (level : Int) (wanted : Option (List String)) (parts : Nat)
    (found : List Nat) : Maintains (CountsFrom n) (describe caller unresolved level wanted parts found) := by
  unfold describe
  split
  · exact .pure _
  · dsimp only
    split
    · exact .bind (implicitImports_counts _ _) fun _ => .get fun _ => .pure _
    · exact .bind (.pure _) fun _ => .get fun _ => .pure _

theorem resolve_counts (caller : Nat) (name : String) (level : Option Int) (wanted : Option (List String)) :
    Maintains (CountsFrom n) (resolve caller name level wanted) := by
  unfold resolve
  split
  · refine .get fun w => ?_
    dsimp only
    split
    · exact .pure _
    · exact .throw _
    · generalize (if name.isEmpty then [] else DottedName.parts name) = parts
      split
      · exact .bind (.pure _) fun _ => describe_counts _ _ _ _ _ _
      · exact .bind (follow_counts _ _ _) fun _ => describe_counts _ _ _ _ _ _
  · exact .throw _

/-- Binding modules only ever hands out flow numbers. -/
theorem counts (n : Int) : Bindings (CountsFrom n) where
  adjust _ _ _ := fun _ h => .ok h trivial
  resolveAll caller tree := by
    have hat : ∀ node name level wanted, Maintains (CountsFrom n) (resolveAt caller node name level wanted) := fun _ _ _ _ =>
      .bind (resolve_counts _ _ _ _) fun _ _ h => .ok h trivial
    refine .forM (fun node => ?_) _
    unfold resolveNode
    split
    · exact .forM (fun _ => hat _ _ _ _) _
    · exact hat _ _ _ _
    · exact .pure _
  opens _ _ := ⟨fun h _ hle => h.trans hle, fun h _ _ _ => h, fun h _ => h, fun h _ => h⟩

/-- What a module of a workspace is bound with never takes back a flow number, however other modules are bound meanwhile. -/
theorem setup_steady (w : Workspace) (i : Nat) (path : String) (outline : Outline) (builtins : Option Nat) (depth : Nat) :
    (w.setup i path outline builtins (bindWithin depth)).Steady := by
  intro seen store world
  have hcounts : CountsFrom store.nextFlowId { world with store := store } := le_rfl
  exact (setup_lasts (counts _) (bindWithin_keeps (counts _) depth) w i path outline builtins).exports hcounts seen

end Workspace

end ScopeFlow
