import ScopeFlow.Proofs.Finding
import ScopeFlow.Proofs.Worlds

/-!
# Binding modules, traced

A traced run binds modules like `Workspace.bindWithin` and notes what happens to each of them: how far its binding comes, that its
tree is given to the binder, and that what it exports is handed out. What is done at the limit of depth is left open.

A traced run ends like the run that it traces (`Traced.bindWithin_agrees`). From the notes of a module and what is known of it
in the end its story can be read (`Story`): it was skipped because there is nothing to bind, or its binding began once, its
tree was given to the binder at most once, and it was bound or failed; and only what is bound was shown.
-/

namespace ScopeFlow

open ScopeFlow.Bind (View)

/-- What happens to a module. -/
inductive Event where
  /-- Its binding comes this far. -/
  | moved (progress : Progress)
  /-- Its tree is given to the binder. -/
  | given
  /-- What it exports is handed out. -/
  | shown
  deriving DecidableEq, Repr

/-- A workspace, with what has happened to its modules, in order. -/
structure Traced where
  workspace : Workspace
  log : List (Nat × Event) := []

/-- A traced step. -/
abbrev TraceM := EStateM Fault Traced

namespace Traced

/-- What has happened to a module. -/
def of (t : Traced) (i : Nat) : List Event := (t.log.filter fun e => e.1 == i).map Prod.snd

/-- The module with a number. -/
def moduleAt (t : Traced) (i : Nat) : ModuleRecord := t.workspace.moduleAt i

/-- The same with another store. -/
def withStore (t : Traced) (store : Store) : Traced := { t with workspace := { t.workspace with store := store } }

/-- Something happens to a module. -/
def noted (t : Traced) (i : Nat) (event : Event) : Traced := { t with log := t.log ++ [(i, event)] }

/-- What is known of a module changes, and so does how far its binding has come. -/
def moved (t : Traced) (i : Nat) (f : ModuleRecord → ModuleRecord) : Traced :=
  let t := { t with workspace := { t.workspace with modules := t.workspace.modules.modify i f } }
  t.noted i (.moved (t.moduleAt i).progress)

variable {α : Type}

/-- A step in which nothing is noted. -/
def lift (f : WorkM α) : TraceM α := fun t =>
  match f t.workspace with
  | .ok a w => .ok a { t with workspace := w }
  | .error fault w => .error fault { t with workspace := w }

/-- Notes what happens to a module. -/
def note (i : Nat) (event : Event) : TraceM Unit := modify fun t => t.noted i event

/-- Changes what is known of a module, and notes how far its binding has come then. -/
def move (i : Nat) (f : ModuleRecord → ModuleRecord) : TraceM Unit := modify fun t => t.moved i f

/-- Hands out what importers see of a module. -/
def handOut (i : Nat) : TraceM (Option Exports) := modifyGet fun t =>
  match t.workspace.shown i with
  | some exports => (some exports, t.noted i .shown)
  | none => (none, t)

/-- What is seen of the module at a path, which `bind` binds if it is not bound. -/
def exportsBy (bind : String → TraceM Nat) (path : String) : TraceM (Option Exports) := do
  let t ← get
  match t.workspace.paths.lookup path with
  | none => return none
  | some i =>
    match (t.moduleAt i).progress with
    | .binding => return none
    | .unbound =>
      let settled ← tryCatch (do discard (bind (t.moduleAt i).name); return true) fun fault =>
        if Workspace.isSourceFault fault then return false else throw fault
      if settled then handOut i else return none
    | _ => handOut i

/-- The view of other modules while a module is bound. -/
def view (bind : String → TraceM Nat) : View Traced := fun path store t =>
  match (exportsBy bind path).run (t.withStore store) with
  | .ok exports t => (.ok exports, t.workspace.store, t)
  | .error fault t => (.error fault, t.workspace.store, t)

/-- The scope of the builtins, which `bind` binds first. -/
def builtinsScope (bind : String → TraceM Nat) : TraceM (Option Nat) := do
  let i ← bind Workspace.builtinsName
  return ((← get).moduleAt i).scope

/-- The scope around a module. -/
def scopeAround (bind : String → TraceM Nat) (i : Nat) : TraceM (Option Nat) :=
  if i == Workspace.builtinsIndex then return none else builtinsScope bind

/-- Keeps what binding the tree of a module has come to. -/
def keepOutcome (i : Nat) (outline : Outline) (outcome : Except Fault BindResults) (s : Bind.State Traced) : TraceM Unit := do
  set (s.world.withStore s.store)
  let bound := Bound.ofState outline outcome.toOption s
  match outcome with
  | .error fault =>
    lift (Workspace.adjust i fun m => { m with analysis := some bound })
    throw fault
  | .ok results =>
    move i fun m => { m with
      analysis := some bound
      scope := bound.moduleScope?
      results := some results
      progress := .bound }

/-- Binds a module with a file. -/
def bindRecord (bind : String → TraceM Nat) (i : Nat) (path : String) : TraceM Unit := do
  let t ← get
  match t.workspace.treeOf (t.moduleAt i) path with
  | .error fault => throw fault
  | .ok tree =>
    let outline := Outline.ofModule tree
    lift (Workspace.adjust i fun m => { m with analysis := some (.blank outline), imports := [] })
    lift (Workspace.resolveAll i tree)
    let builtins ← scopeAround bind i
    note i .given
    let t ← get
    let run := bindModule ((t.workspace.setup i path outline builtins Workspace.bind).seeing (view bind)) tree t.workspace.store t
    keepOutcome i outline run.1 run.2

/-- Binds a module from its file. -/
def bindFile (bind : String → TraceM Nat) (i : Nat) (path : String) : TraceM Nat := do
  move i fun m => { m with progress := .binding }
  tryCatch (bindRecord bind i path) fun fault => do
    move i fun m => { m with progress := .failed, scope := none, results := none }
    throw fault
  return i

/-- Binds the module with a name, unless that was tried before. -/
def bindNamed (bindFile : Nat → String → TraceM Nat) (name : String) : TraceM Nat := do
  match (← get).workspace.find name with
  | .error fault => throw fault
  | .ok i =>
    let m := (← get).moduleAt i
    if m.progress != .unbound then return i
    match m.code? with
    | none =>
      move i fun m => { m with progress := .bound }
      return i
    | some path => bindFile i path

/-- Binds the module with a name. What is done with a file at the limit of depth is left open. -/
def bindWithin (limit : Nat → String → TraceM Nat) : Nat → String → TraceM Nat
  | 0 => bindNamed limit
  | depth + 1 => bindNamed (bindFile (bindWithin limit depth))

/-- What binding does at the limit of depth. -/
def stop : Nat → String → TraceM Nat := fun _ _ => throw .endlessBinding

end Traced

/-! ## Stories -/

/-- What can have happened to a module, with what is known of it in the end. With `strict`, a module that was skipped has
nothing to bind still. -/
inductive Story (strict : Prop) (m : ModuleRecord) : List Event → Prop where
  | fresh : m.progress = .unbound → m.scope = none → m.results = none → Story strict m []
  | skipped : m.progress = .bound → m.scope = none → m.results = none → (strict → m.code? = none) → Story strict m [.moved .bound]
  | begun : m.progress = .binding → m.scope = none → m.results = none → Story strict m [.moved .binding]
  | given : m.progress = .binding → m.scope = none → m.results = none → Story strict m [.moved .binding, .given]
  | bound (count : Nat) : m.progress = .bound → m.scope.isSome → m.results.isSome → m.analysis.isSome →
    Story strict m ([.moved .binding, .given, .moved .bound] ++ List.replicate count .shown)
  | broken : m.progress = .failed → m.scope = none → m.results = none → Story strict m [.moved .binding, .moved .failed]
  | failed : m.progress = .failed → m.scope = none → m.results = none → Story strict m [.moved .binding, .given, .moved .failed]

namespace Story

variable {strict : Prop} {m m' : ModuleRecord} {events : List Event}

/-- A story is about how far binding has come. -/
theorem keeps (h : Story strict m events) (hk : m.Keeps strict m') : Story strict m' events := by
  obtain ⟨hp, hs, hr, ha, hc⟩ := hk
  cases h with
  | fresh h₁ h₂ h₃ => exact .fresh (hp.trans h₁) (hs.trans h₂) (hr.trans h₃)
  | skipped h₁ h₂ h₃ h₄ =>
    refine .skipped (hp.trans h₁) (hs.trans h₂) (hr.trans h₃) fun hstrict => ?_
    rw [hc hstrict (by simp [h₁])]
    exact h₄ hstrict
  | begun h₁ h₂ h₃ => exact .begun (hp.trans h₁) (hs.trans h₂) (hr.trans h₃)
  | given h₁ h₂ h₃ => exact .given (hp.trans h₁) (hs.trans h₂) (hr.trans h₃)
  | bound count h₁ h₂ h₃ h₄ => exact .bound count (hp.trans h₁) (hs ▸ h₂) (hr ▸ h₃) (ha h₄)
  | broken h₁ h₂ h₃ => exact .broken (hp.trans h₁) (hs.trans h₂) (hr.trans h₃)
  | failed h₁ h₂ h₃ => exact .failed (hp.trans h₁) (hs.trans h₂) (hr.trans h₃)

/-- What has a scope is bound and can be shown. -/
theorem show_scope (h : Story strict m events) (hs : m.scope.isSome) : m.progress = .bound ∧
    Story strict m (events ++ [.shown]) := by
  cases h with
  | bound count h₁ h₂ h₃ h₄ =>
    refine ⟨h₁, ?_⟩
    rw [List.append_assoc, ← List.replicate_succ']
    exact .bound (count + 1) h₁ h₂ h₃ h₄
  | fresh _ h => simp [h] at hs
  | skipped _ h => simp [h] at hs
  | begun _ h => simp [h] at hs
  | given _ h => simp [h] at hs
  | broken _ h => simp [h] at hs
  | failed _ h => simp [h] at hs

/-- A module that is not bound has no story yet. -/
theorem eq_nil (h : Story strict m events) (hp : m.progress = .unbound) : events = [] ∧ m.scope = none ∧ m.results = none := by
  cases h <;> simp_all

/-- A module that is being bound has begun once. -/
theorem of_binding (h : Story strict m events) (hp : m.progress = .binding) :
    (events = [.moved .binding] ∨ events = [.moved .binding, .given]) ∧ m.scope = none ∧ m.results = none := by
  cases h <;> simp_all

end Story

end ScopeFlow
