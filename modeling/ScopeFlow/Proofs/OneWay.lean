import ScopeFlow.Proofs.Registering
import ScopeFlow.Proofs.TraceAgrees

/-!
# Binding goes one way

A session is a workspace that is opened and then called upon any number of times, with calls that may fail (`Session`). Its trace
tells what happened to each module. However imports are entangled, the binding of a module goes one way and comes to an end
with the call in which it began (`binding_goes_one_way`), and a module that is bound is bound in full, unless it was
registered only after it had been passed over as a namespace package (`bound_modules_are_whole`).
-/

namespace ScopeFlow

/-! ## Calls -/

/-- What can be asked of a workspace. -/
inductive Call where
  | register (r : Registration)
  | addEntry (file name : Option String)
  | bind (name : String)
  | bindEntries
  | bindAll
  | exports (path : String)

/-- What a call is answered with. -/
inductive Answer where
  | module (i : Nat)
  | modules (is : List Nat)
  | exports (seen : Option Exports)

/-- What a call does. -/
def Call.run : Call → WorkM Answer
  | .register r => return .module (← Workspace.register r)
  | .addEntry file name => return .module (← Workspace.addEntry file name)
  | .bind name => return .module (← Workspace.bind name)
  | .bindEntries => return .modules (← Workspace.bindEntries)
  | .bindAll => return .modules (← Workspace.bindAll)
  | .exports path => return .exports (← Workspace.exports path)

namespace Traced

/-- Binds the module with a name, at most so much deeper than the workspace is deep. -/
def bind (limit : Nat → String → TraceM Nat) (extra : Nat) (name : String) : TraceM Nat := do
  bindWithin limit ((← get).workspace.depthBound + extra) name

/-- Binds the entries, until one fails. -/
def bindEntries (limit : Nat → String → TraceM Nat) (extra : Nat) : TraceM (List Nat) := do
  let w := (← get).workspace
  w.entries.mapM fun i => bind limit extra (w.moduleAt i).name

/-- Binds all modules that are registered now, until one fails. -/
def bindAll (limit : Nat → String → TraceM Nat) (extra : Nat) : TraceM (List Nat) := do
  (← get).workspace.names.names.mapM (bind limit extra)

/-- What a step leads to, also if it fails. -/
def after {α : Type} (t : Traced) (f : TraceM α) : Traced :=
  match f.run t with
  | .ok _ t' | .error _ t' => t'

end Traced

/-- What a call does, traced. -/
def Call.trace (limit : Nat → String → TraceM Nat) (extra : Nat) : Call → TraceM Answer
  | .register r => return .module (← Traced.lift (Workspace.register r))
  | .addEntry file name => return .module (← Traced.lift (Workspace.addEntry file name))
  | .bind name => return .module (← Traced.bind limit extra name)
  | .bindEntries => return .modules (← Traced.bindEntries limit extra)
  | .bindAll => return .modules (← Traced.bindAll limit extra)
  | .exports path => return .exports (← Traced.exportsBy (Traced.bind limit extra) path)

/-- What a call comes to. -/
def Traced.calling (t : Traced) (c : Call) : Traced := t.after (c.trace stop 0)

/-- Whether a call leaves alone those namespace packages that were bound: it does not register a module in their place. -/
def Call.Careful (w : Workspace) : Call → Prop
  | .register r => ∀ i ∈ w.names.lookup r.name, (w.moduleAt i).isNamespace = true → (w.moduleAt i).progress = .unbound
  | _ => True

instance (w : Workspace) : DecidablePred (Call.Careful w)
  | .register r => inferInstanceAs (Decidable (∀ i ∈ w.names.lookup r.name, _ → _))
  | .addEntry .. | .bind _ | .bindEntries | .bindAll | .exports _ => isTrue trivial

/-- What a workspace comes to by calls of a kind, with what has happened to its modules. Files may change between calls. -/
inductive Session (P : Workspace → Call → Prop) : Traced → Prop where
  | opened (builtins : Source) {w : Workspace} : w.modules = #[] → w.names = [] → Session P { workspace := w.openedWith builtins }
  | call {t : Traced} (c : Call) : Session P t → P t.workspace c → Session P (t.calling c)
  | files {t : Traced} (disk : Disk) : Session P t → Session P { t with workspace := { t.workspace with disk := disk } }

namespace Traced

variable {α : Type} {strict : Prop} {t t' : Traced} {limit : Nat → String → TraceM Nat} {extra : Nat}

/-- What holds between calls: each module has a story, and none is being bound. -/
structure Calm (strict : Prop) (t : Traced) : Prop where
  told : Told strict t
  registered : t.workspace.Registered
  idle : ∀ i, (t.moduleAt i).progress ≠ .binding

/-- The limit of depth is where the program has it, or it is never reached. -/
def Unlimited (limit : Nat → String → TraceM Nat) (extra : Nat) (w : Workspace) : Prop :=
  w.Registered ∧ ((limit = stop ∧ extra = 0) ∨ w.disk.Plain)

/-- Binding by name agrees with its trace. -/
theorem bind_agrees : Agrees strict (Unlimited limit extra) Workspace.bind (bind limit extra) := by
  intro t ht name
  have hinside : Inside limit t.workspace.depthBound (t.workspace.depthBound + extra) t.workspace t.workspace := by
    refine ⟨ht.state.1.sound, ht.state.2.imp (fun ⟨hlimit, hextra⟩ => ⟨hlimit, by omega⟩) fun hplain => ?_⟩
    have hlt := t.workspace.unsettled_lt_depthBound t.workspace
    exact ⟨hplain, by omega, by omega⟩
  have hleads : ∀ t', Leads strict (Inside limit t.workspace.depthBound (t.workspace.depthBound + extra) t.workspace) Every t t' →
      Leads strict (Unlimited limit extra) Every t t' := fun t' ht' =>
    ⟨⟨ht'.told, ht'.state.sound.registered, by rw [ht'.state.sound.disk]; exact ht.state.2⟩, ht'.later⟩
  exact .get ((bindWithin_agrees limit _ _ ⟨ht.told, hinside⟩ name).imp (fun _ => hleads) hleads)

/-- Modules are bound one after the other. -/
theorem mapM_joins {C : Workspace → Prop} {f : α → WorkM Nat} {f' : α → TraceM Nat}
    (hf : ∀ t a, Fits strict C t →
      Joins (fun _ => Leads strict C Every t) (Leads strict C Every t) ((f a).run t.workspace) ((f' a).run t)) (xs : List α) :
    ∀ {t : Traced}, Fits strict C t → Joins (fun _ => Leads strict C Every t) (Leads strict C Every t)
      ((xs.mapM f).run t.workspace) ((xs.mapM f').run t) := by
  induction xs with
  | nil =>
    intro t ht
    rw [List.mapM_nil, List.mapM_nil]
    exact .ok ht.leads
  | cons x xs ih =>
    intro t ht
    rw [List.mapM_cons, List.mapM_cons]
    refine .bind (hf t x ht) (fun _ => id) fun _ t₁ ht₁ => ?_
    exact .bind (ih ht₁.toFits) (fun _ => ht₁.trans) fun _ t₂ ht₂ => .ok (ht₁.trans ht₂)

namespace Calm

theorem fits (h : Calm strict t) (hlimit : (limit = stop ∧ extra = 0) ∨ t.workspace.disk.Plain) :
    Fits strict (Unlimited limit extra) t := ⟨h.told, h.registered, hlimit⟩

theorem ofLeads (h : Calm strict t) (h' : Leads strict (Unlimited limit extra) Every t t') : Calm strict t' where
  told := h'.told
  registered := h'.state.1
  idle i hi := h.idle i ((h'.later.atModule i trivial).binding.1 hi)

theorem ofKeeps (h : Calm strict t) (hr : t'.workspace.Registered) (hk : t.workspace.Keeps strict t'.workspace)
    (hl : t'.log = t.log) : Calm strict t' where
  told := h.told.ofKeeps hk hl
  registered := hr
  idle i hi := h.idle i ((hk i).progress.symm.trans hi)

theorem opened (builtins : Source) {w : Workspace} (hmodules : w.modules = #[]) (hnames : w.names = []) :
    Calm strict { workspace := w.openedWith builtins } := by
  have hadds : Workspace.Adds strict w (w.openedWith builtins) := Workspace.openedWith_adds builtins hnames
  have hblank : ∀ i, w.moduleAt i = { name := "" } := fun i => Workspace.moduleAt_of_le (by simp [hmodules])
  have hempty : Calm strict { workspace := w } :=
    { told := fun i => by
        show Story strict (w.moduleAt i) []
        rw [hblank]
        exact .fresh rfl rfl rfl
      registered := fun name i hi => by simp [hnames] at hi
      idle := fun i => by
        show (w.moduleAt i).progress ≠ _
        simp [hblank] }
  exact hempty.ofKeeps hadds.registered hadds.keeps rfl

end Calm

/-- A call agrees with its trace, and leaves no module half bound. -/
theorem call_joins (c : Call) (h : Calm strict t) (hc : strict → c.Careful t.workspace)
    (hlimit : (limit = stop ∧ extra = 0) ∨ t.workspace.disk.Plain) :
    Joins (fun _ => Calm strict) (Calm strict) (c.run.run t.workspace) ((c.trace limit extra).run t) := by
  have hfits := h.fits hlimit
  have hbinds : ∀ {β : Type} {f : WorkM β} {f' : TraceM β} (answer : β → Answer),
      Joins (fun _ => Leads strict (Unlimited limit extra) Every t) (Leads strict (Unlimited limit extra) Every t)
        (f.run t.workspace) (f'.run t) →
      Joins (fun _ => Calm strict) (Calm strict) ((do return answer (← f) : WorkM Answer).run t.workspace)
        ((do return answer (← f') : TraceM Answer).run t) := fun answer hf =>
    .bind hf (fun _ => h.ofLeads) fun _ _ ht' => .ok (h.ofLeads ht')
  cases c with
  | register r =>
    refine .bind (.lift (Workspace.register_adds h.registered hc)) (fun t' ht' => ?_) fun _ t' ht' => .ok ?_
    · exact h.ofKeeps ht'.2.registered ht'.2.keeps ht'.1
    · exact h.ofKeeps ht'.2.1.registered ht'.2.1.keeps ht'.1
  | addEntry file name =>
    have hfinds : Ends (Workspace.Finds t.workspace strict t.workspace) _ _ :=
      Workspace.addEntry_finds h.registered.sound file name
    refine .bind (.lift hfinds) (fun t' ht' => ?_) fun _ t' ht' => .ok ?_
    · exact h.ofKeeps ht'.2.sound.registered ht'.2.keeps ht'.1
    · exact h.ofKeeps ht'.2.1.sound.registered ht'.2.1.keeps ht'.1
  | bind name => exact hbinds .module (bind_agrees hfits name)
  | bindEntries | bindAll => exact hbinds .modules (.get (mapM_joins (fun _ _ ht' => bind_agrees ht' _) _ hfits))
  | exports path => exact hbinds .exports (exportsBy_joins bind_agrees hfits path)

theorem after_of_joins {Q : α → Traced → Prop} {E : Traced → Prop} {f : TraceM α} {x : EStateM.Result Fault Workspace α}
    (h : Joins Q E x (f.run t)) {R : Traced → Prop} (hq : ∀ a t, Q a t → R t) (he : ∀ t, E t → R t) : R (t.after f) := by
  unfold after
  generalize f.run t = y at h
  cases h with
  | ok ha => exact hq _ _ ha
  | error ht => exact he _ ht

end Traced

/-- Between calls each module has a story, and none is being bound. -/
theorem Session.calm {P : Workspace → Call → Prop} {strict : Prop} (hP : ∀ w c, P w c → strict → c.Careful w) {t : Traced}
    (h : Session P t) : t.Calm strict := by
  induction h with
  | opened builtins hmodules hnames => exact .opened builtins hmodules hnames
  | call c _ hc ih =>
      exact Traced.after_of_joins (Traced.call_joins c ih (hP _ c hc) (.inl ⟨rfl, rfl⟩)) (fun _ _ => id) fun _ => id
  | files disk _ ih => exact ⟨ih.told, ih.registered, ih.idle⟩

/-! ## What sessions come to -/

/-- However the imports of modules are entangled, and whether calls fail or not: in a session the binding of each module goes
one way, and none is left half bound by a call. Each call does what its trace tells. If no extension module is named
`__init__`, the limit of depth at which binding gives up is not reached, whatever would be done there and however far away it
is: a call ends since there is nothing left to bind. -/
theorem binding_goes_one_way {t : Traced} (h : Session (fun _ _ => True) t) :
    (∀ i, Story False (t.moduleAt i) (t.of i)) ∧ (∀ i, (t.moduleAt i).progress ≠ .binding) ∧
      ∀ c : Call, Traced.Joins (fun _ _ => True) (fun _ => True) (c.run.run t.workspace) ((c.trace Traced.stop 0).run t) ∧
        (t.workspace.disk.Plain → ∀ limit extra,
          Traced.Joins (fun _ _ => True) (fun _ => True) (c.run.run t.workspace) ((c.trace limit extra).run t)) := by
  have hcalm : t.Calm False := h.calm fun _ _ _ => False.elim
  refine ⟨hcalm.told, hcalm.idle, fun c => ⟨?_, fun hplain limit extra => ?_⟩⟩
  · exact (Traced.call_joins c hcalm False.elim (.inl ⟨rfl, rfl⟩)).imp (fun _ _ _ => trivial) fun _ _ => trivial
  · exact (Traced.call_joins c hcalm False.elim (.inr hplain)).imp (fun _ _ _ => trivial) fun _ _ => trivial

/-- A module that imports all names of another one. -/
def sampleImporting (name : String) : Source :=
  .parsed { body := [.importFrom {} (some name) [⟨{}, "*", none⟩] (some 0)] }

/-- A workspace with empty builtins. -/
def sampleOpened : Traced := { workspace := ({} : Workspace).openedWith (.parsed { body := [] }) }

/-- Two modules that import all names of each other. -/
def sampleModules : Traced :=
  (sampleOpened.calling (.register { name := "a", source := sampleImporting "b" })).calling
    (.register { name := "b", source := sampleImporting "a" })

/-- One of the two is bound. -/
def sampleCircle : Traced := sampleModules.calling (.bind "a")

theorem sampleCircle_goes_one_way :
    sampleCircle.of 1 = [.moved .binding, .given, .moved .bound] ∧
      sampleCircle.of 2 = [.moved .binding, .given, .moved .bound, .shown] ∧
      (∀ i, (sampleCircle.moduleAt i).progress ≠ .binding) ∧
      ∀ c : Call, ∀ limit extra,
        Traced.Joins (fun _ _ => True) (fun _ => True) (c.run.run sampleCircle.workspace)
          ((c.trace limit extra).run sampleCircle) := by
  have hopened : Session (fun _ _ => True) sampleOpened := .opened _ rfl rfl
  have hmodules : Session (fun _ _ => True) sampleModules := .call _ (.call _ hopened trivial) trivial
  have hsession : Session (fun _ _ => True) sampleCircle := .call _ hmodules trivial
  obtain ⟨_, hidle, hcalls⟩ := binding_goes_one_way hsession
  have hplain : sampleCircle.workspace.disk.Plain := by decide +kernel
  exact ⟨by decide +kernel, by decide +kernel, hidle, fun c => (hcalls c).2 hplain⟩

-- An extension module that is named `__init__` is a package that holds itself. There is no end then to the names under which
-- the files beside it are found, nor to binding a module `x` among them in which there is `from .__init__.x import *`.
example :
    let disk : Disk := { files := [("/__init__.so", .other), ("/x.py", .other)] }
    ¬ disk.Plain ∧ disk.find? "__init__" ["/"] = some (.package "/") ∧ disk.find? "x" ["/"] = some (.file .source "/x.py") := by
  decide +kernel

/-- A module that is bound is bound in full, in a session whose calls are careful: if it has a file and is neither a namespace
package nor native, then its scope, its results and what binding found out are there. -/
theorem bound_modules_are_whole {t : Traced} (h : Session Call.Careful t) {i : Nat} (hbound : (t.moduleAt i).progress = .bound)
    (hfile : (t.moduleAt i).file.isSome) (hnamespace : (t.moduleAt i).isNamespace = false)
    (hnative : (t.moduleAt i).isNative = false) :
    (t.moduleAt i).scope.isSome ∧ (t.moduleAt i).results.isSome ∧ (t.moduleAt i).analysis.isSome := by
  have hcalm : t.Calm True := h.calm fun _ _ hc _ => hc
  have hcode : (t.moduleAt i).code? = (t.moduleAt i).file := by simp [ModuleRecord.code?, hnamespace, hnative]
  have hstory := hcalm.told i
  generalize t.of i = events at hstory
  cases hstory with
  | bound _ _ hscope hresults hanalysis => exact ⟨hscope, hresults, hanalysis⟩
  | skipped _ _ _ hskipped =>
    rw [← hcode, hskipped trivial] at hfile
    cases hfile
  | fresh hp => rw [hp] at hbound; cases hbound
  | begun hp => rw [hp] at hbound; cases hbound
  | given hp => rw [hp] at hbound; cases hbound
  | broken hp => rw [hp] at hbound; cases hbound
  | failed hp => rw [hp] at hbound; cases hbound

theorem sampleCircle_is_whole : (sampleCircle.moduleAt 2).progress = .bound ∧ (sampleCircle.moduleAt 2).scope.isSome ∧
    (sampleCircle.moduleAt 2).results.isSome ∧ (sampleCircle.moduleAt 2).analysis.isSome := by
  have hopened : Session Call.Careful sampleOpened := .opened _ rfl rfl
  have hmodules : Session Call.Careful sampleModules := .call _ (.call _ hopened (by decide +kernel)) (by decide +kernel)
  have hsession : Session Call.Careful sampleCircle := .call _ hmodules trivial
  have hbound : (sampleCircle.moduleAt 2).progress = .bound := by decide +kernel
  exact ⟨hbound, bound_modules_are_whole hsession hbound (by decide +kernel) (by decide +kernel) (by decide +kernel)⟩

-- A namespace package that is registered in full after it was bound stays without a scope.
example :
    let t := (sampleOpened.calling (.register { name := "a.b", source := sampleImporting "c" })).calling (.bind "a")
    let m := ((t.calling (.register { name := "a", source := sampleImporting "c", isPackage := true })).calling
      (.bind "a")).moduleAt 1
    m.progress = .bound ∧ m.file = some "a/__init__.py" ∧ m.isNamespace = false ∧ m.scope = none := by decide +kernel

end ScopeFlow
