import ScopeFlow.Proofs.Edits
import ScopeFlow.Proofs.TwinModules

/-!
# One run in two worlds

Binding a module touches the world around it only where it looks at other modules. So two setups that see the same of other
modules, each in a world of its own, run through the same states apart from the worlds (`Worlds.bindModule`), and what holds
between the store and the two worlds holds at the end if it is kept by each look at another module and does not depend on the
symbols in the store.

With one world this says what a run keeps (`Lasts.bindModule`): what a step of binding can do to the shape of a store is to open a
scope in one of three ways.
-/

namespace ScopeFlow.Bind

open Store

variable {ω ω' : Type}

/-- A state in another world. -/
def State.inWorld (s : State ω) (world : ω') : State ω' where
  store := s.store
  past := s.past
  world := world
  graph := s.graph
  current := s.current
  facts := s.facts
  diagnostics := s.diagnostics
  queue := s.queue
  typingNames := s.typingNames
  systemNames := s.systemNames
  typingSymbols := s.typingSymbols
  privates := s.privates
  all := s.all

/-- A way to see other modules. -/
abbrev View (ω : Type) := String → Store → ω → Except Fault (Option Exports) × Store × ω

/-- A setup, and the one that sees other modules in another way. -/
def Setup.twins (u : Setup ω) (view : View ω') : Twins ω ω' := ⟨u, u.file.rules, view⟩

/-- The setup that sees other modules in another way. -/
def Setup.seeing (u : Setup ω) (view : View ω') : Setup ω' := (u.twins view).right

/-- What holds of the store is kept by the ways in which a module opens scopes, whatever happens to symbols, and when flow
numbers are handed out. -/
structure Opens (builtins : Option Nat) (P : Store → Prop) : Prop where
  frame : ∀ {st st'}, P st → st.SameShape st' → st.nextFlowId ≤ st'.nextFlowId → P st'
  openScope : ∀ {st}, P st → ∀ type scope, type = .function ∨ type = .classBody →
    P (st.addScope { type := type, parent := st.climbTo (fun t => t != .classBody) st.scopes.size scope }).2
  openComprehension : ∀ {st}, P st → ∀ parent, P (st.addScope { type := .comprehension, parent := some parent }).2
  openModule : ∀ {st}, P st → ∀ type, P (st.addScope { type := type, parent := builtins }).2

/-- What holds between a store and two worlds is kept by binding: scopes are opened, and the same is seen of other modules. -/
structure Worlds (u : Setup ω) (view : View ω') (Q : Store → ω → ω' → Prop) : Prop where
  opens : ∀ w w', Opens u.builtins fun st => Q st w w'
  exports : ∀ {st w w'}, Q st w w' → ∀ path, (view path st w').1 = (u.exports path st w).1 ∧
    (view path st w').2.1 = (u.exports path st w).2.1 ∧
    Q (u.exports path st w).2.1 (u.exports path st w).2.2 (view path st w').2.2

/-- The second state is the first one in another world. Some nodes have their scope noted. -/
def Across (N : Nat → Prop) (Q : Store → ω → ω' → Prop) (s : State ω) (t : State ω') : Prop :=
  ∃ world, t = s.inWorld world ∧ Q s.store s.world world ∧ ∀ i, N i → (s.factsAt i).scope.isSome

namespace Worlds

variable {u : Setup ω} {view : View ω'} {Q : Store → ω → ω' → Prop} {N : Nat → Prop}

theorem flows : Flows (Across N Q) where
  look := by
    rintro s t ⟨world, rfl, _⟩
    exact ⟨.refl _, rfl, fun _ => rfl, fun _ => rfl, fun _ => ⟨rfl, rfl⟩, rfl, rfl, rfl, rfl, rfl, rfl⟩
  setCurrent := by
    rintro s t ⟨world, rfl, h⟩ ref
    exact ⟨world, rfl, h⟩
  addAntecedent := by
    rintro s t ⟨world, rfl, h⟩ label ref
    exact ⟨world, rfl, h⟩

theorem report_across (d : Diagnostic) : Mirrors (Across N Q) (report d) (report d) := by
  rintro s t ⟨world, rfl, h⟩
  exact .ok rfl ⟨world, rfl, h⟩

variable (H : Worlds u view Q)
include H

theorem newSymbol {s : State ω} {t : State ω'} (h : Across N Q s t) (scope : Nat) (name : String) (flags : SymbolFlags) :
    Meets (Across N Q) Eq ((Bind.newSymbol scope name flags).run s) ((Bind.newSymbol scope name flags).run t) := by
  obtain ⟨world, rfl, h⟩ := h
  have hshape : s.store.SameShape (s.store.adjustScope scope fun sc =>
      sc.setSymbol name { id := s.store.nextSymbolId, flags := flags }) := .adjustScope (fun _ => rfl) fun _ => rfl
  exact .ok rfl ⟨world, rfl, (H.opens _ _).frame h.1 ⟨hshape.size, hshape.type?, hshape.parent?⟩ le_rfl, h.2⟩

/-- Binding in two worlds leads from states that differ in their worlds to such states. -/
theorem plain : Plain (u.twins view) (Across N Q) where
  toFlows := flows
  sameId := by
    rintro s t ⟨world, rfl, _⟩ a b h
    exact h.eq
  stamped := by
    rintro s t ⟨world, rfl, _⟩ i
    rfl
  newNode := by
    rintro step s t ⟨world, rfl, h⟩
    exact .ok rfl ⟨world, rfl, (H.opens _ _).frame h.1 ⟨rfl, fun _ => rfl, fun _ => rfl⟩ (Int.le_add_one le_rfl), h.2⟩
  facts := by
    rintro s t ⟨world, rfl, h, hscoped⟩ node f hf
    refine ⟨world, rfl, h, fun i hi => ?_⟩
    rw [State.factsAt_modify]
    split
    · exact hf _ (hscoped i hi)
    · exact hscoped i hi
  notes := by
    rintro s t ⟨world, rfl, h⟩ _ _ _
    exact ⟨world, rfl, h⟩
  keep := by
    rintro s t ⟨world, rfl, h⟩ _ _
    exact ⟨world, rfl, h⟩
  setDeclaration := by
    rintro node place s t ⟨world, rfl, h, hscoped⟩
    refine .ok rfl ⟨world, rfl, h, fun i hi => ?_⟩
    rw [State.factsAt_modify]
    split <;> exact hscoped i hi
  queue := by
    rintro s t ⟨world, rfl, h⟩ queue
    exact ⟨world, rfl, h⟩
  reportError _ _ _ := report_across _
  reportRule _ _ _ _ _ := .ite (report_across _) (.pure rfl)
  openScope := by
    rintro ctx type htype s t ⟨world, rfl, h⟩
    exact .ok rfl ⟨world, rfl, (H.opens _ _).openScope h.1 type ctx.scope htype, h.2⟩
  openComprehension := by
    rintro parent s t ⟨world, rfl, h⟩
    exact .ok rfl ⟨world, rfl, (H.opens _ _).openComprehension h.1 parent, h.2⟩
  openModule := by
    rintro type s t ⟨world, rfl, h⟩
    exact .ok rfl ⟨world, rfl, (H.opens _ _).openModule h.1 type, h.2⟩
  newMember h scope name _ := H.newSymbol h scope name _
  newSymbol h scope name flags _ := H.newSymbol h scope name flags
  adjustSymbol := by
    rintro ref f _ s t ⟨world, rfl, h⟩
    exact .ok rfl ⟨world, rfl, (H.opens _ _).frame h.1 (.adjustScope (fun _ => rfl) fun _ => rfl) le_rfl, h.2⟩
  redirect := by
    rintro s t ⟨world, rfl, h⟩ scope name r
    refine ⟨world, rfl, (H.opens _ _).frame h.1 (.adjustScope ?_ ?_) le_rfl, h.2⟩ <;>
      intro sc <;> unfold Scope.redirect <;> split <;> rfl
  exports := by
    rintro path s t ⟨world, rfl, h, hscoped⟩
    obtain ⟨hanswer, hstore, hworlds⟩ := H.exports h path
    show Meets _ _ (lookUpExports u path s) (lookUpExports (u.seeing view) path (s.inWorld world))
    unfold lookUpExports
    rcases hx : u.exports path s.store s.world with ⟨answer, store₁, world₁⟩
    rcases hy : view path s.store world with ⟨answer', store₁', world₁'⟩
    simp only [hx, hy] at hanswer hstore hworlds
    subst hanswer hstore
    have hy' : (u.seeing view).exports path (s.inWorld world).store (s.inWorld world).world = _ := hy
    simp only [hy']
    cases answer' with
    | error fault => exact .error ⟨world₁', rfl, hworlds, hscoped⟩
    | ok exports => exact .ok rfl ⟨world₁', rfl, hworlds, hscoped⟩

/-- Binding a module in two worlds has the same outcome and leads to states that differ in their worlds. -/
theorem bindModule (m : Module) {st : Store} {w : ω} {w' : ω'} (h : Q st w w') :
    (ScopeFlow.bindModule (u.seeing view) m st w').1 = (ScopeFlow.bindModule u m st w).1 ∧
      Across (fun _ => False) Q (ScopeFlow.bindModule u m st w).2 (ScopeFlow.bindModule (u.seeing view) m st w').2 :=
  bindModule_mirrors H.plain.module m ⟨w', rfl, h, fun _ => False.elim⟩

end Worlds

/-! ## One world -/

/-- What holds of a store and the world is kept by binding. -/
structure Lasts (u : Setup ω) (P : Store → ω → Prop) : Prop where
  opens : ∀ w, Opens u.builtins fun st => P st w
  exports : ∀ {st w}, P st w → ∀ path, P (u.exports path st w).2.1 (u.exports path st w).2.2

/-- One world, twice. -/
theorem Lasts.worlds {u : Setup ω} {P : Store → ω → Prop} (H : Lasts u P) :
    Worlds u u.exports fun st w w' => w' = w ∧ P st w where
  opens w w' :=
    { frame := fun h hst hle => ⟨h.1, (H.opens w).frame h.2 hst hle⟩
      openScope := fun h type scope htype => ⟨h.1, (H.opens w).openScope h.2 type scope htype⟩
      openComprehension := fun h parent => ⟨h.1, (H.opens w).openComprehension h.2 parent⟩
      openModule := fun h type => ⟨h.1, (H.opens w).openModule h.2 type⟩ }
  exports := by
    rintro st w w' ⟨rfl, h⟩ path
    exact ⟨rfl, rfl, rfl, H.exports h path⟩

/-- What binding keeps holds in the state in which it ends, also if it fails. -/
theorem Lasts.bindModule {u : Setup ω} {P : Store → ω → Prop} (H : Lasts u P) (m : Module) {st : Store} {w : ω} (h : P st w) :
    P (ScopeFlow.bindModule u m st w).2.store (ScopeFlow.bindModule u m st w).2.world := by
  obtain ⟨_, _, _, ⟨_, h⟩, _⟩ := H.worlds.bindModule m ⟨rfl, h⟩
  exact h

theorem run_newScope_bind {α : Type} (type : ScopeType) (parent : Option Nat) (k : Nat → BindM ω α) (s : State ω) :
    (newScope type parent >>= k).run s = (k (s.store.addScope { type := type, parent := parent }).1).run
      { s with store := (s.store.addScope { type := type, parent := parent }).2, past := s.past.map (s.store :: ·) } := rfl

theorem run_setScope_bind {α : Type} (i scope : Nat) (k : Unit → BindM ω α) (s : State ω) :
    (setScope i scope >>= k).run s =
      (k ()).run { s with facts := s.facts.modify i fun f => { f with scope := some scope } } := rfl

/-- A module that has been bound has its scope noted at its root. -/
theorem bindModule_scoped {u : Setup ω} {m : Module} (hm : m.mark.index < u.outline.size) {store : Store} {world : ω}
    (hok : (ScopeFlow.bindModule u m store world).1.isOk = true) :
    ((ScopeFlow.bindModule u m store world).2.factsAt m.mark.index).scope.isSome := by
  have hset : ∀ s : State ω, s.facts.size = u.outline.size → ∀ scope : Nat,
      (State.factsAt { s with facts := s.facts.modify m.mark.index fun f => { f with scope := some scope } }
        m.mark.index).scope.isSome := by
    intro s hs scope
    rw [State.factsAt_modify, if_pos ⟨rfl, hs ▸ hm⟩]
    rfl
  have hlasts : Lasts u fun _ _ => True := ⟨fun _ => by constructor <;> intros <;> trivial, fun _ _ => trivial⟩
  have hmeets : Meets (Across (· = m.mark.index) fun _ w w' => w' = w ∧ True) Eq
      ((bindTree u m).run (State.initial u store world)) ((bindTree u m).run (State.initial u store world)) := by
    rw [bindTree_eq, run_newScope_bind, run_setScope_bind]
    refine bindInScope_mirrors hlasts.worlds.plain.module m _ ⟨_, rfl, ⟨rfl, trivial⟩, ?_⟩
    rintro _ rfl
    exact hset _ (by simp [State.initial]) _
  unfold ScopeFlow.bindModule at hok ⊢
  generalize (bindTree u m).run (State.initial u store world) = x at hok hmeets ⊢
  cases hmeets with
  | ok _ hs =>
    obtain ⟨_, _, _, hscoped⟩ := hs
    exact hscoped _ rfl
  | error _ => cases hok

end ScopeFlow.Bind
