import ScopeFlow.Proofs.FlowGraphs
import ScopeFlow.Proofs.Worlds

/-!
# The list of exported names

What a statement does to the list of exported names depends on the kind of the scope, on the list itself and, for
`mod.__all__`, on what `mod` was imported as. Neither the stamps of other nodes (`Restamped`) nor the binding of the name of
the list (`Beside`) have a part in it, so `__all__ += e` and `__all__.extend(e)` come to the same list (`extend_as_add`). They
differ in what they report: the call wants to add a name.
-/

namespace ScopeFlow.Bind

open Store NodeTree

variable {ω : Type} {α β : Type} {u : Setup ω} {ctx : Context} {D : Nat → Prop} {sc : Nat} {s s' t t' : State ω}

/-! ## Stamps that do not matter -/

/-- Facts that differ at most in the stamps of some nodes. -/
structure Stamps (D : Nat → Prop) (a b : Array NodeFacts) : Prop where
  size : b.size = a.size
  facts : ∀ i, ∃ r, b[i]?.getD {} = { a[i]?.getD {} with flow := r } ∧ (¬ D i → r = (a[i]?.getD {}).flow)

theorem getD_modify (a : Array NodeFacts) (node : Nat) (f : NodeFacts → NodeFacts) (i : Nat) :
    (a.modify node f)[i]?.getD {} = if i = node ∧ node < a.size then f (a[i]?.getD {}) else a[i]?.getD {} := by
  rw [Array.getElem?_modify]
  by_cases h : node = i
  · subst h
    by_cases hs : node < a.size <;> simp [hs]
  · simp [h, Ne.symm h]

namespace Stamps

variable {a b : Array NodeFacts}

theorem modify (h : Stamps D a b) (node : Nat) {f : NodeFacts → NodeFacts}
    (hf : ∀ x r, (¬ D node → r = x.flow) → ∃ r', f { x with flow := r } = { f x with flow := r' } ∧
      (¬ D node → r' = (f x).flow)) :
    Stamps D (a.modify node f) (b.modify node f) := by
  refine ⟨by simp [h.size], fun i => ?_⟩
  obtain ⟨r, hr, hsame⟩ := h.facts i
  simp only [getD_modify, h.size, hr]
  split
  · rename_i hi
    obtain ⟨rfl, _⟩ := hi
    exact hf _ r hsame
  · exact ⟨r, rfl, hsame⟩

/-- A change that does not touch the stamp. -/
theorem keep (h : Stamps D a b) (node : Nat) {f : NodeFacts → NodeFacts}
    (hf : ∀ x r, f { x with flow := r } = { f x with flow := r }) :
    Stamps D (a.modify node f) (b.modify node f) :=
  h.modify node fun x r hr => ⟨r, hf x r, fun hn => (hr hn).trans (congrArg NodeFacts.flow (hf x x.flow)).symm⟩

end Stamps

/-- States at the scope of a module that differ at most in the stamps of some nodes. -/
def Restamped (D : Nat → Prop) (sc : Nat) (s t : State ω) : Prop :=
  ∃ facts, t = { s with facts := facts } ∧ Stamps D s.facts facts ∧ s.store.type? sc = some .moduleBody

theorem Restamped.flows : Flows (Restamped D sc : State ω → State ω → Prop) where
  look := by
    rintro s t ⟨facts, rfl, hf, _⟩
    refine ⟨.refl _, rfl, fun _ => rfl, fun _ => rfl, fun i => ?_, rfl, rfl, rfl, rfl, rfl, rfl⟩
    obtain ⟨r, hr, _⟩ := hf.facts i
    constructor <;> simp only [State.factsAt, hr]
  setCurrent := by
    rintro s t ⟨facts, rfl, hf, ht⟩ ref
    exact ⟨facts, rfl, hf, ht⟩
  addAntecedent := by
    rintro s t ⟨facts, rfl, hf, ht⟩ label ref
    exact ⟨facts, rfl, hf, ht⟩

theorem addKey_restamped (owner : Nat) (key : String) :
    Mirrors (Restamped D sc : State ω → State ω → Prop) (addKey owner key) (addKey owner key) := by
  refine .ofModify fun s t h => ?_
  obtain ⟨facts, rfl, hf, ht⟩ := h
  refine ⟨_, rfl, ?_, ht⟩
  exact hf.keep owner (f := fun f => { f with keys := if f.keys.contains key then f.keys else f.keys ++ [key] }) fun _ _ => rfl

theorem report_restamped (d : Diagnostic) : Mirrors (Restamped D sc : State ω → State ω → Prop) (report d) (report d) := by
  rintro s t ⟨facts, rfl, hf, ht⟩
  exact .ok rfl ⟨facts, rfl, hf, ht⟩

theorem newNode_restamped (step : FlowStep) :
    Mirrors (Restamped D sc : State ω → State ω → Prop) (newNode step) (newNode step) := by
  rintro s t ⟨facts, rfl, hf, ht⟩
  exact .ok rfl ⟨facts, rfl, hf, ht⟩

theorem newScope_restamped (type : ScopeType) (parent : Option Nat) :
    Mirrors (Restamped D sc : State ω → State ω → Prop) (newScope type parent) (newScope type parent) := by
  rintro s t ⟨facts, rfl, hf, ht⟩
  exact .ok rfl ⟨facts, rfl, hf, (Grows.addScope _).type? ht⟩

theorem newSymbol_restamped (scope : Nat) (name : String) (flags : SymbolFlags) :
    Mirrors (Restamped D sc : State ω → State ω → Prop) (newSymbol scope name flags) (newSymbol scope name flags) := by
  rintro s t ⟨facts, rfl, hf, ht⟩
  have hshape : s.store.SameShape (s.store.adjustScope scope fun sc =>
      sc.setSymbol name { id := s.store.nextSymbolId, flags := flags }) := .adjustScope (fun _ => rfl) fun _ => rfl
  exact .ok rfl ⟨facts, rfl, hf, (hshape.type? sc).trans ht⟩

/-- Steps of binding do not depend on the stamps of nodes that they do not come to, and leave the scope of the module one. -/
theorem restamped_mirror (hu : ∀ path (st : Store) w, st.Extends (u.exports path st w).2.1) :
    Mirror (u.twins u.exports) (fun n => ¬ D n) (Restamped D sc) where
  toFlows := Restamped.flows
  newNode step _ := newNode_restamped step
  facts := by
    rintro s t ⟨facts, rfl, hf, ht⟩ node f hfun
    exact ⟨_, rfl, hf.keep node fun x => (hfun x).1, ht⟩
  stamped := by
    rintro s t ⟨facts, rfl, hf, _⟩ node hn
    obtain ⟨r, hr, hsame⟩ := hf.facts node
    exact (congrArg NodeFacts.flow hr).trans (hsame hn)
  stampWith := by
    rintro s t ⟨facts, rfl, hf, ht⟩ node ref
    exact ⟨_, rfl, hf.modify node (f := fun f => { f with flow := some ref }) fun _ _ _ => ⟨_, rfl, fun _ => rfl⟩, ht⟩
  notes := by
    rintro s t ⟨facts, rfl, hf, ht⟩ _ _ _
    exact ⟨facts, rfl, hf, ht⟩
  keep := by
    rintro s t ⟨facts, rfl, hf, ht⟩ _ _
    exact ⟨facts, rfl, hf, ht⟩
  setDeclaration node place := .ofModify <| by
    rintro s t ⟨facts, rfl, hf, ht⟩
    exact ⟨_, rfl, hf.keep node (f := fun f => { f with declaration := some place }) fun _ _ => rfl, ht⟩
  queue := by
    rintro s t ⟨facts, rfl, hf, ht⟩ queue
    exact ⟨facts, rfl, hf, ht⟩
  reportError _ _ _ := report_restamped _
  reportRule _ _ _ _ _ := .ite (report_restamped _) (.pure rfl)
  openScope ctx type _ := .seq (nonClassScope_mirrors Restamped.flows.toLooks ctx) fun _ => newScope_restamped type _
  openComprehension parent := newScope_restamped _ _
  newMember h scope name _ := newSymbol_restamped scope name _ h
  newSymbol h scope name flags _ := newSymbol_restamped scope name flags h
  adjustSymbol := by
    rintro ref f _ s t ⟨facts, rfl, hf, ht⟩
    have hshape : s.store.SameShape (s.store.adjustSymbol ref.scope ref.name f) := .adjustScope (fun _ => rfl) fun _ => rfl
    exact .ok rfl ⟨facts, rfl, hf, (hshape.type? sc).trans ht⟩
  exports := by
    rintro path s t ⟨facts, rfl, hf, ht⟩
    have htype := (hu path s.store s.world).grows.type? ht
    show Meets _ _ (lookUpExports u path s) (lookUpExports u path { s with facts := facts })
    unfold lookUpExports
    dsimp only
    generalize u.exports path s.store s.world = x at htype ⊢
    obtain ⟨_ | _, _, _⟩ := x
    · exact .error ⟨facts, rfl, hf, htype⟩
    · exact .ok rfl ⟨facts, rfl, hf, htype⟩
  takeOver := by
    rintro s t ⟨facts, rfl, h⟩ a a' b b' ha hb
    rw [← SameId.eq ha, ← SameId.eq hb]
    exact advance_of_newNode Restamped.flows (fun _ => newNode_restamped _) ⟨facts, rfl, h⟩
  assignKey := by
    rintro s t ⟨facts, rfl, h⟩ ctx target target' hrel node key raises unbound
    obtain rfl : target = target' := by
      cases hrel with
      | none => rfl
      | some hab => rw [SameId.eq hab]
    have hF : Flows (Restamped D sc : State ω → State ω → Prop) := Restamped.flows
    refine Alike.seq (isDead_mirrors hF) (fun _ => .ite (.pure rfl) (.seq (current_mirrors hF) fun _ =>
      .seq (newNode_restamped _) fun ref => ?_)) ⟨facts, rfl, h⟩
    exact .seq (addKey_restamped _ key) fun _ => .when (linkRaise_mirrors hF ctx ref) fun _ => setCurrent_mirrors hF ref
  conditional _ := conditional_mirrors Restamped.flows (addKey_restamped _) fun _ _ _ _ => newNode_restamped _
  redirect := by
    rintro s t ⟨facts, rfl, hf, ht⟩ scope name r
    exact ⟨facts, rfl, hf, (Grows.redirect r).type? ht⟩

/-! ## The name of the list -/

/-- The first import among the declarations of a symbol. -/
def firstImport (s : Symbol) : Option (Declaration × AliasInfo) :=
  s.declarations.findSome? fun d => d.alias?.map fun a => (d, a)

theorem firstImport_declare (s : Symbol) {d : Declaration} (hd : d.alias? = none) :
    firstImport (s.declare d) = firstImport s := by
  have hmerge : ∀ e : Declaration, (e.merge d).alias?.map (fun a => (e.merge d, a)) = e.alias?.map fun a => (e, a) := by
    intro e
    unfold Declaration.merge Declaration.alias?
    cases he : e.info <;> cases hi : d.info <;> simp [he]
  have hdrop : ∀ e : Declaration, e.dropAliasName.alias?.map (fun a => (e.dropAliasName, a)) = e.alias?.map fun a => (e, a) := by
    intro e
    obtain ⟨_, _, _, _, info⟩ := e
    cases info <;> rfl
  have hmerged : ∀ ds : List Declaration, (Symbol.mergeInto d ds).findSome? (fun e => e.alias?.map fun a => (e, a)) =
      ds.findSome? fun e => e.alias?.map fun a => (e, a) := by
    intro ds
    induction ds with
    | nil => rfl
    | cons e ds ih =>
      unfold Symbol.mergeInto
      split
      · simp only [List.findSome?_cons, hmerge]
      · simp only [List.findSome?_cons, ih]
  unfold Symbol.declare firstImport
  split
  · exact hmerged _
  · split
    · rename_i hempty
      simp [List.isEmpty_iff.1 hempty, hd]
    · simp [List.findSome?_map, Function.comp_def, hdrop, List.findSome?_append, hd]

/-- What a state holds beside the flow graph and the names. -/
def State.aside (s : State ω) : Option (List String) × List Diagnostic × List Task × ω := (s.all, s.diagnostics, s.queue, s.world)

/-- A state beside another one: the list of exported names, the reports and what names of the scope were imported as are the
same. -/
structure Beside (sc : Nat) (s t : State ω) : Prop where
  aside : t.aside = s.aside
  type : t.store.type? sc = s.store.type? sc
  imports : ∀ name, (t.store.symbol? sc name).bind firstImport = (s.store.symbol? sc name).bind firstImport

namespace Beside

theorem trans (h : Beside sc s t) (h' : Beside sc t t') : Beside sc s t' :=
  ⟨h'.aside.trans h.aside, h'.type.trans h.type, fun name => (h'.imports name).trans (h.imports name)⟩

theorem symm (h : Beside sc s t) : Beside sc t s := ⟨h.aside.symm, h.type.symm, fun name => (h.imports name).symm⟩

theorem all (h : Beside sc s t) : t.all = s.all := congrArg Prod.fst h.aside

theorem diagnostics (h : Beside sc s t) : t.diagnostics = s.diagnostics := congrArg (·.2.1) h.aside

theorem world (h : Beside sc s t) : t.world = s.world := congrArg (·.2.2.2) h.aside

end Beside

instance : IsPreorder (State ω) (Beside sc) where
  refl _ := ⟨rfl, rfl, fun _ => rfl⟩
  trans _ _ _ := .trans

/-- Steps that extend the flow graph lead to a state beside the one they start in. -/
theorem beside_flowing : Flowing (Beside sc : State ω → State ω → Prop) where
  newNode step s x s' h := by
    obtain ⟨_, rfl⟩ := newNode_ok.1 h
    exact ⟨rfl, rfl, fun _ => rfl⟩
  modifyFacts _ _ := .ofModify fun _ => ⟨rfl, rfl, fun _ => rfl⟩
  setCurrent _ := .ofModify fun _ => ⟨rfl, rfl, fun _ => rfl⟩
  addAntecedent _ _ _ := ⟨rfl, rfl, fun _ => rfl⟩

/-- A step that leads to a state beside the one it starts in. -/
abbrev Bypasses (sc : Nat) (f : BindM ω α) : Prop := Along (Beside sc) f

namespace Bypasses

theorem adjustSymbol (ref : SymbolRef) {f : Symbol → Symbol} (hf : ∀ s, firstImport (f s) = firstImport s) :
    Bypasses sc (Bind.adjustSymbol ref f : BindM ω Unit) := by
  refine .ofModify fun s => ⟨rfl, ?_, fun name => ?_⟩
  · exact (Store.SameShape.adjustScope (fun _ => rfl) fun _ =>
      rfl : s.store.SameShape (s.store.adjustSymbol ref.scope ref.name f)).type? sc
  · show ((s.store.adjustSymbol ref.scope ref.name f).symbol? sc name).bind firstImport = _
    rw [symbol?_adjustSymbol]
    split
    · cases s.store.symbol? sc name with
      | none => rfl
      | some symbol => exact hf symbol
    · rfl

theorem hidePrivate (u : Setup ω) (ctx : Context) (ref : SymbolRef) : Bypasses sc (Bind.hidePrivate u ctx ref) :=
  .ite (.ite (adjustSymbol ref fun _ => rfl) (.bind (.bind .get fun _ => .pure _) fun _ =>
    .ite (.ofModify fun _ => ⟨rfl, rfl, fun _ => rfl⟩) (.pure _))) (.pure _)

end Bypasses

theorem newSymbol_beside {scope : Nat} {name : String} {flags : SymbolFlags} {ref : SymbolRef}
    (hnone : s.store.symbol? scope name = none) (h : (newSymbol scope name flags).run s = .ok ref s') : Beside sc s s' := by
  obtain ⟨_, rfl⟩ := modifyGet_ok.1 h
  refine ⟨rfl, ?_, fun other => ?_⟩
  · exact (Store.SameShape.adjustScope (fun _ => rfl) fun _ => rfl : s.store.SameShape (s.store.adjustScope scope fun sc =>
      sc.setSymbol name { id := s.store.nextSymbolId, flags := flags })).type? sc
  · show ((s.store.adjustScope scope fun sc => sc.setSymbol name { id := s.store.nextSymbolId, flags := flags }).symbol?
      sc other).bind
      firstImport = _
    rw [symbol?_setSymbol]
    split
    · rename_i heq
      rw [← heq.1, ← heq.2, hnone]
      cases s.store.scope? scope <;> rfl
    · rfl

/-- Binding a name adds at most a symbol that has no declarations. -/
theorem bindName_bypasses (u : Setup ω) (ctx : Context) (scope : Nat) (name : String) :
    Bypasses sc (bindName u ctx scope name) := by
  intro s x s' h
  simp only [bindName] at h
  obtain ⟨_, _, hget, h⟩ := bind_ok.1 h
  obtain ⟨rfl, rfl⟩ := get_ok.1 hget
  split at h
  · have hfound : ∀ start, Bypasses sc (do
        return ⟨(← lookUp start name).map fun found => ⟨found.scope, name⟩, false⟩ : BindM ω Binding) := fun start =>
      (Along.consult _).bind fun _ => .pure _
    split at h
    · obtain ⟨start, t, hstart, h⟩ := bind_ok.1 h
      have hbeside : Beside sc s t := Along.pure _ hstart
      cases start with
      | none => exact hbeside.trans (Along.pure _ h)
      | some start => exact hbeside.trans (hfound start h)
    · obtain ⟨start, t, hstart, h⟩ := bind_ok.1 h
      have hbeside : Beside sc s t := ((Along.consult _).bind fun _ => .pure _) hstart
      cases start with
      | none => exact hbeside.trans (Along.pure _ h)
      | some start => exact hbeside.trans (hfound start h)
  · split at h
    · exact Along.pure _ h
    · rename_i hnone
      obtain ⟨ref, t, hadd, h⟩ := bind_ok.1 h
      obtain ⟨ref', t', hnew, hrest⟩ := bind_ok.1 hadd
      obtain ⟨_, _, hget, hrest⟩ := bind_ok.1 hrest
      obtain ⟨rfl, rfl⟩ := get_ok.1 hget
      have hhide : Bypasses sc (do hidePrivate u ctx ref'; return ref') := (Bypasses.hidePrivate u ctx ref').bind fun _ => .pure _
      refine ((newSymbol_beside hnone hnew).trans ?_).trans (Along.pure _ h)
      dsimp only at hrest
      split at hrest
      · split at hrest
        · exact ((beside_flowing.advance _).bind fun _ => hhide) hrest
        · exact hhide hrest
      · exact hhide hrest

theorem bindTarget_bypasses (u : Setup ω) (ctx : Context) (m : Mark) (id : String) :
    Bypasses sc (bindTarget u ctx (.name m id)) := by
  rw [bindTarget]
  exact (bindName_bypasses u ctx ctx.scope id).bind fun _ => .pure _

theorem inferVariable_bypasses (u : Setup ω) (ctx : Context) (source : Nat) (maybeAlias : Bool) (m : Mark) (id : String) :
    Bypasses sc (inferVariable u ctx source maybeAlias (.name m id)) := by
  rw [inferVariable]
  refine (Along.consult _).bind fun found => ?_
  cases found with
  | none => exact .pure _
  | some found => exact Bypasses.adjustSymbol _ fun s => firstImport_declare s rfl

/-- What is done for the name of a target behind the value of an augmented assignment. -/
theorem assigned_bypasses (u : Setup ω) (ctx : Context) (source : Nat) (m : Mark) (id : String) :
    Bypasses sc (do
      discard (bindTarget u ctx (.name m id))
      inferVariable u ctx source false (.name m id)
      assignTarget ctx false (.name m id)) := by
  have hassign : Bypasses sc (assignTarget ctx false (.name m id) : BindM ω Unit) := by
    rw [assignTarget, assignReference]
    exact beside_flowing.assign ctx m.index (some id) (some id) false true false
  exact (bindTarget_bypasses u ctx m id).discard.bind fun _ => (inferVariable_bypasses u ctx source false m id).bind fun _ =>
    hassign

/-! ## Adding names -/

/-- Whether a diagnostic reports an operation on the list that is not followed. -/
def isWarning (d : Diagnostic) : Bool := d.key = .unsupportedDunderAllOperation

/-- How many operations on the list have been reported. -/
def State.warnings (s : State ω) : Nat := s.diagnostics.countP isWarning

/-- The state behind the report of an operation on the list. -/
def State.warned (u : Setup ω) (mark : Mark) (s : State ω) : State ω :=
  if u.file.rules.isEnabled .unsupportedDunderAll then
    { s with
      diagnostics := s.diagnostics ++ [{
        key := .unsupportedDunderAllOperation
        text := MessageKey.unsupportedDunderAllOperation.about ""
        range := mark.range
        rule := some Rule.unsupportedDunderAll.name }] }
  else s

theorem run_reportUnsupportedAll (u : Setup ω) (mark : Mark) (s : State ω) :
    (reportUnsupportedAll u mark).run s = .ok () (s.warned u mark) := by
  unfold reportUnsupportedAll reportRule State.warned
  split <;> rfl

theorem warnings_warned (u : Setup ω) (mark : Mark) (s : State ω) :
    (s.warned u mark).warnings = s.warnings + if u.file.rules.isEnabled .unsupportedDunderAll then 1 else 0 := by
  unfold State.warned State.warnings
  split <;> simp [isWarning]

@[simp] theorem all_warned (u : Setup ω) (mark : Mark) (s : State ω) : (s.warned u mark).all = s.all := by
  unfold State.warned
  split <;> rfl

/-- What other modules list does not depend on the store. -/
def Setup.ListsFixed (u : Setup ω) : Prop := ∀ path st st' w,
  (u.exports path st' w).1.map (·.bind Exports.all) = (u.exports path st w).1.map (·.bind Exports.all)

/-- The path of the module that an alias leads to. -/
def importPath (found : Option (Declaration × AliasInfo)) : Option String := found.bind fun p => aliasPath p.1 p.2

/-- The list of the module that a name was imported as. -/
def importedList (u : Setup ω) (found : Option (Declaration × AliasInfo)) : BindM ω (Option (List String)) :=
  (importPath found).elim (pure none) fun path => (·.bind Exports.all) <$> lookUpExports u path

theorem run_importedAll (u : Setup ω) (ctx : Context) (name : String) (s : State ω) :
    (importedAll u ctx name).run s = (importedList u ((s.store.symbol? ctx.scope name).bind firstImport)).run s := by
  have hread : ∀ k : Option Symbol → BindM ω (Option (List String)),
      (symbolIn ctx.scope name >>= k).run s = (k (s.store.symbol? ctx.scope name)).run s := fun _ => rfl
  unfold importedAll
  rw [hread]
  cases s.store.symbol? ctx.scope name with
  | none => rfl
  | some symbol =>
    show _ = (importedList u (firstImport symbol)).run s
    unfold importedList importPath firstImport
    dsimp only
    cases symbol.declarations.findSome? fun d => d.alias?.map fun a => (d, a) with
    | none => rfl
    | some p =>
      obtain ⟨d, a⟩ := p
      dsimp only [Option.bind_some]
      cases aliasPath d a with
      | none => rfl
      | some path => exact congrArg (EStateM.run · s) (bind_pure_comp _ _)

/-- What is listed by the module that a name was imported as is the same from states beside each other. -/
theorem importedAll_meets (hu : u.ListsFixed) (hb : Beside ctx.scope t t') (name : String) :
    Meets (fun a b => b.all = a.all ∧ b.diagnostics = a.diagnostics)
      (fun x y => y = x ∧ ∀ names, x = some names →
        ∃ path, importPath ((t.store.symbol? ctx.scope name).bind firstImport) = some path ∧
        ∃ st w exports, (u.exports path st w).1 = .ok (some exports) ∧ exports.all = some names)
      ((importedAll u ctx name).run t) ((importedAll u ctx name).run t') := by
  rw [run_importedAll, run_importedAll, hb.imports name]
  unfold importedList
  cases importPath ((t.store.symbol? ctx.scope name).bind firstImport) with
  | none => exact .ok ⟨rfl, fun _ h => by cases h⟩ ⟨hb.all, hb.diagnostics⟩
  | some path =>
    have hlist := hu path t.store t'.store t.world
    show Meets _ _ (EStateM.map _ (lookUpExports u path) t) (EStateM.map _ (lookUpExports u path) t')
    unfold EStateM.map lookUpExports
    rw [hb.world]
    rcases hx : u.exports path t.store t.world with ⟨_ | x, store, world⟩ <;>
      rcases hy : u.exports path t'.store t.world with ⟨_ | y, store', world'⟩ <;>
        simp only [hx, hy, Except.map, Except.error.injEq, Except.ok.injEq, reduceCtorEq] at hlist
    · subst hlist
      exact .error ⟨hb.all, hb.diagnostics⟩
    · refine .ok ⟨hlist, fun names hnames => ?_⟩ ⟨hb.all, hb.diagnostics⟩
      obtain ⟨exports, rfl, hall⟩ := Option.bind_eq_some_iff.1 hnames
      exact ⟨path, rfl, t.store, t.world, exports, by rw [hx], hall⟩

section

variable (ht : s.store.type? ctx.scope = some .moduleBody)
include ht

theorem run_followAdd_list (u : Setup ω) (m n l : Mark) (es : List Expr) :
    (followAdd u ctx m (.name n exportListName) .add (.list l es)).run s =
      .ok () { s with all := s.all.map (· ++ literalsOf es) } := by
  unfold followAdd
  show EStateM.run (if (true && ((s.store.type? ctx.scope).getD .builtin == .moduleBody)) = true then _ else _) s = _
  rw [ht]
  rfl

theorem run_followAdd_member (u : Setup ω) (m n l k : Mark) (id : String) :
    (followAdd u ctx m (.name n exportListName) .add (.member l (.name k id) exportListName)).run s =
      (importedAll u ctx id >>= fun names =>
        names.elim (reportUnsupportedAll u m) fun names => adjustAll (· ++ names)).run s := by
  unfold followAdd
  show EStateM.run (if (true && ((s.store.type? ctx.scope).getD .builtin == .moduleBody)) = true then _ else _) s = _
  rw [ht]
  show EStateM.run (importedAll u ctx id >>= _) s = _
  congr 2
  funext names
  cases names <;> rfl

theorem run_followCall (u : Setup ω) (m b n : Mark) (method : String)
    (args : List Expr) : (followCall u ctx m (.member b (.name n exportListName) method) args).run s =
      (followAllCall u ctx method args >>= fun isFollowed => if isFollowed then pure () else reportUnsupportedAll u m).run s := by
  unfold followCall
  show EStateM.run (if (true && ((s.store.type? ctx.scope).getD .builtin == .moduleBody)) = true then _ else _) s = _
  rw [ht]
  rfl

theorem run_followCall_list (u : Setup ω) (m b n l : Mark) (es : List Expr) :
    (followCall u ctx m (.member b (.name n exportListName) "extend") [.list l es]).run s =
      .ok () (if literalsOf es = [] then State.warned u m { s with all := s.all.map (· ++ literalsOf es) }
        else { s with all := s.all.map (· ++ literalsOf es) }) := by
  rw [run_followCall ht]
  show EStateM.run (if (es.any fun e => e.stringLiteral?.isSome) = true then _ else _)
    { s with all := s.all.map (· ++ literalsOf es) } = _
  have hany : (es.any fun e => e.stringLiteral?.isSome) = true ↔ ¬ literalsOf es = [] := by
    simp [literalsOf, List.filterMap_eq_nil_iff, Option.isSome_iff_ne_none]
  by_cases hes : literalsOf es = []
  · rw [if_neg (fun h => hany.1 h hes), if_pos hes, run_reportUnsupportedAll]
  · rw [if_pos (hany.2 hes), if_neg hes]
    rfl

theorem run_followCall_member (u : Setup ω) (m b n l k : Mark) (id : String) :
    (followCall u ctx m (.member b (.name n exportListName) "extend") [.member l (.name k id) exportListName]).run s =
      (importedAll u ctx id >>= fun names =>
        if names.getD [] = [] then reportUnsupportedAll u m else adjustAll (· ++ names.getD [])).run s := by
  rw [run_followCall ht]
  show EStateM.run ((importedAll u ctx id >>= _) >>= _) s = _
  rw [bind_assoc]
  congr 2
  funext names
  rcases names with _ | ⟨_ | ⟨name, names⟩⟩ <;> rfl

end

/-- Whether an expression is a list display or the list of another module. -/
def isListOperand : Expr → Bool
  | .list .. => true
  | .member _ (.name ..) attr => attr == exportListName
  | _ => false

/-- Whether an expression that names are taken from has some: a list display has a literal, and the module that a name of the
scope was imported as does not list nothing. -/
def Setup.Offers (u : Setup ω) (st : Store) (scope : Nat) : Expr → Prop
  | .list _ elements => literalsOf elements ≠ []
  | .member _ (.name _ id) _ => ∀ path, importPath ((st.symbol? scope id).bind firstImport) = some path →
      ∀ st w exports, (u.exports path st w).1 = .ok (some exports) → exports.all ≠ some []
  | _ => True

/-- How a state behind a call that adds names compares with one behind an assignment that adds them. -/
structure Compares (offers : Prop) (t t' : State ω) : Prop where
  all : t'.all = t.all
  warnings : t.warnings ≤ t'.warnings
  offers : offers → t'.warnings = t.warnings

theorem Compares.ofEq {offers : Prop} (hall : t'.all = t.all) (hw : t'.warnings = t.warnings) : Compares offers t t' :=
  ⟨hall, hw.ge, fun _ => hw⟩

theorem follow_compares (hu : u.ListsFixed) (hb : Beside ctx.scope t t') (ht : t.store.type? ctx.scope = some .moduleBody)
    {e : Expr} (he : isListOperand e = true) (m m' n b a : Mark) :
    Meets (Compares (u.Offers t.store ctx.scope e)) Eq ((followAdd u ctx m (.name n exportListName) .add e).run t)
      ((followCall u ctx m' (.member b (.name a exportListName) "extend") [e]).run t') := by
  have ht' := hb.type.trans ht
  have hwarnings : t'.warnings = t.warnings := congrArg (List.countP isWarning) hb.diagnostics
  unfold isListOperand at he
  split at he
  · rename_i l es
    rw [run_followAdd_list ht, run_followCall_list ht']
    by_cases hes : literalsOf es = []
    · rw [if_pos hes]
      refine .ok rfl ⟨by simp [hb.all], ?_, fun h => absurd hes h⟩
      rw [warnings_warned]
      exact Nat.le_trans hwarnings.ge (Nat.le_add_right _ _)
    · rw [if_neg hes]
      exact .ok rfl (.ofEq (by simp [hb.all]) hwarnings)
  · rename_i l k id attr
    obtain rfl := eq_of_beq he
    rw [run_followAdd_member ht, run_followCall_member ht']
    refine (importedAll_meets hu hb id).andThen (fun x y h => .ofEq h.1 (congrArg (List.countP isWarning) h.2)) ?_
    rintro _ names x y ⟨rfl, hseen⟩ ⟨hall, hdiagnostics⟩
    have hxy : y.warnings = x.warnings := congrArg (List.countP isWarning) hdiagnostics
    rcases names with _ | ⟨_ | ⟨name, names⟩⟩
    · show Meets _ _ ((reportUnsupportedAll u m).run x) ((reportUnsupportedAll u m').run y)
      rw [run_reportUnsupportedAll, run_reportUnsupportedAll]
      exact .ok rfl (.ofEq (by simp [hall]) (by rw [warnings_warned, warnings_warned, hxy]))
    · show Meets _ _ ((adjustAll (· ++ [])).run x) ((reportUnsupportedAll u m').run y)
      rw [run_reportUnsupportedAll]
      refine .ok rfl ⟨by simp [hall], ?_, fun hoffers => ?_⟩
      · rw [warnings_warned]
        exact Nat.le_trans hxy.ge (Nat.le_add_right _ _)
      · obtain ⟨path, hpath, st, w, exports, hexports, hempty⟩ := hseen [] rfl
        exact absurd hempty (hoffers path hpath st w exports hexports)
    · exact .ok rfl (.ofEq (by simp [hall]) hxy)
  · cases he

/-- Whether an operand offers names depends on the imports of the scope only. -/
theorem Setup.Offers.congr {e : Expr} {st st' : Store} (h : u.Offers st sc e)
    (himports : ∀ name, (st'.symbol? sc name).bind firstImport = (st.symbol? sc name).bind firstImport) : u.Offers st' sc e := by
  unfold Setup.Offers at h ⊢
  split
  · exact h
  · simpa only [himports] using h
  · trivial

theorem Restamped.stamped (hs : s.store.type? sc = some .moduleBody) (n b a : Nat) (ref : FlowRef) : Restamped (· ∈ [n, b, a]) sc
    { s with facts := s.facts.modify n fun f => { f with flow := some ref } }
    { s with facts := (s.facts.modify b fun f => { f with flow := some ref }).modify a fun f =>
      { f with flow := some ref } } := by
  refine ⟨_, rfl, ⟨by simp, fun i => ?_⟩, hs⟩
  simp only [getD_modify, Array.size_modify]
  split_ifs <;> exact ⟨_, rfl, by grind⟩

theorem Restamped.beside (h : Restamped D sc s t) : Beside sc s t := by
  obtain ⟨facts, rfl, _⟩ := h
  exact ⟨rfl, rfl, fun _ => rfl⟩

/-- A step that does not fail. -/
def Succeeds (f : BindM ω α) : Prop := ∀ s, ∃ x s', f.run s = .ok x s'

theorem Succeeds.bind {f : BindM ω α} {g : α → BindM ω β} (hf : Succeeds f) (hg : ∀ x, Succeeds (g x)) : Succeeds (f >>= g) := by
  intro s
  obtain ⟨x, t, h⟩ := hf s
  obtain ⟨y, s', h'⟩ := hg x t
  exact ⟨y, s', bind_ok.2 ⟨x, t, h, h'⟩⟩

theorem Succeeds.unlessDead {f : BindM ω Unit} (hf : Succeeds f) : Succeeds (do unless ← isDead do f : BindM ω Unit) := by
  refine Succeeds.bind (fun s => ⟨_, _, rfl⟩) fun dead => ?_
  split
  · exact fun s => ⟨_, _, rfl⟩
  · exact hf

/-- Calls always lead on. -/
theorem call_succeeds (ctx : Context) (node : Nat) (function : Expr) : Succeeds (call ctx node function : BindM ω Unit) := by
  have hcurrent : Succeeds (current : BindM ω FlowRef) := fun s => ⟨_, _, rfl⟩
  have hlinks : ∀ (labels : List FlowRef) (ref : FlowRef), Succeeds (labels.forM fun label => link label ref : BindM ω Unit) := by
    intro labels ref
    induction labels with
    | nil => exact fun s => ⟨_, _, rfl⟩
    | cons label labels ih => exact .bind (.unlessDead fun s => ⟨_, _, rfl⟩) fun _ => ih
  exact .bind (.unlessDead (hcurrent.bind fun _ => .bind (fun s => ⟨_, _, rfl⟩) fun _ s => ⟨_, _, rfl⟩)) fun _ =>
    .bind (fun s => ⟨_, _, rfl⟩) fun _ => .unlessDead (hcurrent.bind fun _ => hlinks _ _)

theorem around_value (u : Setup ω) (ctx : Context) (e : Expr) (parts : BindM ω Unit) : around u ctx .value e parts = parts := by
  show (pure () >>= fun _ => parts >>= fun _ => pure ()) = parts
  rw [pure_bind, bind_pure]

theorem run_visitName (u : Setup ω) (ctx : Context) (m : Mark) (id : String) (s : State ω) :
    (visitExpr u ctx .value (.name m id)).run s =
      .ok () { s with facts := s.facts.modify m.index fun f => { f with flow := some s.current } } := by
  rw [visitExpr]
  rfl

/-- Walking the list of another module leaves the store alone. -/
theorem store_visitMember {m k : Mark} {id attr : String}
    (h : (visitExpr u ctx .value (.member m (.name k id) attr)).run s = .ok () t) : t.store = s.store := by
  rw [visitExpr, around_value] at h
  obtain ⟨_, t₁, h₁, h₂⟩ := bind_ok.1 h
  cases h₁
  rw [run_visitName] at h₂
  cases h₂
  rfl

/-- A method call on the list walks its argument between stamps and then is followed. -/
theorem run_visitCall (u : Setup ω) (ctx : Context) (c b a : Mark) (method : String) (args : List Expr) (s : State ω) :
    (visitExpr u ctx .value (.call c (.member b (.name a exportListName) method) args [])).run s =
      (do
        visitExprs u ctx .value args
        call ctx c.index (.member b (.name a exportListName) method)
        followCall u ctx c (.member b (.name a exportListName) method) args).run
          { s with facts := (s.facts.modify b.index fun f => { f with flow := some s.current }).modify a.index fun f =>
            { f with flow := some s.current } } := by
  rw [visitExpr, visitExpr, visitExpr, visitKeywords, around_value, around_value, around_value]
  rfl

theorem meets_of_ok {R : State ω → State ω → Prop} {V : α → β → Prop} {x : EStateM.Result Fault (State ω) α}
    {y : EStateM.Result Fault (State ω) β} {a : α} (h : Meets R V x y) (hx : x = .ok a s) : ∃ b t, y = .ok b t ∧
      V a b ∧ R s t := by
  subst hx
  cases h with
  | ok hv hr => exact ⟨_, _, rfl, hv, hr⟩

/-- `__all__ += e` and `__all__.extend(e)` come to the same list. The call reports whatever the assignment reports, and no
more than that if there is a name to add; where there is none, only the assignment is taken for what it is. -/
theorem extend_as_add (hu : u.ListsFixed) (hextends : ∀ path (st : Store) w, st.Extends (u.exports path st w).2.1)
    (hs : s.store.type? ctx.scope = some .moduleBody) {e : Expr} (he : isListOperand e = true) {m n d c b a : Mark}
    (hown : e.tree.All fun k => k.mark.index ∉ [n.index, b.index, a.index]) (join : Option FlowRef)
    (h : (visitStmt u ctx join (.augAssign m (.name n exportListName) .add e)).run s = .ok () t) :
    ∃ t', (visitStmt u ctx join (.expr d (.call c (.member b (.name a exportListName) "extend") [e] []))).run s = .ok () t' ∧
      t'.all = t.all ∧ t.warnings ≤ t'.warnings ∧ (u.Offers s.store ctx.scope e → t'.warnings = t.warnings) := by
  rw [visitStmt] at h
  obtain ⟨_, s₁, h₁, hrest₁⟩ := bind_ok.1 h
  obtain ⟨_, s₂, h₂, hrest₂⟩ := bind_ok.1 hrest₁
  obtain ⟨_, s₃, h₃, hrest₃⟩ := bind_ok.1 hrest₂
  obtain ⟨_, s₄, h₄, hrest₄⟩ := bind_ok.1 hrest₃
  obtain ⟨_, s₅, h₅, hfollow⟩ := bind_ok.1 hrest₄
  have hassigned : Beside ctx.scope s₂ s₅ :=
    assigned_bypasses u ctx e.index n exportListName (bind_ok.2 ⟨_, _, h₃, bind_ok.2 ⟨_, _, h₄, h₅⟩⟩)
  rw [run_visitName] at h₁
  obtain ⟨_, rfl⟩ := EStateM.Result.ok.inj h₁
  -- The operand is walked from states that differ in the stamps of the names and the member around it.
  obtain ⟨_, t₂, hrun, _, hstates⟩ :=
    meets_of_ok (visitExpr_mirrors (restamped_mirror hextends) ctx .value e hown (.stamped hs ..)) h₂
  obtain ⟨_, t₃, hcall⟩ := call_succeeds ctx c.index (.member b (.name a exportListName) "extend") t₂
  have hbeside : Beside ctx.scope s₅ t₃ := (hassigned.symm.trans hstates.beside).trans (beside_flowing.call _ _ _ hcall)
  have htype : s₅.store.type? ctx.scope = some .moduleBody := by
    obtain ⟨_, _, _, ht⟩ := hstates
    exact hassigned.type.trans ht
  obtain ⟨_, t', hfollow', _, hcompare⟩ := meets_of_ok (follow_compares hu hbeside htype he m c n b a) hfollow
  rw [visitStmt, run_visitCall, visitExprs, visitExprs, bind_pure]
  refine ⟨t', bind_ok.2 ⟨(), t₂, hrun, bind_ok.2 ⟨(), t₃, hcall, hfollow'⟩⟩, hcompare.all, hcompare.warnings, fun hoffers => ?_⟩
  refine hcompare.offers (Setup.Offers.congr ?_ hassigned.imports)
  unfold isListOperand at he
  split at he
  · exact hoffers
  · rwa [store_visitMember h₂]
  · cases he

theorem ends_of_run' {f : BindM ω Unit} {all : Option (List String)}
    (h : (do f; return (← get).all : BindM ω _).run' s = some all) : ∃ t, f.run s = .ok () t ∧ t.all = all := by
  unfold EStateM.run' at h
  split at h
  · rename_i heq
    cases h
    obtain ⟨_, t, hf, hget⟩ := bind_ok.1 heq
    obtain ⟨_, _, hread, hpure⟩ := bind_ok.1 hget
    obtain ⟨rfl, rfl⟩ := get_ok.1 hread
    exact ⟨t, hf, (pure_ok.1 hpure).1⟩
  · cases h

/-- A state at the scope of a module that lists one name. -/
def sampleListing : State Unit :=
  { State.initial (.alone { body := [] }) (({} : Store).addScope { type := .moduleBody }).2 () with all := some ["a"] }

/-- A list display of one name. -/
def sampleOperand : Expr := .list { index := 6 } [.constant { index := 7 } (.str "b") none]

theorem sampleListing_extend : ∃ t t',
    (visitStmt (.alone { body := [] }) { scope := 0, owner := 0 } none
      (.augAssign { index := 1 } (.name { index := 2 } exportListName) .add sampleOperand)).run sampleListing = .ok () t ∧
    (visitStmt (.alone { body := [] }) { scope := 0, owner := 0 } none (.expr { index := 1 } (.call { index := 3 }
      (.member { index := 4 } (.name { index := 5 } exportListName) "extend") [sampleOperand] []))).run sampleListing =
        .ok () t' ∧
    t.all = some ["a", "b"] ∧ t'.all = t.all ∧ t'.warnings = t.warnings := by
  obtain ⟨t, ht, hall⟩ : ∃ t, (visitStmt (.alone { body := [] }) { scope := 0, owner := 0 } none
      (.augAssign { index := 1 } (.name { index := 2 } exportListName) .add sampleOperand)).run sampleListing = .ok () t ∧
      t.all = some ["a", "b"] := ends_of_run' (by decide +kernel)
  have hown : ∀ k ∈ sampleOperand.tree.preorder, k.mark.index ∉ [2, 4, 5] := by decide +kernel
  obtain ⟨t', ht', hall', _, hwarnings⟩ := extend_as_add (u := .alone { body := [] }) (fun _ _ _ _ => rfl)
    (fun _ st _ => ⟨fun _ _ => rfl, le_refl _⟩) rfl (e := sampleOperand) rfl (n := { index := 2 }) (d := { index := 1 })
      (c := { index := 3 })
    (b := { index := 4 }) (a := { index := 5 }) hown none ht
  have hoffers : literalsOf [.constant { index := 7 } (.str "b") none] ≠ [] := by decide
  exact ⟨t, t', ht, ht', hall, hall', hwarnings hoffers⟩

end ScopeFlow.Bind
