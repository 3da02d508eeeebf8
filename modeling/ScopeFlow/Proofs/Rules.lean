import ScopeFlow.Proofs.FlowGraphs
import ScopeFlow.Proofs.TwinModules

/-!
# Rules filter diagnostics

Which rules are switched on decides which diagnostics are kept, and nothing else: a run with fewer rules goes through the same
states as a run with more, but for the diagnostics that its rules let through. The rule about private members also decides which
symbols are marked as private members, and no step of binding reads that mark; so across settings of that rule the diagnostics
are filtered as well, provided what is seen of other modules does not depend on the marks.
-/

namespace ScopeFlow

/-- All rules switched on. -/
def RuleSet.every : RuleSet := ⟨true, true, true, true, true⟩

/-- Whether a rule set lets a diagnostic through: it has no rule, or one that is switched on. -/
def RuleSet.lets (rules : RuleSet) (d : Diagnostic) : Bool := (d.rule.map rules.enables).getD true

@[simp] theorem RuleSet.enables_name (rules : RuleSet) (rule : Rule) : rules.enables rule.name = rules.isEnabled rule := by
  have hname : Rule.ofName? rule.name = some rule := by cases rule <;> decide
  simp [RuleSet.enables, hname]

namespace Bind

open Store

variable {ω : Type}

/-- The setup with another rule set. -/
def Setup.withRules (u : Setup ω) (rules : RuleSet) : Setup ω := { u with file := { u.file with rules := rules } }

/-- Whether what is seen of other modules does not depend on which symbols are marked as private members. -/
def Setup.IgnoresMarks (u : Setup ω) : Prop := ∀ path st st' w, Relabelling.unmark.store st' = Relabelling.unmark.store st →
  (u.exports path st' w).1 = (u.exports path st w).1 ∧
  Relabelling.unmark.store (u.exports path st' w).2.1 = Relabelling.unmark.store (u.exports path st w).2.1 ∧
  (u.exports path st' w).2.2 = (u.exports path st w).2.2

/-- The second state has those diagnostics of the first that a rule set lets through, and is the same apart from labels. -/
def Filtered (g : Relabelling) (rules : RuleSet) (s t : State ω) : Prop :=
  ∃ store past, t = { s with store := store, past := past, diagnostics := s.diagnostics.filter rules.lets } ∧
    g.store store = g.store s.store ∧ past.value.map g.store = s.past.value.map g.store

/-- When a run with one rule set is filtered by another: the labels keep numbers, the other rules are switched on in the
first, marks of private members are the same under the labels, and so is what is seen of other modules. -/
structure Filters (u : Setup ω) (rules rules' : RuleSet) (g : Relabelling) : Prop where
  id : ∀ i name a, g.id i name a = a
  enabled : ∀ rule, rules'.isEnabled rule = true → rules.isEnabled rule = true
  mark : ∀ b, g.mark (b && rules.privateUsage) = g.mark (b && rules'.privateUsage)
  exports : ∀ path st st' w, g.store st' = g.store st → (u.exports path st' w).1 = (u.exports path st w).1 ∧
    g.store (u.exports path st' w).2.1 = g.store (u.exports path st w).2.1 ∧
      (u.exports path st' w).2.2 = (u.exports path st w).2.2

variable {u : Setup ω} {rules rules' : RuleSet} {g : Relabelling}

/-- The two setups that differ in their rule sets. -/
def ruleTwins (u : Setup ω) (rules rules' : RuleSet) : Twins ω ω := ⟨u.withRules rules, rules', u.exports⟩

/-- A step that adds a diagnostic in the first run adds it in the second if it is let through. -/
theorem Filtered.report {s t : State ω} (h : Filtered g rules' s t) (d : Diagnostic) :
    Filtered g rules' { s with diagnostics := s.diagnostics ++ [d] }
      (if rules'.lets d then { t with diagnostics := t.diagnostics ++ [d] } else t) := by
  obtain ⟨store, past, rfl, hstore⟩ := h
  refine ⟨store, past, ?_, hstore⟩
  cases hd : rules'.lets d <;> simp [hd]

/-- Stores that are the same apart from labels are put on record. -/
theorem record_filtered {past past' : Ghost (List Store)} {st st' : Store} (hstore : g.store st' = g.store st)
    (hpast : past'.value.map g.store = past.value.map g.store) :
    (past'.map (st' :: ·)).value.map g.store = (past.map (st :: ·)).value.map g.store := by
  rw [Ghost.value_map, Ghost.value_map, List.map_cons, List.map_cons, hstore, hpast]

/-- A symbol is added under the same labels. -/
theorem newSymbol_filtered {s t : State ω} (h : Filtered g rules' s t) (scope : Nat) (name : String) {flags flags' : SymbolFlags}
    (hf : ∀ id, g.symbol scope name { id := id, flags := flags' } = g.symbol scope name { id := id, flags := flags }) :
    Meets (Filtered g rules') Eq ((newSymbol scope name flags).run s) ((newSymbol scope name flags').run t) := by
  obtain ⟨store, past, rfl, hstore, hpast⟩ := h
  have hid := Relabelling.nextSymbolId_of_store_eq hstore
  have hadd : g.store (store.adjustScope scope fun sc => sc.setSymbol name { id := store.nextSymbolId, flags := flags' }) =
      g.store (s.store.adjustScope scope fun sc => sc.setSymbol name { id := s.store.nextSymbolId, flags := flags }) := by
    rw [Relabelling.store_setSymbol, Relabelling.store_setSymbol, hstore, hid, hf]
  have hnext : store.nextSymbolId + 1 = s.store.nextSymbolId + 1 := by rw [hid]
  exact .ok rfl ⟨_, _, rfl, congrArg₂ (fun (st : Store) n => { st with nextSymbolId := n }) hadd hnext,
    record_filtered hstore hpast⟩

theorem filtered_flows : Flows (Filtered g rules' : State ω → State ω → Prop) where
  look := by
    rintro s t ⟨store, past, rfl, hstore, _⟩
    exact ⟨Relabelling.like_of_store_eq hstore, rfl, fun _ => rfl, fun _ => rfl, fun _ => ⟨rfl, rfl⟩, rfl, rfl, rfl,
      rfl, rfl, rfl⟩
  setCurrent := by
    rintro s t ⟨store, past, rfl, hsame⟩ ref
    exact ⟨store, past, rfl, hsame⟩
  addAntecedent := by
    rintro s t ⟨store, past, rfl, hsame⟩ label ref
    exact ⟨store, past, rfl, hsame⟩

theorem newScope_filtered (type : ScopeType) (parent : Option Nat) :
    Mirrors (Filtered g rules' : State ω → State ω → Prop) (newScope type parent) (newScope type parent) := by
  rintro s t ⟨store, past, rfl, hstore, hpast⟩
  refine .ok (Relabelling.like_of_store_eq hstore).size.symm
    ⟨(store.addScope { type := type, parent := parent }).2, _, rfl, ?_, record_filtered hstore hpast⟩
  show _ = g.store (s.store.addScope { type := type, parent := parent }).2
  rw [Relabelling.store_addScope, hstore, Relabelling.store_addScope]

/-- A run with more rules is filtered by fewer. -/
theorem filtered_plain (hf : Filters u rules rules' g) : Plain (ruleTwins u rules rules') (Filtered g rules') where
  toFlows := filtered_flows
  sameId := by
    rintro s t ⟨store, past, rfl, hstore, _⟩ a b ⟨i, name, x, y, hx, hy, rfl, rfl⟩
    have hsymbol : g.symbol i name y = g.symbol i name x := by
      have hboth : (g.store store).symbol? i name = (g.store s.store).symbol? i name := by rw [hstore]
      simpa [hx, hy] using hboth
    have hid := congrArg Symbol.id hsymbol
    simpa only [Relabelling.symbol, Symbol.relabel, hf.id] using hid.symm
  stamped := by
    rintro s t ⟨store, past, rfl, _⟩ i
    rfl
  newNode := by
    rintro step s t ⟨store, past, rfl, hstore, hpast⟩
    have hid := Relabelling.nextFlowId_of_store_eq hstore
    have hnext : store.nextFlowId + 1 = s.store.nextFlowId + 1 := by rw [hid]
    refine .ok rfl ⟨{ store with nextFlowId := store.nextFlowId + 1 }, _, ?_,
      congrArg₂ (fun (st : Store) n => { st with nextFlowId := n }) hstore hnext, record_filtered hstore hpast⟩
    rw [hid]
  facts := by
    rintro s t ⟨store, past, rfl, hsame⟩ node f _
    exact ⟨store, past, rfl, hsame⟩
  notes := by
    rintro s t ⟨store, past, rfl, hsame⟩ _ _ _
    exact ⟨store, past, rfl, hsame⟩
  keep := by
    rintro s t ⟨store, past, rfl, hsame⟩ _ _
    exact ⟨store, past, rfl, hsame⟩
  setDeclaration := by
    rintro node place s t ⟨store, past, rfl, hsame⟩
    exact .ok rfl ⟨store, past, rfl, hsame⟩
  queue := by
    rintro s t ⟨store, past, rfl, hsame⟩ queue
    exact ⟨store, past, rfl, hsame⟩
  reportError := by
    intro key mark name s t h
    exact .ok rfl (h.report _)
  reportRule := by
    intro rule key mark name actions s t h
    show Meets _ _ ((if rules.isEnabled rule = true then _ else _ : BindM ω Unit).run s)
      ((if rules'.isEnabled rule = true then _ else _ : BindM ω Unit).run t)
    cases hl : rules.isEnabled rule with
    | false =>
      have hr : rules'.isEnabled rule = false := by
        by_contra hon
        exact absurd (hf.enabled rule (by simpa using hon)) (by simp [hl])
      rw [hr]
      exact .ok rfl h
    | true =>
      have hreport :=
        h.report { key := key, text := key.about name, range := mark.range, rule := some rule.name, actions := actions }
      simp only [RuleSet.lets, Option.map_some, Option.getD_some, RuleSet.enables_name] at hreport
      cases hr : rules'.isEnabled rule <;> rw [hr] at hreport <;> exact .ok rfl hreport
  openScope ctx type _ := .seq (nonClassScope_mirrors filtered_flows.toLooks ctx) (newScope_filtered type)
  openComprehension parent := newScope_filtered _ _
  openModule type := newScope_filtered _ _
  newMember := by
    intro s t h scope name _
    refine newSymbol_filtered h scope name fun id => ?_
    simp only [Relabelling.symbol, Setup.memberFlags, ruleTwins, Twins.right, Setup.withRules]
    rw [hf.mark]
    rfl
  newSymbol h scope name flags _ := newSymbol_filtered h scope name fun _ => rfl
  adjustSymbol := by
    rintro ref f hblind s t ⟨store, past, rfl, hstore, hpast⟩
    refine .ok rfl ⟨_, _, rfl, ?_, record_filtered hstore hpast⟩
    rw [Relabelling.store_adjustSymbol _ _ _ hblind, hstore, Relabelling.store_adjustSymbol _ _ _ hblind]
  redirect := by
    rintro s t ⟨store, past, rfl, hstore, hpast⟩ scope name r
    refine ⟨_, _, rfl, ?_, record_filtered hstore hpast⟩
    rw [Relabelling.store_redirect, hstore, Relabelling.store_redirect]
  exports := by
    rintro path s t ⟨store, past, rfl, hstore, hpast⟩
    obtain ⟨hanswer, hafter, hworld⟩ := hf.exports path s.store store s.world hstore
    show Meets _ _ (lookUpExports (u.withRules rules) path s) (lookUpExports (u.withRules rules') path _)
    unfold lookUpExports
    simp only [Setup.withRules]
    rcases hx : u.exports path s.store s.world with ⟨answer, store₁, world₁⟩
    rcases hy : u.exports path store s.world with ⟨answer', store₁', world₁'⟩
    simp only [hx, hy] at hanswer hafter hworld
    subst hanswer hworld
    cases answer' with
    | error fault => exact .error ⟨_, _, rfl, hafter, record_filtered hstore hpast⟩
    | ok exports => exact .ok rfl ⟨_, _, rfl, hafter, record_filtered hstore hpast⟩

/-- The outcome of binding a module with fewer rules is that with more, its diagnostics filtered. -/
theorem bindModule_filtered (hf : Filters u rules rules' g) (m : Module) (store : Store) (world : ω) :
    (bindModule (u.withRules rules') m store world).1 = (bindModule (u.withRules rules) m store world).1 ∧
      Filtered g rules' (bindModule (u.withRules rules) m store world).2 (bindModule (u.withRules rules') m store world).2 :=
  bindModule_mirrors (filtered_plain hf).module m ⟨store, _, rfl, rfl, rfl⟩

/-! ## What rules decide -/

/-- Under the labels that stores have, a rule set filters the run of every rule but that about private members. -/
theorem filters_same (u : Setup ω) (rules : RuleSet) :
    Filters u { RuleSet.every with privateUsage := rules.privateUsage } rules .same where
  id _ _ _ := rfl
  enabled rule h := by cases rule <;> first | rfl | exact h
  mark _ := rfl
  exports path st st' w h := by
    rw [Relabelling.store_same, Relabelling.store_same] at h
    subst h
    exact ⟨rfl, rfl, rfl⟩

/-- Without marks of private members, a rule set filters the run of every rule. -/
theorem filters_unmarked (hu : u.IgnoresMarks) (rules : RuleSet) : Filters u .every rules .unmark where
  id _ _ _ := rfl
  enabled rule _ := by cases rule <;> rfl
  mark _ := rfl
  exports := hu

/-- Rules filter diagnostics and decide nothing else. Rule sets that agree on private members give the same outcome and, apart
from the diagnostics, the same state, whose diagnostics are those of all rules that the rule set lets through; and also of all
rules together, if what is seen of other modules does not depend on the marks of private members. -/
theorem rules_filter_diagnostics (u : Setup ω) (m : Module) (store : Store) (world : ω) :
    (∀ rules rules' : RuleSet, rules'.privateUsage = rules.privateUsage →
      (bindModule (u.withRules rules') m store world).1 = (bindModule (u.withRules rules) m store world).1 ∧
      { (bindModule (u.withRules rules') m store world).2 with diagnostics := [] } =
        { (bindModule (u.withRules rules) m store world).2 with diagnostics := [] }) ∧
    (∀ rules : RuleSet, (bindModule (u.withRules rules) m store world).2.diagnostics =
      (bindModule (u.withRules { RuleSet.every with privateUsage := rules.privateUsage }) m store world).2.diagnostics.filter
        rules.lets) ∧
    (u.IgnoresMarks → ∀ rules : RuleSet, (bindModule (u.withRules rules) m store world).2.diagnostics =
      (bindModule (u.withRules .every) m store world).2.diagnostics.filter rules.lets) := by
  have hsame := fun rules => bindModule_filtered (filters_same u rules) m store world
  have hstate : ∀ rules : RuleSet, (bindModule (u.withRules rules) m store world).2 =
      { (bindModule (u.withRules { RuleSet.every with privateUsage := rules.privateUsage }) m store world).2 with
        diagnostics := (bindModule (u.withRules { RuleSet.every with privateUsage := rules.privateUsage }) m store
          world).2.diagnostics.filter rules.lets } := by
    intro rules
    obtain ⟨_, after, past, hafter, hstore, hpast⟩ := hsame rules
    rw [Relabelling.store_same, Relabelling.store_same] at hstore
    have hid : Relabelling.same.store = id := funext Relabelling.store_same
    rw [hid, List.map_id, List.map_id] at hpast
    rw [hafter, hstore, Ghost.eq_of_value hpast]
  refine ⟨fun rules rules' hprivate => ?_, fun rules => ?_, fun hu rules => ?_⟩
  · refine ⟨by rw [(hsame rules).1, (hsame rules').1, hprivate], ?_⟩
    rw [hstate rules, hstate rules', hprivate]
  · rw [hstate rules]
  · obtain ⟨_, after, past, hafter, _⟩ := bindModule_filtered (filters_unmarked hu rules) m store world
    rw [hafter]

/-- An import that is not found, and a class that assigns a private member. -/
def sampleImport : Module :=
  { body :=
      [.importModules {} [⟨{}, "nowhere", none⟩],
      .classDef {} "A" [] []
        [.function {} false "f" (.mk {} [] [.mk {} "self" none] none [] [] none [])
          [.assign {} [.member {} (.name {} "self") "_x"] (.name {} "self")] [] none] []] }

/-- The setup in which the import is not found. -/
def sampleImportSetup : Setup Unit := { Setup.alone sampleImport.number with imports := [(2, { name := "nowhere" })] }

theorem sampleImport_filtered :
    (bindModule (sampleImportSetup.withRules .every) sampleImport.number {} ()).2.diagnostics.length = 1 ∧
      (bindModule (sampleImportSetup.withRules { missingImports := false }) sampleImport.number {} ()).2.diagnostics = [] := by
  refine ⟨by decide +kernel, ?_⟩
  have hu : sampleImportSetup.IgnoresMarks := fun _ _ _ _ h => ⟨rfl, h, rfl⟩
  rw [(rules_filter_diagnostics sampleImportSetup sampleImport.number {} ()).2.2 hu { missingImports := false }]
  decide +kernel

end Bind

end ScopeFlow
