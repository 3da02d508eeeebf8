import ScopeFlow.Proofs.FlowGraphs
import ScopeFlow.Proofs.Jobs
import ScopeFlow.Proofs.TwinModules

/-!
# Numbers that have moved on

Binding hands out the numbers of flow nodes and of symbols from two counters. Where the counters start makes no difference but to
the numbers: if they start further on, all flow nodes but the sentinel and all symbols of the module have numbers that are as much
further on, and nothing else changes (`renumbered_module`). Numbers of flow nodes are compared when a label gets an antecedent, so
that a counter must not start where it could hand out the number of the sentinel.

A flow node that mentions a symbol mentions the same symbol in both runs, by the number that it has there.
-/

namespace ScopeFlow

/-! ## Numbers of symbols -/

/-- The labels under which the symbols that a store does not have are shifted. -/
def Store.shift (old : Store) (d : Int) : Relabelling where
  id i name a := if (old.symbol? i name).isSome then a else a + d
  mark b := b

/-- The store with other counters. -/
def Store.counting (st : Store) (flow symbols : Int) : Store := { st with nextFlowId := flow, nextSymbolId := symbols }

/-- The symbols of the old store keep their labels. -/
theorem shift_store (old : Store) (d flow symbols : Int) : (old.shift d).store (old.counting flow symbols) =
    old.counting flow symbols := by
  have hscope : ∀ (i : Nat) (sc : Scope), old.scope? i = some sc → (old.shift d).scope i sc = sc := by
    intro i sc hsc
    have hentry : ∀ e ∈ sc.symbols, (e.1, (old.shift d).symbol i e.1 e.2) = e := by
      intro e he
      have hsome : (old.symbol? i e.1).isSome := by
        simp only [Store.symbol?, hsc, Option.bind_some, Scope.symbol?, List.lookup_isSome_iff]
        exact ⟨e, he, by simp⟩
      simp [Relabelling.symbol, Store.shift, Symbol.relabel, hsome]
    have hvalues : sc.symbols.mapValues ((old.shift d).symbol i) = sc.symbols := by
      rw [Table.mapValues, List.map_congr_left hentry, List.map_id']
    rw [Relabelling.scope, hvalues]
  have hscopes : old.scopes.mapIdx (old.shift d).scope = old.scopes := by
    refine Array.ext_getElem? fun i => ?_
    rw [Array.getElem?_mapIdx]
    cases hsc : old.scopes[i]? with
    | none => rfl
    | some sc => rw [Option.map_some, hscope i sc hsc]
  show Store.mk (old.scopes.mapIdx (old.shift d).scope) _ _ = _
  rw [hscopes]
  rfl

/-- The number of a symbol of a store, and what it becomes under other labels. -/
def Relabelling.Renames (g : Relabelling) (st : Store) (a b : Int) : Prop :=
  ∃ i name x, st.symbol? i name = some x ∧ x.id = a ∧ g.id i name a = b

/-- Whether the symbols of a store are kept, with their numbers. -/
def Store.Retains (st st' : Store) : Prop := ∀ i name x, st.symbol? i name = some x →
    ∃ y, st'.symbol? i name = some y ∧ y.id = x.id

theorem Relabelling.Renames.mono {g : Relabelling} {st st' : Store} {a b : Int} (h : g.Renames st a b) (hr : st.Retains st') :
    g.Renames st' a b := by
  obtain ⟨i, name, x, hx, rfl, rfl⟩ := h
  obtain ⟨y, hy, hid⟩ := hr i name x hx
  exact ⟨i, name, y, hy, hid, rfl⟩

namespace Store.Retains

variable {st st' : Store} {name : String}

theorem symbol? (h : st.Retains st') {i : Nat} (hs : (st.symbol? i name).isSome) :
    (st'.symbol? i name).isSome := by
  obtain ⟨x, hx⟩ := Option.isSome_iff_exists.1 hs
  obtain ⟨y, hy, _⟩ := h i name x hx
  simp [hy]

theorem ofGrows (h : st.Grows st') : st.Retains st' := by
  intro i name x hx
  obtain ⟨y, hy, hxy⟩ := h.retains hx
  exact ⟨y, hy, hxy.1⟩

theorem ofBlind (i : Nat) (name : String) {f : Symbol → Symbol} (hf : Symbol.Blind f) :
    st.Retains (st.adjustSymbol i name f) := by
  intro j n x hx
  rw [symbol?_adjustSymbol]
  split
  · exact ⟨f x, by rw [hx]; rfl, hf.id_eq x⟩
  · exact ⟨x, hx, rfl⟩

end Store.Retains

/-! ## Numbers in flow graphs -/

namespace FlowStep

/-- Flow nodes that differ at most in the numbers of the symbols that they mention. -/
inductive Renumbered (V : Int → Int → Prop) : FlowStep → FlowStep → Prop where
  | same {step : FlowStep} : step.symbols = [] → Renumbered V step step
  | assign (node : Option Nat) (key : String) (antecedent : FlowRef) {a b : Int} (unbound : Bool) : V a b →
    Renumbered V (.assign node key antecedent (some a) unbound) (.assign node key antecedent (some b) unbound)
  | takeOver (antecedent : FlowRef) {a a' b b' : Int} : V a a' → V b b' →
    Renumbered V (.takeOver antecedent a b) (.takeOver antecedent a' b')

namespace Renumbered

variable {V V' : Int → Int → Prop} {step step' : FlowStep}

section

variable (h : Renumbered V step step')
include h

theorem imp (hV : ∀ a b, V a b → V' a b) : Renumbered V' step step' := by
  cases h with
  | same hs => exact .same hs
  | assign node key antecedent unbound hab => exact .assign node key antecedent unbound (hV _ _ hab)
  | takeOver antecedent ha hb => exact .takeOver antecedent (hV _ _ ha) (hV _ _ hb)

theorem antecedents : step'.antecedents = step.antecedents := by cases h <;> rfl

theorem isUnreachable : step'.isUnreachable = step.isUnreachable := by cases h <;> rfl

theorem addAntecedent (ref : FlowRef) :
    Renumbered V (step.addAntecedent ref) (step'.addAntecedent ref) := by
  cases h with
  | same hs =>
    refine .same ?_
    cases step <;> exact hs
  | assign node key antecedent unbound hab => exact .assign node key antecedent unbound hab
  | takeOver antecedent ha hb => exact .takeOver antecedent ha hb

end

end Renumbered

end FlowStep

namespace FlowGraph

/-- Graphs that differ at most in numbers: those of flow nodes are shifted, except that of the sentinel. -/
structure Renumbered (V : Int → Int → Prop) (f : Int) (g g' : FlowGraph) : Prop where
  size : g'.size = g.size
  nonempty : 0 < g.size
  sentinel : g.nodeAt 0 = sentinel ∧ g'.nodeAt 0 = sentinel
  node : ∀ k, 0 < k → k < g.size → 1 ≤ (g.nodeAt k).id ∧ (g'.nodeAt k).id = (g.nodeAt k).id + f ∧
    (g.nodeAt k).step.Renumbered V (g'.nodeAt k).step

theorem nodeAt_of_le {g : FlowGraph} {k : FlowRef} (h : g.size ≤ k) : g.nodeAt k = sentinel := by
  simp [nodeAt, Array.getElem?_eq_none h]

theorem nodeAt_push (g : FlowGraph) (n : FlowNode) (k : FlowRef) :
    nodeAt (g.push n) k = if k = g.size then n else g.nodeAt k := by
  simp only [nodeAt, Array.getElem?_push]
  split <;> rfl

theorem nodeAt_modify (g : FlowGraph) (label k : FlowRef) (f : FlowNode → FlowNode) :
    nodeAt (g.modify label f) k = if label = k ∧ k < g.size then f (g.nodeAt k) else g.nodeAt k := by
  simp only [nodeAt, Array.getElem?_modify]
  by_cases hk : k < g.size
  · by_cases hl : label = k <;> simp [hl, hk]
  · simp [hk]

namespace Renumbered

variable {V V' : Int → Int → Prop} {f : Int} {g g' : FlowGraph}

section

variable (h : Renumbered V f g g')
include h

theorem imp (hV : ∀ a b, V a b → V' a b) : Renumbered V' f g g' where
  size := h.size
  nonempty := h.nonempty
  sentinel := h.sentinel
  node k hk hlt := ⟨(h.node k hk hlt).1, (h.node k hk hlt).2.1, (h.node k hk hlt).2.2.imp hV⟩

/-- At every place there is the sentinel in both graphs, or a node with a shifted number. -/
theorem nodeAt (k : FlowRef) : (g.nodeAt k = FlowGraph.sentinel ∧ g'.nodeAt k = FlowGraph.sentinel) ∨
    1 ≤ (g.nodeAt k).id ∧ (g'.nodeAt k).id = (g.nodeAt k).id + f ∧ (g.nodeAt k).step.Renumbered V (g'.nodeAt k).step := by
  rcases Nat.lt_or_ge k g.size with hk | hk
  · rcases Nat.eq_zero_or_pos k with rfl | hpos
    · exact .inl h.sentinel
    · exact .inr (h.node k hpos hk)
  · exact .inl ⟨nodeAt_of_le hk, nodeAt_of_le (h.size ▸ hk)⟩

theorem step (k : FlowRef) : (g.nodeAt k).step.Renumbered V (g'.nodeAt k).step := by
  rcases h.nodeAt k with ⟨hg, hg'⟩ | ⟨_, _, hstep⟩
  · rw [hg, hg']
    exact .same rfl
  · exact hstep

/-- Numbers are equal in one graph where they are equal in the other. -/
theorem idAt_eq_iff (hf : 0 ≤ f) (i j : FlowRef) : g'.idAt i = g'.idAt j ↔ g.idAt i = g.idAt j := by
  unfold idAt
  rcases h.nodeAt i with ⟨hi, hi'⟩ | ⟨hi, hi', _⟩ <;> rcases h.nodeAt j with ⟨hj, hj'⟩ | ⟨hj, hj', _⟩ <;> rw [hi', hj']
  · rw [hi, hj]
  · rw [hi]
    simp only [FlowGraph.sentinel]
    omega
  · rw [hj]
    simp only [FlowGraph.sentinel]
    omega
  · omega

theorem hasAntecedent (hf : 0 ≤ f) (label ref : FlowRef) :
    g'.hasAntecedent label ref = g.hasAntecedent label ref := by
  unfold FlowGraph.hasAntecedent
  rw [(h.step label).antecedents]
  congr 1
  funext a
  rw [Bool.eq_iff_iff, beq_iff_eq, beq_iff_eq]
  exact h.idAt_eq_iff hf a ref

theorem finish (label : FlowRef) : g'.finish label = g.finish label := by
  have hstep := h.step label
  unfold FlowGraph.finish
  generalize (g.nodeAt label).step = step at hstep
  generalize (g'.nodeAt label).step = step' at hstep
  cases hstep with
  | same _ => rfl
  | assign => rfl
  | takeOver => rfl

theorem addAntecedent (hf : 0 ≤ f) (label ref : FlowRef) :
    Renumbered V f (g.addAntecedent label ref) (g'.addAntecedent label ref) := by
  unfold FlowGraph.addAntecedent
  rw [h.hasAntecedent hf]
  split
  · exact h
  · have hsentinel : ∀ {x : FlowGraph}, x.nodeAt 0 = FlowGraph.sentinel →
        FlowGraph.nodeAt (x.modify label fun n => { n with step := n.step.addAntecedent ref }) 0 = FlowGraph.sentinel := by
      intro x hx
      rw [nodeAt_modify]
      split
      · rw [hx]
        rfl
      · exact hx
    refine ⟨by simpa using h.size, by simpa using h.nonempty, ⟨hsentinel h.sentinel.1, hsentinel h.sentinel.2⟩,
      fun k hk hlt => ?_⟩
    obtain ⟨hid, hid', hstep⟩ := h.node k hk (by simpa using hlt)
    rw [nodeAt_modify, nodeAt_modify, h.size]
    split
    · exact ⟨hid, hid', hstep.addAntecedent ref⟩
    · exact ⟨hid, hid', hstep⟩

theorem push {id : Int} (hid : 1 ≤ id) {step step' : FlowStep} (hstep : step.Renumbered V step') :
    Renumbered V f (g.push ⟨id, step⟩) (g'.push ⟨id + f, step'⟩) := by
  have hpos := h.nonempty
  refine ⟨by simp [h.size], by simp, ?_, fun k hk hlt => ?_⟩
  · rw [nodeAt_push, nodeAt_push, if_neg hpos.ne, if_neg (h.size ▸ hpos.ne)]
    exact h.sentinel
  · rw [nodeAt_push, nodeAt_push, h.size]
    split
    · exact ⟨hid, rfl, hstep⟩
    · rename_i hne
      have hle : k ≤ g.size := Nat.lt_succ_iff.1 (by simpa using hlt)
      exact h.node k hk (Nat.lt_of_le_of_ne hle hne)

end

end Renumbered

end FlowGraph

namespace Bind

open Store

variable {ω : Type} {old : Store} {f d : Int} {s t : State ω}

/-! ## States -/

/-- The second state is the first one with other numbers: those of flow nodes are shifted by `f`, and by `d` those of the symbols
that an old store does not have. -/
structure Shifted (old : Store) (f d : Int) (s t : State ω) : Prop where
  rest : t = { s with store := t.store, past := t.past, graph := t.graph }
  store : t.store = ((old.shift d).store s.store).counting (s.store.nextFlowId + f) (s.store.nextSymbolId + d)
  graph : s.graph.Renumbered ((old.shift d).Renames s.store) f t.graph
  counter : 1 ≤ s.store.nextFlowId
  kept : ∀ i name, (old.symbol? i name).isSome → (s.store.symbol? i name).isSome

namespace Shifted

/-- A change of both states that leaves store and graph alone. -/
theorem aside (h : Shifted old f d s t) {s' t' : State ω} (hs : s'.store = s.store ∧ s'.graph = s.graph)
    (ht : t'.store = t.store ∧ t'.graph = t.graph)
      (hrest : t' = { s' with store := t'.store, past := t'.past, graph := t'.graph }) :
    Shifted old f d s' t' where
  rest := hrest
  store := by rw [ht.1, hs.1, h.store]
  graph := by
    rw [hs.1, hs.2, ht.2]
    exact h.graph
  counter := by rw [hs.1]; exact h.counter
  kept := by rw [hs.1]; exact h.kept

/-- A change of the store that can be made under other labels. -/
theorem edit (h : Shifted old f d s t) {st : Store} (hr : s.store.Retains st) (hflow : st.nextFlowId = s.store.nextFlowId)
    {st' : Store} (hst : st' = ((old.shift d).store st).counting (s.store.nextFlowId + f) (st.nextSymbolId + d)) :
    Shifted old f d { s with store := st, past := s.past.map (s.store :: ·) }
      { t with store := st', past := t.past.map (t.store :: ·) } where
  rest := by
    rw [h.rest]
  store := by rw [hst, hflow]
  graph := h.graph.imp fun a b hab => hab.mono hr
  counter := by
    show 1 ≤ st.nextFlowId
    rw [hflow]
    exact h.counter
  kept i name hi := hr.symbol? (h.kept i name hi)

theorem like (h : Shifted old f d s t) : s.store.Like t.store := by
  rw [h.store]
  exact ⟨(Relabelling.like_store s.store).size, (Relabelling.like_store s.store).scope?⟩

/-- The number of a symbol that the old store does not have is shifted. -/
theorem id_eq (h : Shifted old f d s t) {i : Nat} (hnew : old.symbol? i name = none) :
    (t.store.symbol? i name).map Symbol.id = (s.store.symbol? i name).map (·.id + d) := by
  rw [h.store]
  show (((old.shift d).store s.store).symbol? i name).map Symbol.id = _
  rw [Relabelling.symbol?_store, Option.map_map]
  congr 1
  funext x
  simp [Relabelling.symbol, Store.shift, Symbol.relabel, hnew]

theorem flows (hf : 0 ≤ f) : Flows (Shifted old f d : State ω → State ω → Prop) where
  look := by
    intro s t h
    have hrest := h.rest
    have hfacts : t.facts = s.facts := by rw [hrest]
    refine ⟨h.like, by rw [hrest], fun i => (h.graph.step i).isUnreachable, h.graph.finish, fun i => ?_, ?_, ?_, ?_, ?_, ?_, ?_⟩
    · rw [State.factsAt, State.factsAt, hfacts]
      exact ⟨rfl, rfl⟩
    all_goals rw [hrest]
  setCurrent h ref := h.aside ⟨rfl, rfl⟩ ⟨rfl, rfl⟩ (by rw [h.rest])
  addAntecedent := by
    intro s t h label ref
    exact ⟨by rw [h.rest], h.store, h.graph.addAntecedent hf label ref, h.counter, h.kept⟩

/-- The numbers of one symbol are those before and after the shift. -/
theorem renames_of_sameId (h : Shifted old f d s t) {a b : Int} (hab : SameId s.store t.store a b) :
    (old.shift d).Renames s.store a b := by
  obtain ⟨i, name, x, y, hx, hy, rfl, rfl⟩ := hab
  have hshift : ((old.shift d).store s.store).symbol? i name = some y := by
    rw [h.store] at hy
    exact hy
  rw [Relabelling.symbol?_store, hx] at hshift
  cases hshift
  exact ⟨i, name, x, hx, rfl, rfl⟩

/-- A flow node is added with the next number in both runs. -/
theorem newNode (h : Shifted old f d s t) {step step' : FlowStep}
    (hstep : step.Renumbered ((old.shift d).Renames s.store) step') :
    Meets (Shifted old f d) Eq ((Bind.newNode step).run s) ((Bind.newNode step').run t) := by
  have hnext : t.store.nextFlowId = s.store.nextFlowId + f := by rw [h.store]; rfl
  refine .ok h.graph.size.symm ⟨?_, ?_, ?_, ?_, h.kept⟩
  · rw [h.rest]
  · show ({ t.store with nextFlowId := t.store.nextFlowId + 1 } : Store) = _
    rw [hnext, h.store]
    show Store.mk _ _ _ = Store.mk _ _ _
    congr 1
    show s.store.nextFlowId + f + 1 = s.store.nextFlowId + 1 + f
    omega
  · show FlowGraph.Renumbered _ f (s.graph.push ⟨s.store.nextFlowId, step⟩) (t.graph.push ⟨t.store.nextFlowId, step'⟩)
    rw [hnext]
    exact h.graph.push h.counter hstep
  · show 1 ≤ s.store.nextFlowId + 1
    have hcounter := h.counter
    omega

theorem newScope (type : ScopeType) (parent : Option Nat) :
    Mirrors (Shifted old f d : State ω → State ω → Prop) (Bind.newScope type parent) (Bind.newScope type parent) := by
  intro s t h
  refine .ok h.like.size.symm (h.edit (.ofGrows (.addScope _)) rfl ?_)
  rw [h.store, Relabelling.store_addScope]
  rfl

/-- A symbol is added with the next number in both runs. The old store does not have it, so that its number is shifted. -/
theorem newSymbol (h : Shifted old f d s t) {scope : Nat} (hnone : s.store.symbol? scope name = none)
    (flags : SymbolFlags) :
    Meets (Shifted old f d) Eq ((Bind.newSymbol scope name flags).run s) ((Bind.newSymbol scope name flags).run t) := by
  have hnew : (old.symbol? scope name).isSome = false := by
    cases hold : (old.symbol? scope name).isSome with
    | false => rfl
    | true => simpa [hnone] using h.kept scope name hold
  have hsymbol : (old.shift d).symbol scope name { id := s.store.nextSymbolId, flags := flags } =
      { id := s.store.nextSymbolId + d, flags := flags } := by
    simp [Relabelling.symbol, Store.shift, Symbol.relabel, hnew]
  have hscopes := congrArg Store.scopes (Relabelling.store_setSymbol (g := old.shift d) s.store scope name
    { id := s.store.nextSymbolId, flags := flags })
  have hgrows : s.store.Grows
    { s.store.adjustScope scope (fun sc => sc.setSymbol name { id := s.store.nextSymbolId, flags := flags }) with
      nextSymbolId := s.store.nextSymbolId + 1 } := fun i sc hsc => Grows.setSymbol _ hnone i sc hsc
  refine .ok rfl (h.edit (.ofGrows hgrows) rfl ?_)
  rw [hsymbol] at hscopes
  rw [h.store]
  show Store.mk _ _ _ = Store.mk _ _ _
  congr 1
  · exact hscopes.symm
  · show s.store.nextSymbolId + d + 1 = s.store.nextSymbolId + 1 + d
    omega

theorem adjustSymbol (ref : SymbolRef) {g : Symbol → Symbol} (hg : Symbol.Blind g) :
    Mirrors (Shifted old f d : State ω → State ω → Prop) (Bind.adjustSymbol ref g) (Bind.adjustSymbol ref g) := by
  intro s t h
  refine .ok rfl (h.edit (.ofBlind ref.scope ref.name hg) rfl ?_)
  rw [h.store, Relabelling.store_adjustSymbol _ _ _ hg]
  rfl

theorem redirect (h : Shifted old f d s t) (scope : Nat) (name : String) (r : Redirection) :
    Shifted old f d
      { s with store := s.store.adjustScope scope fun sc => (sc.redirect name r).2, past := s.past.map (s.store :: ·) }
      { t with store := t.store.adjustScope scope fun sc => (sc.redirect name r).2, past := t.past.map (t.store :: ·) } := by
  refine h.edit (.ofGrows (.redirect r)) rfl ?_
  rw [h.store, Relabelling.store_redirect]
  rfl

/-- A step behind the current flow node, which is not taken in dead code. -/
theorem ahead (h : Shifted old f d s t) {k k' : FlowRef → BindM ω Unit}
    (hk : Meets (Shifted old f d) Eq ((k s.current).run s) ((k' s.current).run t)) :
    Meets (Shifted old f d) Eq ((isDead >>= fun dead => if dead = true then pure () else current >>= k).run s)
      ((isDead >>= fun dead => if dead = true then pure () else current >>= k').run t) := by
  have hcurrent : t.current = s.current := by rw [h.rest]
  have hdead := (h.graph.step s.current).isUnreachable
  show Meets _ _ ((if (s.graph.nodeAt s.current).step.isUnreachable = true then pure () else current >>= k : BindM ω Unit).run s)
    ((if (t.graph.nodeAt t.current).step.isUnreachable = true then pure () else current >>= k' : BindM ω Unit).run t)
  rw [hcurrent, hdead]
  split
  · exact .ok rfl h
  · show Meets _ _ ((k s.current).run s) ((k' t.current).run t)
    rwa [hcurrent]

end Shifted

/-- Whether what is seen of other modules is fixed: it is always the same, and looking at it changes nothing. -/
def Setup.Fixed (u : Setup ω) : Prop := ∀ path, ∃ answer, ∀ st w, u.exports path st w = (answer, st, w)

theorem addKey_shifted (owner : Nat) (key : String) :
    Mirrors (Shifted old f d : State ω → State ω → Prop) (addKey owner key) (addKey owner key) :=
  .ofModify fun _ _ h => h.aside ⟨rfl, rfl⟩ ⟨rfl, rfl⟩ (by rw [h.rest])

theorem report_shifted (x : Diagnostic) : Mirrors (Shifted old f d : State ω → State ω → Prop) (report x) (report x) :=
  .ofModify fun _ _ h => h.aside ⟨rfl, rfl⟩ ⟨rfl, rfl⟩ (by rw [h.rest])

/-- Steps of binding that start with other counters lead to other numbers. -/
theorem shifted_module {u : Setup ω} (hu : u.Fixed) (hf : 0 ≤ f) :
    ModuleMirror u.twice (Shifted old f d : State ω → State ω → Prop) where
  toFlows := Shifted.flows hf
  newNode := by
    intro step hplain s t h
    refine h.newNode (.same ?_)
    cases step <;> first | rfl | cases hplain
  facts h node g _ := h.aside ⟨rfl, rfl⟩ ⟨rfl, rfl⟩ (by rw [h.rest])
  stamped h n _ := by rw [h.rest]; rfl
  stampWith h _ _ := h.aside ⟨rfl, rfl⟩ ⟨rfl, rfl⟩ (by rw [h.rest])
  keep h _ _ := h.aside ⟨rfl, rfl⟩ ⟨rfl, rfl⟩ (by rw [h.rest])
  setDeclaration _ _ := .ofModify fun _ _ h => h.aside ⟨rfl, rfl⟩ ⟨rfl, rfl⟩ (by rw [h.rest])
  notes h _ _ _ := h.aside ⟨rfl, rfl⟩ ⟨rfl, rfl⟩ (by rw [h.rest])
  queue h queue := h.aside ⟨rfl, rfl⟩ ⟨rfl, rfl⟩ (by rw [h.rest])
  reportError _ _ _ := report_shifted _
  reportRule _ _ _ _ _ := .ite (report_shifted _) (.pure rfl)
  openScope ctx type _ := .seq (nonClassScope_mirrors (Shifted.flows hf).toLooks ctx) (Shifted.newScope type)
  openComprehension parent := Shifted.newScope _ _
  newMember h scope name hnone := h.newSymbol hnone _
  newSymbol h scope name flags hnone := h.newSymbol hnone flags
  adjustSymbol ref g hg := Shifted.adjustSymbol ref hg
  exports := by
    intro path s t h
    obtain ⟨answer, hanswer⟩ := hu path
    have hworld : t.world = s.world := by rw [h.rest]
    show Meets _ _ (lookUpExports u path s) (lookUpExports u path t)
    unfold lookUpExports
    rw [hanswer, hanswer]
    cases answer with
    | error fault => exact .error (h.aside ⟨rfl, rfl⟩ ⟨rfl, rfl⟩ (by rw [h.rest]))
    | ok exports => exact .ok rfl (h.aside ⟨rfl, rfl⟩ ⟨rfl, rfl⟩ (by rw [h.rest]))
  takeOver := by
    intro s t h a a' b b' ha hb
    refine h.ahead ?_
    refine (h.newNode (.takeOver _ (h.renames_of_sameId ha) (h.renames_of_sameId hb))).bind fun ref ref' href => ?_
    subst href
    exact setCurrent_mirrors (Shifted.flows hf) ref
  assignKey := by
    intro s t h ctx target target' hrel node key raises unbound
    have hstep : FlowStep.Renumbered ((old.shift d).Renames s.store) (.assign (some node) key s.current target unbound)
        (.assign (some node) key s.current target' unbound) := by
      cases hrel with
      | none => exact .same rfl
      | some hab => exact .assign _ _ _ _ (h.renames_of_sameId hab)
    refine h.ahead ((h.newNode hstep).bind fun ref ref' href => ?_)
    subst href
    have hF : Flows (Shifted old f d : State ω → State ω → Prop) := Shifted.flows hf
    exact .seq (addKey_shifted _ key) fun _ => .when (linkRaise_mirrors hF ctx ref) fun _ => setCurrent_mirrors hF ref
  conditional _ := conditional_mirrors (Shifted.flows hf) (addKey_shifted _) fun _ _ _ _ _ _ h => h.newNode (.same rfl)
  redirect h := h.redirect
  openModule type := Shifted.newScope type _

theorem shifted_initial (u : Setup ω) (st : Store) (w : ω) (f d : Int) :
    Shifted st f d (.initial u (st.counting 1 1) w) (.initial u (st.counting (1 + f) (1 + d)) w) where
  rest := rfl
  store := by rw [show (State.initial u (st.counting 1 1) w).store = st.counting 1 1 from rfl, shift_store]; rfl
  graph := ⟨rfl, Nat.one_pos, ⟨rfl, rfl⟩, fun k hk hlt => by
    have hsize : k < 1 := hlt
    omega⟩
  counter := le_refl 1
  kept _ _ := id

/-- Binding a module with counters that start further on comes to the same outcome, and to the same state apart from numbers
that are as much further on: those of flow nodes, except the sentinel, and those of symbols that were not there before. -/
theorem renumbered_module {u : Setup ω} (hu : u.Fixed) (m : Module) (st : Store) (w : ω) {flow : Int} (hflow : 1 ≤ flow)
    (symbols : Int) :
    (bindModule u m (st.counting flow symbols) w).1 = (bindModule u m (st.counting 1 1) w).1 ∧
      Shifted st (flow - 1) (symbols - 1) (bindModule u m (st.counting 1 1) w).2
        (bindModule u m (st.counting flow symbols) w).2 := by
  have hstart := shifted_initial u st w (flow - 1) (symbols - 1)
  rw [add_sub_cancel, add_sub_cancel] at hstart
  have hmeets : Meets (Shifted st (flow - 1) (symbols - 1)) Eq ((bindTree u m).run (State.initial u (st.counting 1 1) w))
      ((bindTree u m).run (State.initial u (st.counting flow symbols) w)) :=
    bindTree_mirrors (shifted_module hu (by omega)) m hstart
  unfold bindModule
  generalize (bindTree u m).run (State.initial u (st.counting 1 1) w) = x at hmeets
  generalize (bindTree u m).run (State.initial u (st.counting flow symbols) w) = y at hmeets
  cases hmeets with
  | ok hresults hstates => exact ⟨by rw [hresults], hstates⟩
  | error hstates => exact ⟨rfl, hstates⟩

/-- A class that takes over the value of a name of the module. -/
def sampleTakeOver : Module :=
  { body := [.assign {} [.name {} "x"] (.name {} "f"), .classDef {} "A" [] [] [.assign {} [.name {} "x"] (.name {} "x")] []] }

/-- What binding it comes to with the counters at some numbers. -/
def sampleTakeOverFrom (flow symbols : Int) : State Unit :=
  (bindModule (Setup.alone sampleTakeOver.number) sampleTakeOver.number (({} : Store).counting flow symbols) ()).2

theorem sampleTakeOver_renumbered :
    (sampleTakeOverFrom 1 1).graph.size = 6 ∧ ((sampleTakeOverFrom 1 1).graph.nodeAt 3).step.symbols = [12, 10] ∧
      (∀ k, 0 < k → k < 6 → (sampleTakeOverFrom 100 50).graph.idAt k = (sampleTakeOverFrom 1 1).graph.idAt k + 99) ∧
      ∀ i name, ((sampleTakeOverFrom 100 50).store.symbol? i name).map Symbol.id =
        ((sampleTakeOverFrom 1 1).store.symbol? i name).map (·.id + 49) := by
  have hshift : Shifted {} 99 49 (sampleTakeOverFrom 1 1) (sampleTakeOverFrom 100 50) :=
    (renumbered_module (fun _ => ⟨.ok none, fun _ _ => rfl⟩) sampleTakeOver.number {} () (show (1 : Int) ≤ 100 by decide) 50).2
  have hsize : (sampleTakeOverFrom 1 1).graph.size = 6 := by decide +kernel
  exact ⟨hsize, by decide +kernel, fun k hk hlt => (hshift.graph.node k hk (hsize ▸ hlt)).2.1, fun i name => hshift.id_eq rfl⟩

end Bind

end ScopeFlow
