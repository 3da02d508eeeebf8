import ScopeFlow.Proofs.Building

/-!
# How joins are fed

A label is created without antecedents, handed around while code leads to it, and finished. Until then nothing may come after
it. `Barred` says that of a set of labels under construction: what comes after a member is itself a member. So a way that does
not start in the set never leads into it, and feeding a member from such a way closes no circle.

`Woven` is what construction keeps of the whole graph: only labels are fed by younger nodes, the graph has no circle that avoids
the joins with back edges, and a plain join is used only if it joins two ways at least (`Thin` says that it does not). The entry
of a `finally` suite is the exception; it stands in front of a join that is never finished.
-/

namespace ScopeFlow

namespace FlowStep

/-- Whether a node is a join with back edges. -/
def isLoop : FlowStep → Bool
  | loop _ => true
  | _ => false

/-- Whether a node is the entry of a `finally` suite by a return or an exception. -/
def isGate : FlowStep → Bool
  | gate .. => true
  | _ => false

@[simp] theorem isLoop_extend (s : FlowStep) (more : List FlowRef) : (s.extend more).isLoop = s.isLoop := by
  cases s <;> rfl

@[simp] theorem isGate_extend (s : FlowStep) (more : List FlowRef) : (s.extend more).isGate = s.isGate := by
  cases s <;> rfl

end FlowStep

namespace FlowGraph

variable {g g' : FlowGraph} {T U : FlowRef → Prop} {l r x : FlowRef} {i : Nat}

/-! ## Definitions -/

/-- Whether a place is a plain join of fewer than two ways. -/
def Thin (g : FlowGraph) (r : FlowRef) : Prop := ∃ id ants, g[r]? = some ⟨id, .branch ants⟩ ∧ ants.length < 2

/-- Whether a place is a join with back edges. -/
def IsLoop (g : FlowGraph) (r : FlowRef) : Prop := ∃ n, g[r]? = some n ∧ n.step.isLoop = true

/-- Whether a place feeds another one that is no join with back edges. -/
def Feeds (g : FlowGraph) (x r : FlowRef) : Prop :=
  ∃ n, g[r]? = some n ∧ n.step.isLoop = false ∧ x ∈ n.step.antecedents

/-- What construction keeps of the way in which nodes feed one another. -/
structure Woven (g : FlowGraph) : Prop where
  sentinel : g[0]? = some FlowGraph.sentinel
  bounded : ∀ (i : Nat) (n : FlowNode), g[i]? = some n → ∀ x ∈ n.step.antecedents, x < g.size
  older : ∀ (i : Nat) (n : FlowNode), g[i]? = some n → n.step.isLabel = false → ∀ x ∈ n.step.antecedents, x < i
  acyclic : ∀ r, ¬ Relation.TransGen g.Feeds r r
  joined : ∀ (i : Nat) (n : FlowNode), g[i]? = some n → n.step.isGate = false → ∀ x ∈ n.step.antecedents, ¬ g.Thin x

/-- A set of places under construction: what one of them feeds belongs to the set. -/
structure Barred (T : FlowRef → Prop) (g : FlowGraph) : Prop where
  within : ∀ r, T r → 0 < r ∧ r < g.size
  upward : ∀ (i : Nat) (n : FlowNode), g[i]? = some n → ∀ x ∈ n.step.antecedents, T x → T i

/-- A place that a way on may start from while a set of labels is under construction. -/
structure Passable (T : FlowRef → Prop) (g : FlowGraph) (r : FlowRef) : Prop where
  lt_size : r < g.size
  free : ¬ T r
  thick : ¬ g.Thin r

/-- A label that code may lead to while a set of labels is under construction. -/
def Open (T : FlowRef → Prop) (g : FlowGraph) (l : FlowRef) : Prop := T l ∨ g.IsLoop l

/-! ## Growth -/

theorem IsLoop.grow (h : g.IsLoop l) (hg : g.Grows g') : g'.IsLoop l := by
  obtain ⟨n, hn, hl⟩ := h
  obtain ⟨more, hm⟩ := hg l n hn
  exact ⟨_, hm, by simpa using hl⟩

theorem Open.grow (h : Open T g l) (hg : g.Grows g') : Open T g' l := h.imp_right fun hl => hl.grow hg

/-- A join that is thin was so before. -/
theorem Thin.shrink (h : g'.Thin r) (hg : g.Grows g') (hr : r < g.size) : g.Thin r := by
  obtain ⟨id, ants, hn, hlt⟩ := h
  obtain ⟨n, hn'⟩ := exists_node hr
  obtain ⟨more, hm⟩ := hg r n hn'
  obtain ⟨nid, step⟩ := n
  rw [hn] at hm
  have hstep : FlowStep.branch ants = step.extend more := congrArg FlowNode.step (Option.some.inj hm)
  cases step with
  | branch old =>
    have hants : ants = old ++ more := FlowStep.branch.inj hstep
    refine ⟨nid, old, hn', ?_⟩
    rw [hants, List.length_append] at hlt
    omega
  | _ => simp [FlowStep.extend] at hstep

theorem Passable.grow (h : Passable T g r) (hg : g.Grows g') : Passable T g' r :=
  ⟨h.lt_size.trans_le hg.size_le, h.free, fun ht => h.thick (ht.shrink hg h.lt_size)⟩

theorem Passable.mono (h : Passable T g r) (hU : ∀ r, U r → T r) : Passable U g r :=
    ⟨h.lt_size, fun hr => h.free (hU r hr), h.thick⟩

/-- The sentinel is no join. -/
theorem Woven.passable_zero (h : g.Woven) (hT : g.Barred T) : Passable T g 0 := by
  refine ⟨(Array.getElem?_eq_some_iff.1 h.sentinel).1, fun h0 => absurd (hT.within 0 h0).1 (lt_irrefl 0), ?_⟩
  rintro ⟨id, ants, hn, _⟩
  rw [h.sentinel] at hn
  cases hn

/-- A way that starts outside of a set under construction does not lead into it. -/
theorem Barred.of_reach (h : g.Barred T) (hp : Relation.ReflTransGen g.Feeds x r) (hx : T x) : T r := by
  induction hp with
  | refl => exact hx
  | tail _ hstep ih =>
    obtain ⟨n, hn, _, hmem⟩ := hstep
    exact h.upward _ n hn _ hmem ih

/-! ## A new node -/

theorem getElem?_push_cases {n m : FlowNode} (h : (g.push m)[i]? = some n) :
    g[i]? = some n ∨ i = g.size ∧ n = m := by
  rw [Array.getElem?_push] at h
  split at h
  · exact .inr ⟨by assumption, (Option.some.inj h).symm⟩
  · exact .inl h

theorem getElem?_push_old (m : FlowNode) (hi : i < g.size) : (g.push m)[i]? = g[i]? := by
  rw [Array.getElem?_push_lt hi]
  simp [hi]

/-- A way to an old place was there before the new node. -/
theorem Woven.reach_of_push (h : g.Woven) {m : FlowNode} (hp : Relation.TransGen (FlowGraph.Feeds (g.push m)) x r)
    (hr : r < g.size) : Relation.TransGen g.Feeds x r := by
  have hstep : ∀ {y z : FlowRef}, FlowGraph.Feeds (g.push m) y z → z < g.size → g.Feeds y z := by
    rintro y z ⟨n, hn, hloop, hmem⟩ hz
    rw [getElem?_push_old m hz] at hn
    exact ⟨n, hn, hloop, hmem⟩
  induction hp with
  | single h1 => exact .single (hstep h1 hr)
  | @tail y z _ h1 ih =>
    have hf := hstep h1 hr
    have hy : y < g.size := by
      obtain ⟨n, hn, _, hmem⟩ := hf
      exact h.bounded z n hn y hmem
    exact .tail (ih hy) hf

/-- A new node keeps the graph woven: a label has no antecedents yet, and any other node but the entry of a `finally` suite
comes after joins of two ways at least. -/
theorem Woven.push (h : g.Woven) {id : Int} {step : FlowStep} (hlt : ∀ x ∈ step.antecedents, x < g.size)
    (hthick : step.isGate = false → ∀ x ∈ step.antecedents, ¬ g.Thin x) : FlowGraph.Woven (g.push ⟨id, step⟩) := by
  have hgrow := Grows.push g ⟨id, step⟩
  have hpos : 0 < g.size := (Array.getElem?_eq_some_iff.1 h.sentinel).1
  have hold : ∀ x, x < g.size → ¬ g.Thin x → ¬ FlowGraph.Thin (g.push ⟨id, step⟩) x :=
    fun x hx hn ht => hn (ht.shrink hgrow hx)
  refine ⟨by rw [getElem?_push_old _ hpos]; exact h.sentinel, fun i n hn x hx => ?_, fun i n hn hl x hx => ?_, fun r hr => ?_,
    fun i n hn hgate x hx => ?_⟩
  · rw [Array.size_push]
    rcases getElem?_push_cases hn with hn | ⟨rfl, rfl⟩
    · exact (h.bounded i n hn x hx).trans (Nat.lt_succ_self _)
    · exact (hlt x hx).trans (Nat.lt_succ_self _)
  · rcases getElem?_push_cases hn with hn | ⟨rfl, rfl⟩
    · exact h.older i n hn hl x hx
    · exact hlt x hx
  · -- What is on a circle feeds something, and the new node feeds nothing.
    have hfed : ∀ y, FlowGraph.Feeds (g.push ⟨id, step⟩) r y → r < g.size := by
      rintro y ⟨n, hn, _, hmem⟩
      rcases getElem?_push_cases hn with hn | ⟨rfl, rfl⟩
      · exact h.bounded y n hn r hmem
      · exact hlt r hmem
    obtain ⟨y, hy, _⟩ := Relation.TransGen.head'_iff.1 hr
    exact h.acyclic r (h.reach_of_push hr (hfed y hy))
  · rcases getElem?_push_cases hn with hn | ⟨rfl, rfl⟩
    · exact hold x (h.bounded i n hn x hx) (h.joined i n hn hgate x hx)
    · exact hold x (hlt x hx) (hthick hgate x hx)

/-- A new node that comes after no member of a set under construction stands outside of it. -/
theorem Barred.push (h : g.Barred T) {m : FlowNode} (hm : ∀ x ∈ m.step.antecedents, ¬ T x) : FlowGraph.Barred T (g.push m) := by
  refine ⟨fun r hr => ⟨(h.within r hr).1, ?_⟩, fun i n hn x hx hT => ?_⟩
  · rw [Array.size_push]
    exact (h.within r hr).2.trans (Nat.lt_succ_self _)
  · rcases getElem?_push_cases hn with hn | ⟨rfl, rfl⟩
    · exact h.upward i n hn x hx hT
    · exact absurd hT (hm x hx)

/-! ## A new edge -/

theorem addAntecedent_cases {n : FlowNode} (h : (g.addAntecedent l r)[i]? = some n) :
    g[i]? = some n ∨ i = l ∧ ∃ m, g[i]? = some m ∧ n = ⟨m.id, m.step.extend [r]⟩ := by
  rw [addAntecedent_getElem?] at h
  split at h
  · rename_i hc
    obtain ⟨m, hm, rfl⟩ := Option.map_eq_some_iff.1 h
    exact .inr ⟨hc.1, m, hm, rfl⟩
  · exact .inl h

/-- An antecedent of a node after an edge was added was one before, or it is the new edge. -/
theorem mem_antecedents_addAntecedent {n : FlowNode} (hn : (g.addAntecedent l r)[i]? = some n)
    (hx : x ∈ n.step.antecedents) : ∃ m, g[i]? = some m ∧ n.id = m.id ∧ n.step.isLabel = m.step.isLabel ∧
      n.step.isGate = m.step.isGate ∧ n.step.isLoop = m.step.isLoop ∧
      (x ∈ m.step.antecedents ∨ i = l ∧ x = r ∧ m.step.isLabel = true) := by
  rcases addAntecedent_cases hn with hn | ⟨rfl, m, hm, rfl⟩
  · exact ⟨n, hn, rfl, rfl, rfl, rfl, .inl hx⟩
  · refine ⟨m, hm, rfl, by simp, by simp, by simp, ?_⟩
    rw [FlowStep.antecedents_extend, List.mem_append] at hx
    rcases hx with hx | hx
    · exact .inl hx
    · split at hx
      · rename_i hl
        exact .inr ⟨rfl, List.mem_singleton.1 hx, hl⟩
      · cases hx

/-- A way after an edge was added is an old one, or it is old up to the new edge and from there on. -/
theorem reach_of_addAntecedent {y z : FlowRef} (hp : Relation.TransGen (g.addAntecedent l r).Feeds y z) :
    Relation.TransGen g.Feeds y z ∨
      (g.addAntecedent l r).IsLoop l = False ∧ Relation.ReflTransGen g.Feeds y r ∧ Relation.ReflTransGen g.Feeds l z := by
  have hstep : ∀ {y z : FlowRef}, (g.addAntecedent l r).Feeds y z →
      g.Feeds y z ∨ (g.addAntecedent l r).IsLoop l = False ∧ y = r ∧ z = l := by
    rintro y z ⟨n, hn, hloop, hmem⟩
    obtain ⟨m, hm, _, _, _, hl, hold | ⟨rfl, rfl, _⟩⟩ := mem_antecedents_addAntecedent hn hmem
    · exact .inl ⟨m, hm, hl ▸ hloop, hold⟩
    · refine .inr ⟨eq_false ?_, rfl, rfl⟩
      rintro ⟨k, hk, hkl⟩
      rw [hn] at hk
      rw [← Option.some.inj hk, hloop] at hkl
      cases hkl
  induction hp with
  | single h1 =>
    rcases hstep h1 with h1 | ⟨hl, rfl, rfl⟩
    · exact .inl (.single h1)
    · exact .inr ⟨hl, .refl, .refl⟩
  | tail _ h1 ih =>
    rcases ih with ih | ⟨hl, hto, hfrom⟩
    · rcases hstep h1 with h1 | ⟨hl, rfl, rfl⟩
      · exact .inl (ih.tail h1)
      · exact .inr ⟨hl, ih.to_reflTransGen, .refl⟩
    · rcases hstep h1 with h1 | ⟨_, rfl, rfl⟩
      · exact .inr ⟨hl, hto, hfrom.tail h1⟩
      · exact .inr ⟨hl, hto, .refl⟩

/-- Feeding a label under construction from outside keeps the graph woven, and so does feeding a join with back edges. -/
theorem Woven.addAntecedent (h : g.Woven) (hT : g.Barred T) (hl : Open T g l) (hr : Passable T g r) :
    (g.addAntecedent l r).Woven := by
  have hgrow := Grows.addAntecedent g l r
  have hold : ∀ x, x < g.size → ¬ g.Thin x → ¬ (g.addAntecedent l r).Thin x := fun x hx hn ht => hn (ht.shrink hgrow hx)
  refine ⟨?_, fun i n hn x hx => ?_, fun i n hn hlab x hx => ?_, fun y hy => ?_, fun i n hn hgate x hx => ?_⟩
  · obtain ⟨more, hm⟩ := hgrow 0 _ h.sentinel
    exact hm
  · rw [size_addAntecedent]
    obtain ⟨m, hm, _, _, _, _, hx | ⟨_, rfl, _⟩⟩ := mem_antecedents_addAntecedent hn hx
    · exact h.bounded i m hm x hx
    · exact hr.lt_size
  · obtain ⟨m, hm, _, hlm, _, _, hx | ⟨_, _, hml⟩⟩ := mem_antecedents_addAntecedent hn hx
    · exact h.older i m hm (hlm ▸ hlab) x hx
    · rw [hlm, hml] at hlab
      cases hlab
  · rcases reach_of_addAntecedent hy with hy | ⟨hloop, hto, hfrom⟩
    · exact h.acyclic y hy
    · rcases hl with hl | hl
      · exact hr.free (hT.of_reach (hfrom.trans hto) hl)
      · exact hloop ▸ hl.grow hgrow
  · obtain ⟨m, hm, _, _, hgm, _, hx | ⟨_, rfl, _⟩⟩ := mem_antecedents_addAntecedent hn hx
    · exact hold x (h.bounded i m hm x hx) (h.joined i m hm (hgm ▸ hgate) x hx)
    · exact hold x hr.lt_size hr.thick

/-- An edge from outside of a set under construction adds nothing behind it. -/
theorem Barred.addAntecedent (h : g.Barred T) (hr : ¬ T r) : (g.addAntecedent l r).Barred T := by
  refine ⟨fun i hi => ?_, fun i n hn x hx hT => ?_⟩
  · rw [size_addAntecedent]
    exact h.within i hi
  · obtain ⟨m, hm, _, _, _, _, hx | ⟨_, rfl, _⟩⟩ := mem_antecedents_addAntecedent hn hx
    · exact h.upward i m hm x hx hT
    · exact absurd hT hr

/-! ## Labels are put under construction and finished -/

/-- A set of labels with some more. -/
def also (T : FlowRef → Prop) (ls : List FlowRef) : FlowRef → Prop := fun r => T r ∨ r ∈ ls

theorem subset_also {ls : List FlowRef} : ∀ r, T r → also T ls r := fun _ => .inl

theorem mem_also {ls : List FlowRef} (h : l ∈ ls) : also T ls l := .inr h

theorem also_subset {ls ms : List FlowRef} (h : ls ⊆ ms) : ∀ r, also T ls r → also T ms r := fun _ => Or.imp_right (h ·)

/-- A finished join that no set under construction holds is passable: it is thick, or its one antecedent stands in for it. -/
theorem Woven.passable_finish (h : g.Woven) (hT : g.Barred T) (hb : g.IsBranch l) (hl : ¬ T l) : Passable T g (g.finish l) := by
  obtain ⟨id, ants, hn⟩ := hb
  have hlt : l < g.size := (Array.getElem?_eq_some_iff.1 hn).1
  rw [finish_of_branch hn]
  match ants, hn with
  | [], _ => exact h.passable_zero hT
  | [x], hn =>
    have hx : x ∈ (FlowStep.branch [x]).antecedents := List.mem_singleton_self x
    exact ⟨h.bounded l _ hn x hx, fun hTx => hl (hT.upward l _ hn x hx hTx), h.joined l _ hn rfl x hx⟩
  | x :: y :: rest, hn =>
    refine ⟨hlt, hl, ?_⟩
    rintro ⟨id', ants', hn', hshort⟩
    rw [hn] at hn'
    cases hn'
    simp at hshort

end FlowGraph

namespace Bind

open FlowGraph

variable {ω : Type} {α β : Type} {T U : FlowRef → Prop} {s t s' : State ω}

/-! ## The state -/

/-- What holds of every state while a set of labels is under construction. -/
structure Tidy (T : FlowRef → Prop) (s : State ω) : Prop where
  woven : s.graph.Woven
  barred : s.graph.Barred T
  current : Passable T s.graph s.current
  stamps : ∀ (m : Moment) (i : Nat) (r : FlowRef), (s.factsAt i).stamp? m = some r → r < s.graph.size ∧ ¬ s.graph.Thin r

/-- What a run of steps does to a tidy state. Fewer labels than those under construction stay under construction as well. -/
structure Weaves (T : FlowRef → Prop) (s s' : State ω) : Prop where
  tidy : Tidy T s'
  grows : s.graph.Grows s'.graph
  barred : ∀ U : FlowRef → Prop, (∀ r, U r → T r) → s.graph.Barred U → s'.graph.Barred U

theorem Weaves.refl (h : Tidy T s) : Weaves T s s := ⟨h, Grows.refl _, fun _ _ hU => hU⟩

theorem Weaves.trans (h : Weaves T s t) (h' : Weaves T t s') : Weaves T s s' :=
  ⟨h'.tidy, h.grows.trans h'.grows, fun U hU hs => h'.barred U hU (h.barred U hU hs)⟩

/-- What a run does while labels are under construction it does also when only some of them are. -/
theorem Weaves.lower (h : Weaves T s s') (hU : ∀ r, U r → T r) (hs : Tidy U s) : Weaves U s s' :=
  ⟨⟨h.tidy.woven, h.barred U hU hs.barred, h.tidy.current.mono hU, h.tidy.stamps⟩, h.grows,
    fun V hV hb => h.barred V (fun r hr => hU r (hV r hr)) hb⟩

section

variable (h : Tidy T s)
include h

/-- A quiet step keeps a state tidy. -/
theorem Weaves.ofQuiet (hq : Quiet s s') : Weaves T s s' := by
  refine ⟨⟨hq.graph ▸ h.woven, hq.graph ▸ h.barred, hq.graph ▸ hq.current ▸ h.current, fun m i r hr => ?_⟩,
    hq.graph ▸ Grows.refl _, fun U _ hU => hq.graph ▸ hU⟩
  rw [hq.stamp m i] at hr
  rw [hq.graph]
  exact h.stamps m i r hr

/-- A change of what is known of a node keeps a state tidy if what it stamps is no thin join. -/
theorem modifyFacts_weaves {node : Nat} {f : NodeFacts → NodeFacts}
    (hf : ∀ x m, (f x).stamp? m = x.stamp? m ∨ ∃ r, (f x).stamp? m = some r ∧ r < s.graph.size ∧ ¬ s.graph.Thin r) {x : Unit}
    (hrun : (modifyFacts node f : BindM ω Unit).run s = .ok x s') : Weaves T s s' ∧ s'.current = s.current := by
  obtain rfl := modifyFacts_ok.1 hrun
  refine ⟨⟨⟨h.woven, h.barred, h.current, fun m i r hr => ?_⟩, Grows.refl _, fun _ _ hU => hU⟩, rfl⟩
  rw [State.factsAt_modify] at hr
  split at hr
  · rcases hf (s.factsAt i) m with he | ⟨r', hr', hk⟩
    · exact h.stamps m i r (he ▸ hr)
    · obtain rfl : r' = r := Option.some.inj (hr'.symm.trans hr)
      exact hk
  · exact h.stamps m i r hr

/-! ## Nodes, edges and the current place -/

/-- A new node keeps a state tidy. A label has no antecedents yet. -/
theorem newNode_weaves {step : FlowStep} (hlt : ∀ x ∈ step.antecedents, x < s.graph.size ∧ ¬ T x)
    (hthick : step.isGate = false → ∀ x ∈ step.antecedents, ¬ s.graph.Thin x) {ref : FlowRef}
    (hrun : (newNode step : BindM ω FlowRef).run s = .ok ref s') :
    Weaves T s s' ∧ s'.current = s.current ∧ ref = s.graph.size ∧ ∃ id, s'.graph = s.graph.push ⟨id, step⟩ := by
  obtain ⟨rfl, rfl⟩ := newNode_ok.1 hrun
  have hgrow := Grows.push s.graph ⟨s.store.nextFlowId, step⟩
  refine ⟨⟨⟨h.woven.push (fun x hx => (hlt x hx).1) hthick, h.barred.push fun x hx => (hlt x hx).2, h.current.grow hgrow,
    fun m i r hr => ?_⟩, hgrow, fun U hU hb => hb.push fun x hx hUx => (hlt x hx).2 (hU x hUx)⟩, rfl, rfl, _, rfl⟩
  have hk := h.stamps m i r hr
  exact ⟨hk.1.trans_le hgrow.size_le, fun ht => hk.2 (ht.shrink hgrow hk.1)⟩

/-- Leading from a passable place to an open label keeps a state tidy. -/
theorem link_weaves {l ref : FlowRef} (hl : Open T s.graph l) (hr : Passable T s.graph ref) {x : Unit}
    (hrun : (link l ref : BindM ω Unit).run s = .ok x s') : Weaves T s s' ∧ s'.current = s.current := by
  obtain rfl := link_ok.1 hrun
  split
  · exact ⟨.refl h, rfl⟩
  · have hgrow := Grows.addAntecedent s.graph l ref
    refine ⟨⟨⟨h.woven.addAntecedent h.barred hl hr, h.barred.addAntecedent hr.free, h.current.grow hgrow, fun m i r hr => ?_⟩,
      hgrow, fun U hU hb => hb.addAntecedent fun hUr => hr.free (hU _ hUr)⟩, rfl⟩
    have hk := h.stamps m i r hr
    exact ⟨hk.1.trans_le hgrow.size_le, fun ht => hk.2 (ht.shrink hgrow hk.1)⟩

theorem setCurrent_weaves {ref : FlowRef} (hr : Passable T s.graph ref) {x : Unit}
    (hrun : (setCurrent ref : BindM ω Unit).run s = .ok x s') : Weaves T s s' := by
  obtain rfl := setCurrent_ok.1 hrun
  exact ⟨⟨h.woven, h.barred, hr, h.stamps⟩, Grows.refl _, fun _ _ hU => hU⟩

theorem setDead_weaves {x : Unit} (hrun : (setDead : BindM ω Unit).run s = .ok x s') : Weaves T s s' :=
  setCurrent_weaves h (h.woven.passable_zero h.barred) hrun

/-- Going on behind a join that is no longer under construction keeps a state tidy. -/
theorem finish_weaves {l : FlowRef} (hb : s.graph.IsBranch l) (hl : ¬ T l) {x : Unit}
    (hrun : (finish l : BindM ω Unit).run s = .ok x s') : Weaves T s s' := by
  obtain rfl := finish_ok.1 hrun
  exact ⟨⟨h.woven, h.barred, h.woven.passable_finish h.barred hb hl, h.stamps⟩, Grows.refl _, fun _ _ hU => hU⟩

end

end Bind

end ScopeFlow
