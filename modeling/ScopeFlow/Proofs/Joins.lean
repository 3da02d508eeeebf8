import ScopeFlow.Proofs.FlowGraphs
import ScopeFlow.Proofs.ThreadStmts

/-!
# Joins and circles of the flow graph

Two properties of the graph that binding leaves. A plain join that shows joins two ways at least, unless it stands only in
front of the entry of a `finally` suite. And control goes around in a circle only through a loop: numbers go up along every
edge into a node that is no label, and a circle of antecedents passes a join with back edges.
-/

namespace ScopeFlow

namespace FlowGraph

variable {g : FlowGraph} {r x : FlowRef}

theorem getElem?_of_mem_antecedents (h : x ∈ (g.nodeAt r).step.antecedents) : g[r]? = some (g.nodeAt r) := by
  cases hr : g[r]? with
  | some n => rw [nodeAt_eq hr]
  | none => simp [nodeAt, hr, sentinel, FlowStep.antecedents] at h

/-- Only a plain join has the flag of plain joins and no other. -/
theorem branch_of_flags (h : (g.nodeAt r).step.flags = [("BRANCH_LABEL", 0x4)]) :
    ∃ id ants, g[r]? = some ⟨id, .branch ants⟩ ∧ (g.nodeAt r).step.antecedents = ants := by
  cases hr : g[r]? with
  | none => simp [nodeAt, hr, sentinel, FlowStep.flags] at h
  | some n =>
    rw [nodeAt_eq hr] at h ⊢
    obtain ⟨id, step⟩ := n
    cases step with
    | branch ants => exact ⟨id, ants, rfl, rfl⟩
    | condition kind => cases kind <;> simp [FlowStep.flags] at h
    | _ => simp [FlowStep.flags] at h

theorem flags_of_isLoop {step : FlowStep} (h : step.isLoop = true) : ("LOOP_LABEL", 0x8) ∈ step.flags := by
  cases step <;> simp_all [FlowStep.isLoop, FlowStep.flags]

/-- A circle of antecedents passes a join with back edges. -/
theorem Woven.loop_of_cycle (hg : g.Woven) {c : Cycle FlowRef} (hne : c ≠ Cycle.nil)
    (hc : c.Chain fun y x => x ∈ (g.nodeAt y).step.antecedents) : ∃ r ∈ c, (g.nodeAt r).step.isLoop = true := by
  by_contra hno
  have hplain : ∀ r ∈ c, (g.nodeAt r).step.isLoop = false := fun r hr => by
    simpa using fun hloop => hno ⟨r, hr, hloop⟩
  induction c using Cycle.induction_on with
  | nil => exact hne rfl
  | cons a l _ =>
    rw [Cycle.chain_coe_cons] at hc
    -- Each step of the circle is an edge that acyclicity speaks of.
    have hstep : List.IsChain (fun y x => Relation.TransGen g.Feeds x y) (a :: (l ++ [a])) := by
      refine hc.imp_of_mem_imp fun y x hy _ hx => .single ⟨_, getElem?_of_mem_antecedents hx, hplain y ?_, hx⟩
      simp only [List.mem_cons, List.mem_append, List.not_mem_nil, or_false] at hy
      simp only [Cycle.mem_coe_iff, List.mem_cons]
      tauto
    have : Trans (fun y x => Relation.TransGen g.Feeds x y) (fun y x => Relation.TransGen g.Feeds x y)
        (fun y x => Relation.TransGen g.Feeds x y) := ⟨fun h h' => h'.trans h⟩
    exact hg.acyclic a (hstep.rel_cons (by simp))

end FlowGraph

namespace Bind

open FlowGraph

variable {ω : Type} {u : Setup ω} {m : Module} {store : Store} {world : ω} {results : BindResults} {s' : State ω}

/-- What construction leaves: a tidy state in which numbers go up and labels have no antecedent twice. -/
theorem bindModule_tidy (hu : u.Steady) (ho : u.outline = Outline.ofModule m) (hid : 0 < store.nextFlowId)
    (h : bindModule u m store world = (.ok results, s')) :
    Tidy (fun _ => False) s' ∧ ∃ a, s'.graph.Formed true a := by
  obtain ⟨phases, t, hphases, hquiet⟩ := bindTree_phases hu ho rfl (bindTree_of_bindModule h)
  have hm : NodeTree.AllIn (Node.Fits true fun _ => True) (Stmt.trees m.body) := fun _ _ => ⟨trivial, .inl rfl⟩
  obtain ⟨hkept, _⟩ := hphases.builds hu hid hm
  exact ⟨(Weaves.ofQuiet (hphases.tidy hu) hquiet).tidy, _, hquiet.graph ▸ hkept.settled.formed⟩

/-- Whether a place shows: it is in the backward closure of a stamp. -/
def State.Shows (s : State ω) (r : FlowRef) : Prop :=
  ∃ moment node stamp, (s.factsAt node).stamp? moment = some stamp ∧ s.graph.LeadsTo r stamp

/-- Only the entries of `finally` suites come right after a thin join. -/
theorem Tidy.gate_of_thin {T : FlowRef → Prop} (ht : Tidy T s') {r y : FlowRef} (hr : s'.graph.Thin r)
    (hy : r ∈ (s'.graph.nodeAt y).step.antecedents) : (s'.graph.nodeAt y).step.flags = [("PRE_FINALLY_GATE", 0x400)] := by
  have hgate : (s'.graph.nodeAt y).step.isGate = true := by
    by_contra hno
    exact ht.woven.joined y _ (getElem?_of_mem_antecedents hy) (by simpa using hno) r hy hr
  cases hstep : (s'.graph.nodeAt y).step <;> simp_all [FlowStep.isGate, FlowStep.flags]

/-- A plain join that shows has two antecedents at least, with distinct numbers and at most one of them the sentinel, unless it
shows only as the antecedent of entries of `finally` suites. -/
theorem shown_join_collapsed (hu : u.Steady) (ho : u.outline = Outline.ofModule m) (hid : 0 < store.nextFlowId)
    (h : bindModule u m store world = (.ok results, s')) (r : FlowRef) (hr : s'.Shows r)
    (hflags : (s'.graph.nodeAt r).step.flags = [("BRANCH_LABEL", 0x4)]) :
    (2 ≤ (s'.graph.nodeAt r).step.antecedents.length ∧ ((s'.graph.nodeAt r).step.antecedents.map s'.graph.idAt).Nodup ∧
      ((s'.graph.nodeAt r).step.antecedents.filter fun x => (s'.graph.nodeAt x).step.isUnreachable).length ≤ 1) ∨
    ((∀ moment node, (s'.factsAt node).stamp? moment ≠ some r) ∧
      (∃ y, s'.Shows y ∧ r ∈ (s'.graph.nodeAt y).step.antecedents) ∧
      ∀ y, s'.Shows y → r ∈ (s'.graph.nodeAt y).step.antecedents →
        (s'.graph.nodeAt y).step.flags = [("PRE_FINALLY_GATE", 0x400)]) := by
  obtain ⟨htidy, a, hformed⟩ := bindModule_tidy hu ho hid h
  obtain ⟨id, ants, hn, hants⟩ := branch_of_flags hflags
  rw [hants]
  by_cases hlen : 2 ≤ ants.length
  · have hnode : ∀ x ∈ ants, ∃ n, s'.graph[x]? = some n := fun x hx => exists_node (htidy.woven.bounded r _ hn x hx)
    have hnodup : ants.Nodup := hformed.nodup r _ hn rfl
    have hdead : ∀ x ∈ ants.filter fun x => (s'.graph.nodeAt x).step.isUnreachable, x = 0 := by
      intro x hx
      obtain ⟨hmem, hx⟩ := List.mem_filter.1 hx
      obtain ⟨n, hxn⟩ := hnode x hmem
      rw [nodeAt_eq hxn] at hx
      exact hformed.living x n hxn hx
    refine .inl ⟨hlen, hnodup.map_on fun x hx y hy he => ?_, ?_⟩
    · obtain ⟨n, hxn⟩ := hnode x hx
      obtain ⟨k, hyk⟩ := hnode y hy
      rw [idAt, idAt, nodeAt_eq hxn, nodeAt_eq hyk] at he
      exact hformed.toNumbered.id_inj hxn hyk he
    · have hcount := List.nodup_iff_count_le_one.1 (hnodup.filter fun x => (s'.graph.nodeAt x).step.isUnreachable) 0
      rwa [List.count_eq_length.2 fun x hx => (hdead x hx).symm] at hcount
  · have hthin : s'.graph.Thin r := ⟨id, ants, hn, Nat.not_le.1 hlen⟩
    have hstamp : ∀ moment node, (s'.factsAt node).stamp? moment ≠ some r :=
      fun moment node hs => (htidy.stamps moment node r hs).2 hthin
    refine .inr ⟨hstamp, ?_, fun y _ hy => htidy.gate_of_thin hthin hy⟩
    obtain ⟨moment, node, stamp, hs, hlead⟩ := hr
    rcases Relation.ReflTransGen.cases_head hlead with rfl | ⟨y, hy, hrest⟩
    · exact absurd hs (hstamp moment node)
    · exact ⟨y, ⟨moment, node, stamp, hs, hrest⟩, hy⟩

/-- Behind the loop two ways meet, and the label in front of the entry of the `finally` suite, which has one antecedent, shows
only there. -/
theorem sampleLoop_joins :
    let s := (bindModule (Setup.alone sampleLoop) sampleLoop {} ()).2
    ((s.graph.nodeAt 4).step.antecedents.map s.graph.idAt).Nodup ∧
      ∀ y, s.Shows y → 9 ∈ (s.graph.nodeAt y).step.antecedents →
        (s.graph.nodeAt y).step.flags = [("PRE_FINALLY_GATE", 0x400)] := by
  intro s
  obtain ⟨results, h⟩ := bindModule_of_isOk sampleLoop_isOk
  have hjoin : s.Shows 4 := ⟨.left, 1, 4, by decide +kernel, .refl⟩
  have hlabel : s.Shows 9 := ⟨.reached, 8, 10, by decide +kernel, .single (by decide +kernel)⟩
  have hlong : ¬ (s.factsAt 1).stamp? .left ≠ some 4 := by decide +kernel
  have hshort : ¬ 2 ≤ (s.graph.nodeAt 9).step.antecedents.length := by decide +kernel
  constructor
  · rcases shown_join_collapsed (Setup.alone_steady _) rfl (by decide) h 4 hjoin (by decide +kernel) with hthick | hthin
    · exact hthick.2.1
    · exact absurd (hthin.1 .left 1) hlong
  · rcases shown_join_collapsed (Setup.alone_steady _) rfl (by decide) h 9 hlabel (by decide +kernel) with hthick | hthin
    · exact absurd hthick.1 hshort
    · exact hthin.2.2

/-- Only loops make circles: a node that is no label has only antecedents with smaller numbers, the entry of the suite at the
end of a `finally` suite among them, and every circle of antecedents passes the label of a loop. -/
theorem cycle_passes_loop (hu : u.Steady) (ho : u.outline = Outline.ofModule m) (hid : 0 < store.nextFlowId)
    (h : bindModule u m store world = (.ok results, s')) :
    (∀ r, (s'.graph.nodeAt r).step.isLabel = false → ∀ x ∈ (s'.graph.nodeAt r).step.antecedents,
      s'.graph.idAt x < s'.graph.idAt r) ∧
    ∀ c : Cycle FlowRef, c ≠ Cycle.nil → c.Chain (fun y x => x ∈ (s'.graph.nodeAt y).step.antecedents) →
      ∃ r ∈ c, ("LOOP_LABEL", 0x8) ∈ (s'.graph.nodeAt r).step.flags := by
  obtain ⟨htidy, a, hformed⟩ := bindModule_tidy hu ho hid h
  refine ⟨fun r hlabel x hx => ?_, fun c hne hc => ?_⟩
  · have hr := getElem?_of_mem_antecedents hx
    have hlt : x < r := htidy.woven.older r _ hr hlabel x hx
    obtain ⟨n, hn⟩ := exists_node (htidy.woven.bounded r _ hr x hx)
    rw [idAt, idAt, nodeAt_eq hn]
    exact hformed.ascending x r n _ hlt hn hr
  · obtain ⟨r, hr, hloop⟩ := htidy.woven.loop_of_cycle hne hc
    exact ⟨r, hr, flags_of_isLoop hloop⟩

/-- A loop that goes around. -/
def sampleRound : Module :=
  Module.number { body := [.whileLoop {} (.name {} "x") [.assign {} [.name {} "y"] (.name {} "x")] []] }

theorem sampleRound_cycle :
    let s := (bindModule (Setup.alone sampleRound) sampleRound {} ()).2
    ∃ r ∈ (([5, 8, 6] : List FlowRef) : Cycle FlowRef), ("LOOP_LABEL", 0x8) ∈ (s.graph.nodeAt r).step.flags := by
  intro s
  have hok : (bindModule (Setup.alone sampleRound) sampleRound {} ()).1.isOk = true := by decide +kernel
  obtain ⟨results, h⟩ := bindModule_of_isOk hok
  refine (cycle_passes_loop (Setup.alone_steady _) rfl (by decide) h).2 _ (by decide) ?_
  rw [Cycle.chain_coe_cons]
  decide +kernel

end Bind

end ScopeFlow
