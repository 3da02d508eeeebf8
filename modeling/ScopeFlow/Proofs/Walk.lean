import ScopeFlow.Proofs.Growth

/-!
# The backward walk decides reachability

`reachFrom` walks backwards with a bound that counts edges. The bound suffices: a place is put on the stack once for each
edge, and the edges of a node are followed once (`openEdges`). So a walk that ends without an answer has seen everything
that leads to its stack, and no goal can be reached from it (`not_leads_of_reachFrom`); and an answer is never wrong.
-/

namespace ScopeFlow.FlowGraph

variable {g : FlowGraph} {seen : List Int} {source : Option FlowRef}

/-- The places from which the sources lead back to a goal, and not through code that cannot run. -/
inductive Leads (g : FlowGraph) (source : Option FlowRef) : FlowRef → Prop where
  | goal {r : FlowRef} : (g.nodeAt r).step.isUnreachable = false → g.isGoal source r = true → Leads g source r
  | step {r x : FlowRef} : (g.nodeAt r).step.isUnreachable = false → x ∈ (g.nodeAt r).step.sources → Leads g source x →
    Leads g source r

/-- Places that a walk keeps to: no two of them that can run have one number. -/
structure Distinct (g : FlowGraph) (P : FlowRef → Prop) : Prop where
  sources : ∀ x, P x → ∀ y ∈ (g.nodeAt x).step.sources, P y
  eq_of_idAt : ∀ x y, P x → P y → g.idAt x = g.idAt y → (g.nodeAt y).step.isUnreachable = false → x = y

theorem Numbered.distinct (h : Numbered g) : Distinct g fun _ => True where
  sources _ _ _ _ := trivial
  eq_of_idAt x y _ _ hid hy := by
    cases hm : g[y]? with
    | none => simp [nodeAt, hm, FlowGraph.sentinel, FlowStep.isUnreachable] at hy
    | some m =>
      have hmid : g.nodeAt y = m := by simp [nodeAt, hm]
      rw [idAt, idAt, hmid] at hid
      cases hn : g[x]? with
      | none =>
        -- A place that does not exist reads as the sentinel, so the other one is the sentinel.
        obtain rfl := h.id_inj hm h.sentinel (by simpa [nodeAt, hn] using hid.symm)
        rw [hmid, Option.some.inj (hm.symm.trans h.sentinel)] at hy
        cases hy
      | some n => exact h.id_inj hn hm (by simpa [nodeAt, hn] using hid)

namespace WalkAux

/-- The number of edges of those nodes whose number has not been seen. -/
def openEdges (seen : List Int) : List FlowNode → Nat
  | [] => 0
  | n :: nodes => (if n.id ∈ seen then 0 else n.step.antecedents.length) + openEdges seen nodes

theorem openEdges_nil (nodes : List FlowNode) :
    openEdges [] nodes = nodes.foldr (fun n total => n.step.antecedents.length + total) 0 := by
  induction nodes with
  | nil => rfl
  | cons n nodes ih => simp [openEdges, ih]

/-- Seeing a number closes edges. -/
theorem openEdges_cons_le (nodes : List FlowNode) (id : Int) (seen : List Int) :
    openEdges (id :: seen) nodes ≤ openEdges seen nodes := by
  induction nodes with
  | nil => exact le_refl _
  | cons n nodes ih =>
    simp only [openEdges]
    refine Nat.add_le_add ?_ ih
    by_cases hn : n.id ∈ seen
    · simp [hn]
    · by_cases hid : n.id = id <;> simp [hn, hid]

/-- Seeing a node for the first time closes its edges. -/
theorem openEdges_cons_of_mem {nodes : List FlowNode} {n : FlowNode} (hn : n ∈ nodes)
    (hs : n.id ∉ seen) :
    openEdges (n.id :: seen) nodes + n.step.antecedents.length ≤ openEdges seen nodes := by
  induction nodes with
  | nil => cases hn
  | cons m nodes ih =>
    have hle := openEdges_cons_le nodes n.id seen
    simp only [openEdges]
    rcases List.mem_cons.1 hn with rfl | hn
    · simp only [List.mem_cons, true_or, if_true, hs, if_false]
      omega
    · have := ih hn
      by_cases hm : m.id ∈ seen
      · simp only [List.mem_cons, hm, or_true, if_true]
        omega
      · by_cases hid : m.id = n.id
        · simp only [List.mem_cons, hid, true_or, if_true, hs, if_false]
          omega
        · simp only [List.mem_cons, hid, hm, or_self, if_false]
          omega

/-- Whether a place waits on the stack or has been seen. -/
def Met (g : FlowGraph) (stack : List FlowRef) (seen : List Int) (x : FlowRef) : Prop := x ∈ stack ∨ g.idAt x ∈ seen

/-- What has been seen and can run is no goal, and what leads to it has been met. -/
def Closed (g : FlowGraph) (P : FlowRef → Prop) (source : Option FlowRef) (stack : List FlowRef) (seen : List Int) : Prop :=
  ∀ x, P x → g.idAt x ∈ seen → (g.nodeAt x).step.isUnreachable = false →
    g.isGoal source x = false ∧ ∀ y ∈ (g.nodeAt x).step.sources, Met g stack seen y

variable {g : FlowGraph} {P : FlowRef → Prop} {source : Option FlowRef}

/-- If nothing waits, what has been seen leads to no goal. -/
theorem not_leads_of_closed (hg : Distinct g P) (hc : Closed g P source [] seen) {x : FlowRef} (hp : P x)
    (hx : g.idAt x ∈ seen) : ¬ Leads g source x := by
  intro hl
  induction hl with
  | goal hr hgoal =>
    rw [(hc _ hp hx hr).1] at hgoal
    cases hgoal
  | step hr hy _ ih =>
    rcases (hc _ hp hx hr).2 _ hy with hmet | hmet
    · cases hmet
    · exact ih (hg.sources _ hp _ hy) hmet

/-- What was met before a step is met after it, whatever is put on the stack. -/
theorem Met.next {ref : FlowRef} {stack : List FlowRef} (top : List FlowRef) {seen' : List Int} (hsub : seen ⊆ seen')
    (href : g.idAt ref ∈ seen') {y : FlowRef} (h : Met g (ref :: stack) seen y) : Met g (top ++ stack) seen' y := by
  rcases h with hy | hy
  · rcases List.mem_cons.1 hy with rfl | hy
    · exact .inr href
    · exact .inl (List.mem_append_right _ hy)
  · exact .inr (hsub hy)

theorem Closed.next {ref : FlowRef} {stack : List FlowRef} (h : Closed g P source (ref :: stack) seen)
    (top : List FlowRef) {seen' : List Int} (hsub : seen ⊆ seen') (href : g.idAt ref ∈ seen')
    (hnew : ∀ x, P x → g.idAt x ∈ seen' → g.idAt x ∉ seen → (g.nodeAt x).step.isUnreachable = false →
      g.isGoal source x = false ∧ ∀ y ∈ (g.nodeAt x).step.sources, y ∈ top) : Closed g P source (top ++ stack) seen' := by
  intro x hp hx hlive
  by_cases hold : g.idAt x ∈ seen
  · exact ⟨(h x hp hold hlive).1, fun y hy => ((h x hp hold hlive).2 y hy).next top hsub href⟩
  · exact ⟨(hnew x hp hx hold hlive).1, fun y hy => .inl (List.mem_append_left _ ((hnew x hp hx hold hlive).2 y hy))⟩

end WalkAux

open WalkAux

/-- A walk within its bound that meets no goal has met no place that leads to one. -/
theorem not_leads_of_reachFrom {P : FlowRef → Prop} (hg : Distinct g P) (bound : Nat) :
    ∀ (stack : List FlowRef) (seen : List Int), g.reachFrom source bound stack seen = false →
      stack.length + openEdges seen g.toList ≤ bound → (∀ x ∈ stack, P x) → Closed g P source stack seen →
      ∀ x, P x → Met g stack seen x → ¬ Leads g source x := by
  induction bound with
  | zero =>
    intro stack seen _ hb _ hc x hp hx
    obtain rfl : stack = [] := List.eq_nil_of_length_eq_zero (by omega)
    exact not_leads_of_closed hg hc hp (hx.resolve_left (by simp))
  | succ bound ih =>
    intro stack seen hwalk hb hstack hc x hp hx
    cases stack with
    | nil => exact not_leads_of_closed hg hc hp (hx.resolve_left (by simp))
    | cons ref stack =>
      obtain ⟨hpref, hstack⟩ := List.forall_mem_cons.1 hstack
      simp only [reachFrom] at hwalk
      simp only [List.length_cons] at hb
      split at hwalk
      · rename_i hseen
        have href : g.idAt ref ∈ seen := by simpa [idAt] using hseen
        exact ih stack seen hwalk (by omega) hstack (hc.next [] (List.Subset.refl _) href fun x _ hx hold => absurd hx hold) x hp
          (hx.next [] (List.Subset.refl _) href)
      · rename_i hseen
        have hnew : g.idAt ref ∉ seen := by simpa [idAt] using hseen
        have hsub : seen ⊆ g.idAt ref :: seen := fun y hy => List.mem_cons_of_mem _ hy
        have hself : g.idAt ref ∈ g.idAt ref :: seen := List.mem_cons_self
        split at hwalk
        · rename_i hdead
          refine ih stack (g.idAt ref :: seen) hwalk ?_ hstack (hc.next [] hsub hself fun y hpy hy hold hlive => ?_) x hp
            (hx.next [] hsub hself)
          · have := openEdges_cons_le g.toList (g.idAt ref) seen
            omega
          · obtain rfl := hg.eq_of_idAt _ _ hpref hpy ((List.mem_cons.1 hy).resolve_right hold).symm hlive
            rw [hdead] at hlive
            cases hlive
        · rename_i hlive
          split at hwalk
          · cases hwalk
          · rename_i hgoal
            refine ih _ (g.idAt ref :: seen) hwalk ?_ (fun y hy => ?_) (hc.next _ hsub hself fun y hpy hy hold _ => ?_) x hp
              (hx.next _ hsub hself)
            · cases hm : g[ref]? with
              | none => simp [nodeAt, hm, sentinel, FlowStep.isUnreachable] at hlive
              | some m =>
                have hnode : g.nodeAt ref = m := by simp [nodeAt, hm]
                have hlen : m.step.sources.length ≤ m.step.antecedents.length := by
                  cases m.step <;> simp [FlowStep.sources, FlowStep.antecedents]
                have hmem : m ∈ g.toList := Array.mem_toList_iff.2 (Array.mem_of_getElem? hm)
                rw [idAt, hnode] at hnew ⊢
                have := openEdges_cons_of_mem hmem hnew
                simp only [List.length_append, List.length_reverse]
                omega
            · rcases List.mem_append.1 hy with hy | hy
              · exact hg.sources _ hpref _ (List.mem_reverse.1 hy)
              · exact hstack y hy
            · obtain rfl := hg.eq_of_idAt _ _ hpy hpref ((List.mem_cons.1 hy).resolve_right hold) (by simpa using hlive)
              exact ⟨by simpa using hgoal, fun z hz => List.mem_reverse.2 hz⟩

/-- A walk that ends with an answer has met a place that leads to a goal. -/
theorem leads_of_reachFrom (bound : Nat) :
    ∀ (stack : List FlowRef) (seen : List Int), g.reachFrom source bound stack seen = true → ∃ x ∈ stack, Leads g source x := by
  induction bound with
  | zero =>
    intro stack seen h
    cases h
  | succ bound ih =>
    intro stack seen h
    cases stack with
    | nil => cases h
    | cons ref stack =>
      simp only [reachFrom] at h
      have hlater : ∀ seen, g.reachFrom source bound stack seen = true → ∃ x ∈ ref :: stack, Leads g source x := fun seen h => by
        obtain ⟨x, hx, hl⟩ := ih stack seen h
        exact ⟨x, List.mem_cons_of_mem _ hx, hl⟩
      split at h
      · exact hlater _ h
      · split at h
        · exact hlater _ h
        · rename_i hlive
          have hlive : (g.nodeAt ref).step.isUnreachable = false := by simpa using hlive
          split at h
          · rename_i hgoal
            exact ⟨ref, List.mem_cons_self, .goal hlive hgoal⟩
          · obtain ⟨x, hx, hl⟩ := ih _ _ h
            rcases List.mem_append.1 hx with hx | hx
            · exact ⟨ref, List.mem_cons_self, .step hlive (List.mem_reverse.1 hx) hl⟩
            · exact ⟨x, List.mem_cons_of_mem _ hx, hl⟩

/-- Every bound above the number of edges lets the walk find what leads to a goal. -/
theorem reachFrom_of_leads {P : FlowRef → Prop} (hg : Distinct g P) {r : FlowRef}
    (hp : P r) (h : Leads g source r) {bound : Nat} (hb : g.edgeCount < bound) : g.reachFrom source bound [r] [] = true := by
  by_contra hf
  refine not_leads_of_reachFrom hg _ [r] [] (by simpa using hf) ?_ (by simpa using hp) (fun _ _ hy => by cases hy) r hp
    (.inl List.mem_cons_self) h
  rw [openEdges_nil, List.length_singleton, Nat.add_comm]
  exact hb

/-- Whether the nodes of a graph have numbers of their own and their antecedents are places of the graph. -/
structure Proper (g : FlowGraph) : Prop where
  id_inj : ∀ i < g.size, ∀ j < g.size, g.idAt i = g.idAt j → i = j
  bounded : ∀ r, ∀ x ∈ (g.nodeAt r).step.antecedents, x < g.size

/-- A place of a graph is reachable exactly if its sources lead back to a goal, whatever circles the graph has. The bound of
the walk is never met: a larger one changes no answer. -/
theorem isReachable_iff_leads {g : FlowGraph} (hg : g.Proper) {r : FlowRef} (hr : r < g.size) (source : Option FlowRef) :
    (g.isReachable r source = true ↔ Leads g source r) ∧
      ∀ bound, g.edgeCount < bound → g.reachFrom source bound [r] [] = g.isReachable r source := by
  have hdistinct : Distinct g (· < g.size) := by
    refine ⟨fun x _ y hy => hg.bounded x y ?_, fun x y hx hy hid _ => hg.id_inj x hx y hy hid⟩
    cases hstep : (g.nodeAt x).step <;> simp_all [FlowStep.sources, FlowStep.antecedents]
  have hwalk : ∀ bound, g.edgeCount < bound → (g.reachFrom source bound [r] [] = true ↔ Leads g source r) := by
    refine fun bound hb => ⟨fun h => ?_, fun h => reachFrom_of_leads hdistinct hr h hb⟩
    obtain ⟨x, hx, hl⟩ := leads_of_reachFrom _ [r] [] h
    exact List.mem_singleton.1 hx ▸ hl
  have hself := hwalk (g.edgeCount + 1) (Nat.lt_succ_self _)
  exact ⟨hself, fun bound hb => Bool.eq_iff_iff.2 ((hwalk bound hb).trans hself.symm)⟩

/-- A loop with an assignment in it, behind the entry. -/
def sampleBack : FlowGraph := #[sentinel, ⟨1, .start⟩, ⟨2, .loop [1, 3]⟩, ⟨3, .assign none "x" 2 none false⟩]

theorem sampleBack_reachable : sampleBack.Proper ∧ Leads sampleBack none 3 := by
  have hproper : sampleBack.Proper := by
    refine ⟨by decide, fun r x hx => ?_⟩
    match r with
    | 0 | 1 => cases hx
    | 2 | 3 =>
      revert x
      decide
    | r + 4 => simp [sampleBack, nodeAt, sentinel, FlowStep.antecedents] at hx
  exact ⟨hproper, (isReachable_iff_leads hproper (by decide) none).1.1 (by decide)⟩

/-- A rooted place is reachable. -/
theorem isReachable_of_rooted (hg : Numbered g) {r : FlowRef} (h : Rooted false g r) :
    g.isReachable r = true := by
  refine reachFrom_of_leads hg.distinct trivial ?_ (Nat.lt_succ_self _)
  induction h with
  | @start r n hn hs =>
    have hnode : g.nodeAt r = n := by simp [nodeAt, hn]
    refine .goal ?_ (by simpa [isGoal, hnode] using hs)
    rw [hnode]
    cases hstep : n.step <;> simp_all [FlowStep.isStart, FlowStep.isUnreachable]
  | passage hl _ _ => cases hl
  | @step r y n hn hy _ ih =>
    have hnode : g.nodeAt r = n := by simp [nodeAt, hn]
    refine .step ?_ (hnode ▸ hy) ih
    rw [hnode]
    cases hstep : n.step <;> simp_all [FlowStep.sources, FlowStep.antecedents, FlowStep.isUnreachable]

end ScopeFlow.FlowGraph
