import Mathlib
import ScopeFlow.Flow.Reach

/-!
# How flow graphs grow

A graph under construction gains nodes at its end, and its labels gain antecedents; nothing else changes (`Grows`). What is
said of a place by its kind, by the antecedents a label has by now or by a way back to a start (`Rooted`) stays true.

`Formed` is what construction keeps: numbers ascend, only the sentinel stands for code that cannot run, the antecedents of a
label are the sentinel or rooted, and from a place on, which is where the graph of one execution scope begins, no node leads
back to an older one.
-/

namespace ScopeFlow

variable {g : FlowGraph} {lax : Bool} {a : Nat} {l r label ref : FlowRef}

namespace FlowStep

/-- Whether a node is a join, which may gain antecedents. -/
def isLabel : FlowStep → Bool
  | branch _ | loop _ | contextManager .. => true
  | _ => false

/-- Whether a node is the entry or the end of a `finally` suite, which stands for ways that are not laid out. -/
def isPassage : FlowStep → Bool
  | gate .. | postFinally .. => true
  | _ => false

/-- A label with further antecedents; any other node stays as it is. -/
def extend (s : FlowStep) (more : List FlowRef) : FlowStep :=
  match s with
  | branch ants => branch (ants ++ more)
  | loop ants => loop (ants ++ more)
  | contextManager es isAsync ants => contextManager es isAsync (ants ++ more)
  | step => step

theorem extend_nil (s : FlowStep) : s.extend [] = s := by cases s <;> simp [extend]

theorem extend_extend (s : FlowStep) (xs ys : List FlowRef) : (s.extend xs).extend ys = s.extend (xs ++ ys) := by
  cases s <;> simp [extend]

theorem addAntecedent_eq_extend (s : FlowStep) (ref : FlowRef) : s.addAntecedent ref = s.extend [ref] := by
  cases s <;> rfl

@[simp] theorem isLabel_extend (s : FlowStep) (more : List FlowRef) : (s.extend more).isLabel = s.isLabel := by
  cases s <;> rfl

@[simp] theorem isStart_extend (s : FlowStep) (more : List FlowRef) : (s.extend more).isStart = s.isStart := by
  cases s <;> rfl

@[simp] theorem isPassage_extend (s : FlowStep) (more : List FlowRef) : (s.extend more).isPassage = s.isPassage := by
  cases s <;> rfl

@[simp] theorem isUnreachable_extend (s : FlowStep) (more : List FlowRef) :
    (s.extend more).isUnreachable = s.isUnreachable := by
  cases s <;> rfl

/-- Only a label has more antecedents than before. -/
theorem antecedents_extend (s : FlowStep) (more : List FlowRef) :
    (s.extend more).antecedents = s.antecedents ++ if s.isLabel then more else [] := by
  cases s <;> simp [extend, antecedents, isLabel]

theorem mem_sources_extend {s : FlowStep} {more : List FlowRef} {x : FlowRef} (h : x ∈ s.sources) :
    x ∈ (s.extend more).sources := by
  cases s <;> simp_all [extend, sources, antecedents]

theorem sources_of_isLabel {s : FlowStep} (h : s.isLabel = true) : s.sources = s.antecedents := by
  cases s <;> simp_all [isLabel, sources]

end FlowStep

namespace FlowGraph

/-- A graph grows into another if every node is still there, and only labels have gained antecedents. -/
def Grows (g g' : FlowGraph) : Prop :=
  ∀ (i : Nat) (n : FlowNode), g[i]? = some n → ∃ more, g'[i]? = some (FlowNode.mk n.id (n.step.extend more))

theorem Grows.refl (g : FlowGraph) : Grows g g := by
  intro i n h
  exact ⟨[], by rw [FlowStep.extend_nil]; exact h⟩

@[grind →]
theorem Grows.trans {g g' g'' : FlowGraph} (h : Grows g g') (h' : Grows g' g'') : Grows g g'' := by
  intro i n hn
  obtain ⟨xs, hx⟩ := h i n hn
  obtain ⟨ys, hy⟩ := h' i _ hx
  exact ⟨xs ++ ys, by rw [hy, FlowStep.extend_extend]⟩

theorem Grows.push (g : FlowGraph) (n : FlowNode) : Grows g (g.push n) := by
  intro i m h
  have hi : i < g.size := (Array.getElem?_eq_some_iff.1 h).1
  refine ⟨[], ?_⟩
  rw [FlowStep.extend_nil, Array.getElem?_push_lt hi]
  simpa [hi] using h

/-- The node at a place after a label gained an antecedent. -/
theorem addAntecedent_getElem? (g : FlowGraph) (label ref : FlowRef) (i : Nat) :
    (g.addAntecedent label ref)[i]? =
      if i = label ∧ g.hasAntecedent label ref = false then
        g[i]?.map (fun n => FlowNode.mk n.id (n.step.extend [ref]))
      else g[i]? := by
  unfold addAntecedent
  cases hc : g.hasAntecedent label ref with
  | true => simp
  | false =>
    simp only [Bool.false_eq_true, if_false, Array.getElem?_modify, FlowStep.addAntecedent_eq_extend]
    by_cases h : label = i
    · simp [h]
    · simp [h, Ne.symm h]

theorem Grows.addAntecedent (g : FlowGraph) (label ref : FlowRef) : Grows g (g.addAntecedent label ref) := by
  intro i n h
  rw [addAntecedent_getElem?]
  split
  · exact ⟨[ref], by rw [h]; rfl⟩
  · exact ⟨[], by rw [FlowStep.extend_nil]; exact h⟩

theorem Grows.size_le {g g' : FlowGraph} (h : Grows g g') : g.size ≤ g'.size := by
  by_contra hlt
  have hs : g'.size < g.size := by omega
  obtain ⟨more, hm⟩ := h g'.size g[g'.size] (by simp [hs])
  simp at hm

@[simp] theorem size_addAntecedent (g : FlowGraph) (label ref : FlowRef) :
    (g.addAntecedent label ref).size = g.size := by
  unfold FlowGraph.addAntecedent
  split <;> simp

theorem exists_node {i : Nat} (h : i < g.size) : ∃ n, g[i]? = some n := ⟨g[i], by simp [h]⟩

/-! ## What stays true of a place -/

/-- A place of a label. -/
def IsLabel (g : FlowGraph) (l : FlowRef) : Prop := ∃ n, g[l]? = some n ∧ n.step.isLabel = true

/-- A place of a plain join. -/
def IsBranch (g : FlowGraph) (l : FlowRef) : Prop := ∃ id ants, g[l]? = some ⟨id, .branch ants⟩

/-- A label that something other than the sentinel leads to. -/
def Live (g : FlowGraph) (l : FlowRef) : Prop :=
  ∃ n, g[l]? = some n ∧ n.step.isLabel = true ∧ ∃ x ∈ n.step.antecedents, x ≠ 0

/-- A place from which the sources lead back to a start. Where `finally` suites are allowed for (`lax`), their entries and
ends count as well. -/
inductive Rooted (lax : Bool) (g : FlowGraph) : FlowRef → Prop where
  | start {r : FlowRef} {n : FlowNode} : g[r]? = some n → n.step.isStart = true → Rooted lax g r
  | passage {r : FlowRef} {n : FlowNode} : lax = true → g[r]? = some n → n.step.isPassage = true → Rooted lax g r
  | step {r x : FlowRef} {n : FlowNode} : g[r]? = some n → x ∈ n.step.sources → Rooted lax g x → Rooted lax g r

/-- A place that a way on may start from: the sentinel, or a rooted place of the scope that begins at `a`. -/
def Known (lax : Bool) (a : Nat) (g : FlowGraph) (r : FlowRef) : Prop := r = 0 ∨ a ≤ r ∧ Rooted lax g r

theorem IsBranch.isLabel (h : IsBranch g l) : IsLabel g l := by
  obtain ⟨id, ants, hn⟩ := h
  exact ⟨_, hn, rfl⟩

theorem IsLabel.grow {g g' : FlowGraph} (h : IsLabel g l) (hg : Grows g g') : IsLabel g' l := by
  obtain ⟨n, hn, hl⟩ := h
  obtain ⟨more, hm⟩ := hg l n hn
  exact ⟨_, hm, by simpa using hl⟩

@[grind →]
theorem IsBranch.grow {g g' : FlowGraph} (h : IsBranch g l) (hg : Grows g g') : IsBranch g' l := by
  obtain ⟨id, ants, hn⟩ := h
  obtain ⟨more, hm⟩ := hg l _ hn
  exact ⟨id, ants ++ more, hm⟩

@[grind →]
theorem Live.grow {g g' : FlowGraph} (h : Live g l) (hg : Grows g g') : Live g' l := by
  obtain ⟨n, hn, hl, x, hx, h0⟩ := h
  obtain ⟨more, hm⟩ := hg l n hn
  refine ⟨_, hm, by simpa using hl, x, ?_, h0⟩
  rw [FlowStep.antecedents_extend]
  exact List.mem_append_left _ hx

theorem Rooted.grow {g g' : FlowGraph} (h : Rooted lax g r) (hg : Grows g g') :
    Rooted lax g' r := by
  induction h with
  | start hn hs =>
    obtain ⟨more, hm⟩ := hg _ _ hn
    exact .start hm (by simpa using hs)
  | passage hl hn hp =>
    obtain ⟨more, hm⟩ := hg _ _ hn
    exact .passage hl hm (by simpa using hp)
  | step hn hx _ ih =>
    obtain ⟨more, hm⟩ := hg _ _ hn
    exact .step hm (FlowStep.mem_sources_extend hx) ih

@[grind →]
theorem Known.grow {g g' : FlowGraph} (h : Known lax a g r) (hg : Grows g g') :
    Known lax a g' r :=
  h.imp_right fun ⟨ha, hr⟩ => ⟨ha, hr.grow hg⟩

theorem Rooted.lt_size (h : Rooted lax g r) : r < g.size := by
  cases h with
  | start hn _ => exact (Array.getElem?_eq_some_iff.1 hn).1
  | passage _ hn _ => exact (Array.getElem?_eq_some_iff.1 hn).1
  | step hn _ _ => exact (Array.getElem?_eq_some_iff.1 hn).1

/-! ## Graphs under construction -/

/-- The sentinel comes first, and numbers ascend. -/
structure Numbered (g : FlowGraph) : Prop where
  sentinel : g[0]? = some FlowGraph.sentinel
  ascending : ∀ (i j : Nat) (n m : FlowNode), i < j → g[i]? = some n → g[j]? = some m → n.id < m.id

/-- What construction keeps of a graph in which the current execution scope begins at `a`. -/
structure Formed (lax : Bool) (a : Nat) (g : FlowGraph) : Prop extends Numbered g where
  base : 0 < a
  within : a ≤ g.size
  living : ∀ (i : Nat) (n : FlowNode), g[i]? = some n → n.step.isUnreachable = true → i = 0
  nodup : ∀ (i : Nat) (n : FlowNode), g[i]? = some n → n.step.isLabel = true → n.step.antecedents.Nodup
  joined : ∀ (i : Nat) (n : FlowNode), g[i]? = some n → n.step.isLabel = true →
    ∀ x ∈ n.step.antecedents, x = 0 ∨ Rooted lax g x
  confined : ∀ (i : Nat) (n : FlowNode), a ≤ i → g[i]? = some n → ∀ x ∈ n.step.antecedents, x = 0 ∨ a ≤ x ∧ x < g.size
  entry : ∀ (i : Nat) (n : FlowNode), a ≤ i → g[i]? = some n → n.step.isStart = true → i = a

/-- No two places have nodes with one number. -/
theorem Numbered.id_inj (h : Numbered g) {i j : Nat} {n m : FlowNode} (hi : g[i]? = some n)
    (hj : g[j]? = some m) (he : n.id = m.id) : i = j := by
  rcases Nat.lt_trichotomy i j with hlt | heq | hgt
  · exact absurd (h.ascending i j n m hlt hi hj) (by omega)
  · exact heq
  · exact absurd (h.ascending j i m n hgt hj hi) (by omega)

/-- The graph is formed for a scope that begins at its end. -/
theorem Formed.rebase (h : Formed lax a g) : Formed lax g.size g where
  toNumbered := h.toNumbered
  base := Nat.lt_of_lt_of_le h.base h.within
  within := le_refl _
  living := h.living
  nodup := h.nodup
  joined := h.joined
  confined i n hi hn := absurd (Array.getElem?_eq_some_iff.1 hn).1 (by omega)
  entry i n hi hn := absurd (Array.getElem?_eq_some_iff.1 hn).1 (by omega)

/-- The graph that holds the sentinel alone is formed. -/
theorem formed_initial (lax : Bool) : Formed lax 1 initial := by
  have hone : ∀ (i : Nat) (n : FlowNode), initial[i]? = some n → i = 0 ∧ n = FlowGraph.sentinel := by
    intro i n h
    cases i with
    | zero => exact ⟨rfl, (Option.some.inj h).symm⟩
    | succ i => simp [initial] at h
  refine ⟨⟨rfl, fun i j n m hij hi hj => ?_⟩, Nat.one_pos, le_refl _, fun i n hn _ => (hone i n hn).1, ?_, ?_, ?_, ?_⟩
  · have := (hone j m hj).1
    omega
  · intro i n hn hl
    obtain ⟨_, rfl⟩ := hone i n hn
    exact absurd hl (by decide)
  · intro i n hn hl
    obtain ⟨_, rfl⟩ := hone i n hn
    exact absurd hl (by decide)
  · intro i n hi hn
    have := (hone i n hn).1
    omega
  · intro i n hi hn
    have := (hone i n hn).1
    omega

/-- A new node keeps a graph formed: it is no sentinel, it has a new number, it begins the scope if it is a start, a label
has no antecedents yet, and what it leads back to belongs to the scope. -/
theorem Formed.push (h : Formed lax a g) {id : Int} {step : FlowStep}
    (hid : ∀ (i : Nat) (n : FlowNode), g[i]? = some n → n.id < id) (hdead : step.isUnreachable = false)
    (hlabel : step.isLabel = true → step.antecedents = [])
    (hback : ∀ x ∈ step.antecedents, x = 0 ∨ a ≤ x ∧ x < g.size) (hstart : step.isStart = true → g.size = a) :
    Formed lax a (g.push ⟨id, step⟩) := by
  have hcases : ∀ (i : Nat) (n : FlowNode), (g.push ⟨id, step⟩)[i]? = some n →
      g[i]? = some n ∨ i = g.size ∧ n = ⟨id, step⟩ := by
    intro i n hn
    rw [Array.getElem?_push] at hn
    split at hn
    · exact .inr ⟨by assumption, (Option.some.inj hn).symm⟩
    · exact .inl hn
  have hlt : ∀ (i : Nat) (n : FlowNode), g[i]? = some n → i < g.size := fun i n hn => (Array.getElem?_eq_some_iff.1 hn).1
  have hgrow := Grows.push g ⟨id, step⟩
  have hold : ∀ (i : Nat), i < g.size → (g.push ⟨id, step⟩)[i]? = g[i]? := by
    intro i hi
    rw [Array.getElem?_push_lt hi]
    simp [hi]
  refine ⟨⟨?_, ?_⟩, h.base, by simp; exact Nat.le_succ_of_le h.within, ?_, ?_, ?_, ?_, ?_⟩
  · rw [hold 0 (hlt 0 _ h.sentinel)]
    exact h.sentinel
  · intro i j n m hij hi hj
    rcases hcases j m hj with hj | ⟨rfl, rfl⟩
    · rw [hold i (hij.trans (hlt j m hj))] at hi
      exact h.ascending i j n m hij hi hj
    · rw [hold i hij] at hi
      exact hid i n hi
  · intro i n hn hu
    rcases hcases i n hn with hn | ⟨rfl, rfl⟩
    · exact h.living i n hn hu
    · exact absurd hu (by simp [hdead])
  · intro i n hn hl
    rcases hcases i n hn with hn | ⟨rfl, rfl⟩
    · exact h.nodup i n hn hl
    · show step.antecedents.Nodup
      rw [hlabel hl]
      exact List.nodup_nil
  · intro i n hn hl x hx
    rcases hcases i n hn with hn | ⟨rfl, rfl⟩
    · exact (h.joined i n hn hl x hx).imp_right fun hr => hr.grow hgrow
    · change x ∈ step.antecedents at hx
      rw [hlabel hl] at hx
      cases hx
  · intro i n hi hn x hx
    have hsize : ∀ x, x = 0 ∨ a ≤ x ∧ x < g.size → x = 0 ∨ a ≤ x ∧ x < (g.push ⟨id, step⟩).size := by
      intro x hx
      simp only [Array.size_push]
      omega
    rcases hcases i n hn with hn | ⟨rfl, rfl⟩
    · exact hsize x (h.confined i n hi hn x hx)
    · exact hsize x (hback x hx)
  · intro i n hi hn hs
    rcases hcases i n hn with hn | ⟨rfl, rfl⟩
    · exact h.entry i n hi hn hs
    · exact hstart hs

/-- Of the known places only the sentinel stands for code that cannot run. -/
theorem Formed.isUnreachable_iff (h : Formed lax a g)
    (hr : Known lax a g r) : (g.nodeAt r).step.isUnreachable = true ↔ r = 0 := by
  constructor
  · intro hd
    by_contra h0
    obtain ⟨n, hn⟩ := exists_node (hr.resolve_left h0).2.lt_size
    have hnode : g.nodeAt r = n := by simp [nodeAt, hn]
    exact h0 (h.living _ n hn (hnode ▸ hd))
  · intro h0
    have hnode : g.nodeAt 0 = FlowGraph.sentinel := by simp [nodeAt, h.sentinel]
    rw [h0, hnode]
    rfl

/-- A label that has an antecedent with the number of a place has that place as antecedent. -/
theorem Numbered.mem_of_hasAntecedent (h : Numbered g) {n m : FlowNode}
    (hn : g[label]? = some n) (hm : g[ref]? = some m) (hin : ∀ x ∈ n.step.antecedents, x < g.size)
    (hc : g.hasAntecedent label ref = true) : ref ∈ n.step.antecedents := by
  have hnode : g.nodeAt label = n := by simp [nodeAt, hn]
  simp only [hasAntecedent, hnode, List.any_eq_true, beq_iff_eq] at hc
  obtain ⟨x, hx, hid⟩ := hc
  obtain ⟨k, hk⟩ := exists_node (hin x hx)
  have hxr : x = ref := by
    refine h.id_inj hk hm ?_
    simpa [idAt, nodeAt, hk, hm] using hid
  exact hxr ▸ hx

/-- A label that gains a known antecedent keeps a graph formed. -/
theorem Formed.addAntecedent (h : Formed lax a g)
    (hl : a ≤ label) (hr : Known lax a g ref) : Formed lax a (g.addAntecedent label ref) := by
  have hgrow := Grows.addAntecedent g label ref
  have hcases : ∀ (i : Nat) (n : FlowNode), (g.addAntecedent label ref)[i]? = some n →
      g[i]? = some n ∨ i = label ∧ g.hasAntecedent label ref = false ∧
        ∃ m, g[i]? = some m ∧ n = ⟨m.id, m.step.extend [ref]⟩ := by
    intro i n hn
    rw [addAntecedent_getElem?] at hn
    split at hn
    · rename_i hc
      obtain ⟨m, hm, rfl⟩ := Option.map_eq_some_iff.1 hn
      exact .inr ⟨hc.1, hc.2, m, hm, rfl⟩
    · exact .inl hn
  -- Every node has one of the same number and kind before.
  have hback : ∀ (i : Nat) (n : FlowNode), (g.addAntecedent label ref)[i]? = some n → ∃ m, g[i]? = some m ∧
      n.id = m.id ∧ n.step.isUnreachable = m.step.isUnreachable ∧ n.step.isStart = m.step.isStart := by
    intro i n hn
    rcases hcases i n hn with hn | ⟨_, _, m, hm, rfl⟩
    · exact ⟨n, hn, rfl, rfl, rfl⟩
    · exact ⟨m, hm, rfl, by simp, by simp⟩
  have hnew : ref = 0 ∨ a ≤ ref ∧ ref < g.size := hr.imp_right fun ⟨ha, hroot⟩ => ⟨ha, hroot.lt_size⟩
  refine ⟨⟨?_, ?_⟩, h.base, by simpa using h.within, ?_, ?_, ?_, ?_, ?_⟩
  · rw [addAntecedent_getElem?, if_neg]
    · exact h.sentinel
    · rintro ⟨h0, _⟩
      have := h.base
      omega
  · intro i j n m hij hi hj
    obtain ⟨n', hn', hid, _, _⟩ := hback i n hi
    obtain ⟨m', hm', hid', _, _⟩ := hback j m hj
    have := h.ascending i j n' m' hij hn' hm'
    omega
  · intro i n hn hu
    obtain ⟨m, hm, _, hu', _⟩ := hback i n hn
    exact h.living i m hm (hu' ▸ hu)
  · intro i n hn hlab
    rcases hcases i n hn with hn | ⟨rfl, hc, m, hm, rfl⟩
    · exact h.nodup i n hn hlab
    · rw [FlowStep.isLabel_extend] at hlab
      rw [FlowStep.antecedents_extend, if_pos hlab, List.nodup_append]
      refine ⟨h.nodup i m hm hlab, List.nodup_singleton ref, ?_⟩
      intro x hx y hy hxy
      have : x = ref := by simpa using hxy.trans (List.mem_singleton.1 hy)
      subst this
      have hnode : g.nodeAt i = m := by simp [nodeAt, hm]
      simp only [hasAntecedent, hnode, List.any_eq_false, beq_iff_eq] at hc
      exact hc x hx rfl
  · intro i n hn hlab x hx
    rcases hcases i n hn with hn | ⟨rfl, _, m, hm, rfl⟩
    · exact (h.joined i n hn hlab x hx).imp_right fun hx => hx.grow hgrow
    · rw [FlowStep.isLabel_extend] at hlab
      rw [FlowStep.antecedents_extend, if_pos hlab, List.mem_append, List.mem_singleton] at hx
      rcases hx with hx | rfl
      · exact (h.joined i m hm hlab x hx).imp_right fun hx => hx.grow hgrow
      · exact hr.imp_right fun ⟨_, hroot⟩ => hroot.grow hgrow
  · intro i n hi hn x hx
    rw [size_addAntecedent]
    rcases hcases i n hn with hn | ⟨rfl, _, m, hm, rfl⟩
    · exact h.confined i n hi hn x hx
    · rw [FlowStep.antecedents_extend, List.mem_append] at hx
      rcases hx with hx | hx
      · exact h.confined i m hi hm x hx
      · split at hx
        · exact List.mem_singleton.1 hx ▸ hnew
        · cases hx
  · intro i n hi hn hs
    obtain ⟨m, hm, _, _, hs'⟩ := hback i n hn
    exact h.entry i m hi hm (hs' ▸ hs)

/-- A label that gains an antecedent other than the sentinel is live. -/
theorem Formed.live_addAntecedent (h : Formed lax a g)
    (hl : IsLabel g label) (ha : a ≤ label) (hr : Known lax a g ref) (hpos : ref ≠ 0) :
    Live (g.addAntecedent label ref) label := by
  obtain ⟨n, hn, hlab⟩ := hl
  have hroot : Rooted lax g ref := (hr.resolve_left hpos).2
  have hin : ∀ x ∈ n.step.antecedents, x < g.size := by
    intro x hx
    rcases h.confined label n ha hn x hx with rfl | hx
    · exact Nat.lt_of_lt_of_le h.base h.within
    · exact hx.2
  cases hc : g.hasAntecedent label ref with
  | true =>
    obtain ⟨m, hm⟩ := exists_node hroot.lt_size
    have hmem := h.toNumbered.mem_of_hasAntecedent hn hm hin hc
    refine ⟨n, ?_, hlab, ref, hmem, hpos⟩
    rw [addAntecedent_getElem?, if_neg (by simp [hc])]
    exact hn
  | false =>
    refine ⟨⟨n.id, n.step.extend [ref]⟩, ?_, by simpa using hlab, ref, ?_, hpos⟩
    · rw [addAntecedent_getElem?, if_pos ⟨rfl, hc⟩, hn]
      rfl
    · rw [FlowStep.antecedents_extend, if_pos hlab]
      exact List.mem_append_right _ (List.mem_singleton_self ref)

/-! ## Finished labels -/

theorem finish_of_branch {id : Int} {ants : List FlowRef}
    (h : g[l]? = some ⟨id, .branch ants⟩) :
    g.finish l = match ants with
      | [] => 0
      | [x] => x
      | _ :: _ :: _ => l := by
  have hnode : (g.nodeAt l).step = .branch ants := by simp [nodeAt, h]
  unfold finish
  rw [hnode]
  rcases ants with _ | ⟨x, _ | ⟨y, rest⟩⟩ <;> simp [FlowStep.antecedents]

/-- Of two antecedents of a label one is not the sentinel. -/
theorem exists_ne_zero_of_nodup {x y : FlowRef} {rest : List FlowRef} (h : (x :: y :: rest).Nodup) :
    ∃ z ∈ x :: y :: rest, z ≠ 0 := by
  by_cases hx : x = 0
  · refine ⟨y, by simp, ?_⟩
    rintro rfl
    simp [hx] at h
  · exact ⟨x, by simp, hx⟩

/-- A label that something rooted leads to is rooted. -/
theorem Formed.rooted_of_live (h : Formed lax a g) (hl : Live g l) :
    Rooted lax g l := by
  obtain ⟨n, hn, hlab, x, hx, hpos⟩ := hl
  refine .step hn ?_ ((h.joined l n hn hlab x hx).resolve_left hpos)
  rw [FlowStep.sources_of_isLabel hlab]
  exact hx

/-- What a finished join stands for is known. -/
theorem Formed.finish_known (h : Formed lax a g)
    (hl : IsBranch g l) (ha : a ≤ l) : Known lax a g (g.finish l) := by
  obtain ⟨id, ants, hn⟩ := hl
  rw [finish_of_branch hn]
  rcases ants with _ | ⟨x, _ | ⟨y, rest⟩⟩
  · exact .inl rfl
  · have hx : x ∈ (FlowStep.branch [x]).antecedents := by simp [FlowStep.antecedents]
    rcases h.joined l _ hn rfl x hx with h0 | hroot
    · exact .inl h0
    · exact (h.confined l _ ha hn x hx).imp_right fun hc => ⟨hc.1, hroot⟩
  · obtain ⟨z, hz, hpos⟩ := exists_ne_zero_of_nodup (h.nodup l _ hn rfl)
    exact .inr ⟨ha, h.rooted_of_live ⟨_, hn, rfl, z, hz, hpos⟩⟩

/-- A live join that is finished goes on as live code. -/
theorem Formed.finish_ne_zero (h : Formed lax a g)
    (hb : IsBranch g l) (ha : a ≤ l) (hl : Live g l) : g.finish l ≠ 0 := by
  obtain ⟨id, ants, hn⟩ := hb
  obtain ⟨n, hn', _, x, hx, hpos⟩ := hl
  obtain rfl : n = ⟨id, .branch ants⟩ := Option.some.inj (hn'.symm.trans hn)
  rw [finish_of_branch hn]
  rcases ants with _ | ⟨y, _ | ⟨z, rest⟩⟩
  · cases hx
  · have : x = y := by simpa [FlowStep.antecedents] using hx
    exact this ▸ hpos
  · exact Nat.pos_iff_ne_zero.1 (Nat.lt_of_lt_of_le h.base ha)

end FlowGraph

end ScopeFlow
