import ScopeFlow.Proofs.StmtLaws

/-!
# Steps that keep the graph woven

`Threads` says of a step that it keeps a tidy state tidy, provided the labels of its context are open: under construction, or
joins with back edges. The rules at the beginning compose such steps; what follows goes through the steps that extend the graph,
the binding of names and imports, and the walk of an expression.

A step that creates joins puts them under construction for its parts (`Adds`), and takes them back before it finishes them.
-/

namespace ScopeFlow.Bind

open FlowGraph

variable {ω : Type} {α β : Type} {T U : FlowRef → Prop} {ctx : Context} {u : Setup ω} {s s' : State ω} {f : BindM ω α}
  {l : FlowRef} {ref : FlowRef}

/-- Whether the labels of a context are open. -/
def Context.Open (ctx : Context) (T : FlowRef → Prop) (g : FlowGraph) : Prop := ∀ l ∈ ctx.labels, FlowGraph.Open T g l

theorem Context.Open.grow {g g' : FlowGraph} (h : ctx.Open T g) (hg : g.Grows g') : ctx.Open T g' :=
  fun l hl => (h l hl).grow hg

/-- A step that keeps a tidy state tidy in a context. -/
def Threads (T : FlowRef → Prop) (ctx : Context) (f : BindM ω α) : Prop :=
  ∀ ⦃s x s'⦄, Tidy T s → ctx.Open T s.graph → f.run s = .ok x s' → Weaves T s s'

namespace Threads

theorem ofQuiet (hf : IsQuiet f) : Threads T ctx f := fun _ _ _ h _ hr => .ofQuiet h (hf hr)

theorem pure (x : α) : Threads T ctx (Pure.pure x : BindM ω α) := ofQuiet (.pure x)

theorem throw (fault : Fault) : Threads T ctx (MonadExcept.throw fault : BindM ω α) := ofQuiet (.throw fault)

theorem bind {g : α → BindM ω β} (hf : Threads T ctx f) (hg : ∀ x, Threads T ctx (g x)) :
    Threads T ctx (f >>= g) := by
  intro s y s' hs hc h
  obtain ⟨x, t, h1, h2⟩ := bind_ok.1 h
  have w1 := hf hs hc h1
  exact w1.trans (hg x w1.tidy (hc.grow w1.grows) h2)

/-- What is done with the current place is done where it is the current one. -/
theorem current {g : FlowRef → BindM ω β}
    (hg : ∀ ⦃s x s'⦄, Tidy T s → ctx.Open T s.graph → (g s.current).run s = .ok x s' → Weaves T s s') :
    Threads T ctx (Bind.current >>= g) := by
  intro s x s' hs hc h
  obtain ⟨r, t, h1, h2⟩ := bind_ok.1 h
  obtain ⟨rfl, rfl⟩ := current_ok.1 h1
  exact hg hs hc h2

theorem discard (hf : Threads T ctx f) : Threads T ctx (Functor.discard f : BindM ω Unit) := by
  intro s y s' hs hc h
  obtain ⟨x, h1⟩ := discard_ok.1 h
  exact hf hs hc h1

theorem ite {c : Prop} [Decidable c] {f g : BindM ω α} (hf : Threads T ctx f) (hg : Threads T ctx g) :
    Threads T ctx (if c then f else g) := by
  split
  · exact hf
  · exact hg

theorem when {c : Prop} [Decidable c] {f : BindM ω PUnit} {g : PUnit → BindM ω β} (hf : Threads T ctx f)
    (hg : ∀ x, Threads T ctx (g x)) : Threads T ctx (if c then f >>= g else g ⟨⟩) := ite (bind hf hg) (hg _)

theorem forM {f : α → BindM ω Unit} (hf : ∀ x, Threads T ctx (f x)) (xs : List α) : Threads T ctx (xs.forM f) := by
  induction xs with
  | nil => exact pure _
  | cons x xs ih => exact bind (hf x) fun _ => ih

/-- A change of what the flow graph does not show. -/
theorem ofModify {f : State ω → State ω} (hg : ∀ s, (f s).graph = s.graph) (hc : ∀ s, (f s).current = s.current)
    (hf : ∀ s, (f s).facts = s.facts) : Threads T ctx (modify f : BindM ω Unit) := by
  intro s x s' hs _ h
  obtain rfl := modify_ok.1 h
  have hfacts : ∀ i, (f s).factsAt i = s.factsAt i := fun i => by rw [State.factsAt, hf]; rfl
  refine ⟨⟨hg s ▸ hs.woven, hg s ▸ hs.barred, hg s ▸ hc s ▸ hs.current, fun m i r hr => ?_⟩, hg s ▸ Grows.refl _,
    fun U _ hU => hg s ▸ hU⟩
  rw [hfacts] at hr
  rw [hg]
  exact hs.stamps m i r hr

theorem facts {node : Nat} {f : NodeFacts → NodeFacts} (hf : ∀ x m, (f x).stamp? m = x.stamp? m) :
    Threads T ctx (modifyFacts node f : BindM ω Unit) :=
  fun _ _ _ hs _ h => (modifyFacts_weaves hs (fun x m => .inl (hf x m)) h).1

end Threads

/-! ## Steps that extend the graph -/

theorem setScope_threads (node scope : Nat) : Threads T ctx (setScope node scope : BindM ω Unit) :=
  .facts fun _ m => by cases m <;> rfl

theorem stampWith_weaves (h : Tidy T s) {node : Nat} (hr : Passable T s.graph ref) {x : Unit}
    (hrun : (stampWith node ref : BindM ω Unit).run s = .ok x s') : Weaves T s s' :=
  (modifyFacts_weaves h (fun _ m => by
    cases m
    · exact .inr ⟨ref, rfl, hr.lt_size, hr.thick⟩
    · exact .inl rfl
    · exact .inl rfl) hrun).1

theorem stampAfterWith_weaves (h : Tidy T s) {node : Nat} (hr : Passable T s.graph ref) {x : Unit}
    (hrun : (stampAfterWith node ref : BindM ω Unit).run s = .ok x s') : Weaves T s s' :=
  (modifyFacts_weaves h (fun _ m => by
    cases m
    · exact .inl rfl
    · exact .inr ⟨ref, rfl, hr.lt_size, hr.thick⟩
    · exact .inl rfl) hrun).1

theorem stamp_threads (node : Nat) : Threads T ctx (stamp node : BindM ω Unit) :=
  fun _ _ _ hs _ h => stampWith_weaves hs hs.current (stamp_ok.1 h)

theorem stampAfter_threads (node : Nat) : Threads T ctx (stampAfter node : BindM ω Unit) :=
  .current fun _ _ _ hs _ h => stampAfterWith_weaves hs hs.current h

theorem stampAfterBody_threads (node : Nat) : Threads T ctx (stampAfterBody node : BindM ω Unit) := by
  refine .current fun s x s' hs _ h => (modifyFacts_weaves hs (fun _ m => ?_) h).1
  cases m
  · exact .inl rfl
  · exact .inl rfl
  · exact .inr ⟨_, rfl, hs.current.lt_size, hs.current.thick⟩

theorem linkCurrent_weaves (h : Tidy T s) (hl : FlowGraph.Open T s.graph l) {x : Unit}
    (hrun : (linkCurrent l : BindM ω Unit).run s = .ok x s') : Weaves T s s' ∧ s'.current = s.current :=
  link_weaves h hl h.current (linkCurrent_ok.1 hrun)

theorem linkCurrent_threads (hl : T l) : Threads T ctx (linkCurrent l : BindM ω Unit) :=
  fun _ _ _ hs _ h => (linkCurrent_weaves hs (.inl hl) h).1

theorem linkCurrentAll_weaves (ls : List FlowRef) : ∀ {s s' : State ω} (_ : Tidy T s)
    (_ : ∀ l ∈ ls, FlowGraph.Open T s.graph l) {x : Unit} (_ : (linkCurrentAll ls : BindM ω Unit).run s = .ok x s'),
    Weaves T s s' := by
  induction ls with
  | nil =>
    intro s s' hs _ x h
    obtain ⟨_, rfl⟩ := pure_ok.1 h
    exact .refl hs
  | cons l ls ih =>
    intro s s' hs hls x h
    obtain ⟨_, t, h1, h2⟩ := bind_ok.1 h
    have w1 := (linkCurrent_weaves hs (hls l (by simp)) h1).1
    exact w1.trans (ih w1.tidy (fun l' hl' => (hls l' (by simp [hl'])).grow w1.grows) h2)

theorem linkRaise_weaves (h : Tidy T s) (hc : ctx.Open T s.graph) (hr : Passable T s.graph ref) {x : Unit}
    (hrun : (linkRaise ctx ref : BindM ω Unit).run s = .ok x s') : Weaves T s s' ∧ s'.current = s.current := by
  have hall : ∀ ls : List FlowRef, ∀ {s : State ω}, Tidy T s → (∀ l ∈ ls, FlowGraph.Open T s.graph l) → Passable T s.graph ref →
      (ls.forM (fun l => link l ref) : BindM ω Unit).run s = .ok x s' → Weaves T s s' ∧ s'.current = s.current := by
    intro ls
    induction ls with
    | nil =>
      intro s hs _ _ h
      obtain rfl := forM_nil_ok.1 h
      exact ⟨.refl hs, rfl⟩
    | cons l ls ih =>
      intro s hs hls hr h
      obtain ⟨t, h1, h2⟩ := forM_cons_ok.1 h
      obtain ⟨w1, c1⟩ := link_weaves hs (hls l (by simp)) hr h1
      obtain ⟨w2, c2⟩ := ih w1.tidy (fun l' hl' => (hls l' (by simp [hl'])).grow w1.grows) (hr.grow w1.grows) h2
      exact ⟨w1.trans w2, c2.trans c1⟩
  exact hall _ h (fun l hl => hc l (by simp [Context.labels, hl])) hr hrun

/-- A new node behind a passable place is passable. -/
theorem newNode_follows_weaves (step : FlowRef → FlowStep) (hf : Follows step) (h : Tidy T s) {ant ref : FlowRef}
    (ha : Passable T s.graph ant) (hrun : (newNode (step ant) : BindM ω FlowRef).run s = .ok ref s') :
    Weaves T s s' ∧ s'.current = s.current ∧ Passable T s'.graph ref := by
  have hants : (step ant).antecedents = [ant] := (hf ant).1
  obtain ⟨w, hc, rfl, id, hg⟩ := newNode_weaves h (by
    rw [hants]
    intro x hx
    obtain rfl := List.mem_singleton.1 hx
    exact ⟨ha.lt_size, ha.free⟩) (by
    rw [hants]
    intro _ x hx
    obtain rfl := List.mem_singleton.1 hx
    exact ha.thick) hrun
  refine ⟨w, hc, by rw [hg]; simp, fun hT => absurd (h.barred.within _ hT).2 (lt_irrefl _), ?_⟩
  rintro ⟨id', ants, hn, _⟩
  rw [hg, Array.getElem?_push_size] at hn
  have hlabel := (hf ant).2.2
  rw [show step ant = .branch ants from congrArg FlowNode.step (Option.some.inj hn)] at hlabel
  cases hlabel

theorem advance_threads {step : FlowRef → FlowStep} (hf : Follows step) : Threads T ctx (advance step : BindM ω Unit) := by
  refine .bind (.ofQuiet .isDead) fun dead => .ite (.pure _) (.current fun s x s' hs hc h => ?_)
  obtain ⟨ref, t, h2, h3⟩ := bind_ok.1 h
  obtain ⟨w, _, hp⟩ := newNode_follows_weaves step hf hs hs.current h2
  exact w.trans (setCurrent_weaves w.tidy hp h3)

theorem takeOver_threads (target source : Int) : Threads T ctx (takeOver target source : BindM ω Unit) :=
  advance_threads fun _ => ⟨rfl, rfl, rfl⟩

theorem annotate_threads : Threads T ctx (annotate : BindM ω Unit) := advance_threads fun _ => ⟨rfl, rfl, rfl⟩

/-- Leading from the current place to the handlers in reach. -/
theorem raiseCurrent_threads : Threads T ctx (do linkRaise ctx (← current) : BindM ω Unit) :=
  .current fun _ _ _ hs hc h => (linkRaise_weaves hs hc hs.current h).1

theorem call_threads (ctx : Context) (node : Nat) (function : Expr) : Threads T ctx (call ctx node function : BindM ω Unit) :=
  .bind (advance_threads fun _ => ⟨rfl, rfl, rfl⟩) fun _ => .bind (stamp_threads _) fun _ =>
    .bind (.ofQuiet .isDead) fun _ => .ite (.pure _) raiseCurrent_threads

/-- A new node behind the current place that may raise, and what goes on from it. -/
theorem raising_threads (step : FlowRef → FlowStep) (hf : Follows step) (f : BindM ω Unit) (hq : IsQuiet f) (raises : Bool) :
    Threads T ctx (do
      let ref ← newNode (step (← current))
      f
      if raises then linkRaise ctx ref
      setCurrent ref : BindM ω Unit) := by
  refine .current fun s x s' hs hc h => ?_
  obtain ⟨ref, t1, h2, h⟩ := bind_ok.1 h
  obtain ⟨_, t2, h3, h⟩ := bind_ok.1 h
  obtain ⟨w1, _, hp⟩ := newNode_follows_weaves step hf hs hs.current h2
  have w2 := w1.trans (.ofQuiet w1.tidy (hq h3))
  have hp2 : Passable T t2.graph ref := (hq h3).graph ▸ hp
  split at h
  · obtain ⟨_, t3, h4, h5⟩ := bind_ok.1 h
    have w3 := (linkRaise_weaves w2.tidy (hc.grow w2.grows) hp2 h4).1
    exact (w2.trans w3).trans (setCurrent_weaves w3.tidy (hp2.grow w3.grows) h5)
  · exact w2.trans (setCurrent_weaves w2.tidy hp2 h)

theorem importAll_threads (ctx : Context) (node : Nat) (names : List String) :
    Threads T ctx (importAll ctx node names : BindM ω Unit) := by
  rw [importAll_eq]
  exact .bind (.bind (.ofQuiet .isDead) fun _ => .ite (.pure _) <| raising_threads (.wildcard (some node) names)
    (fun _ => ⟨rfl, rfl, rfl⟩) (pure ()) (.pure ()) true) fun _ => stamp_threads node

/-! ## Labels under construction -/

theorem also_nil : also T [] = T := by
  funext r
  simp [also]

theorem also_cons {ls : List FlowRef} : also (also T ls) [l] = also T (l :: ls) := by
  funext r
  simp [also, or_left_comm, or_comm]

/-- The labels of a context stay open when others are put under construction. -/
theorem Context.Open.mono {g : FlowGraph} (h : ctx.Open T g) (hU : ∀ r, T r → U r) : ctx.Open U g :=
  fun l hl => (h l hl).imp_left (hU l)

/-- A new node may be put under construction, whatever it follows. -/
theorem newNode_under (hs : Tidy T s) (hw : Weaves U s s') {step : FlowStep}
    (h : (newNode step : BindM ω FlowRef).run s = .ok l s') : Tidy (also T [l]) s' := by
  have hpos : 0 < s.graph.size := (Array.getElem?_eq_some_iff.1 hs.woven.sentinel).1
  obtain ⟨rfl, rfl⟩ := newNode_ok.1 h
  refine ⟨hw.tidy.woven, ⟨fun r hr => ?_, fun i n hn x hx hr => ?_⟩, ⟨hw.tidy.current.lt_size, ?_, hw.tidy.current.thick⟩,
    hw.tidy.stamps⟩
  · rcases hr with hr | hr
    · exact ⟨(hs.barred.within r hr).1, (hs.barred.within r hr).2.trans_le hw.grows.size_le⟩
    · obtain rfl := List.mem_singleton.1 hr
      exact ⟨hpos, by simp⟩
  · rcases getElem?_push_cases hn with hn | ⟨rfl, rfl⟩
    · refine .inl (hs.barred.upward i n hn x hx (hr.resolve_right fun hr => ?_))
      obtain rfl := List.mem_singleton.1 hr
      exact absurd (hs.woven.bounded i n hn _ hx) (lt_irrefl _)
    · exact mem_also (by simp)
  · rintro (hr | hr)
    · exact hs.current.free hr
    · exact absurd hs.current.lt_size (List.mem_singleton.1 hr ▸ lt_irrefl _)

/-- An edge between two labels under construction is added while the first of them is not yet so. -/
theorem link_tidy (hU : Tidy U s) (hT : Tidy T s) {l ref : FlowRef} (hl : FlowGraph.Open T s.graph l)
    (hr : Passable T s.graph ref)
    (himp : U ref → U l) {x : Unit} (h : (link l ref : BindM ω Unit).run s = .ok x s') : Tidy U s' := by
  obtain ⟨w, hc⟩ := link_weaves hT hl hr h
  refine ⟨w.tidy.woven, ?_, hc ▸ hU.current.grow w.grows, w.tidy.stamps⟩
  obtain rfl := link_ok.1 h
  split
  · exact hU.barred
  · refine ⟨fun i hi => ?_, fun i n hn x hx hUx => ?_⟩
    · rw [size_addAntecedent]
      exact hU.barred.within i hi
    · obtain ⟨m, hm, _, _, _, _, hx | ⟨rfl, rfl, _⟩⟩ := mem_antecedents_addAntecedent hn hx
      · exact hU.barred.upward i m hm x hx hUx
      · exact himp hUx

/-- The labels that a layout has made so far. -/
structure Layout where
  /-- Those under construction. -/
  fed : List FlowRef := []
  /-- The joins; each is finished when nothing leads to it any more. -/
  joins : List FlowRef := []
  /-- The loop labels, which are entered at once. -/
  loops : List FlowRef := []
  /-- Places that can be passed when no label of the layout is under construction. -/
  gates : List FlowRef := []
  /-- Which labels already feed which others. -/
  edges : List (FlowRef × FlowRef) := []

/-- Whether some of the labels under construction may stay so without the others: what they feed stays with them. -/
def Layout.Closed (L : Layout) (ns : List FlowRef) : Prop := ns ⊆ L.fed ∧ ∀ e ∈ L.edges, e.1 ∈ ns → e.2 ∈ ns

/-- A state in which labels of a layout are under construction next to those of a set. -/
structure Fed (T : FlowRef → Prop) (ctx : Context) (L : Layout) (s : State ω) : Prop where
  tidy : Tidy (also T L.fed) s
  parts : ∀ ns, L.Closed ns → s.graph.Barred (also T ns)
  labels : ctx.Open T s.graph
  joins : ∀ l ∈ L.joins, s.graph.IsBranch l ∧ ¬ T l
  nodup : L.joins.Nodup
  loops : ∀ l ∈ L.loops, s.graph.IsLoop l ∧ ¬ also T L.fed l
  gates : ∀ l ∈ L.gates, Passable T s.graph l ∧ l ∉ L.joins
  ends : ∀ e ∈ L.edges, e.2 < s.graph.size

namespace Fed

variable {L : Layout} {ns : List FlowRef} {l : FlowRef}

section

variable (h : Fed T ctx L s)
include h

theorem part (hns : L.Closed ns) : Tidy (also T ns) s :=
  ⟨h.tidy.woven, h.parts ns hns, h.tidy.current.mono (also_subset hns.1), h.tidy.stamps⟩

theorem base : Tidy T s := also_nil (T := T) ▸ h.part ⟨List.nil_subset _, by simp⟩

theorem lt_size (hl : l ∈ L.joins) : l < s.graph.size := by
  obtain ⟨⟨id, ants, hn⟩, _⟩ := h.joins l hl
  exact (Array.getElem?_eq_some_iff.1 hn).1

theorem step (w : Weaves (also T L.fed) s s') : Fed T ctx L s' where
  tidy := w.tidy
  parts ns hns := w.barred _ (also_subset hns.1) (h.parts ns hns)
  labels := h.labels.grow w.grows
  joins l hl := ⟨(h.joins l hl).1.grow w.grows, (h.joins l hl).2⟩
  nodup := h.nodup
  loops l hl := ⟨(h.loops l hl).1.grow w.grows, (h.loops l hl).2⟩
  gates l hl := ⟨(h.gates l hl).1.grow w.grows, (h.gates l hl).2⟩
  ends e he := (h.ends e he).trans_le w.grows.size_le

/-- Some labels are no longer under construction. -/
theorem leave (hns : L.Closed ns) : Fed T ctx { L with fed := ns } s where
  tidy := h.part hns
  parts ms hms := h.parts ms ⟨List.Subset.trans hms.1 hns.1, hms.2⟩
  labels := h.labels
  joins := h.joins
  nodup := h.nodup
  loops l hl := ⟨(h.loops l hl).1, fun hin => (h.loops l hl).2 (also_subset hns.1 _ hin)⟩
  gates := h.gates
  ends := h.ends

/-- A new node is under construction at once, and so has to be what it follows. -/
theorem node {step : FlowStep} (hants : ∀ x ∈ step.antecedents, x ∈ L.joins)
    (hgate : step.isGate = false → step.antecedents = []) (hrun : (newNode step : BindM ω FlowRef).run s = .ok l s') :
    Weaves T s s' ∧ (l = s.graph.size ∧ ∃ id, s'.graph = s.graph.push ⟨id, step⟩) ∧
      Fed T ctx { L with fed := l :: L.fed, edges := step.antecedents.map (·, l) ++ L.edges } s' := by
  have hnode : ∀ ns, L.Closed ns → (∀ x ∈ step.antecedents, x ∉ ns) → _ := fun ns hns hout =>
    newNode_weaves (h.part hns) (fun x hx => ⟨h.lt_size (hants x hx), fun hin => hin.elim (h.joins x (hants x hx)).2 (hout x hx)⟩)
      (fun hg x hx => by simp [hgate hg] at hx) hrun
  obtain ⟨w₀, _, rfl, id, hg⟩ := hnode [] ⟨List.nil_subset _, by simp⟩ (by simp)
  have w : Weaves T s s' := also_nil (T := T) ▸ w₀
  have hadd : ∀ ns, Tidy (also T ns) s → Tidy (also T (s.graph.size :: ns)) s' := fun ns hns =>
    also_cons (T := T) ▸ newNode_under hns w hrun
  refine ⟨w, ⟨rfl, id, hg⟩, hadd _ h.tidy, fun ns hns => ?_, h.labels.grow w.grows, ?_, h.nodup, ?_, ?_, ?_⟩
  · by_cases hl : s.graph.size ∈ ns
    · have hsame : also T ns = also T (s.graph.size :: ns.filter (· ≠ s.graph.size)) := by
        funext r
        by_cases hr : r = s.graph.size <;> simp [also, hr, hl]
      rw [hsame]
      refine (hadd _ (h.part ⟨fun r hr => ?_, fun e he h1 => ?_⟩)).barred
      · obtain ⟨hr, hne⟩ := List.mem_filter.1 hr
        exact (List.mem_cons.1 (hns.1 hr)).resolve_left (by simpa using hne)
      · exact List.mem_filter.2 ⟨hns.2 e (List.mem_append_right _ he) (List.mem_filter.1 h1).1, by simpa using (h.ends e he).ne⟩
    · refine (hnode ns ⟨fun r hr => (List.mem_cons.1 (hns.1 hr)).resolve_left fun he => hl (he ▸ hr),
        fun e he => hns.2 e (List.mem_append_right _ he)⟩ fun x hx hin => hl ?_).1.tidy.barred
      exact hns.2 (x, _) (List.mem_append_left _ (List.mem_map.2 ⟨x, hx, rfl⟩)) hin
  · exact fun l hl => ⟨(h.joins l hl).1.grow w.grows, (h.joins l hl).2⟩
  · intro l hl
    obtain ⟨⟨n, hn, hloop⟩, hfree⟩ := h.loops l hl
    refine ⟨(h.loops l hl).1.grow w.grows, fun hin => hfree (hin.imp_right fun hin => (List.mem_cons.1 hin).resolve_left ?_)⟩
    exact (Array.getElem?_eq_some_iff.1 hn).1.ne
  · exact fun l hl => ⟨(h.gates l hl).1.grow w.grows, (h.gates l hl).2⟩
  · intro e he
    rcases List.mem_append.1 he with he | he
    · obtain ⟨x, _, rfl⟩ := List.mem_map.1 he
      simp [hg]
    · exact (h.ends e he).trans_le w.grows.size_le

end

end Fed

/-- What brings a layout to its end, from a state in which its labels are under construction. -/
def Completes (T : FlowRef → Prop) (ctx : Context) (L : Layout) (f : BindM ω α) : Prop :=
  ∀ ⦃s x s'⦄, Fed T ctx L s → f.run s = .ok x s' → Weaves T s s'

/-- A layout starts without labels. -/
theorem Threads.layout (h : Completes T ctx {} f) : Threads T ctx f := by
  intro s x s' hs hc hrun
  have hnone : also T [] = T := also_nil
  refine h ⟨hnone.symm ▸ hs, fun ns hns => ?_, hc, by simp, by simp, by simp, by simp, by simp⟩ hrun
  obtain rfl := List.subset_nil.1 hns.1
  exact hnone.symm ▸ hs.barred

namespace Completes

variable {L : Layout} {l : FlowRef} {f : BindM ω α} {g : α → BindM ω β}

theorem last (h : Threads T ctx f) : Completes T ctx L f := fun _ _ _ hs hrun => h hs.base hs.labels hrun

theorem leave {ns : List FlowRef} (hns : L.Closed ns) (h : Completes T ctx { L with fed := ns } f) : Completes T ctx L f :=
  fun _ _ _ hs hrun => h (hs.leave hns) hrun

theorem step (hf : ∀ ⦃s x s'⦄, Fed T ctx L s → f.run s = .ok x s' → Weaves (also T L.fed) s s')
    (hg : ∀ x, Completes T ctx L (g x)) : Completes T ctx L (f >>= g) := by
  intro s x s' hs h
  obtain ⟨y, t, h1, h2⟩ := bind_ok.1 h
  have w := hf hs h1
  exact (w.lower subset_also hs.base).trans (hg y (hs.step w) h2)

/-- A part in a context of its own, whose labels are open if those of the layout are. -/
theorem within {inner : Context} (hi : ∀ U g, (∀ l ∈ L.fed, U l) → (∀ l ∈ L.loops, g.IsLoop l) → ctx.Open U g → inner.Open U g)
    (hf : ∀ U, (∀ r, T r → U r) → (∀ l ∈ L.fed, U l) → Threads U inner f) (hg : ∀ x, Completes T ctx L (g x)) :
    Completes T ctx L (f >>= g) := by
  refine .step (fun s x s' hs h => ?_) hg
  have hopen := hi _ s.graph (fun _ hl => mem_also hl) (fun l hl => (hs.loops l hl).1) (hs.labels.mono subset_also)
  exact hf _ subset_also (fun _ hl => mem_also hl) hs.tidy hopen h

theorem walk (hf : ∀ U, (∀ r, T r → U r) → (∀ l ∈ L.fed, U l) → Threads U ctx f) (hg : ∀ x, Completes T ctx L (g x)) :
    Completes T ctx L (f >>= g) := .within (fun _ _ _ _ => id) hf hg

theorem quiet (hf : IsQuiet f) (hg : ∀ x, Completes T ctx L (g x)) : Completes T ctx L (f >>= g) :=
  .walk (fun _ _ _ => .ofQuiet hf) hg

variable {k : Unit → BindM ω β} {m : FlowRef → BindM ω β}

theorem link (hl : l ∈ L.fed ∨ l ∈ L.loops ∨ T l) (hk : ∀ x, Completes T ctx L (k x)) :
    Completes T ctx L (linkCurrent l >>= k) := by
  refine .step (fun s x s' hs h => (linkCurrent_weaves hs.tidy ?_ h).1) hk
  rcases hl with hl | hl | hl
  · exact .inl (mem_also hl)
  · exact .inr (hs.loops l hl).1
  · exact .inl (.inl hl)

/-- A loop label is passable as soon as it is there. -/
theorem enterLoop (hl : l ∈ L.loops) (hk : ∀ x, Completes T ctx L (k x)) : Completes T ctx L (setCurrent l >>= k) := by
  refine .step (fun s x s' hs h => setCurrent_weaves hs.tidy ?_ h) hk
  obtain ⟨⟨n, hn, hloop⟩, hfree⟩ := hs.loops l hl
  refine ⟨(Array.getElem?_eq_some_iff.1 hn).1, hfree, ?_⟩
  rintro ⟨id, ants, hn', _⟩
  obtain rfl := Option.some.inj (hn'.symm.trans hn)
  cases hloop

/-- A join is finished; with it other labels may cease to be under construction. -/
theorem close {f : BindM ω Unit}
    (hf : ∀ ⦃U : FlowRef → Prop⦄ ⦃s x s'⦄, Tidy U s → s.graph.IsBranch l → ¬ U l → f.run s = .ok x s' → Weaves U s s')
    (ns : List FlowRef) (hl : l ∈ L.joins) (hns : L.Closed ns) (hne : L.joins.Nodup → l ∉ ns)
    (hk : ∀ x, Completes T ctx { L with fed := ns } (k x)) : Completes T ctx L (f >>= k) :=
  .leave hns <| .step (fun _ _ _ hs h => hf hs.tidy (hs.joins l hl).1 (fun hin => hin.elim (hs.joins l hl).2 (hne hs.nodup)) h) hk

theorem shut (ns : List FlowRef) (hl : l ∈ L.joins) (hns : L.Closed ns) (hne : L.joins.Nodup → l ∉ ns)
    (hk : ∀ x, Completes T ctx { L with fed := ns } (k x)) : Completes T ctx L (Bind.finish l >>= k) :=
  .close (fun _ _ _ _ hs hb hl h => finish_weaves hs hb hl h) ns hl hns hne hk

theorem finish (hl : l ∈ L.joins) : Completes T ctx L (Bind.finish l : BindM ω Unit) :=
  fun _ _ _ hs h => finish_weaves hs.base (hs.joins l hl).1 (hs.joins l hl).2 h

theorem branch (hm : ∀ l, Completes T ctx { L with fed := l :: L.fed, joins := l :: L.joins } (m l)) :
    Completes T ctx L (newBranch >>= m) := by
  intro s x s' hs h
  obtain ⟨l, t, h1, h2⟩ := bind_ok.1 h
  obtain ⟨w, ⟨rfl, id, hg⟩, ht⟩ := hs.node (by simp [FlowStep.antecedents]) (fun _ => rfl) h1
  have hnew : s.graph.size ∉ L.joins := fun hl => absurd (hs.lt_size hl) (lt_irrefl _)
  refine w.trans (hm _ ⟨ht.tidy, ht.parts, ht.labels, fun l hl => ?_, List.nodup_cons.2 ⟨hnew, hs.nodup⟩, ht.loops,
    fun l hl => ?_, ht.ends⟩ h2)
  · rcases List.mem_cons.1 hl with rfl | hl
    · exact ⟨⟨id, [], by simp [hg]⟩, fun hT => absurd (hs.base.barred.within _ hT).2 (lt_irrefl _)⟩
    · exact ht.joins l hl
  · refine ⟨(ht.gates l hl).1, fun hin => (List.mem_cons.1 hin).elim (fun he => ?_) (ht.gates l hl).2⟩
    exact absurd (hs.gates l hl).1.lt_size (he ▸ lt_irrefl _)

theorem loop (hm : ∀ l, Completes T ctx { L with loops := l :: L.loops } (m l)) : Completes T ctx L (newLoop >>= m) := by
  intro s x s' hs h
  obtain ⟨l, t, h1, h2⟩ := bind_ok.1 h
  obtain ⟨w, _, rfl, id, hg⟩ := newNode_weaves hs.tidy (by simp [FlowStep.antecedents]) (by simp [FlowStep.antecedents]) h1
  have ht := hs.step w
  refine (w.lower subset_also hs.base).trans (hm _ ⟨ht.tidy, ht.parts, ht.labels, ht.joins, ht.nodup, fun l hl => ?_,
    ht.gates, ht.ends⟩ h2)
  rcases List.mem_cons.1 hl with rfl | hl
  · exact ⟨⟨⟨id, .loop []⟩, by simp [hg], rfl⟩, fun hin => absurd (hs.tidy.barred.within _ hin).2 (lt_irrefl _)⟩
  · exact ht.loops l hl

end Completes

/-- A step with two labels to lead to, which are under construction while it runs. -/
def ThreadsTest (T : FlowRef → Prop) (ctx : Context) (test : FlowRef → FlowRef → BindM ω Unit) : Prop :=
  ∀ U onTrue onFalse, (∀ r, T r → U r) → U onTrue → U onFalse → Threads U ctx (test onTrue onFalse)

/-- A join for a part of the code: it is under construction while the part runs, and finished behind it. -/
theorem joined_threads {part : FlowRef → BindM ω Unit} (hpart : ∀ l, Threads (also T [l]) ctx (part l)) :
    Threads T ctx (do let l ← newBranch; part l; finish l : BindM ω Unit) :=
  .layout <| .branch fun l => .step (fun _ _ _ hs h => hpart l hs.tidy (hs.labels.mono subset_also) h) fun _ => .finish (by simp)

/-- The two sides of a choice join behind it. -/
theorem choice_threads {test : FlowRef → FlowRef → BindM ω Unit} {body orElse : BindM ω Unit} (htest : ThreadsTest T ctx test)
    (hbody : ∀ U, (∀ r, T r → U r) → Threads U ctx body) (horElse : ∀ U, (∀ r, T r → U r) → Threads U ctx orElse) :
    Threads T ctx (choice test body orElse) := by
  refine .layout <| .branch fun onTrue => .branch fun onFalse => .branch fun after => ?_
  refine .walk (fun U hU hin => htest U _ _ hU (hin _ (by simp)) (hin _ (by simp))) fun _ => ?_
  -- Behind the test only the join is still to be fed.
  refine .shut [after] (by simp) (by simp [Layout.Closed]) (by grind) fun _ => ?_
  refine .walk (fun U hU _ => hbody U hU) fun _ => .link (.inl (by simp)) fun _ => ?_
  refine .shut [after] (by simp) (by simp [Layout.Closed]) (by grind) fun _ => ?_
  exact .walk (fun U hU _ => horElse U hU) fun _ => .link (.inl (by simp)) fun _ => .finish (by simp)

/-! ## Conditions -/

/-- The way on under a condition is passable if it starts from a passable place. -/
theorem conditional_weaves (h : Tidy T s) (hc : ctx.Open T s.graph) {kind : ConditionKind} {ant ref : FlowRef} {e : Expr}
    (ha : Passable T s.graph ant) (hrun : (conditional u ctx kind ant e).run s = .ok ref s') :
    Weaves T s s' ∧ s'.current = s.current ∧ Passable T s'.graph ref := by
  rcases conditional_ok hrun with ⟨_, rfl, rfl⟩ | ⟨_, _, _, ⟨_, rfl, rfl⟩ | ⟨_, n, _, ⟨_, rfl, rfl⟩ | ⟨_, t1, t2, h1, h2, h3⟩⟩⟩
  · exact ⟨.refl h, rfl, ha⟩
  · exact ⟨.refl h, rfl, h.woven.passable_zero h.barred⟩
  · exact ⟨.refl h, rfl, ha⟩
  · have q1 := addKeys_quiet _ _ h1
    have w1 := Weaves.ofQuiet h q1
    obtain ⟨w2, c2, hp⟩ := newNode_follows_weaves (.condition kind (some e) (n.nameReferences.head?.map Expr.index))
      (fun _ => ⟨rfl, rfl, rfl⟩) w1.tidy (q1.graph ▸ ha) h2
    have w12 := w1.trans w2
    obtain ⟨w3, c3⟩ := linkRaise_weaves w12.tidy (hc.grow w12.grows) hp h3
    exact ⟨w12.trans w3, (c3.trans c2).trans q1.current, hp.grow w3.grows⟩

theorem linkTest_threads {onTrue onFalse : FlowRef} (ht : T onTrue) (hf : T onFalse) (e : Expr) :
    Threads T ctx (linkTest u ctx onTrue onFalse e) := by
  -- Each of the two ways starts from the current place.
  have hway : ∀ (kind : ConditionKind) (l : FlowRef), T l →
      Threads T ctx (do link l (← conditional u ctx kind (← current) e) : BindM ω Unit) := by
    refine fun kind l hl => .current fun s x s' hs hc h => ?_
    obtain ⟨ref, t1, h2, h3⟩ := bind_ok.1 h
    obtain ⟨w1, _, hp⟩ := conditional_weaves hs hc hs.current h2
    exact w1.trans (link_weaves w1.tidy (.inl hl) hp h3).1
  intro s x s' hs hc h
  obtain ⟨ant, t, h1, h⟩ := bind_ok.1 h
  obtain ⟨ref, t1, h2, h⟩ := bind_ok.1 h
  obtain ⟨_, t2, h3, h⟩ := bind_ok.1 h
  have w1 := hway .isTrue onTrue ht hs hc (bind_ok.2 ⟨ant, t, h1, bind_ok.2 ⟨ref, t1, h2, h3⟩⟩)
  exact w1.trans (hway .isFalse onFalse hf w1.tidy (hc.grow w1.grows) h)

mutual

theorem linkNever_threads {T : FlowRef → Prop} {target : FlowRef} (ht : T target) (positive : Bool) (e : Expr) :
    Threads T ctx (linkNever u ctx target positive e) := by
  unfold linkNever
  split
  · rename_i operand
    exact linkNever_threads ht (!positive) operand
  · rename_i values
    exact linkNevers_threads _ ht positive values
  · refine .bind (.ofQuiet (.ofExcept _)) fun narrowing => .ite (.current fun s x s' hs hc h => ?_) (linkCurrent_threads ht)
    obtain ⟨ref, t1, h2, h⟩ := bind_ok.1 h
    obtain ⟨_, t2, h3, h4⟩ := bind_ok.1 h
    obtain ⟨w1, _, hp⟩ := conditional_weaves hs hc hs.current h2
    have w2 := w1.trans (setCurrent_weaves w1.tidy hp h3)
    exact w2.trans (linkCurrent_weaves w2.tidy (.inl ht) h4).1

theorem linkNevers_threads {T : FlowRef → Prop} (op : BoolOperator) {target : FlowRef} (ht : T target) (positive : Bool)
    (es : List Expr) : Threads T ctx (linkNevers u ctx op target positive es) := by
  match es with
  | [] =>
    rw [linkNevers]
    exact .throw _
  | [e] =>
    rw [linkNevers]
    exact linkNever_threads ht positive e
  | e :: e' :: rest =>
    have hrest : Threads T ctx (linkNevers u ctx op target positive (e' :: rest)) :=
      linkNevers_threads op ht positive (e' :: rest)
    intro s x s' hs hc h
    cases op with
    | and =>
      obtain ⟨t, h1, h2⟩ := linkNevers_and_run h
      have w1 := linkNever_threads ht positive e hs hc h1
      have w2 := w1.trans (setCurrent_weaves w1.tidy (hs.current.grow w1.grows) ((setCurrent_ok (a := ())).2 rfl))
      exact w2.trans (hrest w2.tidy (hc.grow w2.grows) h2)
    | or =>
      obtain ⟨after, t1, t2, h1, h2, hgoes⟩ := linkNevers_or_run h
      obtain ⟨w1, _, hnew, id, hg⟩ := newNode_weaves hs (by simp [FlowStep.antecedents]) (by simp [FlowStep.antecedents]) h1
      have v2 :=
        linkNever_threads (mem_also (by simp)) positive e (newNode_under hs w1 h1) ((hc.grow w1.grows).mono subset_also) h2
      have w2 := w1.trans (v2.lower subset_also w1.tidy)
      rcases hgoes with ⟨_, rfl⟩ | ⟨_, t3, t4, h3, h4, hlast⟩
      · exact w2
      · have hbranch : t1.graph.IsBranch after := ⟨id, [], by simp [hg, hnew]⟩
        have hfree : ¬ T after := fun hT => absurd (hs.barred.within _ hT).2 (hnew ▸ lt_irrefl _)
        have w3 := w2.trans (finish_weaves w2.tidy (hbranch.grow v2.grows) hfree h3)
        have w4 := w3.trans (hrest w3.tidy (hc.grow w3.grows) h4)
        rcases hlast with ⟨_, rfl⟩ | ⟨_, rfl⟩
        · exact w4.trans (setCurrent_weaves w4.tidy (hs.current.grow w4.grows) ((setCurrent_ok (a := ())).2 rfl))
        · exact w4

end

/-! ## Names -/

theorem assignKey_threads (ctx : Context) (node : Nat) (key : String) (target : Option Int) (raises unbound : Bool) :
    Threads T ctx (assignKey ctx node key target raises unbound : BindM ω Unit) :=
  .bind (.ofQuiet .isDead) fun _ => .ite (.pure _) <|
    raising_threads (fun ant => .assign (some node) key ant target unbound) (fun _ => ⟨rfl, rfl, rfl⟩) _ (addKey_quiet _ _) raises

/-- What is assigned is stamped with the current place, and what is deleted with the place before the deletion. -/
theorem stampAssigned_weaves (h : Tidy T s) (hc : ctx.Open T s.graph) {node : Nat} {before : FlowRef} {unbound : Bool}
    (hb : Passable T s.graph before) {x : Unit} (hrun : (stampAssigned node before unbound : BindM ω Unit).run s = .ok x s') :
    Weaves T s s' := by
  unfold stampAssigned at hrun
  split at hrun
  · obtain ⟨f, t, h1, h2⟩ := bind_ok.1 hrun
    obtain ⟨rfl, rfl⟩ := factsOf_ok.1 h1
    split at h2
    · exact stampWith_weaves h hb h2
    · obtain ⟨_, rfl⟩ := pure_ok.1 h2
      exact .refl h
  · exact stamp_threads node h hc hrun

theorem assign_threads (ctx : Context) (node : Nat) (name key : Option String) (raises stamps unbound : Bool) :
    Threads T ctx (assign ctx node name key raises stamps unbound : BindM ω Unit) := by
  refine .bind (.ofQuiet (assignedSymbol_quiet _)) fun target => ?_
  intro s x s' hs hc h
  obtain ⟨before, t, h1, h⟩ := bind_ok.1 h
  obtain ⟨rfl, rfl⟩ := current_ok.1 h1
  -- The place before the assignment is still passable behind it.
  have hend : ∀ {t : State ω}, Weaves T s t →
      (if stamps then stampAssigned node s.current unbound else pure () : BindM ω Unit).run t = .ok x s' → Weaves T s s' := by
    intro t w h
    split at h
    · exact w.trans (stampAssigned_weaves w.tidy (hc.grow w.grows) (hs.current.grow w.grows) h)
    · obtain ⟨_, rfl⟩ := pure_ok.1 h
      exact w
  cases key with
  | none => exact hend (.refl hs) h
  | some key =>
    obtain ⟨_, t, h2, h3⟩ := bind_ok.1 h
    exact hend (assignKey_threads ctx node key target raises unbound hs hc h2) h3

/-- Binding names keeps the graph woven. -/
theorem threads_binds : Binds fun (α : Type) (f : BindM ω α) => Threads T ctx f where
  ofQuiet := .ofQuiet
  bind := .bind
  takeOver := takeOver_threads

/-- So do assigning and importing. -/
theorem threads_assigns {K : Node → Prop} : Assigns K ctx fun (α : Type) (f : BindM ω α) => Threads T ctx f where
  toBinds := threads_binds
  assign _ := assign_threads ctx _
  importAll _ := importAll_threads ctx _

/-! ## Expressions -/

theorem deferBody_threads (ctx' : Context) (mark : Mark) (body : Body) :
    Threads T ctx (deferBody ctx' mark body : BindM ω Context) :=
  .bind (.ofQuiet (nonClassScope_quiet _)) fun _ => .bind (.ofQuiet (newScope_quiet _ _)) fun _ =>
    .bind (setScope_threads _ _) fun _ => .bind (.ofModify (fun _ => rfl) (fun _ => rfl) fun _ => rfl) fun _ =>
      .bind (.ofQuiet (showKeys_quiet _)) fun _ => .pure _

/-- The walk of an expression keeps the graph woven. -/
theorem threads_lays : Lays u fun _ _ T ctx (α : Type) (f : BindM ω α) => Threads T ctx f where
  assigns _ _ := threads_assigns
  bind := .bind
  mono h _ _ := h
  frame _ h := h
  ofModify h := .ofModify (fun s => (h s).1) (fun s => (h s).2.1) fun s => (h s).2.2.1
  rescope _ h := h
  setScope := setScope_threads
  stamp := stamp_threads
  deferBody outer _ body _ := deferBody_threads outer _ body
  call := call_threads _
  annotate := @fun _ _ => annotate_threads
  linkCurrent := linkCurrent_threads
  linkTest _ ht hf := linkTest_threads ht hf _
  joined := joined_threads
  choice := choice_threads

theorem visitExpr_threads (hu : u.Steady) (ctx : Context) (role : Role) (e : Expr) (hr : role.Leads T) :
    Threads T ctx (visitExpr u ctx role e) := visitExpr_law threads_lays hu e role hr

theorem visitExprs_threads (hu : u.Steady) (ctx : Context) (es : List Expr) : Threads T ctx (visitExprs u ctx .value es) :=
  visitExprs_law threads_lays hu es .value rfl

theorem visitGiven_threads (hu : u.Steady) (ctx : Context) (e : Option Expr) : Threads T ctx (visitGiven u ctx e) :=
  visitGiven_law threads_lays hu e

end ScopeFlow.Bind
