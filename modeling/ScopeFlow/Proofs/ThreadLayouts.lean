import ScopeFlow.Proofs.Threads

/-!
# Layouts keep the graph woven

Each layout of a compound statement creates its joins, puts those that its parts may lead to under construction while the parts
run, and finishes them when nothing leads to them any more. A loop label is entered at once, so it is never under construction;
what swallows exceptions and the entry of a `finally` suite feed a join already while they are under construction.
-/

namespace ScopeFlow.Bind

open FlowGraph

variable {ω : Type} {α β : Type} {T U : FlowRef → Prop} {ctx : Context} {u : Setup ω} {s s' : State ω}
  {body : Context → BindM ω Unit} {targets : List FlowRef} {g : FlowGraph} {test : Expr}

/-- A part of a statement in a context of its own: it keeps a tidy state tidy as long as its labels are open. -/
def ThreadsIn (T : FlowRef → Prop) (part : Context → BindM ω α) : Prop :=
  ∀ U inner, (∀ r, T r → U r) → Threads U inner (part inner)

/-! ## Jumps -/

theorem jump_weaves (hs : Tidy T s) (ht : ∀ l ∈ targets, FlowGraph.Open T s.graph l) {x : Unit}
    (h : (jump targets : BindM ω Unit).run s = .ok x s') : Weaves T s s' := by
  obtain ⟨_, t, h1, h2⟩ := bind_ok.1 h
  have w1 := linkCurrentAll_weaves targets hs ht h1
  exact w1.trans (setDead_weaves w1.tidy h2)

/-- A jump to labels of the context. -/
theorem jump_threads (ht : ∀ l ∈ targets, l ∈ ctx.labels) :
    Threads T ctx (jump targets : BindM ω Unit) := fun _ _ _ hs hc h => jump_weaves hs (fun l hl => hc l (ht l hl)) h

/-! ## Layouts -/

theorem layOutClass_threads {site : Site} {name : String} (hbody : ThreadsIn T body) :
    Threads T ctx (layOutClass u ctx site name body) := by
  refine .bind (.ofQuiet (nonClassScope_quiet _)) fun _ => .bind (.ofQuiet (newScope_quiet _ _)) fun scope => ?_
  refine .bind (setScope_threads _ _) fun _ => .bind (f := body { ctx with scope := scope }) ?_ fun _ => ?_
  · exact fun s x s' hs hc h => hbody T { ctx with scope := scope } (fun _ => id) hs hc h
  · exact .bind (.discard (bindHere_law threads_binds _)) fun _ => assign_threads _ _ _ _ _ _ _

theorem enterBranch_weaves (hs : Tidy T s) {l : FlowRef} (hb : s.graph.IsBranch l) (hl : ¬ T l) {value : Option Bool}
    {ruledOut : Bool} {x : Unit} (h : (enterBranch l value ruledOut : BindM ω Unit).run s = .ok x s') : Weaves T s s' := by
  unfold enterBranch at h
  split at h
  · exact setDead_weaves hs h
  · exact finish_weaves hs hb hl h

/-- In a loop, the labels of the context are open, and so are those of the loop. -/
theorem Context.Open.loop (hc : ctx.Open T g) {before after : FlowRef} (hb : g.IsLoop before) (ha : T after) :
    Context.Open { ctx with continueTarget := some before, breakTarget := some after } T g := by
  intro l hl
  rcases Context.mem_labels_loop hl with rfl | rfl | hl
  · exact .inr hb
  · exact .inl ha
  · exact hc l hl

namespace Completes

variable {L : Layout} {l : FlowRef} {k : Unit → BindM ω β} {m : FlowRef → BindM ω β}

theorem ite {c : Prop} [Decidable c] {f g : BindM ω α} (hf : Completes T ctx L f) (hg : Completes T ctx L g) :
    Completes T ctx L (if c then f else g) := by
  split
  · exact hf
  · exact hg

theorem fewer {f : BindM ω α} {js : List FlowRef} (hjs : js.Sublist L.joins) (h : Completes T ctx { L with joins := js } f) :
    Completes T ctx L f := fun _ _ _ hs hrun =>
  h ⟨hs.tidy, hs.parts, hs.labels, fun l hl => hs.joins l (hjs.subset hl), hs.nodup.sublist hjs, hs.loops,
    fun l hl => ⟨(hs.gates l hl).1, fun hin => (hs.gates l hl).2 (hjs.subset hin)⟩, hs.ends⟩ hrun

theorem enter (ns : List FlowRef) {value : Option Bool} {ruledOut : Bool} (hl : l ∈ L.joins) (hns : L.Closed ns)
    (hne : L.joins.Nodup → l ∉ ns) (hk : ∀ x, Completes T ctx { L with fed := ns } (k x)) :
    Completes T ctx L (enterBranch l value ruledOut >>= k) :=
  .close (fun _ _ _ _ hs hb hl h => enterBranch_weaves hs hb hl h) ns hl hns hne hk

/-- The body of a loop is walked between the labels of the loop. -/
theorem inLoop {before after : FlowRef} (hbody : ThreadsIn T body) (hb : before ∈ L.loops)
    (ha : after ∈ L.fed) (hk : ∀ x, Completes T ctx L (k x)) :
    Completes T ctx L (body { ctx with continueTarget := some before, breakTarget := some after } >>= k) :=
  .within (fun _ _ hin hloops hc => hc.loop (hloops before hb) (hin after ha)) (fun U hU _ => hbody U _ hU) hk

end Completes

theorem layOutFor_threads {node : Nat} {target orElse : BindM ω Unit}
    (htarget : ∀ U, (∀ r, T r → U r) → Threads U ctx target) (hbody : ThreadsIn T body)
    (horElse : ∀ U, (∀ r, T r → U r) → Threads U ctx orElse) : Threads T ctx (layOutFor ctx node target body orElse) := by
  refine .layout <| .loop fun before => .branch fun exhausted => .branch fun after => ?_
  refine .link (.inr (.inl (by simp))) fun _ => .enterLoop (by simp) fun _ => .link (.inl (by simp)) fun _ => ?_
  refine .walk (fun U hU _ => htarget U hU) fun _ => .inLoop hbody (by simp) (by simp) fun _ =>
    .link (.inr (.inl (by simp))) fun _ => ?_
  refine .shut [after] (by simp) (by simp [Layout.Closed]) (by grind) fun _ => .walk (fun U hU _ => horElse U hU) fun _ => ?_
  exact .link (.inl (by simp)) fun _ => .shut [] (by simp) (by simp [Layout.Closed]) (by simp) fun _ =>
    .last (stampAfter_threads node)

theorem layOutWhile_threads {node : Nat} {walkTest : FlowRef → FlowRef → BindM ω Unit}
    {orElse : BindM ω Unit} (htest : ThreadsTest T ctx walkTest) (hbody : ThreadsIn T body)
    (horElse : ∀ U, (∀ r, T r → U r) → Threads U ctx orElse) :
    Threads T ctx (layOutWhile u ctx node test walkTest body orElse) := by
  refine .layout <| .branch fun onTrue => .branch fun onFalse => .branch fun after =>
    .quiet (staticValue_quiet u test) fun _ => ?_
  refine .loop fun before => .link (.inr (.inl (by simp))) fun _ => .enterLoop (by simp) fun _ => ?_
  refine .walk (fun U hU hin => htest U _ _ hU (hin _ (by simp)) (hin _ (by simp))) fun _ => ?_
  -- Behind the test only the join behind the loop is still to be fed.
  refine .enter [after] (by simp) (by simp [Layout.Closed]) (by grind) fun _ => .inLoop hbody (by simp) (by simp) fun _ => ?_
  refine .link (.inr (.inl (by simp))) fun _ => .enter [after] (by simp) (by simp [Layout.Closed]) (by grind) fun _ => ?_
  refine .walk (fun U hU _ => horElse U hU) fun _ => .link (.inl (by simp)) fun _ => ?_
  exact .shut [] (by simp) (by simp [Layout.Closed]) (by simp) fun _ => .last (stampAfter_threads node)

theorem layOutElse_threads {after : FlowRef} (hafter : T after) {orElse : List Stmt} {walk next : BindM ω Unit}
    (hwalk : Threads T ctx walk) (hnext : Threads T ctx next) : Threads T ctx (layOutElse u ctx after test orElse walk next) := by
  have hrest : Threads T ctx (do
      if orElse.isEmpty then linkNever u ctx after false test else walk
      linkCurrent after) :=
    .ite (.bind (linkNever_threads hafter _ _) fun _ => linkCurrent_threads hafter)
      (.bind hwalk fun _ => linkCurrent_threads hafter)
  exact .bind (.ofQuiet .isDead) fun _ => .ite hnext hrest

/-- An `if` ends in a join of its own, or leaves the join to the `if` that it is an `elif` of. -/
theorem layOutIf_threads {join : Option FlowRef} (hjoin : ∀ l ∈ join, T l)
    {walkTest : FlowRef → FlowRef → BindM ω Unit} {body : BindM ω Unit} {orElse : FlowRef → BindM ω Unit}
    (htest : ThreadsTest T ctx walkTest) (hbody : ∀ U, (∀ r, T r → U r) → Threads U ctx body)
    (horElse : ∀ U after, (∀ r, T r → U r) → U after → Threads U ctx (orElse after)) :
    Threads T ctx (layOutIf u join test walkTest body orElse) := by
  have hsides : ∀ ls after, after ∈ ls ∨ T after → ∀ {last : BindM ω Unit}, Completes T ctx ⟨ls, ls, [], [], []⟩ last →
      Completes T ctx ⟨ls, ls, [], [], []⟩ (do
        let onTrue ← newBranch
        let onFalse ← newBranch
        let value ← staticValue u test
        walkTest onTrue onFalse
        enterBranch onTrue value false
        body
        linkCurrent after
        enterBranch onFalse value true
        orElse after
        last) := by
    intro ls after hafter last hlast
    refine .branch fun onTrue => .branch fun onFalse => .quiet (staticValue_quiet u test) fun _ => ?_
    refine .walk (fun U hU hin => htest U _ _ hU (hin _ (by simp)) (hin _ (by simp))) fun _ => ?_
    refine .enter ls (by simp) (by simp [Layout.Closed]) (by grind) fun _ => .walk (fun U hU _ => hbody U hU) fun _ => ?_
    refine .link (hafter.imp_right .inr) fun _ => .enter ls (by simp) (by simp [Layout.Closed]) (by grind) fun _ => ?_
    exact .walk (fun U hU hin => horElse U after hU (hafter.elim (hin after) (hU after))) fun _ => .fewer (by simp) hlast
  cases join with
  | some l => exact .layout (hsides [] l (.inr (hjoin l rfl)) (.last (.pure _)))
  | none => exact .layout <| .branch fun after => hsides [after] after (by simp) (.finish (by simp))

theorem layOutMatch_threads {cases : FlowRef → BindM ω Unit}
    (hcases : ∀ U after, (∀ r, T r → U r) → U after → Threads U ctx (cases after)) : Threads T ctx (layOutMatch cases) :=
  .layout <| .branch fun after => .walk (fun U hU hin => hcases U after hU (hin after (by simp))) fun _ =>
    .link (.inl (by simp)) fun _ => .finish (by simp)

theorem layOutCase_threads {after : FlowRef} (hafter : T after) {pattern : Pattern} {walkPattern body : BindM ω Unit}
    {guard : FlowRef → FlowRef → BindM ω Unit} (hpattern : ∀ U, (∀ r, T r → U r) → Threads U ctx walkPattern)
    (hguard : ThreadsTest T ctx guard) (hbody : Threads T ctx body) :
    Threads T ctx (layOutCase after pattern walkPattern guard body) := by
  refine .layout <| .branch fun next => .branch fun beforeGuard => .branch fun beforeSuite => .link (.inl (by simp)) fun _ => ?_
  have hrest : Completes T ctx ⟨[beforeSuite, beforeGuard, next], [beforeSuite, beforeGuard, next], [], [], []⟩ (do
      finish beforeGuard
      walkPattern
      guard beforeSuite next
      finish beforeSuite
      body
      linkCurrent after
      finish next : BindM ω Unit) := by
    refine .shut [beforeSuite, next] (by simp) (by simp [Layout.Closed]) (by grind) fun _ =>
      .walk (fun U hU _ => hpattern U hU) fun _ => ?_
    refine .walk (fun U hU hin => hguard U _ _ hU (hin _ (by simp)) (hin _ (by simp))) fun _ => ?_
    refine .shut [] (by simp) (by simp [Layout.Closed]) (by simp) fun _ => .step (fun _ _ _ hs h => ?_) fun _ => ?_
    · exact also_nil (T := T).symm ▸ hbody hs.base hs.labels h
    · exact .link (.inr (.inr hafter)) fun _ => .finish (by simp)
  exact .ite hrest (.link (.inl (by simp)) fun _ => hrest)

theorem layOutAssert_threads {test : FlowRef → FlowRef → BindM ω Unit} {message : Option (BindM ω Unit)}
    (htest : ThreadsTest T ctx test) (hmessage : ∀ f ∈ message, Threads T ctx f) : Threads T ctx (layOutAssert test message) := by
  refine .layout <| .branch fun onTrue => .branch fun onFalse => ?_
  refine .walk (fun U hU hin => htest U _ _ hU (hin _ (by simp)) (hin _ (by simp))) fun _ => ?_
  cases message with
  | none => exact .finish (by simp)
  | some message =>
    refine .shut [] (by simp) (by simp [Layout.Closed]) (by simp) fun _ => .step (fun _ _ _ hs h => ?_) fun _ => .finish (by simp)
    exact also_nil (T := T).symm ▸ hmessage message rfl hs.base hs.labels h

/-! ## Exceptions -/

namespace Completes

variable {L : Layout} {l : FlowRef} {k : Unit → BindM ω β}

/-- A new place other than a join: it is passable when nothing is under construction any more. -/
theorem node {step : FlowStep} {m : FlowRef → BindM ω β} (hants : ∀ x ∈ step.antecedents, x ∈ L.joins)
    (hgate : step.isGate = false → step.antecedents = []) (hb : ∀ ants, step ≠ .branch ants)
    (hm : ∀ l, Completes T ctx { L with
      fed := l :: L.fed, gates := l :: L.gates, edges := step.antecedents.map (·, l) ++ L.edges } (m l)) :
    Completes T ctx L (newNode step >>= m) := by
  intro s x s' hs h
  obtain ⟨l, t, h1, h2⟩ := bind_ok.1 h
  obtain ⟨w, ⟨rfl, id, hg⟩, ht⟩ := hs.node hants hgate h1
  refine w.trans (hm _ ⟨ht.tidy, ht.parts, ht.labels, ht.joins, ht.nodup, ht.loops, fun l hl => ?_, ht.ends⟩ h2)
  rcases List.mem_cons.1 hl with rfl | hl
  · refine ⟨⟨by simp [hg], fun hT => absurd (hs.base.barred.within _ hT).2 (lt_irrefl _), ?_⟩,
      fun hin => absurd (hs.lt_size hin) (lt_irrefl _)⟩
    rintro ⟨id', ants, hn, _⟩
    rw [hg, Array.getElem?_push_size] at hn
    exact hb ants (congrArg FlowNode.step (Option.some.inj hn))
  · exact ht.gates l hl

/-- Such a place leads to a join that is still being fed. -/
theorem lead {ref : FlowRef} (hl : l ∈ L.joins) (hf : l ∈ L.fed) (hr : ref ∈ L.gates) (hcl : L.joins.Nodup → L.Closed [l])
    (hk : ∀ x, Completes T ctx { L with edges := (ref, l) :: L.edges } (k x)) : Completes T ctx L (Bind.link l ref >>= k) := by
  intro s x s' hs h
  obtain ⟨y, t, h1, h2⟩ := bind_ok.1 h
  obtain ⟨hpass, hout⟩ := hs.gates ref hr
  have hsmall := hs.part (hcl hs.nodup)
  have hopen : FlowGraph.Open (also T [l]) s.graph l := .inl (mem_also (by simp))
  have hpass' : Passable (also T [l]) s.graph ref :=
    ⟨hpass.lt_size, fun hin => hin.elim hpass.free fun hin => hout (List.mem_singleton.1 hin ▸ hl), hpass.thick⟩
  have w := (link_weaves hsmall hopen hpass' h1).1
  have hlinked : ∀ ns, L.Closed ns → (ref ∈ ns → l ∈ ns) → Tidy (also T ns) t := fun ns hns himp =>
    link_tidy (hs.part hns) hsmall hopen hpass' (fun hin => mem_also (himp (hin.resolve_left hpass.free))) h1
  refine (w.lower subset_also hs.base).trans (hk y ⟨link_tidy hs.tidy hsmall hopen hpass' (fun _ => mem_also hf) h1,
    fun ns hns => ?_, hs.labels.grow w.grows, fun l hl => ⟨(hs.joins l hl).1.grow w.grows, (hs.joins l hl).2⟩, hs.nodup,
    fun l hl => ⟨(hs.loops l hl).1.grow w.grows, (hs.loops l hl).2⟩,
    fun l hl => ⟨(hs.gates l hl).1.grow w.grows, (hs.gates l hl).2⟩, fun e he => ?_⟩ h2)
  · exact (hlinked ns ⟨hns.1, fun e he => hns.2 e (by simp [he])⟩ (hns.2 (ref, l) (by simp))).barred
  · rcases List.mem_cons.1 he with rfl | he
    · exact (hs.lt_size hl).trans_le w.grows.size_le
    · exact (hs.ends e he).trans_le w.grows.size_le

theorem branches (n : Nat) {L : Layout} {m : List FlowRef → BindM ω β} (hm : ∀ ls, ls.length = n →
    Completes T ctx { L with fed := ls.reverse ++ L.fed, joins := ls.reverse ++ L.joins } (m ls)) :
    Completes T ctx L (newBranches n >>= m) := by
  induction n generalizing L m with
  | zero => simpa [newBranches] using hm [] rfl
  | succ n ih =>
    simp only [newBranches, bind_assoc, pure_bind]
    refine .branch fun l => ih fun ls hls => ?_
    simpa using hm (l :: ls) (by simp [hls])

end Completes

theorem Context.Open.catching (hc : ctx.Open T g) (ht : ∀ l ∈ targets, T l) :
    Context.Open { ctx with exceptTargets := targets } T g := by
  intro l hl
  exact (Context.mem_labels_catching hl).elim (fun hl => .inl (ht l hl)) (hc l)

/-- What a context manager swallows leads behind the statement while it is still being fed. -/
theorem layOutWith_threads {managers : List Nat} {isAsync : Bool} (hbody : ThreadsIn T body) :
    Threads T ctx (layOutWith ctx managers isAsync body) := by
  refine .layout <| .node (by simp [FlowStep.antecedents]) (fun _ => rfl) (by simp) fun swallowed =>
    .link (.inl (by simp)) fun _ => ?_
  refine .branch fun after => .lead (by simp) (by simp) (by simp) (by simp [Layout.Closed, FlowStep.antecedents]) fun _ => ?_
  refine .within (fun U g hin _ hc => hc.catching (by simpa using hin swallowed (by simp)))
    (fun U hU _ => hbody U _ hU) fun _ => ?_
  exact .link (.inl (by simp)) fun _ => .finish (by simp)

theorem layOutFinally_weaves {node : Nat} {gate : FlowRef} {ends : Bool} {final : BindM ω Unit} (hfinal : Threads T ctx final)
    (hs : Tidy T s) (hc : ctx.Open T s.graph) (hgate : Passable T s.graph gate) {x : Unit}
    (h : (layOutFinally node gate ends final).run s = .ok x s') : Weaves T s s' := by
  obtain ⟨_, t1, h1, h⟩ := bind_ok.1 h
  obtain ⟨ant, t2, h2, h⟩ := bind_ok.1 h
  obtain ⟨rfl, rfl⟩ := current_ok.1 h2
  obtain ⟨ref, t3, h3, h⟩ := bind_ok.1 h
  have w1 := hfinal hs hc h1
  have hgate1 := hgate.grow w1.grows
  have hants : ∀ x ∈ (FlowStep.postFinally t1.current (some node) gate).antecedents, Passable T t1.graph x := by
    simpa [FlowStep.antecedents] using ⟨w1.tidy.current, hgate1⟩
  obtain ⟨w3, _, hnew, id, hg⟩ := newNode_weaves w1.tidy (fun x hx => ⟨(hants x hx).lt_size, (hants x hx).free⟩)
    (fun _ x hx => (hants x hx).thick) h3
  have hpass : Passable T t3.graph ref := by
    have hnode : t3.graph[ref]? = some ⟨id, .postFinally t1.current (some node) gate⟩ := by
      rw [hg, hnew]
      simp
    refine ⟨(Array.getElem?_eq_some_iff.1 hnode).1, fun hT => absurd (w1.tidy.barred.within _ hT).2 (hnew ▸ lt_irrefl _), ?_⟩
    rintro ⟨id', ants, hn, _⟩
    rw [hnode] at hn
    cases hn
  split at h
  · exact w1.trans (w3.trans (setCurrent_weaves w3.tidy hpass h))
  · exact w1.trans (w3.trans (setDead_weaves w3.tidy h))

/-- The clauses of a `try` statement: they start from their labels and lead to the join behind them. -/
def ThreadsHandlers (T : FlowRef → Prop) (count : Nat) (part : Context → FlowRef → List FlowRef → BindM ω Bool) : Prop :=
  ∀ U inner after labels, (∀ r, T r → U r) → U after → labels.length = count → ∀ ⦃s x s'⦄, Tidy U s → inner.Open U s.graph →
    (∀ l ∈ labels, s.graph.IsBranch l ∧ ¬ U l) → (part inner after labels).run s = .ok x s' → Weaves U s s'

theorem Context.Open.final (hc : ctx.Open T g) (hasFinally : Bool) {abrupt : FlowRef} (ha : T abrupt) :
    Context.Open (if hasFinally then { ctx with finallyTargets := ctx.finallyTargets ++ [abrupt] } else ctx) T g := by
  intro l hl
  cases hasFinally with
  | false => exact hc l hl
  | true =>
    rcases Context.mem_labels_final hl with rfl | hl
    · exact .inl ha
    · exact hc l hl

/-- The suites of a `try` statement, once its labels are there: those of the clauses are under construction in the body only. -/
theorem layOutTry_suites {L : Layout} {node : Nat} {handlers : List Handler} {hasFinally : Bool}
    {body orElse : Context → BindM ω Unit}
    {walkHandlers : Context → FlowRef → List FlowRef → BindM ω Bool} {final : BindM ω Unit} (hbody : ThreadsIn T body)
    (horElse : ThreadsIn T orElse) (hhandlers : ThreadsHandlers T handlers.length walkHandlers) (hfinal : Threads T ctx final)
    {labels n : List FlowRef} {beforeFinally abrupt gate : FlowRef} (hlen : labels.length = handlers.length)
    (hlabels : ∀ l ∈ labels, l ∈ L.fed ∧ l ∈ L.joins) (hn : L.Closed n) (hb : beforeFinally ∈ n) (hbj : beforeFinally ∈ L.joins)
    (ha : abrupt ∈ n) (hout : ∀ s : State ω, Fed T ctx { L with fed := n } s → ∀ l ∈ labels, l ∉ n)
    (hgate : hasFinally = true → gate ∈ L.gates) (targets : List FlowRef) (ht : ∀ l ∈ targets, l ∈ labels ∨ l = abrupt) :
    Completes T ctx L (do
      linkCurrentAll targets
      let inner := if hasFinally then { ctx with finallyTargets := ctx.finallyTargets ++ [abrupt] } else ctx
      body { inner with exceptTargets := targets }
      orElse inner
      linkCurrent beforeFinally
      let bodyEnds := !(← isDead)
      let handlerEnds ← walkHandlers { inner with exceptDepth := ctx.exceptDepth + 1 } beforeFinally labels
      finish beforeFinally
      if hasFinally then layOutFinally node gate (bodyEnds || handlerEnds) final) := by
  have htargets : ∀ l ∈ targets, l ∈ L.fed := fun l hl => (ht l hl).elim (fun hl => (hlabels l hl).1) fun he => he ▸ hn.1 ha
  refine .walk (fun U _ hin s x s' hs hc h => linkCurrentAll_weaves _ hs (fun l hl => .inl (hin l (htargets l hl))) h) fun _ => ?_
  refine .within (fun U g hin _ hc => (hc.final hasFinally (hin abrupt (hn.1 ha))).catching fun l hl => hin l (htargets l hl))
    (fun U hU _ => hbody U _ hU) fun _ => .leave hn ?_
  refine .within (fun U g hin _ hc => hc.final hasFinally (hin abrupt ha)) (fun U hU _ => horElse U _ hU) fun _ => ?_
  refine .link (.inl hb) fun _ => .quiet .isDead fun _ => .step (fun s x s' hs h => ?_) fun _ => ?_
  · refine hhandlers _ _ beforeFinally labels subset_also (mem_also hb) hlen hs.tidy ?_ (fun l hl => ?_) h
    · exact (hs.labels.mono subset_also).final hasFinally (mem_also ha)
    · exact ⟨(hs.joins l (hlabels l hl).2).1, fun hin => hin.elim (hs.joins l (hlabels l hl).2).2 (hout s hs l hl)⟩
  · refine .shut [] hbj ⟨List.nil_subset _, by simp⟩ (by simp) fun _ => ?_
    split
    · rename_i hf
      exact fun s x s' hs h => layOutFinally_weaves hfinal hs.base hs.labels (hs.gates gate (hgate hf)).1 h
    · exact .last (.pure _)

theorem layOutTry_threads {node : Nat} {handlers : List Handler} {hasFinally : Bool} {body orElse : Context → BindM ω Unit}
    {walkHandlers : Context → FlowRef → List FlowRef → BindM ω Bool} {final : BindM ω Unit} (hbody : ThreadsIn T body)
    (horElse : ThreadsIn T orElse) (hhandlers : ThreadsHandlers T handlers.length walkHandlers) (hfinal : Threads T ctx final) :
    Threads T ctx (layOutTry ctx node handlers hasFinally body orElse walkHandlers final) := by
  refine .layout <| .branches _ fun labels hlen => .branch fun beforeFinally => .branch fun abrupt => ?_
  have htargets : ∀ l ∈ (if catchesAll handlers then labels else labels ++ [abrupt]), l ∈ labels ∨ l = abrupt := by
    intro l hl
    split at hl
    · exact .inl hl
    · simpa using hl
  cases hasFinally with
  | false =>
    refine layOutTry_suites hbody horElse hhandlers hfinal (n := [abrupt, beforeFinally]) hlen (fun l hl => by simp [hl])
      (by simp [Layout.Closed]) (by simp) (by simp) (by simp) (fun s hs l hl => ?_) (by simp) _ htargets
    have := hs.nodup
    grind
  | true =>
    rw [show newGate true beforeFinally abrupt = (do
      let gate ← newNode (.gate abrupt false)
      link beforeFinally gate
      return gate : BindM ω FlowRef) from rfl, bind_assoc]
    refine .node (by simp [FlowStep.antecedents]) (by simp [FlowStep.isGate]) (by simp) fun gate => ?_
    rw [bind_assoc]
    refine .lead (by simp) (by simp) (by simp) (fun hne => ?_) fun _ => ?_
    · simp only [Layout.Closed, FlowStep.antecedents]
      grind
    refine layOutTry_suites hbody horElse hhandlers hfinal (n := [gate, abrupt, beforeFinally]) hlen (fun l hl => by simp [hl])
      (by simp [Layout.Closed, FlowStep.antecedents]) (by simp) (by simp) (by simp) (fun s hs l hl => ?_) (by simp) _ htargets
    have := hs.nodup
    have := (hs.gates gate (by simp)).2
    grind

theorem layOutHandler_weaves {after label : FlowRef} {mark : Mark} {name : Option String} {type body : BindM ω Unit}
    (hafter : T after) (htype : Threads T ctx type) (hbody : Threads T ctx body) (hs : Tidy T s) (hc : ctx.Open T s.graph)
    (hb : s.graph.IsBranch label) (hl : ¬ T label) {ends : Bool}
    (h : (layOutHandler u ctx after label mark name type body).run s = .ok ends s') : Weaves T s s' := by
  obtain ⟨_, t1, h1, h⟩ := bind_ok.1 h
  have w1 := finish_weaves hs hb hl h1
  have hend : Threads T ctx (do
      linkCurrent after
      return !(← isDead) : BindM ω Bool) :=
    .bind (linkCurrent_threads hafter) fun _ => .bind (.ofQuiet .isDead) fun _ => .pure _
  refine w1.trans (Threads.bind htype (fun _ => ?_) w1.tidy (hc.grow w1.grows) h)
  cases name.filter (fun n => !n.isEmpty) with
  | none => exact .bind hbody fun _ => hend
  | some name =>
    exact .bind (introduce_law threads_assigns (assignable_true _) _) fun _ => .bind hbody fun _ =>
      .bind (assign_threads _ _ _ _ _ _ _) fun _ => hend

end ScopeFlow.Bind
