import ScopeFlow.Proofs.Completion

/-!
# Bodies that wait

A function or lambda that has a scope has its body bound once, and then it has a flow node behind it. When a body begins to be
bound, the functions and lambdas around it have all names that they will have, and the module has all but those that `global`
statements of bodies add (`bodies_see_all`): the scopes of bodies that wait are younger than those around them, and names come
into an older scope for few reasons.
-/

namespace ScopeFlow

open Store

namespace Orderly

variable {g : Stage} {st : Store} {i j : Nat}

/-- What is above a scope of the module is older. -/
theorem le_of_climbs (h : Orderly g st) (hc : st.Climbs i j) (hb : g.Below st i) : j ≤ i := by
  induction hc using Relation.ReflTransGen.head_induction_on with
  | refl => exact le_refl _
  | @head i p hstep hrest ih =>
    by_cases hbase : i = g.base
    · subst hbase
      rw [h.root.2.1] at hstep
      obtain ⟨hlt, hnone, _⟩ := h.outermost p hstep
      rcases Climbs.cases_head hrest with rfl | ⟨q, hq, _⟩
      · exact hlt.le
      · rw [hnone] at hq
        cases hq
    · obtain ⟨q, hq, hlt, hup, _⟩ := h.parent_of_below hb hbase
      obtain rfl : q = p := Option.some.inj (hq.symm.trans hstep)
      exact (ih hup).trans hlt.le

/-- The scope of the module is not that of a function. -/
theorem type_base_ne_function (h : Orderly g st) : st.type? g.base ≠ some .function := by
  intro htype
  have hglobal := Stage.baseType_isGlobal g
  rw [Option.some.inj (h.root.1.symm.trans htype)] at hglobal
  cases hglobal

end Orderly

namespace Bind

variable {ω : Type} {u : Setup ω} {m : Module} {w w' : Job} {s s' : State ω} {phases : List (Phase ω)}

/-- Where a phase stands in a run of jobs. -/
theorem Shifts.at_phase (h : Shifts u m w s phases w' s') {p : Phase ω} (hp : p ∈ phases) :
    ∃ w₁ s₁ task queue later, p.task = some task ∧ p.before = { s₁ with queue := queue } ∧ s₁.queue = task :: queue ∧
      Shifts u m w₁ s₁ (p :: later) w' s' ∧ w.Kin w₁ ∧ ∀ q ∈ p :: later, q ∈ phases := by
  induction h with
  | done _ _ => cases hp
  | @next w w' s t s' task queue phases hq hr hsteps hrest ih =>
    rcases List.mem_cons.1 hp with rfl | hp
    · exact ⟨w, s, task, queue, phases, rfl, rfl, hq, .next hq hr hsteps hrest, ⟨rfl, rfl, rfl, rfl, rfl, rfl⟩, fun _ h => h⟩
    · obtain ⟨w₁, s₁, task', queue', later, htask, hbefore, hqueue, hshifts, hkin, hlater⟩ := ih hp
      exact ⟨w₁, s₁, task', queue', later, htask, hbefore, hqueue, hshifts,
        ⟨hkin.base, hkin.builtins, hkin.isStub, hkin.nonlocals, hkin.walruses, hkin.members⟩,
        fun q hqm => List.mem_cons_of_mem _ (hlater q hqm)⟩

/-- When a body begins to be bound, no scope that is older than its own gets names any more, except for classes and the module. -/
theorem Shifts.early_at (h : Shifts u m w s phases w' s') {task : Task} {queue : List Task}
    (hq : s.queue = task :: queue) {i : Nat}
    (hi : i < task.scope) (hclass : s.store.type? i ≠ some .classBody) {name : String} (hs : (s'.store.symbol? i name).isSome) :
    (s.store.symbol? i name).isSome ∨ i = w.base ∧ ∃ p ∈ phases, p.Globalises name := by
  have hholds := h.starts.holds
  have hfirst := hholds.tasks task (by simp [hq])
  have hsorted := hholds.queued.1
  rw [hq, List.map_cons, List.pairwise_cons] at hsorted
  refine h.early (hi.trans (hholds.order.lt_of_below hfirst.below)) (fun t ht => ?_) hclass hs
  rw [hq] at ht
  rcases List.mem_cons.1 ht with rfl | ht
  · exact hi
  · exact hi.trans (hsorted.1 _ (List.mem_map_of_mem ht))

/-- Bodies that wait are bound once and see what is around them. A function or lambda has its body bound in one phase if it has a
scope and in none otherwise, and there is a flow node behind it in the end if and only if it has a scope. When the body begins
to be bound, the functions and lambdas around it have exactly the names that they have in the end, and the module has all its
names but those that a `global` statement of a body names. -/
theorem bodies_see_all (hu : u.Steady) (ho : u.outline = Outline.ofModule m.number) {store : Store} {world : ω}
    (hgrounded : store.Grounded u.builtins)
    (haside : ∀ path st world, Stage.Aside u.builtins st (u.exports path st world).2.1) {results : BindResults}
    (h : bindModule u m.number store world = (.ok results, s')) :
    ∃ phases t, Phases u m.number (State.initial u store world) phases t ∧ Quiet t s' ∧
      (∀ i n, u.outline.node? i = some n → (n.isFunction || n.isLambda) = true →
        (phases.filterMap Phase.node?).count i = (if (s'.scopeAt i).isSome then 1 else 0) ∧
          ((s'.factsAt i).after.isSome ↔ (s'.scopeAt i).isSome)) ∧
      ∀ p ∈ phases, ∀ task ∈ p.task, p.before.scopeAt task.body.mark.index = some task.scope ∧
        (∀ i, p.before.store.Climbs task.scope i → i ≠ task.scope → p.before.store.type? i = some .function →
          ∀ name, (p.before.store.symbol? i name).isSome ↔ (s'.store.symbol? i name).isSome) ∧
        ∀ base, s'.scopeAt 0 = some base → ∀ name, (s'.store.symbol? base name).isSome →
          (p.before.store.symbol? base name).isSome ∨ ∃ q ∈ phases, q.Globalises name := by
  obtain ⟨first, phases, w', last, hc⟩ := bindModule_course hu (.lax ho hgrounded haside) h
  obtain ⟨hrest, hempty⟩ := hc.shifts.ends
  refine ⟨_, last, hc.run, hc.quiet, fun i n hn hkind => ?_, fun p hp task htask => ?_⟩
  · obtain ⟨hnodup, _, htaken⟩ := hc.shifts.taken
    have hscoped : (s'.scopeAt i).isSome ↔ w'.taken i := by
      refine ⟨fun hsome => ?_, fun ht => hc.goes.kept i (hrest.apart i ht).2⟩
      obtain ⟨sc, hsc⟩ := Option.isSome_iff_exists.1 hsome
      rcases hc.holds.bodies i n sc hn hkind hsc with ⟨t, ht, _⟩ | ht
      · rw [hc.quiet.queue, hempty] at ht
        cases ht
      · exact ht
    have hbound : w'.taken i ↔ i ∈ phases.filterMap Phase.node? := (htaken i).trans ⟨fun h => h.resolve_left id, .inr⟩
    refine ⟨?_, by rw [hc.goes.after i n hn hkind, hrest.after i n hn hkind, hscoped]⟩
    show (phases.filterMap Phase.node?).count i = _
    split
    · rename_i hsome
      exact List.count_eq_one_of_mem hnodup (hbound.1 (hscoped.1 hsome))
    · rename_i hnone
      exact List.count_eq_zero.2 fun hmem => hnone (hscoped.2 (hbound.2 hmem))
  · rcases List.mem_cons.1 hp with rfl | hp
    · cases htask
    obtain ⟨w₁, s₁, task', queue, later, htask', hbefore, hq, hshifts, hkin, hlater⟩ := hc.shifts.at_phase hp
    obtain rfl : task' = task := Option.some.inj (htask'.symm.trans htask)
    have hrest₁ := hshifts.starts
    have hfirst := hrest₁.holds.tasks task' (by simp [hq])
    have horder := hrest₁.holds.order
    rw [hbefore]
    refine ⟨hrest₁.scopeAt_first (nodup_numbers m) hq, fun i hclimb hne htype name => ⟨fun hsome => ?_, fun hsome => ?_⟩,
      fun base hbase name hsome => ?_⟩
    · rw [hc.names]
      exact hshifts.grows.symbol? hsome
    · rw [hc.names] at hsome
      have hlt := lt_of_le_of_ne (horder.le_of_climbs hclimb hfirst.below) hne
      rcases hshifts.early_at hq hlt (by rw [show s₁.store.type? i = _ from htype]; simp) hsome with hsome | ⟨rfl, _⟩
      · exact hsome
      · exact absurd htype horder.type_base_ne_function
    · rw [hc.goes.frozen 0 Nat.zero_lt_one, hrest.root, hc.shifts.kin.base, ← hkin.base] at hbase
      cases hbase
      rw [hc.names] at hsome
      have hne : w₁.base ≠ task'.scope := fun heq => horder.type_base_ne_function (heq ▸ hfirst.type)
      have hlt := lt_of_le_of_ne (horder.le_of_climbs hfirst.below hfirst.below) hne
      refine (hshifts.early_at hq hlt horder.type_base_ne_class hsome).imp_right ?_
      rintro ⟨_, q, hq, hglobal⟩
      exact ⟨q, List.mem_cons_of_mem _ (hlater q hq), hglobal⟩

/-- A function in a function, which reads a name that is assigned behind it. -/
def sampleNested : Module :=
  { body :=
      [.function {} false "f" (.mk {} [] [] none [] [] none [])
        [.function {} false "g" (.mk {} [] [] none [] [] none []) [.returnValue {} (some (.name {} "x"))] [] none,
          .assign {} [.name {} "x"] (.name {} "f")] [] none] }

theorem sampleNested_sees :
    let u := Setup.alone sampleNested.number
    let s := (bindModule u sampleNested.number {} ()).2
    ∃ phases t, Phases u sampleNested.number (State.initial u {} ()) phases t ∧
      (phases.filterMap Phase.node?).count 3 = 1 ∧ (s.factsAt 3).after.isSome := by
  intro u s
  have hok : (bindModule u sampleNested.number {} ()).1.isOk = true := by decide +kernel
  obtain ⟨results, h⟩ := bindModule_of_isOk hok
  obtain ⟨phases, t, hphases, _, honce, _⟩ :=
    bodies_see_all (Setup.alone_steady _) rfl grounded_empty (fun _ st _ => aside_self _ st) h
  have hany : (u.outline.node? 3).any (fun n => n.isFunction || n.isLambda) = true := by decide +kernel
  obtain ⟨n, hn, hkind⟩ := (Option.any_eq_true _ _).1 hany
  have hscope : (s.scopeAt 3).isSome = true := by decide +kernel
  obtain ⟨hcount, hafter⟩ := honce 3 n hn hkind
  exact ⟨phases, t, hphases, by rw [hcount, if_pos hscope], hafter.2 hscope⟩

end Bind

end ScopeFlow
