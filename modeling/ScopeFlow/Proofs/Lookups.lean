import ScopeFlow.Proofs.Symbols

/-!
# What look-ups report

A look-up goes from a scope outwards and reports whether it has left the module and whether it has left the code that it started
from. In every store that binding passes, look-ups end, and the first report is right. The second one says no more than what
is so, but it misses one case: a class in a function that declares a name as global sends the look-up past the function, to
the module.
-/

namespace ScopeFlow

open Store

namespace Store

/-- The scope whose code a scope is part of: the nearest function, module or builtins at or above it. -/
def executionScope (st : Store) (i : Nat) : Option Nat := st.climbTo ScopeType.collectsReferences st.scopes.size i

variable {st : Store} {accept : ScopeType → Bool} {i c : Nat}

theorem climbTo_succ : ∀ {bound i : Nat}, st.climbTo accept bound i = some c → st.climbTo accept (bound + 1) i = some c := by
  intro bound
  induction bound with
  | zero => intro i h; cases h
  | succ bound ih =>
    intro i h
    rw [climbTo] at h ⊢
    cases hsc : st.scope? i with
    | none => rw [hsc] at h; cases h
    | some sc =>
      rw [hsc] at h
      by_cases hacc : accept sc.type = true
      · simpa [hacc] using h
      · cases hp : sc.parent with
        | none => simp [hacc, hp] at h
        | some p =>
          have hnext : st.climbTo accept bound p = some c := by simpa [hacc, hp] using h
          simpa [hacc, hp] using ih hnext

end Store

namespace Orderly

open Stage

variable {g : Stage} {st : Store} {i p : Nat} {name : String} {outside beyond : Bool} {found : Found}

theorem collectsReferences_baseType (g : Stage) : g.baseType.collectsReferences = true := by
  unfold baseType
  split <;> rfl

/-- A scope of the module is part of the code of a scope of the module. -/
theorem executionScope_below (h : Orderly g st) (hb : g.Below st i) : ∃ e, st.executionScope i = some e ∧ g.Below st e := by
  obtain ⟨e, _, he, _, hbelow, _⟩ := h.climbTo_some _ (collectsReferences_baseType g) _ i hb (h.lt_of_below hb)
  exact ⟨e, he, hbelow⟩

theorem executionScope_self {t : ScopeType} (ht : st.type? i = some t) (hc : t.collectsReferences = true) :
    st.executionScope i = some i := by
  obtain ⟨n, hn⟩ : ∃ n, st.scopes.size = n + 1 := ⟨_, (Nat.succ_pred (Nat.ne_zero_of_lt (lt_size_of_type? ht))).symm⟩
  obtain ⟨sc, hsc, rfl⟩ := Option.map_eq_some_iff.1 ht
  simp [executionScope, hn, climbTo, hsc, hc]

/-- Code that does not run by itself is part of the code around it. -/
theorem executionScope_outer (h : Orderly g st) (hb : g.Below st i) {t : ScopeType} (ht : st.type? i = some t)
    (hc : t.collectsReferences = false) (hp : st.parent? i = some p) (hbp : g.Below st p) (hlt : p < i) :
    st.executionScope i = st.executionScope p := by
  obtain ⟨n, hn⟩ : ∃ n, st.scopes.size = n + 1 := ⟨_, (Nat.succ_pred (Nat.ne_zero_of_lt (lt_size_of_type? ht))).symm⟩
  have hi := h.lt_of_below hb
  obtain ⟨sc, hsc, rfl⟩ := Option.map_eq_some_iff.1 ht
  have hparent : sc.parent = some p := by simpa [Store.parent?, hsc] using hp
  obtain ⟨e, _, he, _⟩ := h.climbTo_some _ (collectsReferences_baseType g) n p hbp (by omega)
  have hstep : st.executionScope i = st.climbTo ScopeType.collectsReferences n p := by
    simp [executionScope, hn, climbTo, hsc, hc, hparent]
  rw [hstep, he, executionScope, hn, climbTo_succ he]

theorem climbs_executionScope {e : Nat} (h : st.executionScope i = some e) : st.Climbs i e := (climbTo_eq_some h).1

/-- The builtins are no part of the code of the module. -/
theorem executionScope_builtins (h : Orderly g st) {b : Nat} (hb : g.builtins = some b) (hi : g.Below st i) :
    st.executionScope b ≠ st.executionScope i := by
  obtain ⟨e, he, hbelow⟩ := h.executionScope_below hi
  rw [he]
  exact fun heq => h.not_below_builtins hb ((climbs_executionScope heq).trans hbelow)

namespace Reaches

/-- A look-up has left the module just if it ends in the builtins. -/
theorem isOutside (h : Orderly g st) (hr : Reaches g st name i outside beyond found) (hi : g.Below st i ∨ outside = true) :
    found.isOutside = true ↔ outside = true ∨ g.builtins = some found.scope := by
  induction hr with
  | @here i outside _ _ _ _ _ =>
    rcases hi with hb | rfl
    · exact ⟨.inl, fun ho => ho.resolve_right fun hbuiltins => h.not_below_builtins hbuiltins hb⟩
    · simp
  | @on i p outside beyond found hb hn hr ih =>
    obtain ⟨_, _, ⟨hp, hne⟩ | ⟨hp, rfl⟩⟩ := h.next_spec hb hn
    · rw [h.type_ne_module hb hne, Bool.or_false] at ih
      exact ih (.inl hp)
    · have hmodule : (st.type? g.base == some .moduleBody) = true := by simp [h.root.1, baseType_eq_module hp]
      rw [hmodule, Bool.or_true] at ih
      -- the builtins are the outermost scope
      have hscope : p = found.scope := by
        rcases Climbs.cases_head (hr.finds h).climbs with heq | ⟨q, hq, _⟩
        · exact heq
        · rw [(h.outermost p hp).2.1] at hq
          cases hq
      exact ⟨fun _ => .inr (hscope ▸ hp), fun _ => (ih (.inr rfl)).2 (.inl rfl)⟩

/-- What has been left stays left. -/
theorem isBeyond_of_beyond (hr : Reaches g st name i outside beyond found) (hb : beyond = true) : found.isBeyond = true := by
  induction hr with
  | here => exact hb
  | on _ _ _ ih => exact ih (by simp [hb])

/-- A look-up that has left code that runs by itself ends in other code. One that has left none ends in the code that it
started from, unless a class has sent it to the module. -/
theorem isBeyond (h : Orderly g st) (hr : Reaches g st name i outside beyond found) :
    (found.isBeyond = true → beyond = true ∨ st.executionScope found.scope ≠ st.executionScope i) ∧
      (found.isBeyond = false → st.executionScope found.scope = st.executionScope i ∨ found.scope = g.base ∧
        ∃ c, st.Climbs i c ∧ st.executionScope c = st.executionScope i ∧ st.type? c = some .classBody ∧
          st.redirection? c name = some .global) := by
  induction hr with
  | here => exact ⟨.inl, fun _ => .inl rfl⟩
  | @on i p outside beyond found hb hn hr ih =>
    obtain ⟨t, ht⟩ := h.type_of_below hb
    obtain ⟨hlt, hclimbs, hp⟩ := h.next_spec hb hn
    rw [ht] at ih hr
    cases halone : t.runsAlone with
    | true =>
      have hself : st.executionScope i = some i := executionScope_self ht (by
        revert halone; cases t <;> simp [ScopeType.runsAlone, ScopeType.collectsReferences])
      refine ⟨fun _ => .inr fun heq => ?_, fun hf => ?_⟩
      · have hback := h.climbs_le (hp.imp And.left And.left) ((hr.finds h).climbs.trans (climbs_executionScope (heq.trans hself)))
        omega
      · rw [hr.isBeyond_of_beyond (by simp [halone])] at hf
        cases hf
    | false =>
      simp only [Option.any_some, halone, Bool.or_false] at ih
      obtain ⟨hp, hne⟩ : g.Below st p ∧ i ≠ g.base := by
        refine hp.resolve_right fun hroot => ?_
        rw [hroot.2, h.root.1, baseType_eq_module hroot.1] at ht
        cases ht
        cases halone
      obtain ⟨q, hq, hqlt, hbq, t', ht', hglobal⟩ := h.parent_of_below hb hne
      obtain rfl : t = t' := Option.some.inj (ht.symm.trans ht')
      unfold next at hn
      split at hn
      · rename_i hredirected
        -- the look-up goes past what is between the scope and the module
        cases hn
        have habove := h.above_base (hr.finds h).climbs
        refine ⟨fun hf => (ih.1 hf).imp id fun hother => ?_, fun hf => .inr ⟨?_, i, .refl _ _, rfl, ?_, hredirected⟩⟩
        · rcases habove with heq | hbuiltins
          · exact absurd (by rw [heq]) hother
          · exact h.executionScope_builtins hbuiltins hb
        · rcases ih.2 hf with hsame | ⟨hbase, _⟩
          · exact habove.resolve_right fun hbuiltins => h.executionScope_builtins hbuiltins h.below_base hsame
          · exact hbase
        · cases t with
          | comprehension =>
            rw [h.plain i name hb ht] at hredirected
            cases hredirected
          | classBody => exact ht
          | function => cases halone
          | moduleBody | builtin => cases hglobal
      · rw [hq] at hn
        cases hn
        have houter : st.executionScope i = st.executionScope p := h.executionScope_outer hb ht
          (by revert halone hglobal; cases t <;> simp [ScopeType.runsAlone, ScopeType.isGlobal, ScopeType.collectsReferences])
            hq hp hqlt
        rw [houter]
        refine ⟨ih.1, fun hf => ?_⟩
        rcases ih.2 hf with hsame | ⟨hbase, c, hc, hrest⟩
        · exact .inl hsame
        · exact .inr ⟨hbase, c, .step hq hc, hrest⟩

end Reaches

end Orderly

namespace Bind

variable {ω : Type} {u : Setup ω} {m : Module} {store : Store} {world : ω} {s' : State ω}
  {outcome : Except Fault BindResults}

/-- What a look-up reports is right. In each store that binding passes, from the one in which the scope of the module has been
opened to the last one, neither the module nor the builtins declare names as global, and a look-up from a scope of the module
or from the builtins ends. What it finds is reported as outside just if the look-up has gone
from the module to the builtins. What is reported as beyond belongs to other code than that which the look-up started from; what
belongs to other code is reported so, unless it is in the scope of the module and a class, in the code that the look-up
started from, declares the name as global. -/
theorem lookups_report_distance (hu : u.Steady) (ho : u.outline = Outline.ofModule m.number)
    (hgrounded : store.Grounded u.builtins) (haside : ∀ path st world, Stage.Aside u.builtins st (u.exports path st world).2.1)
    (h : bindModule u m.number store world = (outcome, s')) :
    s'.trace.head? = some store ∧ s'.trace.getLast? = some s'.store ∧ s'.trace.IsChain Store.Edit ∧
      ∀ st ∈ s'.trace.tail, ∀ i name, st.Climbs i store.scopes.size ∨ u.builtins = some i →
        (i = store.scopes.size ∨ u.builtins = some i → st.redirection? i name ≠ some .global) ∧
        ∃ r, st.lookUp i name = .ok r ∧ ∀ found, r = some found →
          (found.isOutside = true ↔ st.Climbs i store.scopes.size ∧ u.builtins = some found.scope) ∧
          (found.isBeyond = true → st.executionScope found.scope ≠ st.executionScope i) ∧
          (st.executionScope found.scope ≠ st.executionScope i → found.isBeyond = true ∨ found.scope = store.scopes.size ∧
            ∃ c, st.Climbs i c ∧ st.executionScope c = st.executionScope i ∧ st.type? c = some .classBody ∧
              st.redirection? c name = some .global) := by
  obtain ⟨hfirst, hlast, hedits, _, hstages⟩ := (bindModule_recorded hu ho hgrounded haside h).trace
  refine ⟨hfirst, hlast, hedits, fun st hst i name hi => ?_⟩
  obtain ⟨g, hbase, hbuiltins, horder, _⟩ := hstages st hst
  rw [← hbase, ← hbuiltins] at hi ⊢
  constructor
  · rintro (rfl | hb)
    · simp [horder.root.2.2]
    · exact (horder.outermost i hb).2.2 name
  rcases hi with hbelow | hb
  · obtain ⟨r, hr, hreaches⟩ := horder.lookUp_reaches hbelow name
    refine ⟨r, hr, fun found hfound => ?_⟩
    have hway := hreaches found hfound
    refine ⟨(hway.isOutside horder (.inl hbelow)).trans ⟨fun ho => ⟨hbelow, ho.resolve_left (by simp)⟩, fun ho => .inr ho.2⟩,
      fun hf => ((hway.isBeyond horder).1 hf).resolve_left (by simp), fun hne => ?_⟩
    cases hf : found.isBeyond with
    | true => exact .inl rfl
    | false => exact .inr (((hway.isBeyond horder).2 hf).resolve_left hne)
  · refine ⟨_, horder.lookUpFrom_builtins hb name _ false false, fun found hfound => ?_⟩
    obtain ⟨s, _, rfl⟩ := Option.map_eq_some_iff.1 hfound
    exact ⟨⟨fun hf => absurd hf (by simp), fun hf => absurd hf.1 (horder.not_below_builtins hb)⟩, fun hf => absurd hf (by simp),
      fun hne => absurd rfl hne⟩

/-- A class in a function that declares a name as global. -/
def sampleReach : Module :=
  { body :=
      [.function {} false "f" (.mk {} [] [] none [] [] none [])
        [.classDef {} "A" [] [] [.globals {} ["x"], .assign {} [.name {} "x"] (.name {} "f")] []] [] none] }

/-- How the sample is bound, with builtins. -/
def sampleReachSetup : Setup Unit := { Setup.alone sampleReach.number with builtins := some 0 }

/-- From the class the name is found in the module, which the code of the function, where the look-up starts, is no part of,
but it is not reported as beyond. -/
theorem sampleReach_reports :
    let s := (bindModule sampleReachSetup sampleReach.number sampleBuiltins ()).2
    (s.store.lookUp 3 "x").toOption.join.map (fun found => (found.scope, found.isBeyond)) = some (1, false) ∧
      s.store.executionScope 3 = some 2 ∧ s.trace.head? = some sampleBuiltins ∧ s.trace.getLast? = some s.store ∧
      ∀ st ∈ s.trace.tail, ∃ r, st.lookUp 1 "x" = .ok r ∧
        ∀ found, r = some found → (found.isOutside = true ↔ sampleReachSetup.builtins = some found.scope) := by
  intro s
  have hok : (bindModule sampleReachSetup sampleReach.number sampleBuiltins ()).1.isOk = true := by decide +kernel
  obtain ⟨results, h⟩ := bindModule_of_isOk hok
  obtain ⟨hfirst, hlast, _, hreports⟩ :=
    lookups_report_distance (u := sampleReachSetup) (fun _ _ _ => le_refl _) rfl grounded_sampleBuiltins
      (fun _ st _ => aside_self _ st) h
  refine ⟨by decide +kernel, by decide +kernel, hfirst, hlast, fun st hst => ?_⟩
  obtain ⟨_, r, hr, hfound⟩ := hreports st hst 1 "x" (.inl (.refl _ _))
  exact ⟨r, hr, fun found hf => (hfound found hf).1.trans ⟨And.right, fun hb => ⟨.refl _ _, hb⟩⟩⟩

end Bind

end ScopeFlow
