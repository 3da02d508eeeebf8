import ScopeFlow.Proofs.Simple

/-!
# Layouts of compound statements

A compound statement lays out labels and walks its suites between them. Each lemma takes a run of a layout from live code
apart at the runs of its suites: which states they start and end in, what the layout does around them, and when it goes on
with live code. The suites themselves are only known to keep the graph sound (`Keeps`), so what is said of them elsewhere
can be put in place of each.
-/

namespace ScopeFlow.Bind

open FlowGraph

variable {ω : Type} {α : Type} {lax : Bool} {a : Nat} {B : Nat → Prop} {u : Setup ω} {ctx : Context} {s s' : State ω} {x : Unit}
  {body : Context → BindM ω Unit} {node : Nat} {after : FlowRef} {g : FlowGraph} {test : Expr}

/-- A step that keeps states sound and lets the graph grow. -/
def Keeps (lax : Bool) (a : Nat) (ctx : Context) (f : BindM ω α) : Prop :=
  ∀ ⦃s x s'⦄, Sound lax a s → ctx.Within a s.graph → f.run s = .ok x s' → Sound lax a s' ∧ s.graph.Grows s'.graph

/-! ## Loops -/

/-- The labels of a loop are in reach of its body. -/
theorem Context.Within.loop (h : ctx.Within a g) {before after : FlowRef} (hb : Joint a g before)
    (ha : Joint a g after) :
    Context.Within { ctx with continueTarget := some before, breakTarget := some after } a g := by
  intro l hl
  rcases Context.mem_labels_loop hl with rfl | rfl | hl
  · exact hb
  · exact ha
  · exact h l hl

/-- A loop label that live code leads to is a place to go on from. -/
theorem enterLoop_evaluated (hs : Sound lax a s) (h0 : s.current ≠ 0) {before : FlowRef} (hj : Joint a s.graph before)
    (h : (do linkCurrent before; setCurrent before : BindM ω Unit).run s = .ok x s') :
    Evaluated lax a B s s' ∧ s'.current ≠ 0 := by
  obtain ⟨_, t, h1, h2⟩ := bind_ok.1 h
  obtain ⟨e1, _, hlive⟩ := linkCurrent_evaluated (A := B) hs hj h1
  have hk : t.graph.Known lax a before := .inr ⟨hj.1, e1.sound.formed.rooted_of_live (hlive h0)⟩
  obtain ⟨w2, hc⟩ := setCurrent_walked (A := B) e1.sound hk h2
  have hpos : s'.current ≠ 0 := hc ▸ Nat.pos_iff_ne_zero.1 (Nat.lt_of_lt_of_le hs.formed.base hj.1)
  exact ⟨⟨e1.toWalked.trans w2, fun _ => hpos⟩, hpos⟩

/-- The join behind statements: it can be reached from their end if that can, and from what led to it before. -/
theorem joinAfter_walked (hs : Sound lax a s) (ha : a ≤ after) (hb : s.graph.IsBranch after)
    (h : (do linkCurrent after; finish after : BindM ω Unit).run s = .ok x s') :
    Walked lax a B s s' ∧ (s.current ≠ 0 ∨ s.graph.Live after → s'.current ≠ 0) := by
  obtain ⟨_, t, h1, h2⟩ := bind_ok.1 h
  obtain ⟨e1, _, hlive1⟩ := linkCurrent_evaluated (A := B) hs ⟨ha, hb.isLabel⟩ h1
  obtain ⟨w2, hlive2⟩ := finish_walked (A := B) e1.sound ha (by grind) h2
  exact ⟨by grind, by grind⟩

/-- The layout of a loop: its body can be reached if `p` holds, its `else` suite if `q` holds, and the code behind it from the
end of that suite or by a `break`. -/
def LaysLoop (lax : Bool) (a : Nat) (B : Nat → Prop) (ctx : Context) (node : Nat) (body : Context → BindM ω Unit)
    (orElse : BindM ω Unit) (p q : Prop) (s s' : State ω) : Prop :=
  ∃ before after t1 t2 t3 t4 t5, Walked lax a B s t1 ∧ (p → t1.current ≠ 0) ∧
    Context.Within { ctx with continueTarget := some before, breakTarget := some after } a t1.graph ∧
    (body { ctx with continueTarget := some before, breakTarget := some after }).run t1 = .ok () t2 ∧
    Walked lax a B t2 t3 ∧ (q → t3.current ≠ 0) ∧ orElse.run t3 = .ok () t4 ∧
    Walked lax a B t4 t5 ∧ (t4.current ≠ 0 ∨ t4.graph.Live after → t5.current ≠ 0) ∧
    (stampAfter node : BindM ω Unit).run t5 = .ok () s'

theorem LaysLoop.behind {orElse : BindM ω Unit} {p q : Prop} {t : State ω} (w : Walked lax a B s t)
    (h : LaysLoop lax a B ctx node body orElse p q t s') : LaysLoop lax a B ctx node body orElse p q s s' := by
  obtain ⟨before, after, t1, t2, t3, t4, t5, w1, h⟩ := h
  exact ⟨before, after, t1, t2, t3, t4, t5, w.trans w1, h⟩

/-- A `for` loop: its body and its `else` suite can be reached, and the code behind it from the end of that suite or by a
`break`. -/
theorem layOutFor_laid {target orElse : BindM ω Unit}
    (ht : Evaluates lax a B ctx target) (hbody : ∀ inner, Keeps lax a inner (body inner)) (helse : Keeps lax a ctx orElse)
    (hs : Sound lax a s) (hw : ctx.Within a s.graph) (h0 : s.current ≠ 0)
    (h : (layOutFor ctx node target body orElse).run s = .ok x s') :
    LaysLoop lax a B ctx node body orElse True True s s' := by
  simp only [layOutFor, bind_ok] at h
  obtain ⟨before, q1, h1, exhausted, q2, h2, after, q3, h3, _, q4, h4, _, q5, h5, _, q6, h6, _, q7, h7, _, q8, h8, _, q9, h9,
    _, q10, h10, _, q11, h11, _, q12, h12, _, q13, h13, h14⟩ := h
  obtain ⟨e1, _, hj1⟩ := newLoop_evaluated (A := B) hs h1
  obtain ⟨e2, ha2, _, hb2⟩ := newBranch_evaluated (A := B) e1.sound h2
  obtain ⟨e3, ha3, _, hb3⟩ := newBranch_evaluated (A := B) e2.sound h3
  obtain ⟨e5, h05⟩ := enterLoop_evaluated (B := B) e3.sound (by grind) (by grind) (bind_ok.2 ⟨_, q4, h4, h5⟩)
  obtain ⟨e6, _, hlive6⟩ := linkCurrent_evaluated (A := B) e5.sound (by grind) h6
  have e7 := ht e6.sound (by grind) h7
  have hinner : Context.Within { ctx with continueTarget := some before, breakTarget := some after } a q7.graph :=
    .loop (by grind) (by grind) (by grind)
  obtain ⟨s8, g8⟩ := hbody _ e7.sound hinner h8
  obtain ⟨e9, _, _⟩ := linkCurrent_evaluated (A := B) s8 (by grind) h9
  obtain ⟨w10, hlive10⟩ := finish_walked (A := B) e9.sound ha2 (by grind) h10
  obtain ⟨s11, g11⟩ := helse w10.sound (by grind) h11
  obtain ⟨w13, hlive13⟩ := joinAfter_walked (B := B) s11 ha3 (by grind) (bind_ok.2 ⟨_, q12, h12, h13⟩)
  exact ⟨before, after, q7, q8, q10, q11, q13, by grind, by grind, hinner, h8, by grind, by grind, h11, w13, hlive13, h14⟩

/-- Going on on one side of a test: it is live code if the test may come out that way. -/
theorem enterBranch_walked (hs : Sound lax a s) {label : FlowRef} (ha : a ≤ label) (hb : s.graph.IsBranch label)
    {value : Option Bool} {ruledOut : Bool}
    (h : (enterBranch label value ruledOut : BindM ω Unit).run s = .ok x s') :
    Walked lax a B s s' ∧ (value ≠ some ruledOut → s.graph.Live label → s'.current ≠ 0) := by
  unfold enterBranch at h
  split at h
  · rename_i hv
    exact ⟨setDead_walked hs h, fun hne => absurd (by simpa using hv) hne⟩
  · obtain ⟨w, hlive⟩ := finish_walked (A := B) hs ha hb h
    exact ⟨w, fun _ => hlive⟩

/-- A `while` loop: the body can be reached if its test may be true, the `else` suite if it may be false, and the code behind
the loop from the end of that suite or by a `break`. -/
theorem layOutWhile_laid {walkTest : FlowRef → FlowRef → BindM ω Unit} {orElse : BindM ω Unit}
    (ht : Tests lax a B u ctx (fun c b => c.MayBe test b) walkTest)
    (hbody : ∀ inner, Keeps lax a inner (body inner)) (helse : Keeps lax a ctx orElse) (hs : Sound lax a s)
    (hw : ctx.Within a s.graph) (h0 : s.current ≠ 0)
    (h : (layOutWhile u ctx node test walkTest body orElse).run s = .ok x s') :
    LaysLoop lax a B ctx node body orElse ((s.static u).MayBe test true) ((s.static u).MayBe test false) s s' := by
  simp only [layOutWhile, bind_ok, staticValue_ok] at h
  obtain ⟨onTrue, q1, h1, onFalse, q2, h2, after, q3, h3, v, _, ⟨hv, rfl⟩, before, q4, h4, _, q5, h5, _, q6, h6, _, q7, h7,
    _, q8, h8, _, q9, h9, _, q10, h10, _, q11, h11, _, q12, h12, _, q13, h13, _, q14, h14, h15⟩ := h
  obtain ⟨e1, ha1, _, hb1⟩ := newBranch_evaluated (A := B) hs h1
  obtain ⟨e2, ha2, _, hb2⟩ := newBranch_evaluated (A := B) e1.sound h2
  obtain ⟨e3, ha3, _, hb3⟩ := newBranch_evaluated (A := B) e2.sound h3
  obtain ⟨e4, _, hj4⟩ := newLoop_evaluated (A := B) e3.sound h4
  have e13 := (e1.trans e2).trans e3
  obtain ⟨e6, h06⟩ := enterLoop_evaluated (B := B) e4.sound (by grind) hj4 (bind_ok.2 ⟨_, q5, h5, h6⟩)
  have t7 := ht e6.sound (by grind) (by grind) (by grind) h7
  rw [(e13.trans (e4.trans e6)).static] at t7
  rw [e13.static] at hv
  have hruled := fun b hb => StaticContext.ne_of_mayBe (b := b) hv hb
  obtain ⟨w8, hlive8⟩ := enterBranch_walked (B := B) t7.sound ha1 (by grind) h8
  have hinner : Context.Within { ctx with continueTarget := some before, breakTarget := some after } a q8.graph :=
    .loop (by grind) (by grind) (by grind)
  obtain ⟨s9, g9⟩ := hbody _ w8.sound hinner h9
  obtain ⟨e10, _, _⟩ := linkCurrent_evaluated (A := B) s9 (by grind) h10
  obtain ⟨w11, hlive11⟩ := enterBranch_walked (B := B) e10.sound ha2 (by grind) h11
  obtain ⟨s12, g12⟩ := helse w11.sound (by grind) h12
  obtain ⟨w14, hlive14⟩ := joinAfter_walked (B := B) s12 ha3 (by grind) (bind_ok.2 ⟨_, q13, h13, h14⟩)
  have hlive7 := t7.live h06
  exact ⟨before, after, q8, q9, q11, q12, q14, by grind, fun hb => hlive8 (hruled true hb) (hlive7 true hb), hinner, h9, by grind,
    fun hb => hlive11 (hruled false hb) (by grind), h12, w14, hlive14, h15⟩

/-! ## Branches -/

mutual

/-- The edge past an `if` leaves live code live. Where it moves the current node it has led to its target. -/
theorem linkNever_evaluated (e : Expr) ⦃s s' : State ω⦄ ⦃x : Unit⦄ ⦃target : FlowRef⦄ ⦃positive : Bool⦄
    (hs : Sound lax a s) (hw : ctx.Within a s.graph) (hj : Joint a s.graph target)
    (h : (linkNever u ctx target positive e).run s = .ok x s') :
    Evaluated lax a B s s' ∧ (s.current ≠ 0 → s'.current = s.current ∨ s'.graph.Live target) := by
  cases hl : e.isLogical with
  | false =>
    rw [linkNever_leaf hl] at h
    simp only [bind_ok, ofExcept_ok] at h
    obtain ⟨narrowing, _, ⟨_, rfl⟩, h⟩ := h
    split at h
    · simp only [bind_ok, current_ok] at h
      obtain ⟨_, _, ⟨rfl, rfl⟩, ref, t1, h1, _, t2, h2, h3⟩ := h
      obtain ⟨e1, hc1, hk1, hv1⟩ := conditional_evaluated (A := B) hs hw hs.current h1
      obtain ⟨w2, hc2⟩ := setCurrent_walked (A := B) e1.sound hk1 h2
      obtain ⟨e3, hc3, hlive3⟩ := linkCurrent_evaluated (A := B) w2.sound (by grind) h3
      have hawake : s.current ≠ 0 → t2.current ≠ 0 := by
        intro h0
        obtain ⟨v, _, hr⟩ := hv1 h0
        rcases hr with ⟨_, hkind⟩ | ⟨_, hkind⟩ | hr
        · cases positive <;> cases hkind
        · cases positive <;> cases hkind
        · exact hc2 ▸ hr
      exact ⟨⟨by grind, by grind⟩, by grind⟩
    · obtain ⟨e1, hc1, _⟩ := linkCurrent_evaluated (A := B) hs hj h
      exact ⟨e1, fun _ => .inl hc1⟩
  | true =>
    match e, hl with
    | .unaryOp _ .not operand, _ =>
      rw [linkNever] at h
      exact linkNever_evaluated operand hs hw hj h
    | .boolOp _ op values, _ =>
      rw [linkNever] at h
      exact linkNevers_evaluated op values hs hw hj h

/-- The same for the operands of `and` or `or`. -/
theorem linkNevers_evaluated (op : BoolOperator) (es : List Expr) ⦃s s' : State ω⦄ ⦃x : Unit⦄ ⦃target : FlowRef⦄
    ⦃positive : Bool⦄ (hs : Sound lax a s) (hw : ctx.Within a s.graph) (hj : Joint a s.graph target)
    (h : (linkNevers u ctx op target positive es).run s = .ok x s') :
    Evaluated lax a B s s' ∧ (s.current ≠ 0 → s'.current = s.current ∨ s'.graph.Live target) := by
  match es with
  | [] =>
    rw [linkNevers] at h
    exact absurd h (by simp)
  | [e] =>
    rw [linkNevers] at h
    exact linkNever_evaluated e hs hw hj h
  | e :: e' :: rest =>
    cases op with
    | and =>
      obtain ⟨t1, h1, h2⟩ := linkNevers_and_run h
      obtain ⟨e1, _⟩ := linkNever_evaluated e hs hw hj h1
      obtain ⟨w2, hc2⟩ := setCurrent_walked (A := B) e1.sound (hs.current.grow e1.grows) ((setCurrent_ok (a := ())).2 rfl)
      have e12 : Evaluated lax a B s { t1 with current := s.current } := ⟨e1.toWalked.trans w2, id⟩
      obtain ⟨e3, hlive3⟩ := linkNevers_evaluated .and (e' :: rest) e12.sound (by grind) (by grind) h2
      exact ⟨e12.trans e3, hlive3⟩
    | or =>
      obtain ⟨after, t1, t2, h1, h2, hrest⟩ := linkNevers_or_run h
      obtain ⟨e1, ha, hc1, hb⟩ := newBranch_evaluated (A := B) hs h1
      obtain ⟨e2, hlive2⟩ := linkNever_evaluated e e1.sound (by grind) (by grind) h2
      have e12 := e1.trans e2
      rcases hrest with ⟨hstay, rfl⟩ | ⟨hmoved, t3, t4, h3, h4, hlast⟩
      · exact ⟨e12, fun _ => .inl hstay⟩
      · obtain ⟨w3, hlive3⟩ := finish_walked (A := B) e2.sound ha (by grind) h3
        have h03 : s.current ≠ 0 → t3.current ≠ 0 := fun h0 =>
          hlive3 ((hlive2 (hc1 ▸ h0)).resolve_left fun heq => hmoved (heq.trans hc1))
        have e13 : Evaluated lax a B s t3 := ⟨e12.toWalked.trans w3, h03⟩
        obtain ⟨e4, hlive4⟩ := linkNevers_evaluated .or (e' :: rest) e13.sound (by grind) (by grind) h4
        have e14 := e13.trans e4
        rcases hlast with ⟨_, rfl⟩ | ⟨hgone, rfl⟩
        · obtain ⟨w5, hc5⟩ := setCurrent_walked (A := B) e14.sound (hs.current.grow e14.grows) ((setCurrent_ok (a := ())).2 rfl)
          exact ⟨⟨e14.toWalked.trans w5, id⟩, fun _ => .inl rfl⟩
        · exact ⟨e14, fun h0 => .inr ((hlive4 (h03 h0)).resolve_left hgone)⟩

end

/-- An `if`: its sides can be reached if its test may come out that way, and the end of its body leads behind it. -/
theorem layOutIf_laid {join : Option FlowRef} {walkTest : FlowRef → FlowRef → BindM ω Unit}
    {body : BindM ω Unit} {orElse : FlowRef → BindM ω Unit} (ht : Tests lax a B u ctx (fun c b => c.MayBe test b) walkTest)
    (hbody : Keeps lax a ctx body)
    (helse : ∀ ⦃t t' : State ω⦄ ⦃y : Unit⦄ ⦃after : FlowRef⦄, Sound lax a t → ctx.Within a t.graph → Joint a t.graph after →
      (orElse after).run t = .ok y t' → Sound lax a t' ∧ t.graph.Grows t'.graph)
    (hs : Sound lax a s) (hw : ctx.Within a s.graph) (hjoin : ∀ l ∈ join, Joint a s.graph l) (h0 : s.current ≠ 0)
    (h : (layOutIf u join test walkTest body orElse).run s = .ok x s') :
    ∃ after t1 t2 t3 t4,
      Walked lax a B s t1 ∧ ((s.static u).MayBe test true → t1.current ≠ 0) ∧ body.run t1 = .ok () t2 ∧
      Walked lax a B t2 t3 ∧ ((s.static u).MayBe test false → t3.current ≠ 0) ∧ Joint a t3.graph after ∧
      (t2.current ≠ 0 → t3.graph.Live after) ∧ (orElse after).run t3 = .ok () t4 ∧
      Walked lax a B t4 s' ∧ (∀ l ∈ join, after = l) ∧ (join = none → t4.graph.Live after → s'.current ≠ 0) := by
  obtain ⟨after, q0, hjoinOf, h⟩ := bind_ok.1 h
  obtain ⟨e0, hj0, hbranch, hsame⟩ : Evaluated lax a B s q0 ∧ Joint a q0.graph after ∧
      (join = none → q0.graph.IsBranch after) ∧ ∀ l ∈ join, after = l := by
    cases join with
    | none =>
      obtain ⟨e, ha, hc, hb⟩ := newBranch_evaluated (A := B) hs hjoinOf
      exact ⟨e, ⟨ha, hb.isLabel⟩, fun _ => hb, nofun⟩
    | some l =>
      obtain ⟨rfl, rfl⟩ := pure_ok.1 hjoinOf
      exact ⟨.refl hs, hjoin l rfl, nofun, fun l' hl' => by simpa using hl'⟩
  simp only [bind_ok, staticValue_ok] at h
  obtain ⟨onTrue, q1, h1, onFalse, q2, h2, v, _, ⟨hv, rfl⟩, _, q3, h3, _, q4, h4, _, q5, h5, _, q6, h6, _, q7, h7, _, q8, h8,
    h9⟩ := h
  obtain ⟨e1, ha1, _, hb1⟩ := newBranch_evaluated (A := B) e0.sound h1
  obtain ⟨e2, ha2, _, hb2⟩ := newBranch_evaluated (A := B) e1.sound h2
  have e02 := (e0.trans e1).trans e2
  have t3 := ht e2.sound (by grind) (by grind) (by grind) h3
  rw [e02.static] at t3 hv
  have hruled := fun b hb => StaticContext.ne_of_mayBe (b := b) hv hb
  have hlive3 := t3.live (e02.awake h0)
  obtain ⟨w4, hlive4⟩ := enterBranch_walked (B := B) t3.sound ha1 (by grind) h4
  obtain ⟨s5, g5⟩ := hbody w4.sound (by grind) h5
  obtain ⟨e6, _, hlive6⟩ := linkCurrent_evaluated (A := B) s5 (by grind) h6
  obtain ⟨w7, hlive7⟩ := enterBranch_walked (B := B) e6.sound ha2 (by grind) h7
  have hj7 : Joint a q7.graph after := by grind
  obtain ⟨s8, g8⟩ := helse w7.sound (by grind) hj7 h8
  refine ⟨after, q4, q5, q7, q8, by grind, fun hb => hlive4 (hruled true hb) (hlive3 true hb), h5, by grind,
    fun hb => hlive7 (hruled false hb) (by grind), hj7, by grind, h8, ?_⟩
  cases join with
  | some l =>
    obtain ⟨_, rfl⟩ := pure_ok.1 h9
    exact ⟨.refl s8, hsame, nofun⟩
  | none =>
    obtain ⟨w9, hlive9⟩ := finish_walked (A := B) s8 hj0.1 (by grind) h9
    exact ⟨w9, nofun, fun _ => hlive9⟩

/-- The other side of an `if`: an `elif` that can be reached is walked by itself; otherwise the end of the suite, or what
falls past an `if` without one, leads behind the `if`. -/
theorem layOutElse_laid {orElse : List Stmt} {walk next : BindM ω Unit}
    (hwalk : Keeps lax a ctx walk) (hs : Sound lax a s) (hw : ctx.Within a s.graph) (hj : Joint a s.graph after)
    (h : (layOutElse u ctx after test orElse walk next).run s = .ok x s') :
    (isElif orElse = true ∧ s.current ≠ 0 ∧ next.run s = .ok () s') ∨
      (orElse = [] ∧ Walked lax a B s s' ∧ (s.current ≠ 0 → s'.graph.Live after)) ∨
      (∃ t, walk.run s = .ok () t ∧ Walked lax a B t s' ∧ (t.current ≠ 0 → s'.graph.Live after) ∧
        (isElif orElse = true → s.current = 0)) := by
  simp only [layOutElse, bind_ok, isDead_ok] at h
  obtain ⟨_, _, ⟨rfl, rfl⟩, h⟩ := h
  split at h
  · rename_i hc
    simp only [Bool.and_eq_true, Bool.not_eq_true'] at hc
    refine .inl ⟨hc.1, fun h0 => ?_, h⟩
    have := hs.isDead_iff.2 h0
    rw [hc.2] at this
    cases this
  · rename_i hc
    have hdead : isElif orElse = true → s.current = 0 := by
      intro he
      refine hs.isDead_iff.1 ?_
      simpa [he] using hc
    split at h
    · rename_i hempty
      obtain ⟨_, t, h1, h2⟩ := bind_ok.1 h
      obtain ⟨e1, _⟩ := linkNever_evaluated (B := B) test hs hw hj h1
      obtain ⟨e2, _, hlive⟩ := linkCurrent_evaluated (A := B) e1.sound (by grind) h2
      exact .inr (.inl ⟨List.isEmpty_iff.1 hempty, by grind, by grind⟩)
    · obtain ⟨_, t, h1, h2⟩ := bind_ok.1 h
      obtain ⟨s1, g1⟩ := hwalk hs hw h1
      obtain ⟨e2, _, hlive⟩ := linkCurrent_evaluated (A := B) s1 (by grind) h2
      exact .inr (.inr ⟨t, h1, e2.toWalked, hlive, hdead⟩)

/-- The cases of a `match` statement: the code behind it can be reached from the end of a case or past the last one. -/
theorem layOutMatch_laid {cases : FlowRef → BindM ω Unit}
    (hcases : ∀ ⦃t t' : State ω⦄ ⦃y : Unit⦄ ⦃after : FlowRef⦄, Sound lax a t → ctx.Within a t.graph → Joint a t.graph after →
      (cases after).run t = .ok y t' → Sound lax a t' ∧ t.graph.Grows t'.graph)
    (hs : Sound lax a s) (hw : ctx.Within a s.graph) (h : (layOutMatch cases).run s = .ok x s') :
    ∃ after t1 t2, Walked lax a B s t1 ∧ (s.current ≠ 0 → t1.current ≠ 0) ∧ Joint a t1.graph after ∧
      (cases after).run t1 = .ok () t2 ∧ Walked lax a B t2 s' ∧
      (t2.current ≠ 0 ∨ t2.graph.Live after → s'.current ≠ 0) := by
  simp only [layOutMatch, bind_ok] at h
  obtain ⟨after, t1, h1, _, t2, h2, _, t3, h3, h4⟩ := h
  obtain ⟨e1, ha, _, hb⟩ := newBranch_evaluated (A := B) hs h1
  have hj : Joint a t1.graph after := ⟨ha, hb.isLabel⟩
  obtain ⟨s2, g2⟩ := hcases e1.sound (by grind) hj h2
  obtain ⟨w4, hlive4⟩ := joinAfter_walked (B := B) s2 ha (by grind) (bind_ok.2 ⟨_, t3, h3, h4⟩)
  exact ⟨after, t1, t2, e1.toWalked, e1.awake, hj, h2, w4, hlive4⟩

/-- One `case`: its body can be reached if its guard may be true; the next case can be reached unless the pattern is the
bare wildcard and the guard cannot be false. -/
theorem layOutCase_laid {pattern : Pattern} {walkPattern body : BindM ω Unit}
    {guard : FlowRef → FlowRef → BindM ω Unit} {outcomes : StaticContext → Bool → Prop} {shaped : Prop}
    (hpattern : WalksIf lax a B ctx shaped walkPattern) (hguard : Tests lax a B u ctx outcomes guard)
    (hbody : Keeps lax a ctx body) (hs : Sound lax a s) (hw : ctx.Within a s.graph) (hj : Joint a s.graph after)
    (h : (layOutCase after pattern walkPattern guard body).run s = .ok x s') :
    ∃ t1 t2, Walked lax a B s t1 ∧ (shaped → s.current ≠ 0 → outcomes (s.static u) true → t1.current ≠ 0) ∧
      body.run t1 = .ok () t2 ∧ Walked lax a B t2 s' ∧ (t2.current ≠ 0 → s'.graph.Live after) ∧
      (s.current ≠ 0 → pattern.isWildcard = false → s'.current ≠ 0) ∧
      (shaped → s.current ≠ 0 → outcomes (s.static u) false → s'.current ≠ 0) := by
  obtain ⟨next, q1, h1, h⟩ := bind_ok.1 h
  obtain ⟨beforeGuard, q2, h2, h⟩ := bind_ok.1 h
  obtain ⟨beforeSuite, q3, h3, h⟩ := bind_ok.1 h
  obtain ⟨_, q4, h4, h⟩ := bind_ok.1 h
  obtain ⟨e1, ha1, _, hb1⟩ := newBranch_evaluated (A := B) hs h1
  obtain ⟨e2, ha2, _, hb2⟩ := newBranch_evaluated (A := B) e1.sound h2
  obtain ⟨e3, ha3, _, hb3⟩ := newBranch_evaluated (A := B) e2.sound h3
  obtain ⟨e4, _, hlive4⟩ := linkCurrent_evaluated (A := B) e3.sound (by grind) h4
  obtain ⟨q5, e5, hlive5, hrest⟩ : ∃ q5, Evaluated lax a B q4 q5 ∧
      (s.current ≠ 0 → pattern.isWildcard = false → q5.graph.Live next) ∧ (do
        finish beforeGuard; walkPattern; guard beforeSuite next; finish beforeSuite; body; linkCurrent after
        finish next : BindM ω Unit).run q5 = .ok x s' := by
    cases hwild : pattern.isWildcard with
    | true =>
      rw [hwild] at h
      exact ⟨q4, .refl e4.sound, by simp, h⟩
    | false =>
      rw [hwild] at h
      obtain ⟨_, q5, h5, h⟩ := bind_ok.1 h
      obtain ⟨e5, _, hlive5⟩ := linkCurrent_evaluated (A := B) e4.sound (by grind) h5
      exact ⟨q5, e5, by grind, h⟩
  simp only [bind_ok] at hrest
  obtain ⟨_, q6, h6, _, q7, h7, _, q8, h8, _, q9, h9, _, q10, h10, _, q11, h11, h12⟩ := hrest
  obtain ⟨w6, hlive6⟩ := finish_walked (A := B) e5.sound ha2 (by grind) h6
  have h06 : s.current ≠ 0 → q6.current ≠ 0 := by grind
  obtain ⟨w7, awake7⟩ := hpattern w6.sound (by grind) h7
  have w17 : Walked lax a B s q7 := by grind
  have t8 := hguard w7.sound (by grind) (by grind) (by grind) h8
  rw [w17.static] at t8
  have hlive8 : shaped → s.current ≠ 0 → _ := fun hp h0 => t8.live (awake7 hp (h06 h0))
  obtain ⟨w9, hlive9⟩ := finish_walked (A := B) t8.sound ha3 (by grind) h9
  obtain ⟨s10, g10⟩ := hbody w9.sound (by grind) h10
  obtain ⟨e11, _, hlive11⟩ := linkCurrent_evaluated (A := B) s10 (by grind) h11
  obtain ⟨w12, hlive12⟩ := finish_walked (A := B) e11.sound ha1 (by grind) h12
  exact ⟨q9, q10, by grind, fun hp h0 hb => hlive9 (hlive8 hp h0 true hb), h10, by grind, by grind, by grind,
    fun hp h0 hb => hlive12 (by grind)⟩

/-- An assertion: the code behind it can be reached if its test may be true. -/
theorem layOutAssert_laid {test : FlowRef → FlowRef → BindM ω Unit} {message : Option (BindM ω Unit)}
    {outcomes : StaticContext → Bool → Prop} (ht : Tests lax a B u ctx outcomes test)
    (hm : ∀ m ∈ message, Evaluates lax a B ctx m) (hs : Sound lax a s) (hw : ctx.Within a s.graph)
    (h : (layOutAssert test message).run s = .ok x s') :
    Walked lax a B s s' ∧ (s.current ≠ 0 → outcomes (s.static u) true → s'.current ≠ 0) := by
  obtain ⟨onTrue, q1, h1, h⟩ := bind_ok.1 h
  obtain ⟨onFalse, q2, h2, h⟩ := bind_ok.1 h
  obtain ⟨_, q3, h3, h⟩ := bind_ok.1 h
  obtain ⟨e1, ha1, _, hb1⟩ := newBranch_evaluated (A := B) hs h1
  obtain ⟨e2, ha2, _, hb2⟩ := newBranch_evaluated (A := B) e1.sound h2
  have t3 := ht e2.sound (by grind) (by grind) (by grind) h3
  rw [(e1.trans e2).static] at t3
  obtain ⟨q4, w4, h5⟩ : ∃ q4, Walked lax a B q3 q4 ∧ (finish onTrue : BindM ω Unit).run q4 = .ok x s' := by
    cases message with
    | none => exact ⟨q3, .refl t3.sound, h⟩
    | some m =>
      simp only [bind_ok] at h
      obtain ⟨_, q4, h4, _, q5, h5, h6⟩ := h
      obtain ⟨w4, _⟩ := finish_walked (A := B) t3.sound ha2 (by grind) h4
      have e5 := hm m rfl w4.sound (by grind) h5
      exact ⟨q5, by grind, h6⟩
  obtain ⟨w5, hlive5⟩ := finish_walked (A := B) w4.sound ha1 (by grind) h5
  exact ⟨by grind, fun h0 hb => hlive5 ((t3.live (by grind) true hb).grow w4.grows)⟩

/-! ## Classes, context managers and jumps -/

/-- A class: its body starts as live code, and behind its end the name is assigned. -/
theorem layOutClass_laid {site : Site} {name : String}
    (hbody : ∀ inner, Keeps lax a inner (body inner)) (hs : Sound lax a s) (hw : ctx.Within a s.graph)
    (h : (layOutClass u ctx site name body).run s = .ok x s') :
    ∃ scope t1 t2, Evaluated lax a B s t1 ∧ (body { ctx with scope := scope }).run t1 = .ok () t2 ∧
      Evaluated lax a B t2 s' := by
  simp only [layOutClass, bind_ok] at h
  obtain ⟨parent, q1, h1, scope, q2, h2, _, q3, h3, _, q4, h4, _, q5, h5, h6⟩ := h
  have e1 := Evaluated.ofQuiet (A := B) hs (nonClassScope_quiet _ h1)
  have e2 := e1.trans (.ofQuiet e1.sound (newScope_quiet _ _ h2))
  have e3 := e2.trans (setScope_evaluates e2.sound (hw.grow e2.grows) h3)
  obtain ⟨s4, g4⟩ := hbody { ctx with scope := scope } e3.sound (hw.grow e3.grows) h4
  have e5 := Evaluates.discard (bindHere_evaluates (A := B) u name) s4 (by grind) h5
  exact ⟨scope, q3, q4, e3, h4, e5.trans (assignName_evaluates name false false nofun e5.sound (by grind) h6)⟩

/-- The label of a context manager is in reach of its body. -/
theorem Context.Within.managed (h : ctx.Within a g) {targets : List FlowRef}
    (ht : ∀ l ∈ targets, Joint a g l) : Context.Within { ctx with exceptTargets := targets } a g := by
  intro l hl
  exact (Context.mem_labels_catching hl).elim (ht l) (h l)

/-- A `with` statement: its body can be reached, and so can the code behind it, because the manager may swallow what its body
raises. -/
theorem layOutWith_laid {managers : List Nat} {isAsync : Bool}
    (hbody : ∀ inner, Keeps lax a inner (body inner)) (hs : Sound lax a s) (hw : ctx.Within a s.graph)
    (h0 : s.current ≠ 0) (h : (layOutWith ctx managers isAsync body).run s = .ok x s') :
    ∃ swallowed t1 t2, Walked lax a B s t1 ∧ t1.current ≠ 0 ∧
      Context.Within { ctx with exceptTargets := [swallowed] } a t1.graph ∧
      (body { ctx with exceptTargets := [swallowed] }).run t1 = .ok () t2 ∧ Walked lax a B t2 s' ∧ s'.current ≠ 0 := by
  simp only [layOutWith, bind_ok] at h
  obtain ⟨swallowed, q1, h1, _, q2, h2, after, q3, h3, _, q4, h4, _, q5, h5, _, q6, h6, h7⟩ := h
  obtain ⟨e1, ha1, _, id, hn1⟩ := newNode_evaluated (A := B) hs rfl (fun _ => rfl) (by simp [FlowStep.antecedents])
    (by simp [FlowStep.isStart]) h1
  have hj1 : Joint a q1.graph swallowed := ⟨ha1, _, hn1, rfl⟩
  obtain ⟨e2, _, hlive2⟩ := linkCurrent_evaluated (A := B) e1.sound hj1 h2
  obtain ⟨e3, ha3, _, hb3⟩ := newBranch_evaluated (A := B) e2.sound h3
  have hk3 : q3.graph.Known lax a swallowed := .inr ⟨ha1, e3.sound.formed.rooted_of_live (by grind)⟩
  have hpos : swallowed ≠ 0 := Nat.pos_iff_ne_zero.1 (Nat.lt_of_lt_of_le hs.formed.base ha1)
  obtain ⟨e4, _, hlive4⟩ := link_evaluated (A := B) e3.sound (by grind) hk3 h4
  have hinner : Context.Within { ctx with exceptTargets := [swallowed] } a q4.graph :=
    .managed (by grind) (by simpa using hj1.grow ((e2.trans e3).trans e4).grows)
  obtain ⟨s5, g5⟩ := hbody _ e4.sound hinner h5
  obtain ⟨e6, _, _⟩ := linkCurrent_evaluated (A := B) s5 (by grind) h6
  obtain ⟨w7, hlive7⟩ := finish_walked (A := B) e6.sound ha3 (by grind) h7
  exact ⟨swallowed, q4, q5, by grind, by grind, hinner, h5, by grind, hlive7 (by grind)⟩

/-- A jump from live code makes its targets live. -/
theorem jump_laid {targets : List FlowRef} (hs : Sound lax a s) (ht : ∀ l ∈ targets, Joint a s.graph l)
    (h : (jump targets : BindM ω Unit).run s = .ok x s') :
    Walked lax a B s s' ∧ (s.current ≠ 0 → ∀ l ∈ targets, s'.graph.Live l) := by
  obtain ⟨_, t, h1, h2⟩ := bind_ok.1 h
  obtain ⟨e1, _, hlive⟩ := linkCurrentAll_evaluated (A := B) targets hs ht h1
  have w2 := setDead_walked (A := B) e1.sound h2
  exact ⟨by grind, by grind⟩

/-! ## Exceptions -/

/-- The entry of a `finally` suite leads to the suite. -/
theorem newGate_evaluated {hasFinally : Bool} (hlax : hasFinally = true → lax = true) (hs : Sound lax a s)
    {beforeFinally abrupt gate : FlowRef} (hb : Joint a s.graph beforeFinally) (ha : Joint a s.graph abrupt)
    (h : (newGate hasFinally beforeFinally abrupt : BindM ω FlowRef).run s = .ok gate s') :
    Evaluated lax a B s s' ∧ s'.graph.Known lax a gate ∧
      (hasFinally = true → s.current ≠ 0 → s'.graph.Live beforeFinally) := by
  unfold newGate at h
  split at h
  · rename_i hf
    simp only [bind_ok, pure_ok] at h
    obtain ⟨gate, t1, h1, _, t2, h2, rfl, rfl⟩ := h
    obtain ⟨n, hn, _⟩ := ha.2
    have hlt : abrupt < s.graph.size := (Array.getElem?_eq_some_iff.1 hn).1
    obtain ⟨e1, hle, hc1, id, hgate⟩ := newNode_evaluated (A := B) hs rfl (by simp [FlowStep.isLabel])
      (by simpa [FlowStep.antecedents] using .inr ⟨ha.1, hlt⟩) (by simp [FlowStep.isStart]) h1
    have hk : t1.graph.Known lax a gate := .inr ⟨hle, .passage (hlax hf) hgate rfl⟩
    have hpos : gate ≠ 0 := Nat.pos_iff_ne_zero.1 (Nat.lt_of_lt_of_le hs.formed.base hle)
    obtain ⟨e2, _, hlive⟩ := link_evaluated (A := B) e1.sound (by grind) hk h2
    exact ⟨e1.trans e2, by grind, by grind⟩
  · rename_i hf
    obtain ⟨rfl, rfl⟩ := pure_ok.1 h
    exact ⟨.refl hs, .inl rfl, fun hf' => absurd hf' hf⟩

/-- A `finally` suite: its end goes on as live code if what it follows can end. -/
theorem layOutFinally_laid {gate : FlowRef} {ends : Bool} {final : BindM ω Unit} (hlax : lax = true)
    (hfinal : Keeps lax a ctx final) (hs : Sound lax a s) (hw : ctx.Within a s.graph) (hg : s.graph.Known lax a gate)
    (h : (layOutFinally node gate ends final).run s = .ok x s') :
    ∃ t, final.run s = .ok () t ∧ Walked lax a B t s' ∧ (ends = true → s'.current ≠ 0) := by
  simp only [layOutFinally, bind_ok, current_ok] at h
  obtain ⟨_, t, h1, _, _, ⟨rfl, rfl⟩, ref, t2, h2, h3⟩ := h
  obtain ⟨s1, g1⟩ := hfinal hs hw h1
  have hback : ∀ x ∈ (FlowStep.postFinally t.current (some node) gate).antecedents, x = 0 ∨ a ≤ x ∧ x < t.graph.size := by
    intro x hx
    simp only [FlowStep.antecedents, List.mem_cons, List.not_mem_nil, or_false] at hx
    rcases hx with rfl | rfl
    · exact s1.current.imp_right fun hr => ⟨hr.1, hr.2.lt_size⟩
    · exact (hg.grow g1).imp_right fun hr => ⟨hr.1, hr.2.lt_size⟩
  obtain ⟨e2, hle, _, id, href⟩ := newNode_evaluated (A := B) s1 rfl (by simp [FlowStep.isLabel]) hback
    (by simp [FlowStep.isStart]) h2
  refine ⟨t, h1, ?_⟩
  split at h3
  · have hk : t2.graph.Known lax a ref := .inr ⟨hle, .passage hlax href rfl⟩
    obtain ⟨w3, hc3⟩ := setCurrent_walked (A := B) e2.sound hk h3
    exact ⟨e2.toWalked.trans w3, fun _ => hc3 ▸ Nat.pos_iff_ne_zero.1 (Nat.lt_of_lt_of_le hs.formed.base hle)⟩
  · rename_i hends
    exact ⟨e2.toWalked.trans (setDead_walked e2.sound h3), fun he => absurd he hends⟩

/-- An `except` clause: its body can be reached if its label is live, and its end leads behind the clauses. -/
theorem layOutHandler_laid {after label : FlowRef} {mark : Mark} {name : Option String} {type body : BindM ω Unit}
    {ends : Bool} (hB : B mark.index) (htype : Evaluates lax a B ctx type) (hbody : Keeps lax a ctx body)
    (hs : Sound lax a s) (hw : ctx.Within a s.graph) (ha : Joint a s.graph after) (hl : a ≤ label)
    (hb : s.graph.IsBranch label) (h : (layOutHandler u ctx after label mark name type body).run s = .ok ends s') :
    ∃ t1 t2, Walked lax a B s t1 ∧ (s.graph.Live label → t1.current ≠ 0) ∧ body.run t1 = .ok () t2 ∧
      Walked lax a B t2 s' ∧ (t2.current ≠ 0 → ends = true ∧ s'.graph.Live after) := by
  obtain ⟨_, q1, h1, h⟩ := bind_ok.1 h
  obtain ⟨_, q2, h2, h⟩ := bind_ok.1 h
  obtain ⟨w1, hlive1⟩ := finish_walked (A := B) hs hl hb h1
  have e2 := htype w1.sound (by grind) h2
  -- The name, if there is one, is introduced in front of the body and deleted behind it.
  obtain ⟨q3, q4, q5, e3, h4, hdelete, h6⟩ : ∃ q3 q4 q5, Evaluated lax a B q2 q3 ∧ body.run q3 = .ok () q4 ∧
      (∀ (_ : Sound lax a q4) (_ : ctx.Within a q4.graph), Evaluated lax a B q4 q5) ∧
      (do linkCurrent after; return !(← isDead) : BindM ω Bool).run q5 = .ok ends s' := by
    dsimp only at h
    cases hname : name.filter (fun n => !n.isEmpty) with
    | none =>
      rw [hname] at h
      obtain ⟨_, q4, h4, h⟩ := bind_ok.1 h
      exact ⟨q2, q4, q4, .refl e2.sound, h4, fun hs4 _ => .refl hs4, h⟩
    | some n =>
      rw [hname] at h
      obtain ⟨_, q3, h3, h⟩ := bind_ok.1 h
      obtain ⟨_, q4, h4, h⟩ := bind_ok.1 h
      obtain ⟨_, q5, h5, h⟩ := bind_ok.1 h
      have hsite : Assignable (Node.Fits lax B) (Site.mk mark "ExceptHandler").index := ⟨.ignore mark, ⟨hB, .inr rfl⟩, rfl⟩
      exact ⟨q3, q4, q5, introduce_law evaluates_assigns hsite n e2.sound (by grind) h3, h4,
        fun hs4 hw4 => assignName_evaluates n true true (fun _ => hB) hs4 hw4 h5, h⟩
  obtain ⟨s4, g4⟩ := hbody e3.sound (by grind) h4
  have e5 := hdelete s4 (by grind)
  simp only [bind_ok, isDead_ok, pure_ok] at h6
  obtain ⟨_, q6, h6, _, _, ⟨rfl, rfl⟩, rfl, rfl⟩ := h6
  obtain ⟨e6, _, hlive6⟩ := linkCurrent_evaluated (A := B) e5.sound (by grind) h6
  refine ⟨q3, q4, by grind, by grind, h4, by grind, fun h0 => ⟨?_, by grind⟩⟩
  have h06 := e6.awake (e5.awake h0)
  cases hd : (q6.graph.nodeAt q6.current).step.isUnreachable with
  | true => exact absurd (e6.sound.isDead_iff.1 hd) h06
  | false => rfl

/-- The label of a `finally` suite is in reach of what the suite follows. -/
theorem Context.Within.guarded (h : ctx.Within a g) {abrupt : FlowRef} (ha : Joint a g abrupt) :
    Context.Within { ctx with finallyTargets := ctx.finallyTargets ++ [abrupt] } a g := by
  intro l hl
  rcases Context.mem_labels_final hl with rfl | hl
  · exact ha
  · exact h l hl

/-- The context of the suites that a `finally` suite follows. -/
def guardedBy (ctx : Context) (hasFinally : Bool) (abrupt : FlowRef) : Context :=
  if hasFinally then { ctx with finallyTargets := ctx.finallyTargets ++ [abrupt] } else ctx

/-- A `try` statement: its body and, because an exception may be raised at once, all its `except` clauses can be reached, and so
can its `finally` suite. The code behind it can be reached if the body with its `else` suite, or a clause, can end. -/
theorem layOutTry_laid {handlers : List Handler} {hasFinally : Bool} {body orElse : Context → BindM ω Unit}
    {walkHandlers : Context → FlowRef → List FlowRef → BindM ω Bool} {final : BindM ω Unit}
    (hlax : hasFinally = true → lax = true) (hbody : ∀ inner, Keeps lax a inner (body inner))
    (helse : ∀ inner, Keeps lax a inner (orElse inner))
    (hhandlers : ∀ ⦃t t' : State ω⦄ ⦃y : Bool⦄ ⦃inner : Context⦄ ⦃after : FlowRef⦄ ⦃labels : List FlowRef⦄, Sound lax a t →
      inner.Within a t.graph → Joint a t.graph after → labels.length = handlers.length →
      (∀ l ∈ labels, a ≤ l ∧ t.graph.IsBranch l) → (walkHandlers inner after labels).run t = .ok y t' →
      Sound lax a t' ∧ t.graph.Grows t'.graph)
    (hfinal : Keeps lax a ctx final) (hs : Sound lax a s) (hw : ctx.Within a s.graph) (h0 : s.current ≠ 0)
    (h : (layOutTry ctx node handlers hasFinally body orElse walkHandlers final).run s = .ok x s') :
    ∃ abrupt targets labels after handlerEnds t1 t2 t3 t4 t5 t6,
      Walked lax a B s t1 ∧ t1.current ≠ 0 ∧
      Context.Within { guardedBy ctx hasFinally abrupt with exceptTargets := targets } a t1.graph ∧
      (guardedBy ctx hasFinally abrupt).Within a t1.graph ∧
      (body { guardedBy ctx hasFinally abrupt with exceptTargets := targets }).run t1 = .ok () t2 ∧
      (orElse (guardedBy ctx hasFinally abrupt)).run t2 = .ok () t3 ∧
      Walked lax a B t3 t4 ∧ Joint a t4.graph after ∧ labels.length = handlers.length ∧
      (∀ l ∈ labels, a ≤ l ∧ t4.graph.IsBranch l ∧ t4.graph.Live l) ∧
      (walkHandlers { guardedBy ctx hasFinally abrupt with exceptDepth := ctx.exceptDepth + 1 } after labels).run t4 =
        .ok handlerEnds t5 ∧
      Walked lax a B t5 t6 ∧
      (hasFinally = true → t6.current ≠ 0 ∧ ∃ t7, final.run t6 = .ok () t7 ∧ Walked lax a B t7 s' ∧
        (t3.current ≠ 0 ∨ handlerEnds = true → s'.current ≠ 0)) ∧
      (hasFinally = false → t6 = s' ∧ (t3.current ≠ 0 ∨ t5.graph.Live after → s'.current ≠ 0)) := by
  simp only [layOutTry, bind_ok, isDead_ok] at h
  obtain ⟨labels, q1, h1, after, q2, h2, abrupt, q3, h3, gate, q4, h4, _, q5, h5, _, q6, h6, _, q7, h7, _, q8, h8, _, _,
    ⟨rfl, rfl⟩, handlerEnds, q9, h9, _, q10, h10, h11⟩ := h
  obtain ⟨e1, _, hlen, hlabels⟩ := newBranches_evaluated (A := B) handlers.length hs h1
  obtain ⟨e2, ha2, _, hb2⟩ := newBranch_evaluated (A := B) e1.sound h2
  obtain ⟨e3, ha3, _, hb3⟩ := newBranch_evaluated (A := B) e2.sound h3
  have hjAbrupt : Joint a q3.graph abrupt := ⟨ha3, hb3.isLabel⟩
  obtain ⟨e4, hkGate, hliveGate⟩ := newGate_evaluated (B := B) hlax e3.sound (by grind) hjAbrupt h4
  -- Every label of a clause is among the targets of an exception.
  generalize htargets : (if catchesAll handlers then labels else labels ++ [abrupt]) = targets at h5 h6
  have hsub : ∀ l ∈ labels, l ∈ targets := by grind
  have hjTargets : ∀ l ∈ targets, Joint a q4.graph l := by grind
  obtain ⟨e5, _, hlive5⟩ := linkCurrentAll_evaluated (A := B) targets e4.sound hjTargets h5
  have hguarded : (guardedBy ctx hasFinally abrupt).Within a q5.graph := by
    unfold guardedBy
    split
    · exact .guarded (by grind) (by grind)
    · grind
  have hinner : Context.Within { guardedBy ctx hasFinally abrupt with exceptTargets := targets } a q5.graph :=
    hguarded.managed (by grind)
  obtain ⟨s6, g6⟩ := hbody { guardedBy ctx hasFinally abrupt with exceptTargets := targets } e5.sound hinner h6
  obtain ⟨s7, g7⟩ := helse (guardedBy ctx hasFinally abrupt) s6 (hguarded.grow g6) h7
  obtain ⟨e8, _, hlive8⟩ := linkCurrent_evaluated (A := B) s7 (by grind) h8
  have hlabels8 : ∀ l ∈ labels, a ≤ l ∧ q8.graph.IsBranch l ∧ q8.graph.Live l := by grind
  have hwHandlers : Context.Within { guardedBy ctx hasFinally abrupt with exceptDepth := ctx.exceptDepth + 1 } a q8.graph :=
    hguarded.grow (by grind)
  obtain ⟨s9, g9⟩ := hhandlers e8.sound hwHandlers (by grind) hlen (by grind) h9
  obtain ⟨w10, hlive10⟩ := finish_walked (A := B) s9 ha2 (by grind) h10
  refine ⟨abrupt, targets, labels, after, handlerEnds, q5, q6, q7, q8, q9, q10, by grind, by grind, hinner, hguarded,
    h6, h7, e8.toWalked, by grind, hlen, hlabels8, h9, w10, ?_, ?_⟩
  · rintro rfl
    obtain ⟨t7, h7', w11, hends⟩ := layOutFinally_laid (B := B) (hlax rfl) hfinal w10.sound (by grind) (by grind) h11
    refine ⟨by grind, t7, h7', w11, fun hor => hends ?_⟩
    rcases hor with h07 | hh
    · cases hd : (q8.graph.nodeAt q8.current).step.isUnreachable with
      | true => exact absurd (e8.sound.isDead_iff.1 hd) (e8.awake h07)
      | false => rfl
    · simp [hh]
  · rintro rfl
    obtain ⟨_, rfl⟩ := pure_ok.1 h11
    exact ⟨rfl, by grind⟩

end ScopeFlow.Bind
