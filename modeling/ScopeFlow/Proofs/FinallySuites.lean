import ScopeFlow.Proofs.FlowGraphs

/-!
# The code behind a `finally` suite

A `try` statement with a `finally` suite walks its suites one after the other: the body with the `else` suite, the `except`
clauses, and the `finally` suite. `TryPasses` names the states at the ends of these. Whether the code behind the statement is live
depends on the ends of the suites in front of the `finally` suite alone (`behind_finally`): the end of the `finally` suite is
what the way on comes from, but the way on is laid out also if that end is dead.
-/

namespace ScopeFlow.Bind

open FlowGraph

variable {ω : Type} {a : Nat} {u : Setup ω} {ctx : Context} {s s' : State ω}

/-- The first steps of a `try` statement with a `finally` suite: the labels of its clauses, the label in front of the
`finally` suite and that of the abrupt ways into it; an exception may be raised before the first statement of the body. -/
def openTry (handlers : List Handler) : BindM ω (List FlowRef × FlowRef × FlowRef × FlowRef) := do
  let labels ← newBranches handlers.length
  let beforeFinally ← newBranch
  let abrupt ← newBranch
  let gate ← newGate true beforeFinally abrupt
  linkCurrentAll (if catchesAll handlers then labels else labels ++ [abrupt])
  return (labels, beforeFinally, abrupt, gate)

/-- The `except` clauses of a `try` statement are walked from `s` to `s'`, and end in the states in between. -/
inductive ClausesPass (u : Setup ω) (ctx : Context) (after : FlowRef) :
    List FlowRef → List Handler → State ω → List (State ω) → State ω → Prop where
  | nil (labels : List FlowRef) (s : State ω) : ClausesPass u ctx after labels [] s [] s
  | cons {labels : List FlowRef} {m : Mark} {type : Option Expr} {name : Option String} {body : List Stmt}
      {handlers : List Handler}
      {s t s' : State ω} {reached : Bool} {ends : List (State ω)} :
      (layOutHandler u ctx after (labels.headD 0) m name (visitGiven u ctx type) (walkStatements u ctx body)).run s =
        .ok reached t →
      ClausesPass u ctx after labels.tail handlers t ends s' →
      ClausesPass u ctx after labels (.mk m type name body :: handlers) s (t :: ends) s'

/-- The suites of a `try` statement with a `finally` suite are walked from `s`. The body with the `else` suite and the `except`
clauses end in the states `ends`, and the `finally` suite ends in `last`. -/
inductive TryPasses (u : Setup ω) (ctx : Context) (body : List Stmt) (handlers : List Handler) (orElse final : List Stmt)
    (s : State ω) : List (State ω) → State ω → Prop where
  | intro {labels : List FlowRef} {after abrupt gate : FlowRef} {t₀ t₁ t₂ t₃ t₄ t₅ last : State ω} {ends : List (State ω)} :
      (openTry handlers).run s = .ok (labels, after, abrupt, gate) t₀ →
      (walkStatements u { guardedBy ctx true abrupt with
        exceptTargets := if catchesAll handlers then labels else labels ++ [abrupt] } body).run t₀ = .ok () t₁ →
      (walkStatements u (guardedBy ctx true abrupt) orElse).run t₁ = .ok () t₂ →
      (linkCurrent after).run t₂ = .ok () t₃ →
      ClausesPass u { guardedBy ctx true abrupt with exceptDepth := ctx.exceptDepth + 1 } after labels handlers t₃ ends t₄ →
      (finish after).run t₄ = .ok () t₅ →
      (walkStatements u ctx final).run t₅ = .ok () last →
      TryPasses u ctx body handlers orElse final s (t₂ :: ends) last

/-! ## The clauses -/

private theorem fits (n : Node) : Node.Fits true (fun _ => True) n := ⟨trivial, .inl rfl⟩

private theorem allFit (ts : List NodeTree) : NodeTree.AllIn (Node.Fits true fun _ => True) ts := fun n _ => fits n

/-- A clause keeps the state sound, and tells whether its end can be reached. -/
theorem layOutHandler_ends (hu : u.Steady) {after label : FlowRef} {m : Mark} {name : Option String} {type : Option Expr}
    {body : List Stmt} (hs : Sound true a s) (hw : ctx.Within a s.graph) (hj : Joint a s.graph after) (ha : a ≤ label)
    (hb : s.graph.IsBranch label) {reached : Bool} (h : (layOutHandler u ctx after label m name (visitGiven u ctx type)
      (walkStatements u ctx body)).run s = .ok reached s') :
    Sound true a s' ∧ s.graph.Grows s'.graph ∧ (reached = true ↔ s'.current ≠ 0) := by
  have hbody := walkStatements_extends (A := fun _ => True) (a := a) hu body (allFit _) ctx
  have hkeeps : Keeps true a ctx (walkStatements u ctx body) :=
    fun _ _ _ hs hw hr => ⟨(hbody hs hw hr).sound, (hbody hs hw hr).grows⟩
  obtain ⟨t1, t2, w1, _, hr, w2, _⟩ := layOutHandler_laid (B := fun _ => True) trivial
    (visitGiven_evaluates hu type (allFit _) ctx) hkeeps hs hw hj ha hb h
  have x2 := hbody w1.sound (hw.grow w1.grows) hr
  refine ⟨w2.sound, w1.grows.trans (x2.grows.trans w2.grows), ?_⟩
  -- The last step of the clause looks at the place that it ends at.
  have hlast : reached = !(s'.graph.nodeAt s'.current).step.isUnreachable := by
    dsimp only [layOutHandler] at h
    cases hname : name.filter (fun n => !n.isEmpty) with
    | none | some n =>
      simp only [hname, bind_ok, isDead_ok, pure_ok] at h
      grind
  rw [hlast, Bool.not_eq_true', ← Bool.not_eq_true, not_iff_not]
  exact w2.sound.isDead_iff

/-- The walk of the clauses passes their ends, and tells whether one of them can be reached. -/
theorem visitHandlers_passes (hu : u.Steady) {after : FlowRef} (handlers : List Handler) :
    ∀ {labels : List FlowRef} {s s' : State ω} {reached : Bool} (_ : Sound true a s) (_ : ctx.Within a s.graph)
      (_ : Joint a s.graph after) (_ : labels.length = handlers.length) (_ : ∀ l ∈ labels, a ≤ l ∧ s.graph.IsBranch l)
      (_ : (visitHandlers u ctx after labels handlers).run s = .ok reached s'),
      Sound true a s' ∧ s.graph.Grows s'.graph ∧
        ∃ ends, ClausesPass u ctx after labels handlers s ends s' ∧ (reached = true ↔ ∃ t ∈ ends, t.current ≠ 0) := by
  induction handlers with
  | nil =>
    intro labels s s' reached hs _ _ _ _ h
    rw [visitHandlers] at h
    obtain ⟨rfl, rfl⟩ := pure_ok.1 h
    exact ⟨hs, .refl _, [], .nil labels s, by simp⟩
  | cons handler handlers ih =>
    intro labels s s' reached hs hw hj hlen hlabels h
    obtain ⟨m, type, name, body⟩ := handler
    obtain _ | ⟨label, labels⟩ := labels
    · simp at hlen
    rw [visitHandlers] at h
    simp only [bind_ok, pure_ok] at h
    obtain ⟨first, t, h1, more, _, h2, rfl, rfl⟩ := h
    obtain ⟨s1, g1, hfirst⟩ := layOutHandler_ends hu hs hw hj (hlabels label (by simp)).1 (hlabels label (by simp)).2 h1
    obtain ⟨s2, g2, ends, hends, hmore⟩ := ih s1 (hw.grow g1) (hj.grow g1) (by simpa using hlen) (by grind) h2
    refine ⟨s2, g1.trans g2, t :: ends, .cons h1 hends, ?_⟩
    rw [Bool.or_eq_true, hfirst, hmore]
    simp

/-! ## The whole statement -/

/-- A `try` statement with a `finally` suite is laid out in the moments of `TryPasses`; the last of them puts the way on
behind the end of the `finally` suite, or drops it if the suites in front of it do not end. -/
theorem layOutTry_eq {node : Nat} {handlers : List Handler} {body orElse : Context → BindM ω Unit}
    {walkHandlers : Context → FlowRef → List FlowRef → BindM ω Bool} {final : BindM ω Unit} :
    layOutTry ctx node handlers true body orElse walkHandlers final = (do
      let (labels, after, abrupt, gate) ← openTry handlers
      body { guardedBy ctx true abrupt with exceptTargets := if catchesAll handlers then labels else labels ++ [abrupt] }
      orElse (guardedBy ctx true abrupt)
      linkCurrent after
      let bodyEnds := !(← isDead)
      let handlerEnds ← walkHandlers { guardedBy ctx true abrupt with exceptDepth := ctx.exceptDepth + 1 } after labels
      finish after
      layOutFinally node gate (bodyEnds || handlerEnds) final) := by
  simp only [layOutTry, openTry, guardedBy, bind_assoc, pure_bind, if_true]

/-- The labels that a `try` statement begins with. -/
theorem openTry_opens {handlers : List Handler} {labels : List FlowRef} {after abrupt gate : FlowRef} (hs : Sound true a s)
    (hw : ctx.Within a s.graph) (h : (openTry handlers).run s = .ok (labels, after, abrupt, gate) s') :
    Sound true a s' ∧ (guardedBy ctx true abrupt).Within a s'.graph ∧
      Context.Within { guardedBy ctx true abrupt with
        exceptTargets := if catchesAll handlers then labels else labels ++ [abrupt] } a s'.graph ∧
      Joint a s'.graph after ∧ s'.graph.IsBranch after ∧ labels.length = handlers.length ∧
      (∀ l ∈ labels, a ≤ l ∧ s'.graph.IsBranch l) ∧ s.graph.Grows s'.graph ∧ s'.graph.Known true a gate := by
  simp only [openTry, bind_ok, pure_ok, Prod.mk.injEq] at h
  obtain ⟨labels, q1, h1, after, q2, h2, abrupt, q3, h3, gate, q4, h4, _, q5, h5, ⟨rfl, rfl, rfl, rfl⟩, rfl⟩ := h
  obtain ⟨e1, _, hlen, hlabels⟩ := newBranches_evaluated (A := fun _ => True) handlers.length hs h1
  obtain ⟨e2, ha2, _, hb2⟩ := newBranch_evaluated (A := fun _ => True) e1.sound h2
  obtain ⟨e3, ha3, _, hb3⟩ := newBranch_evaluated (A := fun _ => True) e2.sound h3
  obtain ⟨e4, hk4, _⟩ := newGate_evaluated (B := fun _ => True) (fun _ => rfl) e3.sound (by grind) (by grind) h4
  have hjoint : ∀ l ∈ (if catchesAll handlers then labels else labels ++ [abrupt]), Joint a q4.graph l := by
    intro l hl
    have hcase : l ∈ labels ∨ l = abrupt := by grind
    rcases hcase with hl | rfl
    · have hlabel := hlabels l hl
      grind
    · grind
  obtain ⟨e5, _, _⟩ := linkCurrentAll_evaluated (A := fun _ => True) _ e4.sound hjoint h5
  have hgrows : s.graph.Grows q5.graph := by grind
  have hguarded : (guardedBy ctx true abrupt).Within a q5.graph := (hw.grow hgrows).guarded (by grind)
  exact ⟨e5.sound, hguarded, hguarded.managed fun l hl => (hjoint l hl).grow e5.grows,
    by grind, by grind, hlen, by grind, hgrows, by grind⟩

/-- Behind a `try` statement with a `finally` suite, code is dead just if no suite in front of the `finally` suite ends. The
end of the `finally` suite is what the way on comes from, dead or not. -/
theorem behind_finally (hu : u.Steady) {m : Mark} {isGroup : Bool} {body : List Stmt} {handlers : List Handler}
    {orElse final : List Stmt} (hfinal : final ≠ []) {join : Option FlowRef} (hs : Sound true a s)
      (hw : ctx.Within a s.graph) {x : Unit}
    (h : (visitStmt u ctx join (.tryBlock m isGroup body handlers orElse final)).run s = .ok x s') :
    ∃ ends last, TryPasses u ctx body handlers orElse final s ends last ∧
      (s'.current = 0 ↔ ∀ t ∈ ends, t.current = 0) ∧
      (s'.current ≠ 0 → ∃ id gate, s'.graph[s'.current]? = some ⟨id, .postFinally last.current (some m.index) gate⟩) := by
  have hwalk := fun ss inner => walkStatements_extends (A := fun _ => True) (a := a) hu ss (allFit _) inner
  rw [visitStmt, show (!final.isEmpty) = true by simpa using hfinal, layOutTry_eq] at h
  simp only [bind_ok, isDead_ok] at h
  obtain ⟨⟨labels, after, abrupt, gate⟩, t0, h0, _, t1, h1, _, t2, h2, _, t3, h3, _, _, ⟨rfl, rfl⟩, reached, t4, h4, _,
    t5, h5, h⟩ := h
  obtain ⟨s0, hguarded, hinner, hj0, hb0, hlen, hlabels, g0, hk0⟩ := openTry_opens hs hw h0
  have x1 := hwalk body _ s0 hinner h1
  have x2 := hwalk orElse _ x1.sound (hguarded.grow x1.grows) h2
  obtain ⟨e3, hc3, _⟩ := linkCurrent_evaluated (A := fun _ => True) x2.sound (by grind) h3
  have g03 := (x1.grows.trans x2.grows).trans e3.grows
  have hwh : Context.Within { guardedBy ctx true abrupt with exceptDepth := ctx.exceptDepth + 1 } a t3.graph := hguarded.grow g03
  obtain ⟨s4, g4, ends, hends, hreached⟩ := visitHandlers_passes hu handlers e3.sound hwh (hj0.grow g03) hlen (by grind) h4
  obtain ⟨w5, _⟩ := finish_walked (A := fun _ => True) s4 hj0.1 (by grind) h5
  simp only [layOutFinally, bind_ok, current_ok, newNode_ok] at h
  obtain ⟨_, last, h6, _, _, ⟨rfl, rfl⟩, ref, t7, ⟨rfl, rfl⟩, h⟩ := h
  have x6 := hwalk final ctx w5.sound (by grind) h6
  have hpos : last.graph.size ≠ 0 := Nat.pos_iff_ne_zero.1 (Nat.lt_of_lt_of_le x6.sound.formed.base x6.sound.formed.within)
  -- The way on is open just if the suites in front of the `finally` suite end.
  have hbody : (t3.graph.nodeAt t3.current).step.isUnreachable = true ↔ t2.current = 0 := by
    rw [← hc3]
    exact e3.sound.isDead_iff
  have hopen : (!(t3.graph.nodeAt t3.current).step.isUnreachable || reached) = true ↔ ∃ t ∈ t2 :: ends, t.current ≠ 0 := by
    rw [Bool.or_eq_true, hreached, Bool.not_eq_true', ← Bool.not_eq_true, hbody]
    simp
  refine ⟨t2 :: ends, last, .intro h0 h1 h2 h3 hends h5 h6, ?_⟩
  split at h
  · rename_i hends
    obtain ⟨t, ht, hne⟩ := hopen.1 hends
    obtain rfl := setCurrent_ok.1 h
    exact ⟨⟨fun h0 => absurd h0 hpos, fun hall => absurd (hall t ht) hne⟩, fun _ => ⟨_, gate, Array.getElem?_push_size⟩⟩
  · rename_i hends
    obtain rfl := setCurrent_ok.1 h
    have hall : ∀ t ∈ t2 :: ends, t.current = 0 := fun t ht => not_not.1 fun hne => hends (hopen.2 ⟨t, ht, hne⟩)
    exact ⟨⟨fun _ => hall, fun _ => rfl⟩, fun hne => absurd rfl hne⟩

/-- A `finally` suite that does not end, behind a body that does. -/
def sampleFinally : Stmt :=
  .tryBlock ⟨1, none⟩ false [.pass ⟨2, none⟩] [] [] [.returnValue ⟨3, none⟩ none]

/-- The code behind it goes on from the sentinel, and is not dead. -/
theorem sampleFinally_goes_on : ∃ (s' last : State Unit) (ends : List (State Unit)),
    (visitStmt (.alone { body := [sampleFinally] }) { scope := 0, owner := 0 } none sampleFinally).run
      (.opened (.alone { body := [sampleFinally] }) {} ()) = .ok () s' ∧
    TryPasses (.alone { body := [sampleFinally] }) { scope := 0, owner := 0 } [.pass ⟨2, none⟩] [] []
      [.returnValue ⟨3, none⟩ none]
      (.opened (.alone { body := [sampleFinally] }) {} ()) ends last ∧
    last.current = 0 ∧ s'.current ≠ 0 := by
  have hends : endsIn (visitStmt (.alone { body := [sampleFinally] }) { scope := 0, owner := 0 } none sampleFinally)
      (.opened (.alone { body := [sampleFinally] }) {} ())
      (fun s' => s'.current != 0 && (s'.graph.nodeAt s'.current).step.antecedents == [0, 4]) = true := by decide +kernel
  obtain ⟨_, s', hrun, htest⟩ := exists_of_endsIn hends
  simp only [Bool.and_eq_true, bne_iff_ne, beq_iff_eq] at htest
  obtain ⟨ends, last, hpasses, _, hon⟩ := behind_finally (Setup.alone_steady _) (by simp) (sound_opened _ (by decide) ())
    (by simp [Context.Within, Context.labels]) hrun
  obtain ⟨id, gate, hnode⟩ := hon htest.1
  rw [nodeAt_eq hnode] at htest
  exact ⟨s', last, ends, hrun, hpasses, (List.cons.inj htest.2).1, htest.1⟩

end ScopeFlow.Bind
