import ScopeFlow.Proofs.Jobs

/-!
# What conditions narrow

What a search for references does with a condition is decided by the form of the condition (`Expr.plan`): it finds the condition
itself, the target of an assignment in it, or it goes on with parts of it. The mode only says which references and calls are
left out.

A search adds what it finds behind what was found before, and it says that the condition narrows exactly if it has found something
(`NarrowingMode.Finds`). It fails only on a comparison that lacks an operand, which parsing never gives.
-/

namespace ScopeFlow

/-- Whether the target of an assignment expression is a name. -/
def Node.NamesTarget : Node → Prop
  | .expr (.named _ target _) => target.isName = true
  | _ => True

/-- Whether a comparison has an operand for each of its operators. -/
def Node.Compares : Node → Prop
  | .expr (.compare _ _ ops comparators) => ops.length = comparators.length
  | _ => True

/-- What a search does with a condition. -/
inductive NarrowingPlan where
  | nothing
  | malformed
  /-- The condition is a reference. -/
  | itself
  /-- The target of an assignment expression is found. -/
  | target (e : Expr)
  | part (complex : Bool) (e : Expr)
  /-- The argument of a built-in check. -/
  | check (e : Expr)
  /-- The first argument of any other call. -/
  | argument (e : Expr)
  | both (left right : Expr)
  /-- The second part is searched if the first does not narrow. -/
  | either (first second : Expr)

/-- The parts of a condition that a search goes on with. -/
def NarrowingPlan.parts : NarrowingPlan → List Expr
  | nothing | malformed | itself => []
  | target e | part _ e | check e | argument e => [e]
  | both e e' | either e e' => [e, e']

namespace Expr

/-- What a search does with an expression. -/
def plan (e : Expr) : NarrowingPlan :=
  match e with
  | .name .. | .member .. | .subscript .. => if e.isReference then .itself else .nothing
  | .named _ target _ => .target target
  | .compare _ _ [_] [] => .malformed
  | .compare _ left [op] (right :: _) =>
    match op with
    | .is | .isNot =>
      if right.isNone || !left.isSimpleCall "type" 1 then .part true left
      else
        match left with
        | .call _ _ (arg :: _) _ => .part true arg
        | _ => .nothing
    | .eq | .notEq => if right.isNone then .part true left else .both left right
    | .isIn => .either right left
    | .notIn => .part true right
    | .lt | .ltE | .gt | .gtE => .nothing
  | .unaryOp _ .not operand => .part false operand
  | .call _ _ (arg :: _) _ => if e.isBuiltinCheck then .check arg else if arg.isStarred then .nothing else .argument arg
  | _ => .nothing

theorem mem_nodes (e : Expr) : Node.expr e ∈ e.tree.preorder := e.node_of_all fun _ h => h

/-- The parts that a search goes on with are smaller, and what holds of all nodes of the whole holds of theirs. -/
theorem parts_within (e : Expr) : ∀ p ∈ e.plan.parts, sizeOf p < sizeOf e ∧ ∀ P, e.tree.All P → p.tree.All P := by
  unfold plan
  split <;> (repeat' split) <;>
    simp only [NarrowingPlan.parts, List.forall_mem_cons, List.not_mem_nil, false_implies, implies_true, and_true, tree, trees,
      NodeTree.all_mk, NodeTree.allIn_cons, NodeTree.allIn_append, named.sizeOf_spec, compare.sizeOf_spec, call.sizeOf_spec,
      unaryOp.sizeOf_spec, List.cons.sizeOf_spec]
  all_goals grind

section

variable {e p : Expr}

theorem isReference_of_plan (h : e.plan = .itself) : e.isReference = true := by
  unfold plan at h
  split at h <;> grind

theorem isName_of_plan (h : e.plan = .target p) (hn : e.tree.All Node.NamesTarget) : p.isName = true := by
  have hnode := e.node_of_all hn
  unfold plan at h
  split at h <;> grind [Node.NamesTarget]

theorem isReference_of_isName (h : e.isName = true) : e.isReference = true := by
  cases e with
  | name => rfl
  | _ => cases h

theorem not_compares_of_plan (h : e.plan = .malformed) : ¬e.tree.All Node.Compares := by
  intro hc
  have hnode := e.node_of_all hc
  unfold plan at h
  split at h <;> grind [Node.Compares]

end

end Expr

namespace NarrowingMode

variable {mode : NarrowingMode} {complex : Bool} {found : List Expr} {e : Expr} {result result' : Bool × List Expr}

/-- What a search comes to with a plan. -/
def follow (mode : NarrowingMode) (complex : Bool) (found : List Expr) (e : Expr) : NarrowingPlan →
    Except Fault (Bool × List Expr)
  | .nothing => .ok (false, found)
  | .malformed => .error .missingElement
  | .itself => if mode.never && !(e.isName && complex) then .ok (false, found) else .ok (true, found ++ [e])
  | .target target => .ok (true, found ++ [target])
  | .part complex e => mode.search complex found e
  | .check e => if mode.never && !mode.policy.neverBuiltinChecks then .ok (false, found) else mode.search true found e
  | .argument e => if mode.never || !mode.policy.callArguments then .ok (false, found) else mode.search true found e
  | .both left right => do
    let (leftNarrows, found) ← mode.search true found left
    let (rightNarrows, found) ← mode.search true found right
    return (leftNarrows || rightNarrows, found)
  | .either first second => do
    let (firstNarrows, found) ← mode.search true found first
    if firstNarrows then return (true, found) else mode.search true found second

/-- A search follows the plan of the condition. -/
theorem search_eq_follow : mode.search complex found e = mode.follow complex found e e.plan := by
  rw [search.eq_def]
  unfold Expr.plan
  split <;> grind [follow]

/-! ## What is found -/

/-- What a search finds in an expression: it narrows exactly if it finds something, and what it finds are references within,
in never mode names. -/
def Finds (mode : NarrowingMode) (e : Expr) (found : List Expr) (result : Bool × List Expr) : Prop :=
  ∃ new, result.2 = found ++ new ∧ (result.1 = true ↔ new ≠ []) ∧
    ∀ r ∈ new, r.isReference = true ∧ .expr r ∈ e.tree.preorder ∧ (mode.never = true → r.isName = true)

namespace Finds

theorem nothing : mode.Finds e found (false, found) := ⟨[], by simp, by simp, by simp⟩

theorem one {r : Expr} (hr : r.isReference = true) (hmem : .expr r ∈ e.tree.preorder)
    (hname : mode.never = true → r.isName = true) : mode.Finds e found (true, found ++ [r]) :=
  ⟨[r], rfl, by simp, fun _ h => List.mem_singleton.1 h ▸ ⟨hr, hmem, hname⟩⟩

/-- What is found in a part is found in the whole. -/
theorem within {p : Expr} (h : mode.Finds p found result) (hsub : ∀ n ∈ p.tree.preorder, n ∈ e.tree.preorder) :
    mode.Finds e found result := by
  obtain ⟨new, hnew, hiff, hall⟩ := h
  exact ⟨new, hnew, hiff, fun r hr => ⟨(hall r hr).1, hsub _ (hall r hr).2.1, (hall r hr).2.2⟩⟩

/-- A search goes on behind another one. -/
theorem behind (h : mode.Finds e found result) (h' : mode.Finds e result.2 result') :
    mode.Finds e found (result.1 || result'.1, result'.2) := by
  obtain ⟨new, hnew, hiff, hall⟩ := h
  obtain ⟨new', hnew', hiff', hall'⟩ := h'
  refine ⟨new ++ new', by rw [hnew', hnew, List.append_assoc], ?_, fun r hr => (List.mem_append.1 hr).elim (hall r) (hall' r)⟩
  rw [Bool.or_eq_true, hiff, hiff', Ne, Ne, Ne, List.append_eq_nil_iff]
  tauto

/-- A search that finds nothing leaves what was found before. -/
theorem eq_of_false (h : mode.Finds e found result) (hfalse : result.1 = false) : result.2 = found := by
  obtain ⟨new, hnew, hiff, _⟩ := h
  have hnil : new = [] := by
    by_contra hne
    rw [hiff.2 hne] at hfalse
    cases hfalse
  rw [hnew, hnil, List.append_nil]

end Finds

/-- What may be said of the outcome of a search: it has found what it says, or the condition is malformed. -/
def Searched (mode : NarrowingMode) (e : Expr) (found : List Expr) : Except Fault (Bool × List Expr) → Prop
  | .ok result => mode.Finds e found result
  | .error _ => ¬e.tree.All Node.Compares

theorem Searched.bind {outcome : Except Fault (Bool × List Expr)} {next : Bool × List Expr → Except Fault (Bool × List Expr)}
    (h : mode.Searched e found outcome) (hnext : ∀ first, mode.Finds e found first → mode.Searched e found (next first)) :
    mode.Searched e found (outcome >>= next) := by
  cases outcome with
  | error fault => exact h
  | ok first => exact hnext first h

/-- A search whose answer is joined to the one before it. -/
theorem Searched.behind {outcome : Except Fault (Bool × List Expr)} {first : Bool × List Expr} (hfirst : mode.Finds e found first)
    (h : mode.Searched e first.2 outcome) :
      mode.Searched e found ((fun second => (first.1 || second.1, second.2)) <$> outcome) := by
  cases outcome with
  | error fault => exact h
  | ok second => exact hfirst.behind h

theorem search_finds (mode : NarrowingMode) (e : Expr) (hn : e.tree.All Node.NamesTarget) (complex : Bool) (found : List Expr) :
    mode.Searched e found (mode.search complex found e) := by
  have hpart : ∀ p ∈ e.plan.parts, ∀ complex found, mode.Searched e found (mode.search complex found p) := by
    intro p hmem complex found
    obtain ⟨hlt, hall⟩ := e.parts_within p hmem
    have hsearched := search_finds mode p (hall _ hn) complex found
    revert hsearched
    cases mode.search complex found p with
    | error fault => exact fun hbad hc => hbad (hall _ hc)
    | ok result => exact fun hfinds => hfinds.within (hall _ fun _ h => h)
  rw [search_eq_follow]
  cases hplan : e.plan with
  | nothing => exact .nothing
  | malformed => exact Expr.not_compares_of_plan hplan
  | itself =>
    rw [follow]
    split
    · exact .nothing
    · rename_i hnever
      refine Finds.one (Expr.isReference_of_plan hplan) e.mem_nodes fun hmode => ?_
      simp only [hmode, Bool.true_and, Bool.not_eq_true, Bool.not_eq_false', Bool.and_eq_true] at hnever
      exact hnever.1
  | target t =>
    have hname := Expr.isName_of_plan hplan hn
    have hmem := (e.parts_within t (by simp [hplan, NarrowingPlan.parts])).2 (· ∈ e.tree.preorder) (fun _ h => h) _ t.mem_nodes
    exact Finds.one (Expr.isReference_of_isName hname) hmem fun _ => hname
  | part complex p => exact hpart p (by simp [hplan, NarrowingPlan.parts]) complex found
  | check p | argument p =>
    rw [follow]
    split
    · exact .nothing
    · exact hpart p (by simp [hplan, NarrowingPlan.parts]) true found
  | both left right =>
    have hleft := hpart left (by simp [hplan, NarrowingPlan.parts]) true found
    exact hleft.bind fun first hfirst => .behind hfirst (hpart right (by simp [hplan, NarrowingPlan.parts]) true first.2)
  | either left right =>
    have hleft := hpart left (by simp [hplan, NarrowingPlan.parts]) true found
    refine hleft.bind fun first hfirst => ?_
    dsimp only
    split
    · rename_i hnarrows
      exact hnarrows ▸ hfirst
    · -- The first part has found nothing, so the second one goes on where it began.
      rename_i hnarrows
      have hright := hpart right (by simp [hplan, NarrowingPlan.parts]) true first.2
      rwa [hfirst.eq_of_false (Bool.eq_false_iff.2 hnarrows)] at hright ⊢
termination_by sizeOf e

/-- What an outcome of a search says once it is concluded. -/
theorem conclude_finds {result : Bool × List Expr} (h : mode.Finds e [] result) :
    ((conclude result).isNarrowing = true ↔ (conclude result).references ≠ []) ∧
      ∀ r ∈ (conclude result).references, r.isReference = true ∧ .expr r ∈ e.tree.preorder ∧
        (mode.never = true → r.isName = true) := by
  obtain ⟨new, hnew, hiff, hall⟩ := h
  rw [List.nil_append] at hnew
  unfold conclude
  split
  · rename_i hnarrows
    exact ⟨by simp [hnew, hiff.1 hnarrows], hnew ▸ hall⟩
  · simp

theorem classify_finds (mode : NarrowingMode) (hn : e.tree.All Node.NamesTarget) :
    (∃ result, mode.classify e = .ok (conclude result) ∧ mode.Finds e [] result) ∨
      ∃ fault, mode.classify e = .error fault ∧ ¬e.tree.All Node.Compares := by
  have hsearched := mode.search_finds e hn false []
  rw [classify]
  cases hsearch : mode.search false [] e with
  | error fault =>
    rw [hsearch] at hsearched
    exact .inr ⟨fault, rfl, hsearched⟩
  | ok result =>
    rw [hsearch] at hsearched
    exact .inl ⟨result, rfl, hsearched⟩

theorem classify_parsed (mode : NarrowingMode) (e : Expr) (hp : e.tree.All Node.Parsed) :
    ∃ n, mode.classify e = .ok n ∧ ∀ r ∈ n.references, r.isReference = true := by
  have hn : e.tree.All Node.NamesTarget := hp.imp fun n hnode => by
    unfold Node.NamesTarget
    split <;> trivial
  rcases mode.classify_finds hn with ⟨result, hr, hfinds⟩ | ⟨fault, -, hbad⟩
  · exact ⟨_, hr, fun r hmem => ((conclude_finds hfinds).2 r hmem).1⟩
  · refine absurd (hp.imp fun n hnode => ?_) hbad
    unfold Node.Compares
    split
    · exact hnode.1
    · trivial

/-- If the targets of assignment expressions are names, a condition narrows exactly if it has references, which are parts of
it, and in never mode names. A search that does not narrow leaves what was found before, and only a comparison without an
operand makes it fail. -/
theorem classify_sound (mode : NarrowingMode) (e : Expr) (hn : e.tree.All Node.NamesTarget) :
    (∀ n, mode.classify e = .ok n → (n.isNarrowing = true ↔ n.references ≠ []) ∧
      ∀ r ∈ n.references, r.isReference = true ∧ .expr r ∈ e.tree.preorder ∧ (mode.never = true → r.isName = true)) ∧
    (∀ complex found found', mode.search complex found e = .ok (false, found') → found' = found) ∧
    (e.tree.All Node.Compares → ∃ n, mode.classify e = .ok n) := by
  refine ⟨fun n hc => ?_, fun complex found found' hs => ?_, fun hc => ?_⟩
  · rcases mode.classify_finds hn with ⟨result, hr, hfinds⟩ | ⟨fault, hfault, -⟩
    · obtain rfl : conclude result = n := Except.ok.inj (hr.symm.trans hc)
      exact conclude_finds hfinds
    · cases hfault.symm.trans hc
  · have hsearched := mode.search_finds e hn complex found
    rw [hs] at hsearched
    exact hsearched.eq_of_false rfl
  · rcases mode.classify_finds hn with ⟨result, hr, -⟩ | ⟨fault, -, hbad⟩
    · exact ⟨_, hr⟩
    · exact absurd hc hbad

/-- The condition `(y := z) == x.a`. -/
def sampleComparison : Expr :=
  .compare {} (.named {} (.name {} "y") (.name {} "z")) [.eq] [.member {} (.name {} "x") "a"]

theorem sampleComparison_sound : sampleComparison.tree.All Node.NamesTarget ∧ sampleComparison.tree.All Node.Compares ∧
    ∃ n, classify { never := true } sampleComparison = .ok n ∧ (n.isNarrowing = true ↔ n.references ≠ []) ∧
      ∀ r ∈ n.references, r.isName = true := by
  have hn : sampleComparison.tree.All Node.NamesTarget := by
    simp [sampleComparison, Expr.tree, Expr.trees, Node.NamesTarget, Expr.isName]
  have hc : sampleComparison.tree.All Node.Compares := by
    simp [sampleComparison, Expr.tree, Expr.trees, Node.Compares]
  obtain ⟨hsound, -, htotal⟩ := classify_sound { never := true } sampleComparison hn
  obtain ⟨n, hr⟩ := htotal hc
  obtain ⟨hiff, hall⟩ := hsound n hr
  exact ⟨hn, hc, n, hr, hiff, fun r hmem => (hall r hmem).2.2 rfl⟩

end NarrowingMode

end ScopeFlow
