import ScopeFlow.Proofs.JobExprs

/-!
# Jobs that walk patterns and statements

A walk of statements upholds what holds of a job. Two of them change what names stand for: a `global` statement adds its names to
the module and redirects them there, and a `nonlocal` statement redirects names that can be seen around the scope. That a
redirected name can be seen is known because no class of the module stands above the scope of a statement.
-/

namespace ScopeFlow.Bind

open Store NodeTree

variable {ω : Type} {u : Setup ω} {w : Job} {low : Nat} {l : Enclosure} {s s' s₀ s₁ : State ω} {ctx : Context} {name : String}
  {P : Enclosure → Node → Prop}

/-! ## Patterns -/

/-- A name that a node introduces is known from then on. -/
theorem introduce_walks (hv : Serves u w) (hc : Stands w ctx.scope s₀.store) (site : Site) (name : String) :
    Walks u w low s₀ (introduce u ctx site name) fun _ s => w.Known s.store ctx.scope name := by
  refine (bindHere_walks hc name).bind fun symbol s₁ hgo h => ?_
  refine (assignName_upholds hv (hc.mono hgo.grows) _ h.2 _ _).seq fun _ => ?_
  cases symbol with
  | none => exact .ret fun _ hgo' => h.2.mono hgo'.grows
  | some ref => exact (declare_upholds (h.1.fair ref rfl) rfl).imp fun _ _ hgo' _ => h.2.mono hgo'.grows

theorem capture_upholds (hv : Serves u w) (hc : Stands w ctx.scope s₀.store) (site : Site) (name : Option String) :
    Upholds u w low s₀ (capture u ctx site name) := by
  cases name with
  | none => exact .pure _
  | some name => exact .ite (.pure _) (introduce_walks hv hc site name).upholds

section

variable (hv : Serves u w)
include hv

mutual

theorem visitPattern_upholds {s₀ : State ω} (hr : Ready u w ctx.scope l s₀) (p : Pattern)
    (h : p.tree.Under (Admits u w) l) : Upholds u w l.low s₀ (visitPattern u ctx p) := by
  match p with
  | .value m e =>
    rw [visitPattern]
    simp only [Pattern.tree, under_mk, underIn_cons] at h
    exact visitExpr_upholds hv hr .value e h.2.1 nofun
  | .singleton .. =>
    rw [visitPattern]
    exact .pure _
  | .sequence m ps =>
    rw [visitPattern]
    simp only [Pattern.tree, under_mk] at h
    exact visitPatterns_upholds hr ps h.2
  | .mapping m keys ps rest =>
    rw [visitPattern]
    simp only [Pattern.tree, under_mk, underIn_append] at h
    exact (visitExprs_upholds hv hr .value keys h.2.1 nofun).seq fun _ => (visitPatterns_upholds hr ps h.2.2).seq fun _ =>
      .ite (.pure _) (capture_upholds hv hr.stands _ _)
  | .classOf m cls ps names attributePatterns =>
    rw [visitPattern]
    simp only [Pattern.tree, under_mk, underIn_cons, underIn_append] at h
    exact (visitExpr_upholds hv hr .value cls h.2.1 nofun).seq fun _ => (visitPatterns_upholds hr ps h.2.2.1).seq fun _ =>
      visitPatterns_upholds hr attributePatterns h.2.2.2
  | .star m name | .capture m none name =>
    rw [visitPattern]
    exact capture_upholds hv hr.stands _ _
  | .capture m (some inner) name =>
    rw [visitPattern]
    simp only [Pattern.tree, under_mk, underIn_cons] at h
    exact (visitPattern_upholds hr inner h.2.1).seq fun _ => capture_upholds hv hr.stands _ _
  | .alternatives m ps =>
    rw [visitPattern]
    simp only [Pattern.tree, under_mk] at h
    exact newBranch_upholds.seq fun after => (visitAlternatives_upholds hr after ps h.2).seq fun _ => finish_upholds _

theorem visitPatterns_upholds {s₀ : State ω} (hr : Ready u w ctx.scope l s₀) (ps : List Pattern)
    (h : UnderIn (Admits u w) (fun _ => l) (Pattern.trees ps)) : Upholds u w l.low s₀ (visitPatterns u ctx ps) := by
  match ps with
  | [] =>
    rw [visitPatterns]
    exact .pure _
  | p :: ps =>
    rw [visitPatterns]
    simp only [Pattern.trees, underIn_cons] at h
    exact (visitPattern_upholds hr p h.1).seq fun _ => visitPatterns_upholds hr ps h.2

theorem visitAlternatives_upholds {s₀ : State ω} (hr : Ready u w ctx.scope l s₀) (after : FlowRef)
    (ps : List Pattern) (h : UnderIn (Admits u w) (fun _ => l) (Pattern.trees ps)) :
    Upholds u w l.low s₀ (visitAlternatives u ctx after ps) := by
  match ps with
  | [] =>
    rw [visitAlternatives]
    exact .pure _
  | p :: ps =>
    rw [visitAlternatives]
    simp only [Pattern.trees, underIn_cons] at h
    exact (visitPattern_upholds hr p h.1).seq fun _ => (linkCurrent_upholds _).seq fun _ =>
      visitAlternatives_upholds hr after ps h.2

end

end

/-! ## Assignments -/

theorem declareSpecialForm_upholds (hc : Stands w ctx.scope s₀.store) (site : Site) (target : Expr) :
    Upholds u w low s₀ (declareSpecialForm u ctx site target) := by
  unfold declareSpecialForm
  split
  · refine .ite ((bindHere_walks hc _).bind fun symbol s₁ _ h => ?_) (.pure _)
    cases symbol with
    | none => exact .pure _
    | some ref => exact (declare_upholds (h.1.fair ref rfl) rfl).seq fun _ => .pure _
  · exact .pure _

/-- Binding the names of a target for the steps that assign it. -/
theorem bindTarget_discard (hc : Stands w ctx.scope s₀.store) (target : Expr) :
    Walks u w low s₀ (Functor.discard (bindTarget u ctx target) : BindM ω Unit) fun _ s =>
      ∀ x ∈ target.targetNames, w.Known s.store ctx.scope x := fun s hgo hs =>
  ((bindTarget_walks hc target s hgo hs).map _).imp fun _ _ _ hq => by
    obtain ⟨_, _, hk⟩ := hq
    exact hk

section

variable (hv : Serves u w) (hr : Ready u w ctx.scope l s₀)
include hv hr

theorem visitTargets_upholds (source : Nat) (maybeAlias : Bool)
    (targets : List Expr) (h : UnderIn (Admits u w) (fun _ => l) (Expr.trees targets))
    (hm : ∀ x ∈ Expr.membersAssigned targets, w.members x)
    (hk : ∀ x ∈ Expr.namesTargeted targets, w.Known s₀.store ctx.scope x) :
    Upholds u w l.low s₀ (visitTargets u ctx source maybeAlias targets) := by
  induction targets with
  | nil => exact .pure _
  | cons target targets ih =>
    simp only [Expr.trees, underIn_cons] at h
    simp only [Expr.membersAssigned, List.mem_append] at hm
    simp only [Expr.namesTargeted, List.mem_append] at hk
    exact (inferVariable_upholds hr source maybeAlias target h.1 (fun x hx => hm x (.inl hx)) fun x hx => hk x (.inl hx)).seq
      fun _ => (visitExpr_upholds hv hr .target target h.1 fun _ x hx => hk x (.inl hx)).seq fun _ =>
      ih h.2 (fun x hx => hm x (.inr hx)) fun x hx => hk x (.inr hx)

theorem deleteTargets_upholds (targets : List Expr)
    (h : UnderIn (Admits u w) (fun _ => l) (Expr.trees targets)) : Upholds u w l.low s₀ (deleteTargets u ctx targets) := by
  induction targets with
  | nil => exact .pure _
  | cons target targets ih =>
    simp only [Expr.trees, underIn_cons] at h
    refine (bindTarget_discard hr.stands target).bind fun _ s₁ hgo hk => ?_
    have hr₁ := hr.mono hgo
    exact (visitExpr_upholds hv hr₁ .value target h.1 nofun).seq fun _ =>
      (assignTarget_upholds hv hr₁.stands true target hk).seq fun _ => (ih h.2).later hgo

theorem visitAssign_upholds {mark : Mark} {targets : List Expr} {value : Expr}
    (h : (Stmt.assign mark targets value).tree.Under (Admits u w) l) :
    Upholds u w l.low s₀ (visitAssign u ctx mark targets value) := by
  simp only [Stmt.tree, under_mk, underIn_append, underIn_cons] at h
  obtain ⟨hnode, htargets, hvalue, _⟩ := h
  have hrest : Upholds u w l.low s₀ (do
      discard (bindTargets u ctx targets)
      visitExpr u ctx .value value
      visitTargets u ctx value.index (maybeTypeAlias u mark.index value) targets
      followAssign u ctx mark targets value) := by
    refine Walks.bind (Q := fun _ s => ∀ x ∈ Expr.namesTargeted targets, w.Known s.store ctx.scope x) (fun s hgo hs => ?_)
      fun _ s₁ hgo hk => ?_
    · refine ((bindTargets_walks hr.stands targets s hgo hs).map _).imp fun _ _ _ hq => ?_
      obtain ⟨_, _, hk⟩ := hq
      exact hk
    · have hr₁ := hr.mono hgo
      exact (visitExpr_upholds hv hr₁ .value value hvalue nofun).seq fun _ =>
        (visitTargets_upholds hv hr₁ _ _ targets htargets (fun x hx => hnode.members x hx) hk).seq fun _ =>
        followAssign_upholds _ _ _ _
  unfold visitAssign
  split
  · exact (declareSpecialForm_upholds hr.stands _ _).seq fun _ => .ite (.pure _) hrest
  · exact (Walks.pure _).seq fun _ => .ite (.pure _) hrest

theorem visitAnnotatedValue_upholds (mark : Mark) (target : Expr)
    (value : Option Expr) (ht : target.tree.Under (Admits u w) l) (hm : ∀ x ∈ target.assignedMembers, w.members x)
    (hval : UnderIn (Admits u w) (fun _ => l) (Expr.givenTree value))
    (hk : ∀ x ∈ target.targetNames, w.Known s₀.store ctx.scope x) :
    Upholds u w l.low s₀ (visitAnnotatedValue u ctx mark target value) := by
  cases value with
  | none => exact .pure _
  | some value =>
    simp only [Expr.givenTree, underIn_cons] at hval
    exact (visitExpr_upholds hv hr .value value hval.1 nofun).seq fun _ =>
      (inferVariable_upholds hr _ _ target ht hm hk).seq fun _ => assignTarget_upholds hv hr.stands false target hk

theorem visitAnnAssign_upholds {mark : Mark} {target hint : Expr}
    {value : Option Expr} (h : (Stmt.annAssign mark target hint value).tree.Under (Admits u w) l) :
    Upholds u w l.low s₀ (visitAnnAssign u ctx mark target hint value) := by
  simp only [Stmt.tree, under_mk, underIn_cons] at h
  obtain ⟨hnode, htarget, hhint, hvalue⟩ := h
  have hm : ∀ x ∈ target.assignedMembers, w.members x := fun x hx => hnode.members x hx
  refine (declareSpecialForm_upholds hr.stands _ _).seq fun _ => .ite (.pure _) ?_
  refine (bindTarget_discard hr.stands target).bind fun _ s₁ hgo hk => ?_
  have hr₁ := hr.mono hgo
  refine (visitAnnotatedValue_upholds hv hr₁ mark target value htarget hm hvalue hk).seq fun _ => ?_
  refine (visitExpr_upholds hv hr₁ .value hint hhint (by simp)).seq fun _ =>
    (advance_upholds _ fun _ => by simp [FlowStep.symbols]).seq fun _ => ?_
  refine (annotateVariable_upholds hr₁ target hint htarget hm hk).seq fun _ => ?_
  have hend : ∀ g : PUnit → BindM ω Unit, (∀ x, Upholds u w l.low s₁ (g x)) →
      Upholds u w l.low s₁ (visitExpr u ctx .value target >>= g) :=
    fun _ hg => (visitExpr_upholds hv hr₁ .value target htarget (by simp)).seq hg
  cases target.referenceKey <;> cases value
  case ok.none => exact (addKey_upholds _ _).seq fun _ => hend _ fun _ => .pure _
  case ok.some => exact (addKey_upholds _ _).seq fun _ => hend _ fun _ => followAssign_upholds _ _ _ _
  case error.none => exact hend _ fun _ => .pure _
  case error.some => exact hend _ fun _ => followAssign_upholds _ _ _ _

theorem visitWithItems_upholds (items : List WithItem)
    (h : UnderIn (Admits u w) (fun _ => l) (items.map WithItem.tree)) : Upholds u w l.low s₀ (visitWithItems u ctx items) := by
  induction items with
  | nil => exact .pure _
  | cons item items ih =>
    simp only [List.map_cons, underIn_cons, WithItem.tree, under_mk] at h
    obtain ⟨⟨hnode, hcontext, htarget⟩, hitems⟩ := h
    refine (visitExpr_upholds hv hr .value item.context hcontext (by simp)).seq fun _ => ?_
    cases hi : item.target with
    | none => exact ih hitems
    | some target =>
      have htree : target.tree.Under (Admits u w) l := by
        rw [hi] at htarget
        simp only [Expr.givenTree, underIn_cons] at htarget
        exact htarget.1
      have hm : ∀ x ∈ target.assignedMembers, w.members x :=
        fun x hx => hnode.members x (by simpa [Node.assignedMembers, hi] using hx)
      refine (bindTarget_discard hr.stands target).bind fun _ s₁ hgo hk => ?_
      have hr₁ := hr.mono hgo
      exact (inferVariable_upholds hr₁ _ false target htree hm hk).seq fun _ =>
        (visitExpr_upholds hv hr₁ .target target htree fun _ => hk).seq fun _ => (ih hitems).later hgo

theorem visitTypeParameters_upholds (ps : List TypeParameter)
    (h : UnderIn (Admits u w) (fun _ => l) (ps.map TypeParameter.tree)) :
    Upholds u w l.low s₀ (visitTypeParameters u ctx ps) := by
  induction ps with
  | nil => exact .pure _
  | cons p ps ih =>
    simp only [List.map_cons, underIn_cons, TypeParameter.tree, under_mk] at h
    exact (visitGiven_upholds hv hr p.bound h.1.2).seq fun _ => ih h.2

end

/-! ## Redirections -/

/-- Redirecting a name that is not redirected yet needs a reason. -/
theorem redirect_upholds {r : Redirection} (hs : Holds u w s)
    (hr : s.store.redirection? ctx.scope name = none → w.Redirects s.store ctx.scope name r) :
    Runs u w low s (modifyStore fun store => store.adjustScope ctx.scope (fun scope => (scope.redirect name r).2) : BindM ω Unit)
      fun _ _ => True := by
  refine .ofModify hs (.ofStore ?_) trivial
  cases hred : s.store.redirection? ctx.scope name with
  | none => exact .redirect _ _ _ hred (hr hred)
  | some r' =>
    have hself : s.store.adjustScope ctx.scope (fun scope => (scope.redirect name r).2) = s.store :=
      redirect_eq_self (by simp [hred])
    dsimp only
    rw [hself]
    exact .count s.store.nextFlowId

theorem reportError_runs (hs : Holds u w s) (key : MessageKey) (mark : Mark) (name : String) :
    Runs u w low s (reportError key mark name : BindM ω Unit) fun _ s' => s'.store = s.store :=
  .ofModify hs (.ofRest rfl rfl rfl rfl fun _ => id) rfl

theorem visitGlobals_upholds (hr : Ready u w ctx.scope l s₀) (hfirm : Firm w ctx.scope s₀.store) (mark : Mark)
    (names : List String) (hn : ∀ x ∈ names, w.globals x) : Upholds u w l.low s₀ (visitGlobals u ctx mark w.base names) := by
  induction names with
  | nil => exact .pure _
  | cons name names ih =>
    have hrest := ih fun x hx => hn x (by simp [hx])
    -- binding the name in the module, and redirecting it there unless the scope is the module itself
    have hbind : Upholds u w l.low s₀ (do
        discard (bindName u ctx w.base name)
        if ctx.scope != w.base then
          modifyStore fun store => store.adjustScope ctx.scope (fun scope => (scope.redirect name .global).2)
        visitGlobals u ctx mark w.base names) := by
      intro s hgo hs
      have hr' := hr.mono hgo
      refine ((bindName_runs hs hr'.stands.below hs.order.below_base fun _ _ => .global rfl (hn name (by simp))).map _).bind
        fun _ s₁ hgo₁ hs₁ hq => ?_
      obtain ⟨_, _, hbinds⟩ := hq
      have hrest₁ := hrest.later (hgo.trans hgo₁)
      dsimp only
      split
      · rename_i hne
        have hr₁ := hr'.mono hgo₁
        refine (redirect_upholds hs₁ fun hred => ?_).bind fun _ s₂ hgo₂ hs₂ _ => hrest₁ s₂ hgo₂ hs₂
        obtain ⟨t, ht, htype⟩ := hfirm.type
        refine ⟨hr₁.stands.below, by simpa using hne, ?_, fun _ => ?_, fun h => by cases h⟩
        · rw [(hgo.trans hgo₁).grows.type? ht]
          simpa using htype
        · simpa [hred] using hbinds.known
      · exact hrest₁ s₁ (.refl _) hs₁
    refine Walks.get.seq fun _ => .when (fun _ => reportError_upholds _ _ _) fun _ => ?_
    refine Walks.seq (Q := fun _ _ => True) (fun s hgo hs => ?_) fun found => ?_
    · exact (lookUp_runs hs (hr.mono hgo).stands.below name).imp fun _ _ _ _ => trivial
    · cases found with
      | none => exact hbind
      | some found => exact .when (fun _ => reportError_upholds _ _ _) fun _ => hbind

/-- What is found from the scope of a statement can be seen from its parent, or it is the scope's own. -/
theorem seen_of_finds {st : Store} {i : Nat} {found : Found} (hfree : ClassFree w st i)
    (hf : Orderly.Finds w.toStage st i name found) : (st.symbol? i name).isSome ∨
      ∃ p, st.parent? i = some p ∧ w.Seen st p name := by
  rcases Climbs.cases_head hf.climbs with heq | ⟨p, hp, hup⟩
  · left
    rw [heq, hf.symbol]
    rfl
  · refine .inr ⟨p, hp, found.scope, hup, ?_⟩
    rcases hf.inside with hb | ⟨hb, hhidden⟩
    · exact .inl ⟨hb, hfree p hp found.scope hup hb, by rw [hf.symbol]; rfl⟩
    · exact .inr ⟨hb, found.symbol, hf.symbol, hf.bare, hhidden⟩

theorem visitNonlocals_upholds (hr : Ready u w ctx.scope l s₀) (hfirm : Firm w ctx.scope s₀.store) (hne : ctx.scope ≠ w.base)
    (mark : Mark) (names : List String) (hn : ∀ x ∈ names, w.nonlocals x) :
    Upholds u w l.low s₀ (visitNonlocals ctx mark names : BindM ω Unit) := by
  induction names with
  | nil => exact .pure _
  | cons name names ih =>
    have hrest := ih fun x hx => hn x (by simp [hx])
    refine Walks.get.seq fun _ => .when (fun _ => reportError_upholds _ _ _) fun _ => ?_
    intro s hgo hs
    have hr' := hr.mono hgo
    refine (lookUp_runs hs hr'.stands.below name).bind fun found t _ _ hq => ?_
    obtain ⟨rfl, _, hfinds⟩ := hq
    cases found with
    | none => exact ((reportError_upholds _ _ _).seq fun _ => hrest.later hgo) t (.refl _) hs
    | some found =>
      -- a report leaves the store alone, so what was found is there when the name is redirected
      have hredirect : ∀ t' : State ω, t'.store = t.store → Goes u w l.low t t' → Holds u w t' → Runs u w l.low t' (do
          modifyStore fun store => store.adjustScope ctx.scope (fun scope => (scope.redirect name .nonlocal).2)
          visitNonlocals ctx mark names : BindM ω Unit) fun _ _ => True := by
        intro t' hstore hgo' ht'
        obtain ⟨type, htype, hplain⟩ := hfirm.type
        refine (redirect_upholds ht' fun _ => ?_).bind fun _ s₂ hgo₂ hs₂ _ =>
          hrest.later (hgo.trans hgo') s₂ hgo₂ hs₂
        rw [hstore]
        refine ⟨hr'.stands.below, hne, ?_, fun h => (by cases h), fun _ => ⟨hn name (by simp), fun _ => ?_⟩⟩
        · rw [hgo.grows.type? htype]
          simpa using hplain
        · exact seen_of_finds (hfirm.classFree hgo.grows) (hfinds found rfl)
      dsimp only
      split
      · exact (reportError_runs hs _ _ _).bind fun _ t' hgo' ht' hstore => hredirect t' hstore hgo' ht'
      · refine (Runs.get hs).bind fun a t' _ ht' hq => ?_
        obtain ⟨rfl, rfl⟩ := hq
        split
        · exact (reportError_runs hs _ _ _).bind fun _ t'' hgo' ht'' hstore => hredirect t'' hstore hgo' ht''
        · exact hredirect _ rfl (.refl _) hs

/-! ## Functions -/

theorem underIn_parameterTrees {ps : List Parameter}
    (h : UnderIn P (fun _ => l) (Parameter.trees ps)) : ∀ p ∈ ps, UnderIn P (fun _ => l) (Expr.givenTree p.hint) := by
  induction ps with
  | nil => simp
  | cons p ps ih =>
    obtain ⟨m, name, hint⟩ := p
    simp only [Parameter.trees, underIn_cons, under_mk] at h
    intro q hq
    rcases List.mem_cons.1 hq with rfl | hq
    · exact h.1.2
    · exact ih h.2 q hq

theorem underIn_parameterGivenTree {p : Option Parameter}
    (h : UnderIn P (fun _ => l) (Parameter.givenTree p)) : ∀ q ∈ p.toList, UnderIn P (fun _ => l) (Expr.givenTree q.hint) := by
  cases p with
  | none => simp
  | some p =>
    obtain ⟨m, name, hint⟩ := p
    simp only [Parameter.givenTree, underIn_cons, under_mk] at h
    intro q hq
    obtain rfl := List.mem_singleton.1 (by simpa using hq)
    exact h.1.2

/-- The annotations of parameters stand where the parameters stand. -/
theorem under_hints {params : Parameters} (h : params.tree.Under P l) :
    ∀ p ∈ params.all, UnderIn P (fun _ => l) (Expr.givenTree p.hint) := by
  obtain ⟨m, posOnly, pos, rest, kwOnly, kwDefaults, kwRest, defaults⟩ := params
  simp only [Parameters.tree, under_mk, underIn_append] at h
  obtain ⟨_, ⟨⟨⟨⟨⟨hposOnly, hpos⟩, hrest⟩, hkwOnly⟩, _⟩, hkwRest⟩, _⟩ := h
  intro p hp
  simp only [Parameters.all, List.mem_append] at hp
  rcases hp with (((hp | hp) | hp) | hp) | hp
  · exact underIn_parameterTrees hposOnly p hp
  · exact underIn_parameterTrees hpos p hp
  · exact underIn_parameterGivenTree hrest p hp
  · exact underIn_parameterTrees hkwOnly p hp
  · exact underIn_parameterGivenTree hkwRest p hp

theorem visitAnnotations_upholds (hv : Serves u w) (hr : Ready u w ctx.scope l s₀) (ps : List Parameter)
    (h : ∀ p ∈ ps, UnderIn (Admits u w) (fun _ => l) (Expr.givenTree p.hint)) :
    Upholds u w l.low s₀ (visitAnnotations u ctx ps) := by
  induction ps with
  | nil => exact .pure _
  | cons p ps ih =>
    exact (visitGiven_upholds hv hr p.hint (h p (by simp))).seq fun _ => ih fun q hq => h q (by simp [hq])

theorem visitFunction_upholds (hv : Serves u w) (hr : Ready u w ctx.scope l s₀) (hfirm : Firm w ctx.scope s₀.store) {m : Mark}
    {isAsync : Bool} {name : String} {params : Parameters} {body : List Stmt} {decorators : List Expr} {returns : Option Expr}
    (h : (Stmt.function m isAsync name params body decorators returns).tree.Under (Admits u w) l) (kind : String) :
    Upholds u w l.low s₀ (visitFunction u ctx ⟨m, kind⟩ name params decorators returns body) := by
  have hnode := (under_mk.1 (by rwa [Stmt.tree] at h)).1
  obtain ⟨hparams, hdecorators, hreturns, _⟩ := Node.under_function h hnode.distinct
  refine (bindHere_walks hr.stands name).bind fun symbol s₁ hgo₁ hb => ?_
  have hr₁ := hr.mono hgo₁
  refine (declareAt_walks hb.1.fair rfl).bind fun place s₂ hgo₂ hplace => ?_
  have hr₂ := hr₁.mono hgo₂
  refine (setDeclaration_upholds hplace).seq fun _ =>
    (visitExprs_upholds hv hr₂ .value decorators hdecorators nofun).seq fun _ => ?_
  refine (visitDefaults_upholds hv hr₂ params hparams).seq fun _ => ?_
  refine (visitAnnotations_upholds hv hr₂ params.all (under_hints hparams)).seq fun _ => ?_
  refine (visitGiven_upholds hv hr₂ returns hreturns).seq fun _ => ?_
  intro s hgo hs
  have hgo' := (hgo₁.trans hgo₂).trans hgo
  refine (deferFunction_walks hr hfirm h s hgo' hs).bind fun inner s₃ hgo₃ hs₃ hq => ?_
  have hassign : Upholds u w l.low s₃ (assignName ctx m.index name false : BindM ω Unit) :=
    assignName_upholds hv ((hr₂.mono hgo).mono hgo₃).stands _ (hb.2.mono ((hgo₂.trans hgo).trans hgo₃).grows) _ _
  dsimp only
  split
  · exact (addIntrinsic_runs hs₃ hq.1 _ _ (hq.2 _)).bind fun _ s₄ hgo₄ hs₄ _ => hassign s₄ hgo₄ hs₄
  · exact hassign s₃ (.refl _) hs₃

/-! ## Statements that lay out labels -/

theorem noteJump_upholds (ctx : Context) (f : FunctionInfo → FunctionInfo) :
    Upholds u w low s₀ (noteJump ctx f : BindM ω Unit) := by
  unfold noteJump
  split
  · exact adjustFunction_upholds _ _
  · exact .pure _

theorem noteYield_upholds (ctx : Context) (s : Stmt) : Upholds u w low s₀ (noteYield ctx s : BindM ω Unit) := by
  unfold noteYield
  split
  · exact .ite (adjustFunction_upholds _ _) (.pure _)
  · exact .pure _

theorem Admits.kind {n k : Node} (h : Admits u w l n) (hn : (n.isFunction || n.isLambda) = false)
    (hk : u.outline.node? n.mark.index = some k) : (k.isFunction || k.isLambda) = false := by
  rw [h.encloses.1] at hk
  cases hk
  exact hn

theorem layOutHandler_upholds {type bodyStep : BindM ω Unit} (hv : Serves u w) (hr : Ready u w ctx.scope l s₀)
    (after label : FlowRef) (mark : Mark)
    (name : Option String) (ht : Upholds u w l.low s₀ type) (hb : Upholds u w l.low s₀ bodyStep) :
    Upholds u w l.low s₀ (layOutHandler u ctx after label mark name type bodyStep) := by
  have hend : ∀ s₁ : State ω, Upholds u w l.low s₁ (do
      linkCurrent after
      return !(← isDead) : BindM ω Bool) := fun s₁ => (linkCurrent_upholds _).seq fun _ => isDead_upholds.seq fun _ => .pure _
  refine (finish_upholds _).seq fun _ => ht.seq fun _ => ?_
  cases name.filter fun n => !n.isEmpty with
  | none => exact hb.seq fun _ => hend _
  | some name =>
    refine (introduce_walks hv hr.stands _ name).bind fun _ s₁ hgo hk => (hb.later hgo).seq fun _ => ?_
    exact (assignName_upholds hv (hr.mono hgo).stands _ hk _ _).seq fun _ => hend _

/-! ## The walk -/

section

variable (hv : Serves u w)
include hv

mutual

theorem visitStmt_upholds {ctx : Context} {l : Enclosure} {s₀ : State ω} (hr : Ready u w ctx.scope l s₀)
    (hfirm : Firm w ctx.scope s₀.store) (join : Option FlowRef) (s : Stmt) (h : s.tree.Under (Admits u w) l) :
    Upholds u w l.low s₀ (visitStmt u ctx join s) := by
  have hs := h
  cases s <;> simp only [Stmt.tree, under_mk, underIn_cons, underIn_append] at h <;> rw [visitStmt]
  case function m isAsync name params body decorators returns =>
    exact visitFunction_upholds hv hr hfirm hs _
  case classDef m name bases keywords body decorators =>
    have hnode := h.1
    obtain ⟨hbases, hkeywords, hdecorators, hbody⟩ := Node.under_class hs hnode.distinct
    refine (visitExprs_upholds hv hr .value decorators hdecorators nofun).seq fun _ => ?_
    refine (bindHere_walks hr.stands name).bind fun symbol s₁ hgo₁ hb => ?_
    refine (declareAt_walks hb.1.fair rfl).bind fun place s₂ hgo₂ hplace => (setDeclaration_upholds hplace).seq fun _ => ?_
    have hgo := hgo₁.trans hgo₂
    refine ((visitExprs_upholds hv hr .value bases hbases nofun).later hgo).seq fun _ => ?_
    refine ((visitKeywords_upholds hv hr keywords hkeywords).later hgo).seq fun _ => ?_
    have hself : u.outline.node? (Stmt.classDef m name bases keywords body decorators).site.index = some _ := hnode.encloses.1
    refine (layOutClass_upholds hv hr hfirm hself rfl hnode.encloses.2.low fun inner s₁ hready hfirm' => ?_).later hgo
    exact walkStatements_upholds hready hfirm' body hbody
  case returnValue m value =>
    exact (noteJump_upholds _ _).seq fun _ => (visitGiven_upholds hv hr value h.2).seq fun _ => (stamp_upholds _).seq fun _ =>
      (upholds_frames.jump _).2
  case delete m targets =>
    exact deleteTargets_upholds hv hr targets h.2
  case assign m targets value =>
    exact visitAssign_upholds hv hr hs
  case augAssign m target op value =>
    obtain ⟨hnode, htarget, hvalue, _⟩ := h
    refine (visitExpr_upholds hv hr .value target htarget nofun).seq fun _ => ?_
    refine (visitExpr_upholds hv hr .value value hvalue nofun).seq fun _ => ?_
    refine (bindTarget_discard hr.stands target).bind fun _ s₁ hgo hk => ?_
    have hr₁ := hr.mono hgo
    exact (inferVariable_upholds hr₁ _ false target htarget (fun x hx => hnode.members x hx) hk).seq fun _ =>
      (assignTarget_upholds hv hr₁.stands false target hk).seq fun _ => followAdd_upholds hv _ _ _ _ _
  case annAssign m target hint value =>
    exact visitAnnAssign_upholds hv hr hs
  case forLoop m isAsync target iterable body orElse =>
    obtain ⟨hnode, htarget, hiterable, hbody, horElse⟩ := h
    refine (bindTarget_discard hr.stands target).bind fun _ s₁ hgo hk => ?_
    have hr₁ := hr.mono hgo
    refine (inferVariable_upholds hr₁ _ false target htarget (fun x hx => hnode.members x hx) hk).seq fun _ => ?_
    refine (visitExpr_upholds hv hr₁ .value iterable hiterable nofun).seq fun _ => ?_
    refine And.right (upholds_frames.layOutFor (fun _ => hnode.kind rfl) ⟨rfl,
      visitExpr_upholds hv hr₁ .target target htarget fun _ => hk⟩ (fun inner hinner _ _ => ⟨rfl, ?_⟩) ⟨rfl, ?_⟩)
    · exact (walkStatements_upholds (hinner ▸ hr) (hinner ▸ hfirm) body hbody).later hgo
    · exact (walkStatements_upholds hr hfirm orElse horElse).later hgo
  case whileLoop m test body orElse =>
    obtain ⟨hnode, htest, hbody, horElse⟩ := h
    exact And.right (upholds_frames.layOutWhile (fun hstrict => parsed_of_under htest hstrict) (fun _ => hnode.kind rfl)
      (fun onTrue onFalse => ⟨rfl, visitExpr_upholds hv hr (.test onTrue onFalse) test htest nofun⟩)
      (fun inner hinner _ _ => ⟨rfl, walkStatements_upholds (hinner ▸ hr) (hinner ▸ hfirm) body hbody⟩)
      ⟨rfl, walkStatements_upholds hr hfirm orElse horElse⟩)
  case ifElse m test body orElse =>
    obtain ⟨_, htest, hbody, horElse⟩ := h
    have hparsed := fun hstrict => parsed_of_under htest hstrict
    exact And.right (upholds_frames.layOutIf hparsed
      (fun onTrue onFalse => ⟨rfl, visitExpr_upholds hv hr (.test onTrue onFalse) test htest nofun⟩)
      ⟨rfl, walkStatements_upholds hr hfirm body hbody⟩ fun after =>
        upholds_frames.layOutElse ⟨rfl, linkNever_upholds ctx after false test hparsed⟩
          ⟨rfl, walkStatements_upholds hr hfirm orElse horElse⟩ fun _ => ⟨rfl, visitElif_upholds hr hfirm after orElse horElse⟩)
  case withBlock m isAsync items body =>
    exact (visitWithItems_upholds hv hr items h.2.1).seq fun _ =>
      And.right (upholds_frames.layOutWith fun inner hinner _ _ => ⟨rfl,
        walkStatements_upholds (hinner ▸ hr) (hinner ▸ hfirm) body h.2.2⟩)
  case matchOn m subject cases =>
    exact (visitExpr_upholds hv hr .value subject h.2.1 nofun).seq fun _ =>
      And.right (upholds_frames.layOutMatch fun after => ⟨rfl, visitCases_upholds hr hfirm after cases h.2.2⟩)
  case raise m exception cause =>
    have hrest : Upholds u w l.low s₀ (do
        visitGiven u ctx exception
        visitGiven u ctx cause
        jump ctx.finallyTargets) :=
      (visitGiven_upholds hv hr exception h.2.1).seq fun _ => (visitGiven_upholds hv hr cause h.2.2).seq fun _ =>
        (upholds_frames.jump _).2
    exact (noteJump_upholds _ _).seq fun _ => .ite ((reportError_upholds _ _ _).seq fun _ => hrest) hrest
  case tryBlock m isGroup body handlers orElse final =>
    obtain ⟨_, ⟨⟨hbody, hhandlers⟩, horElse⟩, hfinal⟩ := h
    exact And.right (upholds_frames.layOutTry
      (fun inner hinner _ _ => ⟨rfl, walkStatements_upholds (hinner ▸ hr) (hinner ▸ hfirm) body hbody⟩)
      (fun inner hinner _ _ => ⟨rfl, walkStatements_upholds (hinner ▸ hr) (hinner ▸ hfirm) orElse horElse⟩)
      (fun inner hinner _ _ after labels =>
        ⟨rfl, visitHandlers_upholds (hinner ▸ hr) (hinner ▸ hfirm) after labels handlers hhandlers⟩)
      ⟨rfl, walkStatements_upholds hr hfirm final hfinal⟩)
  case assertion m test message =>
    have htest := fun onTrue onFalse => visitExpr_upholds hv hr (.test onTrue onFalse) test h.2.1 nofun
    cases message with
    | none => exact And.right (upholds_frames.layOutAssert (fun _ _ => ⟨rfl, htest _ _⟩) .none)
    | some e =>
      simp only [Expr.givenTree, underIn_cons] at h
      exact And.right (upholds_frames.layOutAssert (fun _ _ => ⟨rfl, htest _ _⟩)
        (.some ⟨rfl, visitExpr_upholds hv hr .value e h.2.2.1 nofun⟩))
  case importModules m names =>
    exact .forM _ fun n _ => importModule_upholds hv hr.stands n
  case importFrom m source names level =>
    exact importFrom_upholds hv hr.stands _ source names fun hstrict => h.1.parsed hstrict
  case globals m names =>
    intro s hgo hs
    refine (globalScope_runs hs (hr.mono hgo).stands.below).bind fun b s₁ _ _ hq => ?_
    obtain ⟨rfl, rfl⟩ := hq
    exact visitGlobals_upholds hr hfirm m names (fun x hx => h.1.globals x hx) s₁ hgo hs
  case nonlocals m names =>
    intro s hgo hs
    refine (globalScope_runs hs (hr.mono hgo).stands.below).bind fun b s₁ _ _ hq => ?_
    obtain ⟨rfl, rfl⟩ := hq
    refine Walks.branch (fun _ => reportError_upholds _ _ _) (fun hne => ?_) s₁ hgo hs
    exact visitNonlocals_upholds hr hfirm (by simpa using hne) m names fun x hx => h.1.nonlocals x hx
  case expr m value =>
    exact visitExpr_upholds hv hr .value value h.2.1 nofun
  case pass m =>
    exact .pure _
  case breakLoop m =>
    exact (upholds_frames.jump _).2
  case continueLoop m =>
    exact (upholds_frames.jump _).2
  case typeAlias m name params value =>
    obtain ⟨hnode, hname, hparams, hvalue, _⟩ := h
    refine (bindTarget_discard hr.stands name).bind fun _ s₁ hgo hk => ?_
    have hr₁ := hr.mono hgo
    refine (visitTypeParameters_upholds hv hr₁ params hparams).seq fun _ => ?_
    refine (visitExpr_upholds hv hr₁ .value value hvalue nofun).seq fun _ => ?_
    exact (inferVariable_upholds hr₁ _ true name hname (fun x hx => hnode.members x hx) hk).seq fun _ =>
      visitExpr_upholds hv hr₁ .target name hname fun _ => hk
  case nested m body ignores =>
    refine .throw ?_ _
    by_contra hstrict
    exact h.1.parsed (by simpa using hstrict)

theorem walkStatements_upholds {ctx : Context} {l : Enclosure} {s₀ : State ω} (hr : Ready u w ctx.scope l s₀)
    (hfirm : Firm w ctx.scope s₀.store) (ss : List Stmt) (h : UnderIn (Admits u w) (fun _ => l) (Stmt.trees ss)) :
    Upholds u w l.low s₀ (walkStatements u ctx ss) := by
  match ss with
  | [] =>
    rw [walkStatements]
    exact .pure _
  | s :: ss =>
    rw [walkStatements]
    simp only [Stmt.trees, underIn_cons] at h
    have hrest := walkStatements_upholds hr hfirm ss h.2
    exact (stamp_upholds _).seq fun _ => isDead_upholds.seq fun _ => .ite ((noteYield_upholds _ _).seq fun _ => hrest)
      ((visitStmt_upholds hr hfirm none s h.1).seq fun _ => hrest)

theorem visitElif_upholds {ctx : Context} {l : Enclosure} {s₀ : State ω} (hr : Ready u w ctx.scope l s₀)
    (hfirm : Firm w ctx.scope s₀.store) (after : FlowRef) (ss : List Stmt)
    (h : UnderIn (Admits u w) (fun _ => l) (Stmt.trees ss)) : Upholds u w l.low s₀ (visitElif u ctx after ss) := by
  match ss with
  | [s] =>
    rw [visitElif]
    simp only [Stmt.trees, underIn_cons] at h
    exact (stamp_upholds _).seq fun _ => visitStmt_upholds hr hfirm (some after) s h.1
  | [] =>
    rw [visitElif]
    · exact .pure _
    · simp
  | _ :: _ :: _ =>
    rw [visitElif]
    · exact .pure _
    · simp

theorem visitHandlers_upholds {ctx : Context} {l : Enclosure} {s₀ : State ω} (hr : Ready u w ctx.scope l s₀)
    (hfirm : Firm w ctx.scope s₀.store) (after : FlowRef) (labels : List FlowRef) (hs : List Handler)
    (h : UnderIn (Admits u w) (fun _ => l) (Handler.trees hs)) : Upholds u w l.low s₀ (visitHandlers u ctx after labels hs) := by
  match hs with
  | [] =>
    rw [visitHandlers]
    exact .pure _
  | .mk m type name body :: hs =>
    rw [visitHandlers]
    simp only [Handler.trees, underIn_cons, under_mk, underIn_append] at h
    obtain ⟨⟨_, htype, hbody⟩, hhandlers⟩ := h
    refine (layOutHandler_upholds hv hr after _ m name (visitGiven_upholds hv hr type htype)
      (walkStatements_upholds hr hfirm body hbody)).seq fun _ => ?_
    exact (visitHandlers_upholds hr hfirm after labels.tail hs hhandlers).seq fun _ => .pure _

theorem visitCases_upholds {ctx : Context} {l : Enclosure} {s₀ : State ω} (hr : Ready u w ctx.scope l s₀)
    (hfirm : Firm w ctx.scope s₀.store) (after : FlowRef) (cs : List MatchCase)
    (h : UnderIn (Admits u w) (fun _ => l) (MatchCase.trees cs)) : Upholds u w l.low s₀ (visitCases u ctx after cs) := by
  match cs with
  | [] =>
    rw [visitCases]
    exact .pure _
  | .mk m pattern guard body :: cs =>
    rw [visitCases]
    simp only [MatchCase.trees, underIn_cons, under_mk, underIn_append] at h
    obtain ⟨⟨_, hpattern, hguard, hbody⟩, hcases⟩ := h
    refine (upholds_frames.layOutCase ⟨rfl, visitPattern_upholds hv hr pattern hpattern⟩ (fun onTrue onFalse => ⟨rfl, ?_⟩)
      ⟨rfl, walkStatements_upholds hr hfirm body hbody⟩).2.seq fun _ => visitCases_upholds hr hfirm after cs hcases
    cases guard with
    | none => exact linkCurrent_upholds _
    | some guard =>
      simp only [Expr.givenTree, underIn_cons] at hguard
      exact visitExpr_upholds hv hr (.test onTrue onFalse) guard hguard.1 nofun

end

end

end ScopeFlow.Bind
