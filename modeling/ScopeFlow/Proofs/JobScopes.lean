import ScopeFlow.Proofs.JobImports

/-!
# Jobs that open scopes

A comprehension, a class, a function or a lambda opens a scope and notes it at its node. That of a comprehension or class is
walked at once, in an enclosure of its own; that of a function or lambda waits in the queue, with what its walk will need to know.
-/

namespace ScopeFlow

open NodeTree

/-! ## The parts of definitions -/

namespace NodeTree

variable {P : Enclosure → Node → Prop} {l : Enclosure} {ss : List Stmt} {i : Nat}

mutual

/-- What holds of every node in its enclosure holds of every node. -/
theorem Under.all {P : Enclosure → Node → Prop} {R : Node → Prop} (hi : ∀ l n, P l n → R n) {l : Enclosure} {t : NodeTree}
    (h : t.Under P l) : t.All R := by
  match t with
  | .mk n cs =>
    rw [under_mk] at h
    rw [all_mk]
    exact ⟨hi l n h.1, UnderIn.all hi h.2⟩

theorem UnderIn.all {P : Enclosure → Node → Prop} {R : Node → Prop} (hi : ∀ l n, P l n → R n) {f : Nat → Enclosure}
    {ts : List NodeTree} (h : UnderIn P f ts) : AllIn R ts := by
  match ts with
  | [] => simp
  | t :: ts =>
    rw [underIn_cons] at h
    rw [allIn_cons]
    exact ⟨Under.all hi h.1, UnderIn.all hi h.2⟩

end

theorem mem_labels_node (t : NodeTree) : t.node.mark.index ∈ t.labels := by
  cases t with
  | mk n cs => simp [NodeTree.node]

theorem node_mem_labelsIn {t : NodeTree} {ts : List NodeTree} (h : t ∈ ts) : t.node.mark.index ∈ labelsIn ts := by
  induction ts with
  | nil => cases h
  | cons t' ts ih =>
    rw [labelsIn_cons, List.mem_append]
    rcases List.mem_cons.1 h with rfl | h
    · exact .inl (mem_labels_node t)
    · exact .inr (ih h)

/-- Trees that have no number in common with those of the body stand in the enclosure of the definition. -/
theorem UnderIn.beside {f : Nat → Enclosure} {bs ts : List NodeTree} (h : UnderIn P f ts)
    (hd : (labelsIn bs).Disjoint (labelsIn ts)) (hf : ∀ i, (∀ b ∈ bs, b.node.mark.index ≠ i) → f i = l) :
    UnderIn P (fun _ => l) ts := by
  refine h.congr fun t ht => (hf _ fun b hb heq => ?_).symm
  exact hd (heq ▸ node_mem_labelsIn hb) (node_mem_labelsIn ht)

end NodeTree

theorem Stmt.node_tree (s : Stmt) : s.tree.node = .stmt s := by
  cases s <;> rfl

theorem Expr.node_tree (e : Expr) : e.tree.node = .expr e := by
  cases e <;> rfl

theorem Parameters.node_tree (ps : Parameters) : ps.tree.node = .parameters ps := by
  cases ps
  rfl

theorem Stmt.mem_trees {t : NodeTree} : t ∈ Stmt.trees ss ↔ ∃ s ∈ ss, t = s.tree := by
  induction ss with
  | nil => simp [Stmt.trees]
  | cons s ss ih => simp [Stmt.trees, ih]

namespace Node

variable {l : Enclosure} {m : Mark} {name : String} {params : Parameters} {body : List Stmt} {decorators : List Expr}
  {returns : Option Expr} {isAsync : Bool}

/-- The enclosure of the body of a function. -/
def inFunction (l : Enclosure) (node : Nat) : Enclosure :=
  { plain := some node, inComprehension := some node, cls := l.cls, owner := l.cls, low := node + 1 }

/-- The enclosure of the body of a lambda. -/
def inLambda (l : Enclosure) (node : Nat) : Enclosure :=
  { plain := some node, inComprehension := some node, cls := l.cls, owner := l.owner, low := node + 1 }

/-- The enclosure of the body of a class. -/
def inClass (node : Nat) : Enclosure := { plain := some node, cls := some node, low := node + 1 }

/-- The enclosure of the parts of a comprehension. -/
def inNest (l : Enclosure) : Enclosure := { l with plain := l.inComprehension, isNested := true }

theorem isClass_eq_false (n : Node) (h : (n.isFunction || n.isLambda) = true) : n.isClass = false := by
  cases n with
  | stmt s =>
    cases s with
    | classDef => cases h
    | _ => rfl
  | _ => rfl

theorem any_index_eq_true {t : NodeTree} (h : t ∈ Stmt.trees ss) :
    ss.any (fun s => s.mark.index == t.node.mark.index) = true := by
  obtain ⟨s, hs, rfl⟩ := Stmt.mem_trees.1 h
  rw [s.node_tree]
  exact List.any_eq_true.2 ⟨s, hs, beq_self_eq_true _⟩

theorem any_index_eq_false (h : ∀ b ∈ Stmt.trees ss, b.node.mark.index ≠ i) :
    ss.any (fun s => s.mark.index == i) = false := by
  rw [List.any_eq_false]
  intro s hs heq
  refine h s.tree (Stmt.mem_trees.2 ⟨s, hs, rfl⟩) ?_
  rw [s.node_tree]
  exact beq_iff_eq.1 heq

/-- What a definition does not hold in its body stands where it stands. -/
theorem inside_of_not_holds {n : Node} (hc : n.isComprehension = false) (hm : n.isModule = false)
    (hb : n.holdsInBody i = false) : n.inside l i = l := by
  simp [Node.inside, hc, hm, hb]

/-- The parts of a function: its parameters, decorators and result type stand where it stands, its body in itself. -/
theorem under_function {P : Enclosure → Node → Prop}
    (h : (Stmt.function m isAsync name params body decorators returns).tree.Under P l)
    (hd : Node.Distinct (.stmt (.function m isAsync name params body decorators returns))) :
    params.tree.Under P l ∧ UnderIn P (fun _ => l) (Expr.trees decorators) ∧ UnderIn P (fun _ => l) (Expr.givenTree returns) ∧
      UnderIn P (fun _ => inFunction l m.index) (Stmt.trees body) := by
  have houter : ∀ i, (∀ b ∈ Stmt.trees body, b.node.mark.index ≠ i) →
      Node.inside (.stmt (.function m isAsync name params body decorators returns)) l i = l :=
    fun i hi => inside_of_not_holds rfl rfl (any_index_eq_false hi)
  have hinner : ∀ t ∈ Stmt.trees body, inFunction l m.index =
      Node.inside (.stmt (.function m isAsync name params body decorators returns)) l t.node.mark.index := by
    intro t ht
    have hb : Node.holdsInBody (.stmt (.function m isAsync name params body decorators returns)) t.node.mark.index = true :=
      any_index_eq_true ht
    unfold Node.inside
    rw [hb]
    rfl
  simp only [Stmt.tree, under_mk, underIn_cons, underIn_append] at h
  simp only [Node.Distinct, Stmt.tree, labels_mk, labelsIn_cons, labelsIn_append, List.nodup_cons, List.nodup_append',
    List.disjoint_append_left, List.disjoint_append_right] at hd
  obtain ⟨_, hparams, ⟨hbody, hdecorators⟩, hreturns⟩ := h
  obtain ⟨_, _, ⟨⟨_, _, hbd⟩, _, hbr, _⟩, ⟨hpb, _⟩, _⟩ := hd
  refine ⟨?_, hdecorators.beside hbd houter, hreturns.beside hbr houter, hbody.congr hinner⟩
  rwa [houter] at hparams
  intro b hb heq
  exact hpb (mem_labels_node _) (heq ▸ node_mem_labelsIn hb)

/-- The parts of a class: its bases, keywords and decorators stand where it stands, its body in itself. -/
theorem under_class {P : Enclosure → Node → Prop} {bases : List Expr} {keywords : List Keyword}
    (h : (Stmt.classDef m name bases keywords body decorators).tree.Under P l)
    (hd : Node.Distinct (.stmt (.classDef m name bases keywords body decorators))) :
    UnderIn P (fun _ => l) (Expr.trees bases) ∧ UnderIn P (fun _ => l) (Keyword.trees keywords) ∧
      UnderIn P (fun _ => l) (Expr.trees decorators) ∧ UnderIn P (fun _ => inClass m.index) (Stmt.trees body) := by
  have houter : ∀ i, (∀ b ∈ Stmt.trees body, b.node.mark.index ≠ i) →
      Node.inside (.stmt (.classDef m name bases keywords body decorators)) l i = l :=
    fun i hi => inside_of_not_holds rfl rfl (any_index_eq_false hi)
  have hinner : ∀ t ∈ Stmt.trees body, inClass m.index =
      Node.inside (.stmt (.classDef m name bases keywords body decorators)) l t.node.mark.index := by
    intro t ht
    have hb : Node.holdsInBody (.stmt (.classDef m name bases keywords body decorators)) t.node.mark.index = true :=
      any_index_eq_true ht
    unfold Node.inside
    rw [hb]
    rfl
  simp only [Stmt.tree, under_mk, underIn_append] at h
  simp only [Node.Distinct, Stmt.tree, labels_mk, labelsIn_append, List.nodup_cons, List.nodup_append',
    List.disjoint_append_left] at hd
  obtain ⟨_, ⟨⟨hbases, hkeywords⟩, hbody⟩, hdecorators⟩ := h
  obtain ⟨_, ⟨_, _, hab, hkb⟩, _, _, hbd⟩ := hd
  exact ⟨hbases.beside hab.symm houter, hkeywords.beside hkb.symm houter, hdecorators.beside hbd houter, hbody.congr hinner⟩

/-- The parts of a lambda: its parameters stand where it stands, its body in itself. -/
theorem under_lambda {P : Enclosure → Node → Prop} {body : Expr} (h : (Expr.lambda m params body).tree.Under P l)
    (hd : Node.Distinct (.expr (.lambda m params body))) :
    params.tree.Under P l ∧ body.tree.Under P (inLambda l m.index) := by
  simp only [Expr.tree, under_mk, underIn_cons] at h
  simp only [Node.Distinct, Expr.tree, labels_mk, labelsIn_cons, List.nodup_cons, List.nodup_append'] at hd
  obtain ⟨_, hparams, hbody, _⟩ := h
  have hne : body.index ≠ params.tree.node.mark.index := by
    intro heq
    refine hd.2.2.2 (mem_labels_node _) ?_
    rw [← heq, List.mem_append]
    refine .inl ?_
    have := mem_labels_node body.tree
    rwa [body.node_tree] at this
  have hholds : Node.holdsInBody (.expr (.lambda m params body)) body.tree.node.mark.index = true := by
    rw [body.node_tree]
    exact beq_self_eq_true _
  have hbeside : Node.inside (.expr (.lambda m params body)) l params.tree.node.mark.index = l :=
    inside_of_not_holds rfl rfl (beq_false_of_ne hne)
  constructor
  · rwa [hbeside] at hparams
  · unfold Node.inside at hbody
    rw [hholds] at hbody
    exact hbody

end Node

namespace Bind

open Store

variable {ω : Type} {u : Setup ω} {w : Job} {low : Nat} {l : Enclosure} {s s' s₀ s₁ : State ω} {ctx : Context}

/-- Every node that a job meets has the form that a parser gives it, if the job is strict. -/
theorem parsed_of_under {t : NodeTree} (h : t.Under (Admits u w) l) (hstrict : w.strict = true) : t.All Node.Parsed :=
  h.all fun _ _ hn => hn.parsed hstrict

theorem node_lt_size {n : Node} (hs : Holds u w s) (hn : u.outline.node? i = some n) : i < s.facts.size := by
  rw [hs.size]
  obtain ⟨e, he, _⟩ := Option.map_eq_some_iff.1 hn
  exact (Array.getElem?_eq_some_iff.1 he).1

/-! ## New scopes -/

/-- A scope that has just been opened in the body. -/
structure Opened (w : Job) (type : ScopeType) (parent : Nat) (i : Nat) (s : State ω) : Prop where
  type : s.store.type? i = some type
  parent : s.store.parent? i = some parent
  below : w.Below s.store i
  fresh : ∀ name, s.store.redirection? i name = none
  late : w.start ≤ i
  last : ∀ t ∈ s.queue, t.scope < i
  home : w.home < i
  blank : Blank w s i

theorem newScope_runs {type : ScopeType} {parent : Nat} (hs : Holds u w s) (ht : type.isGlobal = false)
    (hp : w.Below s.store parent) (hc : type = .comprehension → w.Here parent) :
    Runs u w low s (newScope type (some parent) : BindM ω Nat) fun i s' =>
      Opened w type parent i s' ∧ s'.facts = s.facts ∧ s.store.Grows s'.store := by
  have hgrows : s.store.Grows (s.store.addScope { type := type, parent := some parent }).2 := .addScope _
  have hscope : (s.store.addScope { type := type, parent := some parent }).2.scope? s.store.scopes.size =
      some { type := type, parent := some parent } := by
    rw [scope?_addScope, if_pos rfl]
  refine .ofModifyGet hs (.ofStore (.openScope type parent ht hp hc)) ⟨?_, rfl, hgrows⟩
  have hparent : (s.store.addScope { type := type, parent := some parent }).2.parent? s.store.scopes.size = some parent := by
    simp [Store.parent?, hscope]
  exact
    { type := by show (s.store.addScope _).2.type? s.store.scopes.size = _; simp [Store.type?, hscope]
      parent := hparent
      below := .step hparent (hp.mono hgrows)
      fresh := fun name => by
        show (s.store.addScope _).2.redirection? s.store.scopes.size name = none
        simp [Store.redirection?, hscope, Scope.redirection?]
      late := hs.order.started
      last := fun t ht => hs.order.lt_of_below (hs.tasks t ht).below
      home := hs.order.lt_of_below hs.order.home.1
      blank := ⟨fun j hj => (hs.scope_lt hj).ne rfl, fun name => by
        show (s.store.addScope _).2.symbol? s.store.scopes.size name = none
        simp [Store.symbol?, hscope, Scope.symbol?],
        fun site hr => ((hs.homes.early _ site hr).1.trans_le hs.order.started).ne rfl⟩ }

/-- The scope of a node, once it is noted. -/
theorem scopeAt_modify {node : Nat} (scope i : Nat) (hn : node < s.facts.size) :
    State.scopeAt { s with facts := s.facts.modify node fun f => { f with scope := some scope } } i =
      if i = node then some scope else s.scopeAt i := by
  rw [State.scopeAt, State.factsAt_modify]
  by_cases h : i = node
  · subst h
    simp [hn]
  · rw [if_neg fun hi => h hi.1, if_neg h]
    rfl

theorem isSome_scopeAt_modify {node : Nat} (scope i : Nat) (hn : node < s.facts.size) (hi : (s.scopeAt i).isSome) :
    (State.scopeAt { s with facts := s.facts.modify node fun f => { f with scope := some scope } } i).isSome := by
  rw [scopeAt_modify scope i hn]
  split
  · rfl
  · exact hi

/-- What noting the scope of a node keeps, if the body of a function or lambda waits from then on. -/
theorem Holds.note {node scope : Nat} {n : Node} (waiting : Option Task) (hs : Holds u w s) (hn : u.outline.node? node = some n)
    (hlow : low ≤ node) (hscope : w.Below s.store scope) (hblank : Blank w s scope)
    (hclass : n.isClass = true → s.store.type? scope = some .classBody)
    (hbody : (n.isFunction || n.isLambda) = true → ∃ t ∈ waiting, t.body.mark.index = node ∧ t.scope = scope)
    (hs' : s' = { s with
      facts := s.facts.modify node fun f => { f with scope := some scope }
      queue := s.queue ++ waiting.toList })
    (hwaits : ∀ t ∈ waiting, Waits u w s' t ∧ w.home < t.scope ∧ ∀ t' ∈ s.queue, t'.scope < t.scope) :
    Goes u w low s s' ∧ Holds u w s' := by
  have hat := fun i => scopeAt_modify scope i (node_lt_size hs hn)
  have hkept := fun i => isSome_scopeAt_modify scope i (node_lt_size hs hn)
  have hfacts : ∀ i, (s'.factsAt i).declaration = (s.factsAt i).declaration ∧ (s'.factsAt i).after = (s.factsAt i).after := by
    intro i
    subst hs'
    show (State.factsAt { s with facts := _ } i).declaration = _ ∧ (State.factsAt { s with facts := _ } i).after = _
    rw [State.factsAt_modify]
    split <;> exact ⟨rfl, rfl⟩
  subst hs'
  refine ⟨⟨.refl, fun i hi => (hat i).trans (if_neg (by omega)), hkept, fun i _ _ _ => (hfacts i).2⟩, ?_⟩
  refine
    { order := hs.order
      size := by simpa using hs.size
      listed := fun i ref slot hi => hs.listed i ref slot ((hfacts i).1.symm.trans hi)
      privates := hs.privates
      classes := fun i n' sc hn' hc hi => ?_
      bodies := fun i n' sc hn' hf hi => ?_
      tasks := fun t ht => ?_
      queued := ?_
      scopes := fun i sc hi => ?_
      numbers := hs.numbers
      mentions := hs.mentions
      homes := hs.homes.note hat rfl hblank }
  · have hi' := (hat i).symm.trans hi
    split at hi'
    · rename_i heq
      subst heq
      rw [hn] at hn'
      cases hn'
      cases hi'
      exact ⟨hscope, hclass hc⟩
    · exact hs.classes i n' sc hn' hc hi'
  · have hi' := (hat i).symm.trans hi
    split at hi'
    · rename_i heq
      subst heq
      rw [hn] at hn'
      cases hn'
      cases hi'
      obtain ⟨t, ht, hti⟩ := hbody hf
      exact .inl ⟨t, by simp [Option.mem_def.1 ht], hti⟩
    · refine (hs.bodies i n' sc hn' hf hi').imp_left ?_
      rintro ⟨t, ht, hti⟩
      exact ⟨t, by simp [ht], hti⟩
  · rcases List.mem_append.1 ht with ht | ht
    · exact (hs.tasks t ht).mono hs.order (.refl _) hkept
    · exact (hwaits t (Option.mem_toList.1 ht)).1
  · refine ⟨?_, fun t ht => ?_⟩
    · cases waiting with
      | none => simpa using hs.queued.1
      | some t =>
        simp only [Option.toList_some, List.map_append, List.map_cons, List.map_nil, List.pairwise_append,
          List.pairwise_singleton, List.mem_singleton, true_and, forall_eq, List.forall_mem_map]
        exact ⟨hs.queued.1, (hwaits t rfl).2.2⟩
    · rcases List.mem_append.1 ht with ht | ht
      · exact hs.queued.2 t ht
      · exact (hwaits t (Option.mem_toList.1 ht)).2.1
  · have hi' := (hat i).symm.trans hi
    split at hi'
    · cases hi'
      exact hscope
    · exact hs.scopes i sc hi'

/-- Noting the scope of a node that is neither function nor lambda. -/
theorem setScope_runs {node scope : Nat} {n : Node} (hs : Holds u w s) (hn : u.outline.node? node = some n)
    (hnode : (n.isFunction || n.isLambda) = false) (hlow : low ≤ node) (hscope : w.Below s.store scope) (hblank : Blank w s scope)
    (hclass : n.isClass = true → s.store.type? scope = some .classBody) :
    Runs u w low s (setScope node scope : BindM ω Unit) fun _ s' =>
      s'.scopeAt node = some scope ∧ s'.store = s.store ∧ s'.queue = s.queue := by
  refine ⟨fun _ s' hrun => ?_, fun e s' hrun => nomatch hrun⟩
  have hs' := modifyFacts_ok.1 hrun
  obtain ⟨hgo, hholds⟩ := hs.note none hn hlow hscope hblank hclass (by simp [hnode]) (by simpa using hs') (by simp)
  subst hs'
  exact ⟨hgo, hholds, by rw [scopeAt_modify scope node (node_lt_size hs hn), if_pos rfl], rfl, rfl⟩

/-! ## Bodies that wait -/

/-- Noting the scope of a function or lambda and queueing its body. -/
theorem queueBody_runs {node scope parent : Nat} {n : Node} {body : Body} (hs : Holds u w s)
    (ho : Opened w .function parent scope s) (hn : u.outline.node? node = some n)
    (hnode : (n.isFunction || n.isLambda) = true) (hmark : body.mark.index = node) (hlow : low ≤ node)
    (hcode : ∃ l : Enclosure, Enclosure.Within l node ∧ body.Under (Belongs u w) l ∧
      (∀ c, l.cls = some c → ClassBefore u s l.low c) ∧ ∀ c, l.owner = some c → ClassBefore u s l.low c)
    (hfree : body.isFunction = true → ClassFree w s.store scope) :
    Runs u w low s (do
      setScope node scope
      modify fun s => { s with queue := s.queue ++ [⟨scope, body⟩] } : BindM ω Unit) fun _ s' => s'.store = s.store := by
  have hkept := fun i => isSome_scopeAt_modify scope i (node_lt_size hs hn)
  refine ⟨fun _ s' hrun => ?_, fun e s' hrun => nomatch hrun⟩
  obtain ⟨_, t, h1, h2⟩ := bind_ok.1 hrun
  obtain rfl := modifyFacts_ok.1 h1
  obtain rfl := modify_ok.1 h2
  obtain ⟨l, hl, hunder, hcls, howner⟩ := hcode
  obtain ⟨hgo, hholds⟩ := hs.note (some ⟨scope, body⟩) hn hlow ho.below ho.blank
    (fun hc => by simp [n.isClass_eq_false hnode] at hc) (fun _ => ⟨_, rfl, hmark, rfl⟩) rfl (by
      rintro t ⟨⟩
      refine ⟨?_, ho.home, ho.last⟩
      subst hmark
      exact
        { below := ho.below
          type := ho.type
          marked := by
            show (State.scopeAt { s with facts := _ } _).isSome
            rw [scopeAt_modify scope _ (node_lt_size hs hn), if_pos rfl]
            rfl
          node := ⟨n, hn, hnode⟩
          code := ⟨l, hl, hunder, fun c hc => (hcls c hc).mono hkept, fun c hc => (howner c hc).mono hkept⟩
          free := hfree })
  exact ⟨hgo, hholds, rfl⟩

/-- The nearest scope that is no class: it is in the module, and no class is above it if none is above the place. -/
theorem nonClassScope_runs (hs : Holds u w s) (hb : w.Below s.store ctx.scope) :
    Runs u w low s (nonClassScope ctx : BindM ω (Option Nat)) fun r s' => s' = s ∧ ∃ c, r = some c ∧ w.Below s.store c ∧
      s.store.Climbs ctx.scope c ∧ s.store.type? c ≠ some .classBody := by
  refine (Runs.get hs).bind fun t s _ ht hq => ?_
  obtain ⟨rfl, rfl⟩ := hq
  have hbase : (w.baseType != .classBody) = true := by
    unfold Stage.baseType
    split <;> rfl
  obtain ⟨c, t, hc, hclimb, hbc, htype, hne⟩ := hs.order.climbTo_some (fun t => t != .classBody) hbase _ ctx.scope hb
    (hs.order.lt_of_below hb)
  refine .pure ht ⟨rfl, c, hc, hbc, hclimb, ?_⟩
  rw [htype]
  rintro heq
  cases heq
  cases hne

/-- A scope in the nearest scope that is no class has no class above it if the place has none. -/
theorem ClassFree.ofParent {st st' : Store} {i c : Nat} (h : ClassFree w st' ctx.scope) (hp : st'.parent? i = some c)
    (ho : Orderly w.toStage st) (hb : w.Below st c) (hc : st.Climbs ctx.scope c) (ht : st.type? c ≠ some .classBody)
    (hgrows : st.Grows st') : ClassFree w st' i := by
  obtain ⟨t, htype⟩ := ho.type_of_below hb
  have hclimb := hc.mono hgrows
  have hne : st'.type? c ≠ some .classBody := by rwa [hgrows.type? htype, ← htype]
  intro p hp' j hj hbj
  rw [hp] at hp'
  cases hp'
  rcases Climbs.cases_head hj with rfl | ⟨q, hq, hup⟩
  · exact hne
  · rcases Climbs.cases_head hclimb with heq | ⟨r, hr, hrc⟩
    · rw [← heq] at hq
      exact h q hq j hup hbj
    · exact h r hr j (hrc.trans (.step hq hup)) hbj

/-- Opening the scope of a function or lambda and queueing its body. -/
theorem deferBody_walks {mark : Mark} {n : Node} {body : Body} (hr : Ready u w ctx.scope l s₀)
    (hn : u.outline.node? mark.index = some n) (hnode : (n.isFunction || n.isLambda) = true) (hmark : body.mark = mark)
    (hlow : l.low ≤ mark.index)
    (hcode : ∃ l' : Enclosure, Enclosure.Within l' mark.index ∧ body.Under (Belongs u w) l' ∧
      (∀ c, l'.cls = some c → l.cls = some c ∨ l.owner = some c) ∧
      ∀ c, l'.owner = some c → l.cls = some c ∨ l.owner = some c)
    (hfirm : body.isFunction = true → Firm w ctx.scope s₀.store) :
    Walks u w l.low s₀ (deferBody ctx mark body : BindM ω Context) fun inner s =>
      Stands w inner.scope s.store ∧ ∀ name, s.store.redirection? inner.scope name = none := by
  intro s hgo hs
  have hr' := hr.mono hgo
  refine (nonClassScope_runs hs hr'.stands.below).bind fun r s₁ _ hs₁ hq => ?_
  obtain ⟨rfl, c, rfl, hbc, hclimb, hne⟩ := hq
  refine (newScope_runs hs₁ rfl hbc fun h => by cases h).bind fun scope s₂ hgo₂ hs₂ hq => ?_
  obtain ⟨hopened, _, hgrows⟩ := hq
  have hr₂ := hr'.mono hgo₂
  have hbefore : ∀ c, l.cls = some c ∨ l.owner = some c → ClassBefore u s₂ (mark.index + 1) c := by
    rintro c (hc | hc)
    · exact ⟨(hr₂.cls c hc).1, by have := (hr₂.cls c hc).2; omega⟩
    · exact ⟨(hr₂.owner c hc).1.1, by have := (hr₂.owner c hc).1.2; omega⟩
  have hcode₂ : ∃ l' : Enclosure, Enclosure.Within l' mark.index ∧ body.Under (Belongs u w) l' ∧
      (∀ c, l'.cls = some c → ClassBefore u s₂ l'.low c) ∧ ∀ c, l'.owner = some c → ClassBefore u s₂ l'.low c := by
    obtain ⟨l', hl', hunder, hcls, howner⟩ := hcode
    rw [← hl'.low] at hbefore
    exact ⟨l', hl', hunder, fun c hc => hbefore c (hcls c hc), fun c hc => hbefore c (howner c hc)⟩
  have hfree : body.isFunction = true → ClassFree w s₂.store scope := fun hf =>
    ((hfirm hf).classFree (hgo.trans hgo₂).grows).ofParent hopened.parent hs₁.order hbc hclimb hne hgrows
  rw [← bind_assoc]
  refine (queueBody_runs hs₂ hopened hn hnode (by rw [hmark]) hlow hcode₂ hfree).bind fun _ s₃ _ hs₃ hstore => ?_
  refine Runs.bind (Q := fun _ s₄ => s₄.store = s₂.store)
    (.ofModify hs₃ (.ofFacts (fun _ => rfl) (fun _ => rfl) (.inl fun _ => rfl)) hstore) fun _ s₄ _ hs₄ hstore₄ => ?_
  refine .pure hs₄ ⟨⟨?_, .inr hopened.late⟩, fun name => ?_⟩
  · rw [hstore₄]
    exact hopened.below
  · rw [hstore₄]
    exact hopened.fresh name

/-- The body of a function waits with what its walk needs to know. -/
theorem deferFunction_walks {m : Mark} {isAsync : Bool} {name : String} {params : Parameters} {body : List Stmt}
    {decorators : List Expr} {returns : Option Expr} (hr : Ready u w ctx.scope l s₀) (hfirm : Firm w ctx.scope s₀.store)
    (h : (Stmt.function m isAsync name params body decorators returns).tree.Under (Admits u w) l) :
    Walks u w l.low s₀ (deferBody ctx m (.function m params body) : BindM ω Context) fun inner s =>
      Stands w inner.scope s.store ∧ ∀ name, s.store.redirection? inner.scope name = none := by
  have hnode := (under_mk.1 (by rwa [Stmt.tree] at h)).1
  obtain ⟨_, _, _, hbody⟩ := Node.under_function h hnode.distinct
  refine deferBody_walks hr hnode.encloses.1 rfl rfl hnode.encloses.2.low ?_ fun _ => hfirm
  exact ⟨Node.inFunction l m.index, ⟨rfl, rfl, rfl, rfl⟩, hbody.imp fun _ _ hn => hn.toBelongs, fun c hc => .inl hc,
    fun c hc => .inl hc⟩

/-- The body of a lambda waits with what its walk needs to know. -/
theorem deferLambda_walks {m : Mark} {params : Parameters} {body : Expr} (hr : Ready u w ctx.scope l s₀)
    (h : (Expr.lambda m params body).tree.Under (Admits u w) l) :
    Walks u w l.low s₀ (deferBody ctx m (.lambda m params body) : BindM ω Context) fun inner s =>
      Stands w inner.scope s.store ∧ ∀ name, s.store.redirection? inner.scope name = none := by
  have hnode := (under_mk.1 (by rwa [Expr.tree] at h)).1
  obtain ⟨_, hbody⟩ := Node.under_lambda h hnode.distinct
  refine deferBody_walks hr hnode.encloses.1 rfl rfl hnode.encloses.2.low ?_ fun hf => by cases hf
  exact ⟨Node.inLambda l m.index, ⟨rfl, rfl, rfl, rfl⟩, hbody.imp fun _ _ hn => hn.toBelongs, fun c hc => .inl hc,
    fun c hc => .inr hc⟩

/-! ## Comprehensions and classes -/

/-- The first iterable of a comprehension is walked outside of it. -/
theorem Ready.nest {here : Nat} (h : Ready u w here l s) : Ready u w here (Node.inNest l) s where
  stands := h.stands
  type := by
    obtain ⟨t, ht, _⟩ := h.type
    exact ⟨t, ht, fun _ => rfl⟩
  plain := h.inComprehension
  inComprehension := h.inComprehension
  cls := h.cls
  owner := h.owner

/-- The parts of a comprehension are walked in its scope. -/
theorem Ready.inside {here scope : Nat} (h : Ready u w here l s) (ho : Opened w .comprehension here scope s) :
    Ready u w scope (Node.inNest l) s := by
  have hreceives : ∀ c, l.inComprehension = some c → Receives w scope l.low s c := by
    intro c hc
    obtain ⟨hlow, i, hi, hthrough⟩ := h.inComprehension c hc
    exact ⟨hlow, i, hi, .step ho.late ho.type ho.parent hthrough⟩
  exact
    { stands := ⟨ho.below, .inr ho.late⟩
      type := ⟨_, ho.type, fun _ => rfl⟩
      plain := hreceives
      inComprehension := hreceives
      cls := h.cls
      owner := h.owner }

/-- The body of a class is walked in its scope. -/
theorem Ready.inClass {scope node : Nat} {n : Node} (hb : w.Below s.store scope) (hl : w.start ≤ scope)
    (ht : s.store.type? scope = some .classBody) (hn : u.outline.node? node = some n) (hclass : n.isClass = true)
    (hat : s.scopeAt node = some scope) : Ready u w scope (Node.inClass node) s where
  stands := ⟨hb, .inr hl⟩
  type := ⟨_, ht, fun h => by cases h⟩
  plain := fun c hc => by
    cases hc
    exact ⟨Nat.lt_succ_self _, scope, hat, .refl _⟩
  inComprehension := fun c hc => by cases hc
  cls := fun c hc => by
    cases hc
    exact ⟨⟨⟨n, hn, hclass⟩, by simp [hat]⟩, Nat.lt_succ_self _⟩
  owner := fun c hc => by cases hc

/-- A class: while its body is walked, the nodes around it, itself included, are left alone. -/
theorem layOutClass_upholds {site : Site} {name : String} {n : Node} {body : Context → BindM ω Unit} (hv : Serves u w)
    (hr : Ready u w ctx.scope l s₀) (hfirm : Firm w ctx.scope s₀.store) (hn : u.outline.node? site.index = some n)
    (hclass : n.isClass = true) (hlow : l.low ≤ site.index)
    (hbody : ∀ inner s₁, Ready u w inner.scope (Node.inClass site.index) s₁ → Firm w inner.scope s₁.store →
      Upholds u w (site.index + 1) s₁ (body inner)) :
    Upholds u w l.low s₀ (layOutClass u ctx site name body) := by
  intro s hgo hs
  have hr' := hr.mono hgo
  have hnode : (n.isFunction || n.isLambda) = false := by
    cases hf : n.isFunction || n.isLambda with
    | false => rfl
    | true =>
      rw [n.isClass_eq_false hf] at hclass
      cases hclass
  refine (nonClassScope_runs hs hr'.stands.below).bind fun r s₁ _ hs₁ hq => ?_
  obtain ⟨rfl, c, rfl, hbc, hclimb, hne⟩ := hq
  refine (newScope_runs hs₁ rfl hbc fun h => by cases h).bind fun scope s₂ hgo₂ hs₂ hq => ?_
  obtain ⟨ho, _, hgrows⟩ := hq
  have hfree : ClassFree w s₂.store scope :=
    (hfirm.classFree (hgo.trans hgo₂).grows).ofParent ho.parent hs₁.order hbc hclimb hne hgrows
  refine (setScope_runs hs₂ hn hnode hlow ho.below ho.blank fun _ => ho.type).bind fun _ s₃ hgo₃ hs₃ hq => ?_
  obtain ⟨hat, hstore, _⟩ := hq
  have hready : Ready u w scope (Node.inClass site.index) s₃ := by
    refine .inClass ?_ ho.late ?_ hn hclass hat
    · exact hstore ▸ ho.below
    · exact hstore ▸ ho.type
  have hfirm' : Firm w scope s₃.store := by
    rw [hstore]
    exact ⟨hs₂.order.closed, ⟨_, ho.type, by simp⟩, hfree⟩
  refine ((hbody _ s₃ hready hfirm' s₃ (.refl _) hs₃).mono (hlow.trans (Nat.le_succ _))).bind fun _ s₄ hgo₄ hs₄ _ => ?_
  have hc₄ := (hr'.mono ((hgo₂.trans hgo₃).trans hgo₄)).stands
  have hbind : Walks u w l.low s₄ (Functor.discard (bindHere u ctx name) : BindM ω Unit) fun _ s =>
      w.Known s.store ctx.scope name := fun s hgo' hs' =>
    ((bindHere_walks hc₄ name s hgo' hs').map _).imp fun _ _ _ hq => by
      obtain ⟨_, _, _, hk⟩ := hq
      exact hk
  exact hbind.bind (fun _ s₅ hgo₅ hk => assignName_upholds hv (hc₄.mono hgo₅.grows) _ hk _ _) s₄ (.refl _) hs₄

end Bind

end ScopeFlow
