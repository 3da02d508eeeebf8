import ScopeFlow.Proofs.JobNames

/-!
# Jobs and the place where they stand

`Ready` is what a walk knows of the place where it stands: the scopes that the nodes around it have opened are those that the
enclosure of the place speaks of. The walk leaves the scopes of these nodes alone, so it stays ready.

At such a place the target of an assignment expression can be bound in its container, and what is assigned through the first
parameter of a method goes to a class of an earlier body.
-/

namespace ScopeFlow

open NodeTree

namespace Outline

/-- The name of the first parameter of a function. -/
def firstParameter? (o : Outline) (i : Nat) : Option String :=
  match o.node? i with
  | some (.stmt (.function _ _ _ params ..)) => params.firstName?
  | _ => none

/-- The name of a class. -/
def className? (o : Outline) (i : Nat) : Option String :=
  match o.node? i with
  | some (.stmt (.classDef _ name ..)) => some name
  | _ => none

/-- The class that receives a member is the class around the function around the node, and the base is the first parameter of this
function or the class. -/
theorem memberOwner?_eq_some {o : Outline} {node cls : Nat} {base className : String} {isInstance : Bool}
    (h : o.memberOwner? node base = some (cls, className, isInstance)) :
    ∃ method, o.enclosingFunction node = some method ∧ o.enclosingClass method false = some cls ∧
      (o.firstParameter? method = some base ∨ o.className? cls = some base) := by
  unfold memberOwner? at h
  obtain ⟨method, hmethod, h⟩ := Option.bind_eq_some_iff.1 h
  obtain ⟨c, hc, h⟩ := Option.bind_eq_some_iff.1 h
  refine ⟨method, hmethod, ?_⟩
  rw [hc]
  split at h
  · rename_i hfunction hclass
    obtain ⟨first, hfirst, h⟩ := Option.bind_eq_some_iff.1 h
    split at h
    · rename_i heq
      cases h
      exact ⟨rfl, .inr (by rw [className?, hclass, eq_of_beq heq])⟩
    · split at h
      · cases h
      · rename_i heq
        have hbase : base = first := by simpa using heq
        have hparameter : o.firstParameter? method = some base := by
          rw [firstParameter?, hfunction, hbase]
          exact hfirst
        split at h
        · cases h
          exact ⟨rfl, .inl hparameter⟩
        · obtain ⟨b, _, h⟩ := Option.bind_eq_some_iff.1 h
          cases h
          exact ⟨rfl, .inl hparameter⟩
  · cases h

end Outline

namespace Bind

open Store

variable {ω : Type} {u : Setup ω} {w : Job} {low : Nat} {l : Enclosure} {s s' s₀ s₁ : State ω} {ctx : Context} {name : String}
  {base attr : String} {ref : SymbolRef}

/-! ## Places -/

/-- Whether the way from a scope outwards to another leads through comprehensions of the body only. -/
inductive Through (w : Job) (st : Store) : Nat → Nat → Prop where
  | refl (i : Nat) : Through w st i i
  | step {i p j : Nat} : w.start ≤ i → st.type? i = some .comprehension → st.parent? i = some p → Through w st p j →
      Through w st i j

namespace Through

variable {st st' : Store} {i j : Nat}

theorem mono (h : Through w st i j) (hg : st.Grows st') : Through w st' i j := by
  induction h with
  | refl i => exact .refl i
  | step hi ht hp _ ih => exact .step hi (hg.type? ht) ((hg.parent? (lt_size_of_parent? hp)).trans hp) ih

/-- What is reached from a scope of the body is one as well. -/
theorem reaches (h : Through w st i j) (ho : Orderly w.toStage st) (hb : w.Below st i) (hh : w.Here i) :
    w.Below st j ∧ w.Here j := by
  induction h with
  | refl i => exact ⟨hb, hh⟩
  | @step i p j hi ht hp _ ih =>
    have hne : i ≠ w.base := by
      rintro rfl
      have hglobal := Stage.baseType_isGlobal w.toStage
      rw [ho.root.1] at ht
      rw [Option.some.inj ht] at hglobal
      cases hglobal
    obtain ⟨q, hq, _, hup, _⟩ := ho.parent_of_below hb hne
    rw [hp] at hq
    cases hq
    exact ih hup (ho.nested i p hb hi ht hp)

theorem known (h : Through w st i j) (hk : w.Known st j name) : w.Known st i name := by
  induction h with
  | refl i => exact hk
  | step hi ht hp _ ih => exact .outer hi ht hp (ih hk)

end Through

/-- Whether a node has opened a scope that another one leads to through comprehensions, and stands below a number. -/
def Receives (w : Job) (here low : Nat) (s : State ω) (c : Nat) : Prop :=
  c < low ∧ ∃ i, s.scopeAt c = some i ∧ Through w s.store here i

/-- What is known of the place where a walk stands, given its scope. -/
structure Ready (u : Setup ω) (w : Job) (here : Nat) (l : Enclosure) (s : State ω) : Prop where
  stands : Stands w here s.store
  type : ∃ t, s.store.type? here = some t ∧ (t = .comprehension → l.isNested = true)
  plain : ∀ c, l.plain = some c → Receives w here l.low s c
  inComprehension : ∀ c, l.inComprehension = some c → Receives w here l.low s c
  cls : ∀ c, l.cls = some c → ClassBefore u s l.low c
  owner : ∀ c, l.owner = some c → ClassBefore u s l.low c ∧
    ∀ i, s.scopeAt c = some i → i < w.start ∧ ∀ site, u.outline.Claims c site → w.receives i site

theorem Receives.mono {here c : Nat} (h : Receives w here low s c) (hgo : Goes u w low s s') : Receives w here low s' c := by
  obtain ⟨hc, i, hi, hthrough⟩ := h
  exact ⟨hc, i, (hgo.frozen c hc).trans hi, hthrough.mono hgo.grows⟩

/-- A walk that leaves the nodes around it alone stays ready. -/
theorem Ready.mono {here : Nat} (h : Ready u w here l s) (hgo : Goes u w l.low s s') : Ready u w here l s' where
  stands := h.stands.mono hgo.grows
  type := by
    obtain ⟨t, ht, hn⟩ := h.type
    exact ⟨t, hgo.grows.type? ht, hn⟩
  plain := fun c hc => (h.plain c hc).mono hgo
  inComprehension := fun c hc => (h.inComprehension c hc).mono hgo
  cls := fun c hc => (h.cls c hc).mono hgo.kept
  owner := fun c hc => by
    obtain ⟨hat, hstart⟩ := h.owner c hc
    refine ⟨hat.mono hgo.kept, fun i hi => hstart i ?_⟩
    rw [← hgo.frozen c hat.2]
    exact hi

/-- A place from which no class of the module can be seen, and that is in no comprehension: that of a statement. -/
structure Firm (w : Job) (here : Nat) (st : Store) : Prop where
  closed : st.Closed
  type : ∃ t, st.type? here = some t ∧ t ≠ .comprehension
  free : ClassFree w st here

theorem Firm.classFree {st st' : Store} {here : Nat} (h : Firm w here st) (hg : st.Grows st') : ClassFree w st' here := by
  obtain ⟨t, ht, _⟩ := h.type
  exact h.free.mono hg h.closed (lt_size_of_type? ht)

/-! ## Assignment expressions -/

/-- The target of an assignment expression is known where it stands once it is bound in its container. -/
theorem bindNamed_walks (hr : Ready u w ctx.scope l s₀) {i : Nat} (hi : Through w s₀.store ctx.scope i)
    (hname : l.isNested = true → w.walruses name) (mark : Mark) :
    Walks u w l.low s₀ (bindNamed u ctx i mark name) fun _ s => w.Known s.store ctx.scope name := by
  have hbind : Walks u w l.low s₀ (Functor.discard (bindName u ctx i name) : BindM ω Unit) fun _ s =>
      w.Known s.store ctx.scope name := by
    intro s hgo hs
    have hr' := hr.mono hgo
    have hi' := hi.mono hgo.grows
    obtain ⟨hb, hh⟩ := hi'.reaches hs.order hr'.stands.below hr'.stands.here
    have hadds : s.store.redirection? ctx.scope name = none → s.store.symbol? i name = none → w.Adds s.store i name := by
      intro hred _
      cases hi' with
      | refl => exact .here hb hh hred
      | step _ ht _ _ =>
        obtain ⟨t, ht', hn⟩ := hr'.type
        rw [ht] at ht'
        cases ht'
        exact .walrus hb hh (hname (hn rfl))
    refine ((bindName_runs hs hr'.stands.below hb hadds).map _).imp fun _ s' hgo' hq => ?_
    obtain ⟨b, _, hbinds⟩ := hq
    rcases hbinds.known with hred | hsym
    · obtain ⟨r, hred⟩ := Option.isSome_iff_exists.1 hred
      exact .redirected hred
    · exact (hi'.mono hgo'.grows).known (.own hsym)
  exact Walks.get.seq fun _ => .ite ((reportError_upholds _ _ _).seq fun _ => hbind) hbind

/-! ## Members -/

/-- Whether a scope is a class of an earlier body. -/
structure Hosts (w : Job) (st : Store) (i : Nat) : Prop where
  below : w.Below st i
  type : st.type? i = some .classBody
  early : i < w.start

theorem Hosts.mono {st st' : Store} {i : Nat} (h : Hosts w st i) (hg : st.Grows st') : Hosts w st' i :=
  ⟨h.below.mono hg, hg.type? h.type, h.early⟩

/-- What receives a member is a class of an earlier body. -/
theorem memberAccess_walks (hr : Ready u w ctx.scope l s₀) {m k : Mark}
    (ha : u.outline.Encloses l (.expr (.member m (.name k base) attr))) :
    Walks u w l.low s₀ (memberAccess u m.index base) fun r s => ∀ a, r = some a →
      Hosts w s.store a.classScope ∧ ∀ kind, w.receives a.classScope ⟨m, kind⟩ := by
  unfold memberAccess
  cases howner : u.outline.memberOwner? m.index base with
  | none => exact .ret fun _ _ a h => by cases h
  | some found =>
    obtain ⟨cls, className, isInstance⟩ := found
    obtain ⟨method, hmethod, hcls, _⟩ := Outline.memberOwner?_eq_some howner
    have hl : l.owner = some cls := ha.2.owner.symm.trans (Option.bind_eq_some_iff.2 ⟨method, hmethod, hcls⟩)
    intro s hgo hs
    obtain ⟨⟨⟨⟨n, hn, hclass⟩, hsome⟩, _⟩, hstart⟩ := (hr.mono hgo).owner cls hl
    obtain ⟨scope, hscope⟩ := Option.isSome_iff_exists.1 hsome
    obtain ⟨hb, ht⟩ := hs.classes cls n scope hn hclass hscope
    refine Runs.bind (Q := fun facts t => t = s ∧ facts = s.factsAt cls) ?_ fun facts t _ ht' hq => ?_
    · refine ⟨fun a t h => ?_, fun e t h => nomatch h⟩
      obtain ⟨rfl, rfl⟩ := factsOf_ok.1 h
      exact ⟨.refl _, hs, rfl, rfl⟩
    · obtain ⟨rfl, rfl⟩ := hq
      rw [State.scopeAt] at hscope
      rw [hscope]
      refine .pure ht' fun a h => ?_
      cases h
      exact ⟨⟨hb, ht, (hstart scope hscope).1⟩, fun kind =>
        (hstart scope hscope).2 ⟨m, kind⟩ ⟨m, k, base, attr, className, isInstance, ha.1, howner⟩⟩

theorem memberSymbol_walks {access : MemberAccess} (ha : Hosts w s₀.store access.classScope) (hm : w.members name) :
    Walks u w low s₀ (memberSymbol u access name) fun ref s => Hosts w s.store ref.scope ∧ ref.scope = access.classScope := by
  intro s hgo hs
  have ha' := ha.mono hgo.grows
  refine Runs.bind (Q := fun sym t => t = s ∧ sym = s.store.symbol? access.classScope name) ?_ fun sym t _ _ hq => ?_
  · refine (Runs.get hs).bind fun a t _ ht hq => ?_
    obtain ⟨rfl, rfl⟩ := hq
    exact .pure ht ⟨rfl, rfl⟩
  obtain ⟨rfl, rfl⟩ := hq
  cases hsym : t.store.symbol? access.classScope name with
  | some sym => exact .pure hs ⟨ha', rfl⟩
  | none =>
    refine (newSymbol_runs hs hsym (.member ha'.below ha'.type ha'.early hm)).imp fun ref s' hgo' hq => ?_
    rw [hq.1]
    exact ⟨ha'.mono hgo'.grows, rfl⟩

/-- A change of a member of a class of an earlier body, which may get members where the class does. -/
theorem adjustMember_upholds (hr : Hosts w s₀.store ref.scope) {f : Symbol → Symbol}
    (hg : Symbol.Gains (w.receives ref.scope) f) (hf : ∀ s : Symbol, s.Retains (f s)) :
    Upholds u w low s₀ (adjustSymbol ref f : BindM ω Unit) :=
  adjustSymbol_upholds (fun _ hgo _ => .member (hr.mono hgo.grows).below (hr.mono hgo.grows).type hr.early hg) hf

theorem markMember_upholds (hr : Hosts w s₀.store ref.scope) (flags : SymbolFlags → SymbolFlags) :
    Upholds u w low s₀ (adjustSymbol ref fun s => { s with flags := flags s.flags } : BindM ω Unit) :=
  adjustMember_upholds hr (.ofFlags fun _ => rfl) fun _ => .ofFlags _ _

theorem declareMember_upholds (hr : Hosts w s₀.store ref.scope) {d : Declaration}
    (hd : w.receives ref.scope d.site) : Upholds u w low s₀ (declare ref d : BindM ω Unit) :=
  adjustMember_upholds hr (fun s e he hm => (Symbol.Gains.declare d s e he hm).imp_right fun heq => by
    rw [show e.site = d.site from heq]
    exact hd) (.declare _)

theorem inferMember_upholds (hr : Ready u w ctx.scope l s₀) (source : Nat) {mark k : Mark}
    (ha : u.outline.Encloses l (.expr (.member mark (.name k base) attr))) (hm : w.members attr) :
    Upholds u w l.low s₀ (inferMember u source (.member mark (.name k base) attr) mark base attr) := by
  refine (memberAccess_walks hr ha).bind fun r s₁ _ hr₁ => ?_
  cases r with
  | none => exact .pure _
  | some access =>
    obtain ⟨hosts, hreceives⟩ := hr₁ access rfl
    refine (memberSymbol_walks hosts hm).bind fun ref s₂ _ href => ?_
    have hdeclare : Upholds u w l.low s₂ (declare ref (declarationIn u (Expr.member mark (.name k base) attr).site
        (mark.rangeOfEnd attr) (.variableName { isConstant := isConstantName attr, source := some source, isMember := true })) :
        BindM ω Unit) := declareMember_upholds href.1 (href.2 ▸ hreceives _)
    have hmark : ∀ flags : SymbolFlags → SymbolFlags,
        Upholds u w l.low s₂ (adjustSymbol ref fun s => { s with flags := flags s.flags } : BindM ω Unit) :=
          markMember_upholds href.1
    refine .ite ((symbolIn_upholds _ _).seq fun sym => ?_) ((hmark fun f => { f with classMember := true }).seq fun _ => hdeclare)
    cases sym with
    | none => exact hdeclare
    | some sym => exact .ite hdeclare ((hmark fun f => { f with instanceMember := true }).seq fun _ => hdeclare)

/-! ## Declarations of variables -/

mutual

/-- Known targets can be declared. -/
theorem inferVariable_upholds {s₀ : State ω} (hr : Ready u w ctx.scope l s₀) (source : Nat) (maybeAlias : Bool) (target : Expr)
    (ht : target.tree.Under (Admits u w) l) (hm : ∀ x ∈ target.assignedMembers, w.members x)
    (hk : ∀ x ∈ target.targetNames, w.Known s₀.store ctx.scope x) :
    Upholds u w l.low s₀ (inferVariable u ctx source maybeAlias target) := by
  unfold inferVariable
  split
  · refine (lookUp_known_walks hr.stands (hk _ (by simp [Expr.targetNames]))).bind fun r s₁ _ h => ?_
    cases r with
    | none => exact .pure _
    | some found => exact declare_upholds (h.1 found rfl).1 rfl
  · simp only [Expr.tree, under_mk] at ht
    exact inferMember_upholds hr source ht.1.encloses (hm _ (by simp [Expr.assignedMembers]))
  · rename_i elements
    exact inferVariables_upholds hr source elements (under_mk.1 ht).2 hm hk
  · rename_i elements
    exact inferVariables_upholds hr source elements (under_mk.1 ht).2 hm hk
  · rename_i value
    exact inferVariable_upholds hr source false value (underIn_cons.1 (under_mk.1 ht).2).1 hm hk
  · exact .pure _

theorem inferVariables_upholds {s₀ : State ω} (hr : Ready u w ctx.scope l s₀) (source : Nat) (targets : List Expr)
    (ht : UnderIn (Admits u w) (fun _ => l) (Expr.trees targets)) (hm : ∀ x ∈ Expr.membersAssigned targets, w.members x)
    (hk : ∀ x ∈ Expr.namesTargeted targets, w.Known s₀.store ctx.scope x) :
    Upholds u w l.low s₀ (inferVariables u ctx source targets) := by
  match targets with
  | [] =>
    rw [inferVariables]
    exact .pure _
  | target :: targets =>
    rw [inferVariables]
    simp only [Expr.trees, underIn_cons] at ht
    simp only [Expr.membersAssigned, List.mem_append] at hm
    simp only [Expr.namesTargeted, List.mem_append] at hk
    exact (inferVariable_upholds hr source false target ht.1 (fun x hx => hm x (.inl hx)) fun x hx => hk x (.inl hx)).seq fun _ =>
      inferVariables_upholds hr source targets ht.2 (fun x hx => hm x (.inr hx)) fun x hx => hk x (.inr hx)

end

theorem annotateName_upholds (hc : Stands w ctx.scope s₀.store) (mark : Mark) {id : String} (hk : w.Known s₀.store ctx.scope id)
    (hint : Expr) : Upholds u w low s₀ (annotateName u ctx mark id hint) := by
  refine (lookUp_known_walks hc hk).bind fun r s₁ _ h => ?_
  cases r with
  | none => exact .pure _
  | some found =>
    have hfair := (h.1 found rfl).1
    refine typingNames_upholds.seq fun typing => ?_
    -- what is left once a misplaced type alias has been reported
    have hrest : Upholds u w low s₁ (do
        declare ⟨found.scope, id⟩ (declarationIn u ⟨mark, "Name"⟩ mark.range
          (.variableName
            { isConstant := isConstantName id
              hint := if typing.isForm "TypeAlias" hint then none else (typing.final? hint).getD (some hint)
              isFinal := (typing.final? hint).isSome
              isRequired := ((if typing.isForm "TypeAlias" hint then none
                else (typing.final? hint).getD (some hint)).map (typing.isFormOfOne "Required")).getD false
              isNotRequired := ((if typing.isForm "TypeAlias" hint then none
                else (typing.final? hint).getD (some hint)).map (typing.isFormOfOne "NotRequired")).getD false
              aliasHint := if typing.isForm "TypeAlias" hint then some hint.index else none
              aliasName := if typing.isForm "TypeAlias" hint then some mark.index else none }))
        if typing.isFormOfAny "ClassVar" hint then
          adjustSymbol ⟨found.scope, id⟩ fun s => { s with flags := { s.flags with classVar := true } }
        else markInstanceMember ⟨found.scope, id⟩ : BindM ω Unit) :=
      (declare_upholds hfair rfl).seq fun _ =>
        .ite (adjustSymbol_fair hfair (.ofFlags fun _ => rfl) (fun _ => rfl) fun _ => .ofFlags _ _)
        (adjustSymbol_fair hfair (.ofFlags fun _ => rfl) (fun _ => rfl) fun _ => .ofFlags _ _)
    exact (scopeType_upholds ctx).seq fun _ => .ite ((reportError_upholds _ _ _).seq fun _ => hrest) hrest

theorem annotateMember_upholds (hr : Ready u w ctx.scope l s₀) {mark k : Mark}
    (ha : u.outline.Encloses l (.expr (.member mark (.name k base) attr))) (hm : w.members attr) (hint : Expr) :
    Upholds u w l.low s₀ (annotateMember u mark base attr hint) := by
  refine (memberAccess_walks hr ha).bind fun r s₁ _ hr₁ => ?_
  cases r with
  | none => exact .pure _
  | some access =>
    obtain ⟨hosts, hreceives⟩ := hr₁ access rfl
    refine (memberSymbol_walks hosts hm).bind fun ref s₂ _ href => ?_
    have hreceives' : ∀ kind, w.receives ref.scope ⟨mark, kind⟩ := href.2 ▸ hreceives
    exact .ite ((markMember_upholds href.1 fun f => { f with instanceMember := true }).seq fun _ =>
      typingNames_upholds.seq fun _ =>
        (declareMember_upholds href.1 (hreceives' _)).seq fun _ => .pure _)
      ((markMember_upholds href.1 fun f => { f with classMember := true }).seq fun _ => typingNames_upholds.seq fun _ =>
        (declareMember_upholds href.1 (hreceives' _)).seq fun _ => .pure _)

/-- A known target can be annotated. -/
theorem annotateVariable_upholds (hr : Ready u w ctx.scope l s₀) (target hint : Expr) (ht : target.tree.Under (Admits u w) l)
    (hm : ∀ x ∈ target.assignedMembers, w.members x) (hk : ∀ x ∈ target.targetNames, w.Known s₀.store ctx.scope x) :
    Upholds u w l.low s₀ (annotateVariable u ctx target hint) := by
  unfold annotateVariable
  split
  · exact annotateName_upholds hr.stands _ (hk _ (by simp [Expr.targetNames])) hint
  · simp only [Expr.tree, under_mk] at ht
    refine (annotateMember_upholds hr ht.1.encloses (hm _ (by simp [Expr.assignedMembers])) hint).seq fun _ => ?_
    exact .ite (.pure _) (reportError_upholds _ _ _)
  · exact reportError_upholds _ _ _

end Bind

end ScopeFlow
