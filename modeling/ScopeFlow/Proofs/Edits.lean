import ScopeFlow.Proofs.Orderly

/-!
# Edits of the store

Binding changes the store by a few primitive edits (`Store.Edit`). While a body is bound, each of them is made for a reason: a
name comes into a scope of the body that does not redirect it, into the module by a `global` statement, into the container of an
assignment expression, or into a class as a member (`Stage.Adds`); only symbols of the module are changed, and those that a
`nonlocal` statement names. `Stage.Step` is an edit with its reason.

Steps keep a store orderly. What they leave alone follows from the reasons.
-/

namespace ScopeFlow

open Store

/-- The primitive changes of a store. -/
inductive Store.Edit : Store → Store → Prop where
  /-- Numbers of flow nodes are handed out. -/
  | count {st : Store} (flow : Int) : Edit st { st with nextFlowId := flow }
  /-- Other modules are bound. -/
  | foreign {st st' : Store} : st.Extends st' → Edit st st'
  | openScope {st : Store} (type : ScopeType) (parent : Option Nat) :
    Edit st (st.addScope { type := type, parent := parent }).2
  /-- A new name gets a symbol with the next number. -/
  | addName {st : Store} (i : Nat) (name : String) (symbol : Symbol) : st.symbol? i name = none →
    Edit st { st.adjustScope i (·.setSymbol name symbol) with nextSymbolId := st.nextSymbolId + 1 }
  | adjust {st : Store} (i : Nat) (name : String) (f : Symbol → Symbol) : (∀ s : Symbol, s.Retains (f s)) →
    Edit st (st.adjustSymbol i name f)
  | redirect {st : Store} (i : Nat) (name : String) (r : Redirection) :
    Edit st (st.adjustScope i fun sc => (sc.redirect name r).2)

namespace Stage

variable (g : Stage)

/-- A store that gains scopes of other modules, which stand in each other or in the builtins. -/
structure Aside (builtins : Option Nat) (st st' : Store) : Prop extends st.Extends st' where
  parents : ∀ i p, st.scopes.size ≤ i → st'.parent? i = some p →
    st.scopes.size ≤ p ∧ p < st'.scopes.size ∨ builtins = some p
  symbols : st.nextSymbolId ≤ st'.nextSymbolId

/-- Why a name comes into a scope. -/
inductive Adds (st : Store) (i : Nat) (name : String) : Prop where
  | here : g.Below st i → g.Here i → st.redirection? i name = none → Adds st i name
  | walrus : g.Below st i → g.Here i → g.walruses name → Adds st i name
  | global : i = g.base → g.globals name → Adds st i name
  | member : g.Below st i → st.type? i = some .classBody → i < g.start → g.members name → Adds st i name

/-- Why a symbol may be changed in some way. -/
inductive Adjusts (st : Store) (i : Nat) (name : String) (f : Symbol → Symbol) : Prop where
  | inside : g.Below st i → Symbol.Mild f → Adjusts st i name f
  /-- The name is redirected out of the module. -/
  | outside : g.nonlocals name → Symbol.Mild f → (g.isStub = false → ∀ s, (f s).isHidden = s.isHidden) → Adjusts st i name f
  | member : g.Below st i → st.type? i = some .classBody → i < g.start → Symbol.Gains (g.receives i) f → Adjusts st i name f

/-- Why a name may be redirected. -/
structure Redirects (st : Store) (i : Nat) (name : String) (r : Redirection) : Prop where
  below : g.Below st i
  inner : i ≠ g.base
  plain : st.type? i ≠ some .comprehension
  global : r = .global → (st.symbol? g.base name).isSome
  outer : r = .nonlocal → g.nonlocals name ∧
    (g.isStub = false → (st.symbol? i name).isSome ∨ ∃ p, st.parent? i = some p ∧ g.Seen st p name)

/-- An edit with its reason. -/
inductive Step : Store → Store → Prop where
  | count {st : Store} (flow : Int) : Step st { st with nextFlowId := flow }
  | foreign {st st' : Store} : Aside g.builtins st st' → Step st st'
  | openScope {st : Store} (type : ScopeType) (parent : Nat) : type.isGlobal = false → g.Below st parent →
    (type = .comprehension → g.Here parent) → Step st (st.addScope { type := type, parent := some parent }).2
  | addName {st : Store} (i : Nat) (name : String) (symbol : Symbol) : st.symbol? i name = none → g.Adds st i name →
    symbol.declarations = [] → symbol.id = st.nextSymbolId →
    Step st { st.adjustScope i (·.setSymbol name symbol) with nextSymbolId := st.nextSymbolId + 1 }
  | adjust {st : Store} (i : Nat) (name : String) (f : Symbol → Symbol) : g.Adjusts st i name f →
    (∀ s : Symbol, s.Retains (f s)) → Step st (st.adjustSymbol i name f)
  | redirect {st : Store} (i : Nat) (name : String) (r : Redirection) : st.redirection? i name = none →
    g.Redirects st i name r → Step st (st.adjustScope i fun sc => (sc.redirect name r).2)

/-- Edits one after the other, each with its reason. -/
abbrev Steps : Store → Store → Prop := Relation.ReflTransGen g.Step

/-- What a list of stores, the latest first, becomes as each edit puts its store in front. -/
inductive Trail (before : List Store) : List Store → Prop where
  | refl : Trail before before
  | step {st st' : Store} {rest : List Store} : Trail before (st :: rest) → g.Step st st' → Trail before (st' :: st :: rest)

variable {g} {st st' st'' : Store} {i j b : Nat} {name : String}

theorem Step.edit (h : g.Step st st') : Store.Edit st st' := by
  cases h with
  | count flow => exact .count flow
  | foreign h => exact .foreign h.toExtends
  | openScope type parent => exact .openScope type (some parent)
  | addName i name symbol hnone => exact .addName i name symbol hnone
  | adjust i name f _ hf => exact .adjust i name f hf
  | redirect i name r => exact .redirect i name r

end Stage

/-- Whatever is edited, the store grows. -/
theorem Store.Edit.grows {st st' : Store} (h : Store.Edit st st') : st.Grows st' := by
  cases h with
  | count flow => exact fun i sc hsc => ⟨sc, hsc, .refl sc⟩
  | foreign h => exact h.grows
  | openScope type parent => exact .addScope _
  | addName i name symbol hnone => exact fun j sc hsc => Grows.setSymbol symbol hnone j sc hsc
  | adjust i name f hf => exact .adjustSymbol hf
  | redirect i name r => exact .redirect r

/-- Primitive changes one after the other. -/
abbrev Store.Edits : Store → Store → Prop := Relation.ReflTransGen Store.Edit

theorem Store.Edits.grows {st st' : Store} (h : st.Edits st') : st.Grows st' := by
  induction h with
  | refl => exact .refl _
  | tail _ hedit ih => exact ih.trans hedit.grows

namespace Stage

variable {g : Stage} {st st' st'' : Store} {i j b : Nat} {name : String}

namespace Trail

variable {before between after : List Store}

theorem trans (h : g.Trail before between) (h' : g.Trail between after) : g.Trail before after := by
  induction h' with
  | refl => exact h
  | step _ hstep ih => exact ih.step hstep

/-- A trail leads from the latest store before it to the latest one after it. -/
theorem steps {rest rest' : List Store} (h : g.Trail (st :: rest) (st' :: rest')) : g.Steps st st' := by
  generalize hafter : st' :: rest' = after at h
  induction h generalizing st' rest' with
  | refl =>
    cases hafter
    exact .refl
  | step _ hstep ih =>
    cases hafter
    exact (ih rfl).tail hstep

end Trail

theorem Steps.edits (h : g.Steps st st') : st.Edits st' := h.lift id fun _ _ hstep => Step.edit hstep

theorem Steps.grows (h : g.Steps st st') : st.Grows st' := Store.Edits.grows (Steps.edits h)

/-- A member is declared in a scope by a change that has a reason for it. -/
theorem Step.members {site : Site} (h : g.Step st st') (hi : i < st.scopes.size) (hm : st'.HasMember i site) :
    st.HasMember i site ∨ g.receives i site := by
  obtain ⟨name, symbol, hs, hmem⟩ := hm
  cases h with
  | count flow => exact .inl ⟨name, symbol, hs, hmem⟩
  | foreign h => exact .inl ⟨name, symbol, (h.toExtends.symbol? hi).symm.trans hs, hmem⟩
  | openScope type parent => exact .inl ⟨name, symbol, ((Extends.addScope _).symbol? hi).symm.trans hs, hmem⟩
  | addName j other new _ _ hempty =>
    change (st.adjustScope j (·.setSymbol other new)).symbol? i name = some symbol at hs
    rw [symbol?_setSymbol] at hs
    split at hs
    · obtain ⟨_, _, rfl⟩ := Option.map_eq_some_iff.1 hs
      simp [hempty] at hmem
    · exact .inl ⟨name, symbol, hs, hmem⟩
  | adjust j other f hadjusts =>
    rw [symbol?_adjustSymbol] at hs
    split at hs
    · rename_i heq
      obtain ⟨rfl, rfl⟩ := heq
      obtain ⟨old, hold, rfl⟩ := Option.map_eq_some_iff.1 hs
      obtain ⟨d, hd, htrait⟩ := List.mem_map.1 hmem
      obtain ⟨rfl, hmember⟩ := Prod.mk.inj htrait
      cases hadjusts with
      | inside _ hmild | outside _ hmild _ => exact .inl ⟨_, old, hold, (hmild.gains old d hd hmember).resolve_right not_false⟩
      | member _ _ _ hgains => exact (hgains old d hd hmember).imp_left fun hin => ⟨_, old, hold, hin⟩
    · exact .inl ⟨name, symbol, hs, hmem⟩
  | redirect j other r =>
    rw [symbol?_redirect] at hs
    exact .inl ⟨name, symbol, hs, hmem⟩

theorem Steps.members {site : Site} (h : g.Steps st st') (hi : i < st.scopes.size) (hm : st'.HasMember i site) :
    st.HasMember i site ∨ g.receives i site := by
  induction h with
  | refl => exact .inl hm
  | tail hsteps hstep ih => exact (hstep.members (hi.trans_le (Steps.grows hsteps).size_le) hm).elim ih .inr

end Stage

/-! ## Order is kept -/

/-- Stores whose scopes have the same kinds and parents. -/
structure Store.SameShape (st st' : Store) : Prop where
  size : st'.scopes.size = st.scopes.size
  type? : ∀ i, st'.type? i = st.type? i
  parent? : ∀ i, st'.parent? i = st.parent? i

namespace Store.SameShape

variable {st st' : Store} {g : Stage} {i j : Nat}

theorem climbs (h : st.SameShape st') : st'.Climbs i j ↔ st.Climbs i j := by
  have heq : (fun i p => st'.parent? i = some p) = fun i p => st.parent? i = some p := by
    funext i p
    rw [h.parent? i]
  unfold Climbs
  rw [heq]

theorem below (h : st.SameShape st') : g.Below st' i ↔ g.Below st i := h.climbs

theorem live (h : st.SameShape st') : g.Live st' i ↔ g.Live st i := by simp only [Stage.Live, h.type?]

theorem adjustScope {f : Scope → Scope} (htype : ∀ sc, (f sc).type = sc.type) (hparent : ∀ sc, (f sc).parent = sc.parent) :
    st.SameShape (st.adjustScope i f) :=
  ⟨size_adjustScope f, fun _ => type?_adjustScope htype, fun _ => parent?_adjustScope hparent⟩

end Store.SameShape

namespace Orderly

open Stage

variable {g : Stage} {st st' st'' : Store} {i j b : Nat} {name : String}

/-- What is shown in a scope is still shown after a change that keeps what the builtins show. -/
theorem seen_mono (hg : st.Grows st') (hout : ∀ b name s, g.builtins = some b → st.symbol? b name = some s →
    s.isBareName = true → s.isHidden = false → ∃ s', st'.symbol? b name = some s' ∧ s'.isBareName = true ∧ s'.isHidden = false)
    (htype : ∀ i, g.Below st i → st'.type? i = st.type? i) (h : g.Seen st i name) : g.Seen st' i name := by
  obtain ⟨j, hclimb, hshown⟩ := h
  refine ⟨j, hclimb.mono hg, ?_⟩
  rcases hshown with ⟨hb, hclass, hsome⟩ | ⟨hj, s, hs, hbare, hhidden⟩
  · exact .inl ⟨hb.mono hg, by rw [htype j hb]; exact hclass, hg.symbol? hsome⟩
  · exact .inr ⟨hj, hout j name s hj hs hbare hhidden⟩

section

variable (h : Orderly g st)
include h

/-- A change of symbols and redirections keeps order if no member access comes into view, if new redirections have a reason and
if what the builtins show stays. -/
theorem change (hshape : st.SameShape st') (hg : st.Grows st')
    (hout : g.isStub = false → ∀ b name s, g.builtins = some b → st.symbol? b name = some s → s.isBareName = true →
      s.isHidden = false → ∃ s', st'.symbol? b name = some s' ∧ s'.isBareName = true ∧ s'.isHidden = false)
    (hbare : ∀ i name s, g.Below st i → g.Live st i → st'.symbol? i name = some s → s.NoMember)
    (hredirect : ∀ i name r, st'.redirection? i name = some r →
      st.redirection? i name = some r ∨ g.Redirects st i name r) : Orderly g st' := by
  have hseen : ∀ {i name}, g.isStub = false → g.Seen st i name → g.Seen st' i name := fun hstub hseen =>
    seen_mono hg (hout hstub) (fun i _ => hshape.type? i) hseen
  refine
    { closed := fun i p hp => ?_
      root := ⟨(hshape.type? _).trans h.root.1, (hshape.parent? _).trans h.root.2.1, fun name => ?_⟩
      outermost := fun b hb => ?_
      inner := fun i p hb hne hp => ?_
      nested := fun i p hb hstart ht hp => ?_
      plain := fun i name hb ht => ?_
      bare := fun i name s hb hl hs => hbare i name s (hshape.below.1 hb) (hshape.live.1 hl) hs
      toGlobal := fun i name hb hr => ?_
      toOuter := fun i name hb hr => ?_
      home := ⟨hshape.below.2 h.home.1, by simpa only [hshape.type?] using h.home.2⟩
      started := hshape.size ▸ h.started }
  · rw [hshape.parent?] at hp
    exact hshape.size ▸ h.closed i p hp
  · cases hr : st'.redirection? g.base name with
    | none => rfl
    | some r =>
      rcases hredirect _ _ _ hr with hold | hnew
      · rw [h.root.2.2] at hold
        cases hold
      · exact absurd rfl hnew.inner
  · obtain ⟨hlt, hparent, hr⟩ := h.outermost b hb
    refine ⟨hlt, (hshape.parent? b).trans hparent, fun name hnew => ?_⟩
    rcases hredirect _ _ _ hnew with hold | hnew
    · exact hr name hold
    · exact h.not_below_builtins hb hnew.below
  · simp only [hshape.type?, hshape.parent?] at hp ⊢
    exact h.inner i p (hshape.below.1 hb) hne hp
  · simp only [hshape.type?, hshape.parent?] at hp ht
    exact h.nested i p (hshape.below.1 hb) hstart ht hp
  · rw [hshape.type?] at ht
    cases hr : st'.redirection? i name with
    | none => rfl
    | some r =>
      rcases hredirect _ _ _ hr with hold | hnew
      · rw [h.plain i name (hshape.below.1 hb) ht] at hold
        cases hold
      · exact absurd ht hnew.plain
  · rcases hredirect _ _ _ hr with hold | hnew
    · exact hg.symbol? (h.toGlobal i name (hshape.below.1 hb) hold)
    · exact hg.symbol? (hnew.global rfl)
  · have hmono : ((st.symbol? i name).isSome ∨ ∃ p, st.parent? i = some p ∧ g.Seen st p name) → g.isStub = false →
        (st'.symbol? i name).isSome ∨ ∃ p, st'.parent? i = some p ∧ g.Seen st' p name := by
      rintro (hsome | ⟨p, hp, hs⟩) hstub
      · exact .inl (hg.symbol? hsome)
      · exact .inr ⟨p, (hshape.parent? i).trans hp, hseen hstub hs⟩
    rcases hredirect _ _ _ hr with hold | hnew
    · obtain ⟨hn, hres⟩ := h.toOuter i name (hshape.below.1 hb) hold
      exact ⟨hn, fun hstub hl => hmono (hres hstub (hshape.live.1 hl)) hstub⟩
    · obtain ⟨hn, hres⟩ := hnew.outer rfl
      exact ⟨hn, fun hstub _ => hmono (hres hstub) hstub⟩

/-- New scopes keep order if those of them that stand in the module are empty and stand where they may. -/
theorem extend (he : st.Extends st') (hclosed : st'.Closed)
    (hnew : ∀ i, st.scopes.size ≤ i → g.Below st' i → (∀ name, st'.symbol? i name = none) ∧
      (∀ name, st'.redirection? i name = none) ∧ ∀ p, st'.parent? i = some p →
        p < i ∧ (∃ t, st'.type? i = some t ∧ t.isGlobal = false) ∧ (st'.type? i = some .comprehension → g.Here p)) :
    Orderly g st' := by
  have hg := he.grows
  have hbelow : ∀ {i}, i < st.scopes.size → g.Below st' i → g.Below st i := fun hi hb =>
    Climbs.back hb he h.closed hi
  have hlive : ∀ {i}, i < st.scopes.size → g.Live st' i → g.Live st i := fun hi hl => by
    simpa only [Live, he.type? hi] using hl
  have hbase := h.base_lt
  have hbuiltins : ∀ {b}, g.builtins = some b → b < st.scopes.size := fun hb => (h.outermost _ hb).1.trans hbase
  have hseen : ∀ {i name}, g.Seen st i name → g.Seen st' i name := fun hseen => by
    refine seen_mono hg (fun b name s hb hs hbare hhidden => ?_) (fun i hb => he.type? (h.lt_of_below hb)) hseen
    exact ⟨s, (he.symbol? (hbuiltins hb)).trans hs, hbare, hhidden⟩
  refine
    { closed := hclosed
      root := ⟨(he.type? hbase).trans h.root.1, (he.parent? hbase).trans h.root.2.1,
        fun name => (he.redirection? hbase).trans (h.root.2.2 name)⟩
      outermost := fun b hb => ?_
      inner := fun i p hb hne hp => ?_
      nested := fun i p hb hstart ht hp => ?_
      plain := fun i name hb ht => ?_
      bare := fun i name s hb hl hs => ?_
      toGlobal := fun i name hb hr => ?_
      toOuter := fun i name hb hr => ?_
      home := ⟨h.home.1.mono hg, by simpa only [he.type? (h.lt_of_below h.home.1)] using h.home.2⟩
      started := h.started.trans he.size_le }
  · obtain ⟨hlt, hparent, hr⟩ := h.outermost b hb
    exact ⟨hlt, (he.parent? (hbuiltins hb)).trans hparent, fun name => by rw [he.redirection? (hbuiltins hb)]; exact hr name⟩
  · rcases lt_or_ge i st.scopes.size with hi | hi
    · rw [he.type? hi]
      rw [he.parent? hi] at hp
      exact h.inner i p (hbelow hi hb) hne hp
    · obtain ⟨hlt, ht, _⟩ := (hnew i hi hb).2.2 p hp
      exact ⟨hlt, ht⟩
  · rcases lt_or_ge i st.scopes.size with hi | hi
    · rw [he.type? hi] at ht
      rw [he.parent? hi] at hp
      exact h.nested i p (hbelow hi hb) hstart ht hp
    · exact ((hnew i hi hb).2.2 p hp).2.2 ht
  · rcases lt_or_ge i st.scopes.size with hi | hi
    · rw [he.type? hi] at ht
      exact (he.redirection? hi).trans (h.plain i name (hbelow hi hb) ht)
    · exact (hnew i hi hb).2.1 name
  · rcases lt_or_ge i st.scopes.size with hi | hi
    · rw [he.symbol? hi] at hs
      exact h.bare i name s (hbelow hi hb) (hlive hi hl) hs
    · rw [(hnew i hi hb).1 name] at hs
      cases hs
  · rcases lt_or_ge i st.scopes.size with hi | hi
    · rw [he.redirection? hi] at hr
      exact hg.symbol? (h.toGlobal i name (hbelow hi hb) hr)
    · rw [(hnew i hi hb).2.1 name] at hr
      cases hr
  · rcases lt_or_ge i st.scopes.size with hi | hi
    · rw [he.redirection? hi] at hr
      obtain ⟨hn, hres⟩ := h.toOuter i name (hbelow hi hb) hr
      refine ⟨hn, fun hstub hl => (hres hstub (hlive hi hl)).imp (fun hsome => hg.symbol? hsome) ?_⟩
      rintro ⟨p, hp, hs⟩
      exact ⟨p, (he.parent? hi).trans hp, hseen hs⟩
    · rw [(hnew i hi hb).2.1 name] at hr
      cases hr

/-- Scopes of other modules do not come to stand in this one. -/
theorem lt_of_below_aside (ha : Aside g.builtins st st') (hb : g.Below st' i) : i < st.scopes.size := by
  by_contra hi
  have hclimb : ∀ {i j}, st'.Climbs i j → st.scopes.size ≤ i ∨ g.builtins = some i →
      st.scopes.size ≤ j ∨ g.builtins = some j := by
    intro i j hc
    induction hc with
    | refl => exact id
    | tail _ hp ih =>
      intro hi
      rcases ih hi with hk | hk
      · exact (ha.parents _ _ hk hp).imp And.left id
      · obtain ⟨hlt, hparent, _⟩ := h.outermost _ hk
        rw [ha.parent? (hlt.trans h.base_lt), hparent] at hp
        cases hp
  rcases hclimb hb (.inl (not_lt.1 hi)) with hbase | hbase
  · exact absurd h.base_lt (not_lt.2 hbase)
  · exact h.not_below_builtins hbase h.below_base

/-- A step keeps order. -/
theorem step (hs : g.Step st st') : Orderly g st' := by
  have hgrows := hs.edit.grows
  cases hs with
  | count flow => exact { h with }
  | foreign ha =>
    refine h.extend ha.toExtends (fun i p hp => ?_) fun i hi hb => absurd (h.lt_of_below_aside ha hb) (not_lt.2 hi)
    rcases lt_or_ge i st.scopes.size with hi | hi
    · rw [ha.parent? hi] at hp
      exact (h.closed i p hp).trans_le ha.size_le
    · rcases ha.parents i p hi hp with hp | hp
      · exact hp.2
      · exact ((h.outermost p hp).1.trans h.base_lt).trans_le ha.size_le
  | openScope type parent hglobal hparent hcomp =>
    have hlt := h.lt_of_below hparent
    have hscope : ∀ {i sc}, st.scopes.size ≤ i →
        (st.addScope { type := type, parent := some parent }).2.scope? i = some sc →
        i = st.scopes.size ∧ sc = { type := type, parent := some parent } := by
      intro i sc hi hsc
      have hi' := lt_size hsc
      rw [size_addScope] at hi'
      have heq : i = st.scopes.size := by omega
      rw [scope?_addScope, if_pos heq] at hsc
      exact ⟨heq, (Option.some.inj hsc).symm⟩
    refine h.extend (.addScope _) (fun i p hp => ?_) fun i hi hb => ⟨fun name => ?_, fun name => ?_, fun p hp => ?_⟩
    · rw [size_addScope]
      rcases lt_or_ge i st.scopes.size with hi | hi
      · rw [(Extends.addScope _).parent? hi] at hp
        exact (h.closed i p hp).trans (Nat.lt_succ_self _)
      · obtain ⟨sc, hsc, hp⟩ := Option.bind_eq_some_iff.1 hp
        obtain ⟨_, rfl⟩ := hscope hi hsc
        cases hp
        omega
    · cases hsc : (st.addScope { type := type, parent := some parent }).2.scope? i with
      | none => simp [Store.symbol?, hsc]
      | some sc =>
        obtain ⟨_, rfl⟩ := hscope hi hsc
        simp [Store.symbol?, hsc, Scope.symbol?]
    · cases hsc : (st.addScope { type := type, parent := some parent }).2.scope? i with
      | none => simp [Store.redirection?, hsc]
      | some sc =>
        obtain ⟨_, rfl⟩ := hscope hi hsc
        simp [Store.redirection?, hsc, Scope.redirection?]
    · obtain ⟨sc, hsc, hp⟩ := Option.bind_eq_some_iff.1 hp
      obtain ⟨rfl, rfl⟩ := hscope hi hsc
      cases hp
      refine ⟨hlt, ⟨type, by simp [Store.type?, hsc], hglobal⟩, fun ht => hcomp ?_⟩
      simpa [Store.type?, hsc] using ht
  | addName i name symbol hnone hadds hempty =>
    suffices hnamed : Orderly g (st.adjustScope i (·.setSymbol name symbol)) from { hnamed with }
    refine h.change (.adjustScope (fun _ => rfl) fun _ => rfl) (.setSymbol symbol hnone) (fun _ b n s _ hs hbare hhidden => ?_)
      (fun j n s hb hl hs => ?_) fun j n r hr => .inl ?_
    · rw [symbol?_setSymbol, if_neg]
      · exact ⟨s, hs, hbare, hhidden⟩
      · rintro ⟨rfl, rfl⟩
        rw [hnone] at hs
        cases hs
    · rw [symbol?_setSymbol] at hs
      split at hs
      · obtain ⟨_, _, rfl⟩ := Option.map_eq_some_iff.1 hs
        intro d hd
        rw [hempty] at hd
        cases hd
      · exact h.bare j n s hb hl hs
    · exact (redirection?_setSymbol symbol).symm.trans hr
  | adjust i name f hadjusts =>
    refine h.change (.adjustScope (fun _ => rfl) fun _ => rfl) hgrows (fun hstub b n s hb hs hbare hhidden => ?_)
      (fun j n s hb hl hs => ?_) fun j n r hr => .inl ?_
    · rw [symbol?_adjustSymbol]
      split
      · rename_i heq
        obtain ⟨rfl, rfl⟩ := heq
        cases hadjusts with
        | inside hi hmild => exact absurd hi (h.not_below_builtins hb)
        | outside hn hmild hkeeps =>
          exact ⟨f s, by rw [hs, Option.map_some], hmild.bare s hbare, (hkeeps hstub s).trans hhidden⟩
        | member hi => exact absurd hi (h.not_below_builtins hb)
      · exact ⟨s, hs, hbare, hhidden⟩
    · rw [symbol?_adjustSymbol] at hs
      split at hs
      · rename_i heq
        obtain ⟨rfl, rfl⟩ := heq
        obtain ⟨s', hs', rfl⟩ := Option.map_eq_some_iff.1 hs
        cases hadjusts with
        | inside _ hmild | outside _ hmild _ => exact hmild.noMember (h.bare i name s' hb hl hs')
        | member _ hclass hlt => exact absurd hl (by simp [Live, hclass]; omega)
      · exact h.bare j n s hb hl hs
    · exact (redirection?_adjustSymbol f).symm.trans hr
  | redirect i name r hnone hredirects =>
    refine h.change (.adjustScope (fun sc => redirect_type sc r) fun sc => redirect_parent sc r) hgrows
      (fun _ b n s _ hs hbare hhidden => ⟨s, (symbol?_redirect r).trans hs, hbare, hhidden⟩)
      (fun j n s hb hl hs => h.bare j n s hb hl ((symbol?_redirect r).symm.trans hs)) fun j n r' hr => ?_
    rw [redirection?_redirect] at hr
    split at hr
    · rename_i heq
      obtain ⟨rfl, rfl⟩ := heq
      obtain ⟨_, _, hr'⟩ := Option.map_eq_some_iff.1 hr
      rw [hnone] at hr'
      exact .inr (hr' ▸ hredirects)
    · exact .inl hr

theorem steps (hs : g.Steps st st') : Orderly g st' := by
  induction hs with
  | refl => exact h
  | tail _ hstep ih => exact ih.step hstep

/-- From one body to the next: all scopes there are now are those of earlier bodies. -/
theorem turn {g' : Stage} (hbase : g'.base = g.base) (hbuiltins : g'.builtins = g.builtins)
    (hstub : g'.isStub = g.isStub) (hnonlocals : g'.nonlocals = g.nonlocals) (hstart : g'.start = st.scopes.size)
    (hhome : g.Below st g'.home ∧ st.type? g'.home ≠ some .classBody ∧ st.type? g'.home ≠ some .comprehension) :
    Orderly g' st := by
  have hlive : ∀ {i}, i < st.scopes.size → g'.Live st i → g.Live st i := fun hi hl => by
    rcases hl with hl | hl
    · exact .inl hl
    · omega
  have hseen : ∀ {i name}, g.Seen st i name → g'.Seen st i name := by
    intro i name hs
    simpa only [Seen, Shown, Below, hbase, hbuiltins] using hs
  have hbelow : ∀ {i}, g'.Below st i ↔ g.Below st i := by simp [Below, hbase]
  refine
    { closed := h.closed
      root := by simpa only [hbase, hbuiltins, baseType] using h.root
      outermost := by simpa only [hbase, hbuiltins] using h.outermost
      inner := by simpa only [Below, hbase] using h.inner
      nested := fun i p hb hi => absurd (h.lt_of_below (hbelow.1 hb)) (by omega)
      plain := by simpa only [Below, hbase] using h.plain
      bare := fun i name s hb hl hs =>
        h.bare i name s (hbelow.1 hb) (hlive (h.lt_of_below (hbelow.1 hb)) hl) hs
      toGlobal := by simpa only [Below, hbase] using h.toGlobal
      toOuter := fun i name hb hr => ?_
      home := by simpa only [Below, hbase] using hhome
      started := hstart.le }
  obtain ⟨hn, hres⟩ := h.toOuter i name (hbelow.1 hb) hr
  refine ⟨by rw [hnonlocals]; exact hn, fun hs hl => ?_⟩
  refine (hres (hstub ▸ hs) (hlive (h.lt_of_below (hbelow.1 hb)) hl)).imp id ?_
  rintro ⟨p, hp, hs⟩
  exact ⟨p, hp, hseen hs⟩

end

end Orderly

/-! ## What steps leave alone -/

namespace Stage

variable {g : Stage} {st st' : Store} {i b : Nat} {name : String}

/-- A name that a step brings into a scope comes into it for a reason. -/
theorem Step.adds (h : g.Step st st') (hi : i < st.scopes.size) (hs : (st'.symbol? i name).isSome) :
    (st.symbol? i name).isSome ∨ g.Adds st i name := by
  cases h with
  | count flow => exact .inl hs
  | foreign ha => exact .inl (by rwa [ha.symbol? hi] at hs)
  | openScope type parent => exact .inl (by rwa [(Extends.addScope _).symbol? hi] at hs)
  | addName j other symbol hnone hadds =>
    have hs : ((st.adjustScope j (·.setSymbol other symbol)).symbol? i name).isSome := hs
    rw [symbol?_setSymbol] at hs
    split at hs
    · rename_i heq
      obtain ⟨rfl, rfl⟩ := heq
      exact .inr hadds
    · exact .inl hs
  | adjust j other f =>
    rw [symbol?_adjustSymbol] at hs
    split at hs
    · exact .inl (by simpa using hs)
    · exact .inl hs
  | redirect j other r =>
    rw [symbol?_redirect] at hs
    exact .inl hs

/-- A redirected name does not come into a function or class, unless an assignment expression inside a comprehension assigns it
or it becomes a member of the class. -/
theorem Step.honours (h : g.Step st st') (ho : Orderly g st)
    (ht : st.type? i = some .function ∨ st.type? i = some .classBody) (hr : (st.redirection? i name).isSome)
    (hnone : st.symbol? i name = none) (hw : ¬ g.walruses name) (hm : st.type? i = some .classBody → ¬ g.members name) :
    st'.symbol? i name = none := by
  have hi : i < st.scopes.size := ht.elim lt_size_of_type? lt_size_of_type?
  by_contra hsome
  rcases h.adds hi (Option.isSome_iff_ne_none.2 hsome) with hold | hadds
  · simp [hnone] at hold
  · cases hadds with
    | here _ _ hred => simp [hred] at hr
    | walrus _ _ hname => exact hw hname
    | global hbase _ =>
      subst hbase
      have hglobal := baseType_isGlobal g
      rw [ho.root.1] at ht
      rcases ht with ht | ht <;> simp [Option.some.inj ht, ScopeType.isGlobal] at hglobal
    | member _ hclass _ hname => exact hm hclass hname

/-- Names come into scopes of earlier bodies as members of a class, or by a `global` statement into the module. -/
theorem Step.adds_early (h : g.Step st st') (hi : i < g.start) (hlt : i < st.scopes.size) (hhome : i ≠ g.home)
    (hclass : st.type? i ≠ some .classBody) (hs : (st'.symbol? i name).isSome) :
    (st.symbol? i name).isSome ∨ i = g.base ∧ g.globals name := by
  have hhere : ¬ g.Here i := by
    rintro (heq | hle)
    · exact hhome heq
    · omega
  rcases h.adds hlt hs with hold | hadds
  · exact .inl hold
  · cases hadds with
    | here _ hh => exact absurd hh hhere
    | walrus _ hh => exact absurd hh hhere
    | global hbase hname => exact .inr ⟨hbase, hname⟩
    | member _ ht => exact absurd ht hclass

theorem Steps.adds_early (h : g.Steps st st') (hi : i < g.start) (hlt : i < st.scopes.size) (hhome : i ≠ g.home)
    (hclass : st.type? i ≠ some .classBody) (hs : (st'.symbol? i name).isSome) :
    (st.symbol? i name).isSome ∨ i = g.base ∧ g.globals name := by
  induction h with
  | refl => exact .inl hs
  | @tail st₁ st₂ hsteps hstep ih =>
    have hgrows := Steps.grows hsteps
    rcases hstep.adds_early hi (hlt.trans_le hgrows.size_le) hhome (by rwa [hgrows.type?_eq hlt]) hs with hsome | hglobal
    · exact ih hsome
    · exact .inr hglobal

/-- Of the builtins a step changes at most a symbol that a `nonlocal` statement names. -/
theorem Step.builtins (h : g.Step st st') (ho : Orderly g st) (hb : g.builtins = some b) {sc : Scope}
    (hsc : st.scope? b = some sc) :
    ∃ sc', st'.scope? b = some sc' ∧
      (sc' = sc ∨ ∃ name f, g.nonlocals name ∧ sc' = { sc with symbols := sc.symbols.adjust name f }) := by
  have hlt := lt_size hsc
  have hnot := ho.not_below_builtins hb
  cases h with
  | count flow => exact ⟨sc, hsc, .inl rfl⟩
  | foreign ha => exact ⟨sc, (ha.scope? b hlt).trans hsc, .inl rfl⟩
  | openScope type parent => exact ⟨sc, ((Extends.addScope _).scope? b hlt).trans hsc, .inl rfl⟩
  | addName j other symbol hnone hadds =>
    have hne : j ≠ b := by
      rintro rfl
      cases hadds with
      | here hbelow => exact hnot hbelow
      | walrus hbelow => exact hnot hbelow
      | global hbase _ => exact hnot (hbase ▸ ho.below_base)
      | member hbelow => exact hnot hbelow
    refine ⟨sc, ?_, .inl rfl⟩
    show (st.adjustScope j (·.setSymbol other symbol)).scope? b = some sc
    rw [scope?_adjustScope, if_neg hne, hsc]
  | adjust j other f hadjusts =>
    by_cases hj : j = b
    · subst hj
      refine ⟨_, by rw [adjustSymbol, scope?_adjustScope, if_pos rfl, hsc, Option.map_some], .inr ⟨other, f, ?_, rfl⟩⟩
      cases hadjusts with
      | inside hbelow => exact absurd hbelow hnot
      | outside hname => exact hname
      | member hbelow => exact absurd hbelow hnot
    · exact ⟨sc, by rw [adjustSymbol, scope?_adjustScope, if_neg hj, hsc], .inl rfl⟩
  | redirect j other r hnone hredirects =>
    have hne : j ≠ b := fun heq => hnot (heq ▸ hredirects.below)
    exact ⟨sc, by rw [scope?_adjustScope, if_neg hne, hsc], .inl rfl⟩

end Stage

/-! ## Symbols keep apart -/

namespace Stage

variable {g : Stage} {st st' : Store} {i b : Nat} {name : String} {id : Int}

/-- Whether a number is that of a symbol of the module or of the builtins. -/
def Names (g : Stage) (st : Store) (id : Int) : Prop :=
  ∃ i name s, (g.Below st i ∨ g.builtins = some i) ∧ st.symbol? i name = some s ∧ s.id = id

theorem Names.mono (h : g.Names st id) (hg : st.Grows st') : g.Names st' id := by
  obtain ⟨i, name, s, hi, hs, rfl⟩ := h
  obtain ⟨s', hs', hr⟩ := hg.retains hs
  exact ⟨i, name, s', hi.imp_left fun hb => hb.mono hg, hs', hr.id⟩

/-- The symbols of a module have numbers that were handed out, each its own. -/
structure Numbers (g : Stage) (st : Store) : Prop where
  fresh : ∀ i name s, g.Below st i → st.symbol? i name = some s → s.id < st.nextSymbolId
  distinct : ∀ i j name other s s', g.Below st i → g.Below st j → st.symbol? i name = some s → st.symbol? j other = some s' →
    s.id = s'.id → i = j ∧ name = other

/-- Symbols that were there before with their numbers keep apart. -/
theorem Numbers.keep (h : g.Numbers st) (hle : st.nextSymbolId ≤ st'.nextSymbolId)
    (hold : ∀ i name s', g.Below st' i → st'.symbol? i name = some s' →
      ∃ s, g.Below st i ∧ st.symbol? i name = some s ∧ s.id = s'.id) : g.Numbers st' := by
  refine ⟨fun i name s' hb hs' => ?_, fun i j name other s' t' hbi hbj hs' ht' he => ?_⟩
  · obtain ⟨s, hb, hs, hid⟩ := hold i name s' hb hs'
    exact hid ▸ (h.fresh i name s hb hs).trans_le hle
  · obtain ⟨s, hbi, hs, hid⟩ := hold i name s' hbi hs'
    obtain ⟨t, hbj, ht, hid'⟩ := hold j other t' hbj ht'
    exact h.distinct i j name other s t hbi hbj hs ht (hid.trans (he.trans hid'.symm))

/-- A new symbol takes a number that no other one has. -/
theorem Numbers.step (h : g.Numbers st) (ho : Orderly g st) (hs : g.Step st st') : g.Numbers st' := by
  cases hs with
  | count flow => exact ⟨h.fresh, h.distinct⟩
  | foreign ha =>
    refine h.keep ha.symbols fun i name s' hb hs' => ?_
    have hlt := ho.lt_of_below_aside ha hb
    exact ⟨s', hb.back ha.toExtends ho.closed hlt, (ha.symbol? hlt).symm.trans hs', rfl⟩
  | openScope type parent =>
    refine h.keep (le_refl _) fun i name s' hb hs' => ?_
    rcases lt_or_ge i st.scopes.size with hlt | hge
    · exact ⟨s', hb.back (.addScope _) ho.closed hlt, ((Extends.addScope _).symbol? hlt).symm.trans hs', rfl⟩
    · obtain ⟨sc, hsc, hn⟩ := Option.bind_eq_some_iff.1 hs'
      have hlt := lt_size hsc
      rw [size_addScope] at hlt
      rw [scope?_addScope, if_pos (by omega)] at hsc
      cases hsc
      cases hn
  | addName i name symbol hnone hadds _ hid =>
    have hshape : st.SameShape (st.adjustScope i (·.setSymbol name symbol)) := .adjustScope (fun _ => rfl) fun _ => rfl
    -- What the store knows now is what it knew before, or the new symbol.
    have hcases : ∀ j other s', g.Below (st.adjustScope i (·.setSymbol name symbol)) j →
        (st.adjustScope i (·.setSymbol name symbol)).symbol? j other = some s' →
        g.Below st j ∧ (st.symbol? j other = some s' ∨ (i = j ∧ name = other) ∧ s' = symbol) := by
      intro j other s' hb hs'
      refine ⟨hshape.below.1 hb, ?_⟩
      rw [symbol?_setSymbol] at hs'
      split at hs'
      · obtain ⟨_, _, rfl⟩ := Option.map_eq_some_iff.1 hs'
        exact .inr ⟨by assumption, rfl⟩
      · exact .inl hs'
    refine ⟨fun j other s' hb hs' => ?_, fun j k other name' s' t' hbj hbk hs' ht' he => ?_⟩
    · obtain ⟨hb, hold | ⟨_, hnew⟩⟩ := hcases j other s' hb hs'
      · exact (h.fresh j other s' hb hold).trans (lt_add_one _)
      · rw [hnew, hid]
        exact lt_add_one _
    · obtain ⟨hbj, hj⟩ := hcases j other s' hbj hs'
      obtain ⟨hbk, hk⟩ := hcases k name' t' hbk ht'
      rcases hj with hj | ⟨hj, hnew⟩ <;> rcases hk with hk | ⟨hk, hnew'⟩
      · exact h.distinct j k other name' s' t' hbj hbk hj hk he
      · exact absurd (h.fresh j other s' hbj hj) (by rw [he, hnew', hid]; exact lt_irrefl _)
      · exact absurd (h.fresh k name' t' hbk hk) (by rw [← he, hnew, hid]; exact lt_irrefl _)
      · exact ⟨hj.1.symm.trans hk.1, hj.2.symm.trans hk.2⟩
  | adjust i name f _ hf =>
    have hshape : st.SameShape (st.adjustSymbol i name f) := .adjustScope (fun _ => rfl) fun _ => rfl
    refine h.keep (le_refl _) fun j other s' hb hs' => ?_
    rw [symbol?_adjustSymbol] at hs'
    split at hs'
    · obtain ⟨s, hs, rfl⟩ := Option.map_eq_some_iff.1 hs'
      exact ⟨s, hshape.below.1 hb, hs, (hf s).id.symm⟩
    · exact ⟨s', hshape.below.1 hb, hs', rfl⟩
  | redirect i name r =>
    have hshape : st.SameShape (st.adjustScope i fun sc => (sc.redirect name r).2) :=
      .adjustScope (fun sc => redirect_type sc r) fun sc => redirect_parent sc r
    refine h.keep (le_refl _) fun j other s' hb hs' => ?_
    rw [symbol?_redirect] at hs'
    exact ⟨s', hshape.below.1 hb, hs', rfl⟩

theorem Numbers.steps (h : g.Numbers st) (ho : Orderly g st) (hs : g.Steps st st') : g.Numbers st' := by
  induction hs with
  | refl => exact h
  | tail hsteps hstep ih => exact ih.step (ho.steps hsteps) hstep

end Stage

end ScopeFlow
