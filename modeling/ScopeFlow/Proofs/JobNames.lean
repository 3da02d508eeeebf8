import ScopeFlow.Proofs.JobFlow

/-!
# Jobs and names

A name that is bound in a scope of the body is known there from then on, and what is declared of it goes to a symbol of the module
or to one that a `nonlocal` statement names. A known name can be assigned. Members are added to classes of earlier bodies only.
-/

namespace ScopeFlow

mutual

/-- The names that a target binds. -/
def Expr.targetNames (e : Expr) : List String :=
  match e with
  | .name _ id => [id]
  | .tuple _ elements => Expr.namesTargeted elements
  | .list _ elements => Expr.namesTargeted elements
  | .starred _ value => value.targetNames
  | _ => []

/-- The names that several targets bind. -/
def Expr.namesTargeted (es : List Expr) : List String :=
  match es with
  | [] => []
  | e :: es => e.targetNames ++ Expr.namesTargeted es

end

theorem Table.mem_put {α : Type} {t : Table α} {name : String} {value : α} {p : String × α} (h : p ∈ t.put name value) :
    p ∈ t ∨ p.2 = value := by
  induction t with
  | nil => exact .inr (by simpa [Table.put] using congrArg Prod.snd (List.mem_singleton.1 h))
  | cons q rest ih =>
    obtain ⟨n, v⟩ := q
    unfold Table.put at h
    split at h
    · rcases List.mem_cons.1 h with rfl | h
      · exact .inr rfl
      · exact .inl (by simp [h])
    · rcases List.mem_cons.1 h with rfl | h
      · exact .inl (by simp)
      · exact (ih h).imp (fun h => by simp [h]) id

namespace Bind

open Store NodeTree

variable {ω : Type} {u : Setup ω} {w : Job} {low : Nat} {s s' s₀ s₁ : State ω} {ctx : Context} {name : String} {i : Nat}
  {ref : SymbolRef} {scope : Nat}

/-- Whether a scope is one of the body. -/
structure Stands (w : Job) (i : Nat) (st : Store) : Prop where
  below : w.Below st i
  here : w.Here i

theorem Stands.mono {st st' : Store} (h : Stands w i st) (hg : st.Grows st') : Stands w i st' := ⟨h.below.mono hg, h.here⟩

/-! ## Reading and changing symbols -/

/-- Whether a scope is one of the module or the builtins. -/
def Inside (w : Job) (st : Store) (i : Nat) : Prop := w.Below st i ∨ w.builtins = some i

theorem Inside.mono {st st' : Store} (h : Inside w st i) (hg : st.Grows st') : Inside w st' i :=
  h.imp_left fun hb => hb.mono hg

theorem Inside.names {st : Store} {sym : Symbol} (h : Inside w st i) (hs : st.symbol? i name = some sym) :
    w.Names st sym.id := ⟨i, name, sym, h, hs, rfl⟩

theorem symbolIn_upholds (scope : Nat) (name : String) : Upholds u w low s₀ (symbolIn scope name : BindM ω (Option Symbol)) :=
  Walks.get.seq fun _ => .pure _

theorem symbolIn_walks (scope : Nat) (name : String) :
    Walks u w low s₀ (symbolIn scope name : BindM ω (Option Symbol)) fun r s => r = s.store.symbol? scope name := by
  intro s _ hs
  refine (Runs.get hs).bind fun a t _ ht hq => ?_
  obtain ⟨rfl, rfl⟩ := hq
  exact .pure ht rfl

theorem scopeType_upholds (ctx : Context) : Upholds u w low s₀ (scopeType ctx : BindM ω ScopeType) :=
  Walks.get.seq fun _ => .pure _

theorem factsOf_upholds (node : Nat) : Upholds u w low s₀ (factsOf node : BindM ω NodeFacts) := Walks.get.seq fun _ => .pure _

theorem typingNames_upholds : Upholds u w low s₀ (typingNames : BindM ω TypingNames) := Walks.get.seq fun _ => .pure _

theorem takeOver_upholds {target source : Int} (ht : w.Names s₀.store target) (hs : w.Names s₀.store source) :
    Upholds u w low s₀ (takeOver target source : BindM ω Unit) :=
  advance_upholds _ fun _ => by simpa [FlowStep.symbols] using ⟨ht, hs⟩

/-- A change of a symbol that has a reason. -/
theorem adjustSymbol_upholds {f : Symbol → Symbol}
    (h : ∀ s, Goes u w low s₀ s → Holds u w s → w.Adjusts s.store ref.scope ref.name f) (hf : ∀ s : Symbol, s.Retains (f s)) :
    Upholds u w low s₀ (adjustSymbol ref f : BindM ω Unit) :=
  fun s hgo hs => .ofModify hs (.ofStore (.adjust _ _ _ (h s hgo hs) hf)) trivial

/-- A mild change of a symbol of the module, or of one that a `nonlocal` statement names. -/
theorem adjustSymbol_fair {f : Symbol → Symbol} (hr : Fair w s₀.store ref) (hf : Symbol.Mild f)
    (hh : ∀ s, (f s).isHidden = s.isHidden) (hretains : ∀ s : Symbol, s.Retains (f s)) :
    Upholds u w low s₀ (adjustSymbol ref f : BindM ω Unit) := by
  refine adjustSymbol_upholds (fun s hgo _ => ?_) hretains
  rcases hr.mono hgo.grows with hb | hn
  · exact .inside hb hf
  · exact .outside hn hf fun _ => hh

theorem isHidden_declare (s : Symbol) (d : Declaration) : (s.declare d).isHidden = s.isHidden := by
  unfold Symbol.declare
  split
  · rfl
  · split <;> rfl

theorem declare_upholds {d : Declaration} (hr : Fair w s₀.store ref) (hd : d.isMemberOnly = false) :
    Upholds u w low s₀ (declare ref d : BindM ω Unit) :=
  adjustSymbol_fair hr (.declare hd) (fun s => isHidden_declare s d) (.declare d)

/-- Where a declaration is kept is a symbol as fair as the one that is declared. -/
theorem declareAt_walks {ref : Option SymbolRef} {d : Declaration} (hr : ∀ r, ref = some r → Fair w s₀.store r)
    (hd : d.isMemberOnly = false) : Walks u w low s₀ (declareAt ref d : BindM ω DeclarationPlace) fun place s =>
      ∀ r slot, place = .listed r slot → Fair w s.store r := by
  cases ref with
  | none => exact .ret fun _ _ _ _ h => by cases h
  | some ref =>
    refine (symbolIn_upholds _ _).seq fun known => (declare_upholds (hr ref rfl) hd).seq fun _ => ?_
    refine .ite (.ret fun _ _ _ _ h => by cases h) (.ret fun s hgo r slot h => ?_)
    cases h
    exact (hr ref rfl).mono hgo.grows

theorem setDeclaration_upholds {node : Nat} {place : DeclarationPlace}
    (h : ∀ r slot, place = .listed r slot → Fair w s₀.store r) :
    Upholds u w low s₀ (setDeclaration node place : BindM ω Unit) := by
  intro s hgo hs
  have hscope : ∀ i, State.scopeAt { s with facts := s.facts.modify node fun f => { f with declaration := some place } } i =
      s.scopeAt i := fun i => by
    rw [State.scopeAt, State.factsAt_modify]
    split <;> rfl
  refine ⟨fun _ s' hrun => ?_, fun e s' hrun => by cases hrun⟩
  obtain rfl := modifyFacts_ok.1 hrun
  refine ⟨⟨.refl, fun i _ => hscope i, fun i hi => (hscope i).symm ▸ hi, fun i n _ _ => ?_⟩, ?_, trivial⟩
  · rw [State.factsAt_modify]
    split <;> rfl
  · refine
      { order := hs.order
        size := by simpa using hs.size
        listed := fun i ref slot hi => ?_
        privates := hs.privates
        classes := fun i n sc hn hc hi => hs.classes i n sc hn hc ((hscope i).symm.trans hi)
        bodies := fun i n sc hn hf hi => hs.bodies i n sc hn hf ((hscope i).symm.trans hi)
        tasks := fun t ht => (hs.tasks t ht).mono hs.order (.refl _) fun i hi => (hscope i).symm ▸ hi
        queued := hs.queued
        scopes := fun i sc hi => hs.scopes i sc ((hscope i).symm.trans hi)
        numbers := hs.numbers
        mentions := hs.mentions
        homes := hs.homes_of_steps hscope .refl }
    rw [State.factsAt_modify] at hi
    split at hi
    · exact (h ref slot (Option.some.inj hi)).mono hgo.grows
    · exact hs.listed i ref slot hi

/-- What is known of a function is changed where its declaration is kept. -/
theorem adjustFunction_upholds (node : Nat) (f : FunctionInfo → FunctionInfo) :
    Upholds u w low s₀ (adjustFunction node f : BindM ω Unit) := by
  intro s hgo hs
  refine Runs.bind (Q := fun facts t => t = s ∧ facts = s.factsAt node) ?_ fun facts t _ _ hq => ?_
  · refine ⟨fun a t h => ?_, fun e t h => nomatch h⟩
    obtain ⟨rfl, rfl⟩ := factsOf_ok.1 h
    exact ⟨.refl _, hs, rfl, rfl⟩
  · obtain ⟨rfl, rfl⟩ := hq
    cases hd : (t.factsAt node).declaration with
    | none => exact .pure hs trivial
    | some place =>
      cases place with
      | listed ref slot =>
        exact adjustSymbol_fair (hs.listed node ref slot hd) (.ofModify (Symbol.trait_adjustFunction f) slot)
          (fun _ => rfl) (.ofModify (Symbol.origin_adjustFunction f) slot) t (.refl _) hs
      | unlisted d =>
        refine setDeclaration_upholds (fun r slot h => ?_) t (.refl _) hs
        cases h

/-! ## Look-up -/

theorem runs_consult {α : Type} {f : Store → Except Fault α} {P : α → Prop} (hs : Holds u w s)
    (h : ∃ a, f s.store = .ok a ∧ P a) : Runs u w low s (consult f : BindM ω α) fun a s' => s' = s ∧ P a := by
  obtain ⟨a, ha, hp⟩ := h
  refine ⟨fun b s' hrun => ?_, fun e s' hrun => ?_⟩
  · obtain ⟨hb, rfl⟩ := consult_ok.1 hrun
    rw [ha] at hb
    cases hb
    exact ⟨.refl _, hs, rfl, hp⟩
  · have hrun' : (consult f : BindM ω α).run s = .ok a s := consult_ok.2 ⟨ha, rfl⟩
    rw [hrun'] at hrun
    cases hrun

theorem globalScope_runs (hs : Holds u w s) (hb : w.Below s.store i) :
    Runs u w low s (globalScope i : BindM ω Nat) fun b s' => s' = s ∧ b = w.base :=
  runs_consult hs ⟨_, hs.order.globalScope_eq hb, rfl⟩

/-- A look-up of any name from a scope of the module. -/
theorem lookUp_runs (hs : Holds u w s) (hb : w.Below s.store i) (name : String) :
    Runs u w low s (lookUp i name : BindM ω (Option Found)) fun r s' =>
      s' = s ∧ s.store.lookUp i name = .ok r ∧ ∀ found, r = some found → Orderly.Finds w.toStage s.store i name found := by
  obtain ⟨r, hr, hfinds⟩ := hs.order.lookUp_ends hb name
  exact runs_consult (P := fun r => s.store.lookUp i name = .ok r ∧
    ∀ found, r = some found → Orderly.Finds w.toStage s.store i name found) hs ⟨r, hr, hr, hfinds⟩

/-- A look-up of a known name. -/
theorem lookUp_known_walks (hc : Stands w ctx.scope s₀.store) (hk : w.Known s₀.store ctx.scope name) :
    Walks u w low s₀ (lookUp ctx.scope name : BindM ω (Option Found)) fun r s =>
      (∀ found, r = some found → Fair w s.store ⟨found.scope, name⟩ ∧ w.Names s.store found.symbol.id) ∧
        (w.isStub = false → r.isSome) := by
  intro s hgo hs
  have hc' := hc.mono hgo.grows
  obtain ⟨r, hr, hfair, hsome⟩ := hs.order.lookUp_known (hk.mono hgo.grows) hc'.below hc'.here
  obtain ⟨r', hr', hfinds⟩ := hs.order.lookUp_ends hc'.below name
  obtain rfl : r = r' := Except.ok.inj (hr.symm.trans hr')
  refine (runs_consult (P := fun a => a = r) hs ⟨r, hr, rfl⟩).imp fun a t _ h => ?_
  obtain ⟨rfl, rfl⟩ := h
  refine ⟨fun found hfound => ⟨hfair found hfound, found.scope, name, found.symbol, ?_, (hfinds found hfound).symbol, rfl⟩, hsome⟩
  exact (hfinds found hfound).inside.imp_right And.left

/-! ## New names -/

/-- A new symbol, for a reason. -/
theorem newSymbol_runs {flags : SymbolFlags} (hs : Holds u w s) (hnone : s.store.symbol? scope name = none)
    (hadds : w.Adds s.store scope name) : Runs u w low s (newSymbol scope name flags : BindM ω SymbolRef) fun ref s' =>
      ref = ⟨scope, name⟩ ∧ (s'.store.symbol? scope name).isSome := by
  have hscope : scope < s.store.scopes.size := by
    cases hadds with
    | here hb => exact hs.order.lt_of_below hb
    | walrus hb => exact hs.order.lt_of_below hb
    | global hbase => exact hbase ▸ hs.order.base_lt
    | member hb => exact hs.order.lt_of_below hb
  obtain ⟨sc, hsc⟩ := Option.isSome_iff_exists.1 (scope?_isSome.2 hscope)
  refine .ofModifyGet hs (.ofStore ?_) ⟨rfl, ?_⟩
  · exact .addName scope name _ hnone hadds rfl rfl
  · show ((s.store.adjustScope scope _).symbol? scope name).isSome = true
    rw [symbol?_setSymbol, if_pos ⟨rfl, rfl⟩, hsc]
    rfl

/-- What is kept back is a symbol of the module. -/
theorem keepBack_upholds (hb : w.Below s₀.store ref.scope) (name : String) :
    Upholds u w low s₀ (modify fun s => { s with privates := s.privates.put name ref } : BindM ω Unit) := by
  intro s hgo hs
  refine ⟨fun _ s' hrun => ?_, fun e s' hrun => nomatch hrun⟩
  obtain rfl := modify_ok.1 hrun
  refine ⟨⟨.refl, fun _ _ => rfl, fun _ h => h, fun _ _ _ _ => rfl⟩,
    { hs with privates := fun p hp => ?_, tasks := ?_, homes := hs.homes_of_steps (fun _ => rfl) .refl }, trivial⟩
  · rcases Table.mem_put hp with hp | hp
    · exact hs.privates p hp
    · rw [hp]
      exact hb.mono hgo.grows
  · exact fun t ht => (hs.tasks t ht).mono hs.order (.refl _) fun _ h => h

theorem hide_upholds (hb : w.Below s₀.store ref.scope) :
    Upholds u w low s₀ (adjustSymbol ref Symbol.hide : BindM ω Unit) :=
  adjustSymbol_upholds (fun _ hgo _ => .inside (hb.mono hgo.grows) .hide) fun _ => .ofFlags _ _

theorem hidePrivate_upholds (ctx : Context) (hb : w.Below s₀.store ref.scope) :
    Upholds u w low s₀ (hidePrivate u ctx ref) := by
  refine .ite (.ite (hide_upholds hb) ?_) (.pure _)
  exact (scopeType_upholds ctx).seq fun _ => .ite (keepBack_upholds hb _) (.pure _)

/-- A bound name that is new to a scope of the module. -/
theorem addBoundName_runs (hs : Holds u w s) (hb : w.Below s.store scope)
    (hnone : s.store.symbol? scope name = none) (hadds : w.Adds s.store scope name) :
    Runs u w low s (addBoundName u ctx scope name) fun ref s' =>
      ref = ⟨scope, name⟩ ∧ (s'.store.symbol? scope name).isSome := by
  refine (newSymbol_runs hs hnone hadds).bind fun ref s₁ hgo hs₁ hq => ?_
  obtain ⟨rfl, hsome⟩ := hq
  have hb₁ := hb.mono hgo.grows
  have hrest : ∀ s₂ : State ω, Goes u w low s₁ s₂ → Holds u w s₂ → Runs u w low s₂ (do
      hidePrivate u ctx ⟨scope, name⟩
      return (⟨scope, name⟩ : SymbolRef)) fun ref s' => ref = ⟨scope, name⟩ ∧ (s'.store.symbol? scope name).isSome := by
    intro s₂ hgo₂ hs₂
    refine (hidePrivate_upholds ctx (hb₁.mono hgo₂.grows) s₂ (.refl _) hs₂).bind fun _ s₃ hgo₃ hs₃ _ => ?_
    exact .pure hs₃ ⟨rfl, (hgo₂.trans hgo₃).grows.symbol? hsome⟩
  refine (Runs.get hs₁).bind fun t s₂ _ _ hq => ?_
  obtain ⟨rfl, rfl⟩ := hq
  dsimp only
  split
  · split
    · rename_i outer own houter hown
      obtain ⟨p, hp, hsym⟩ := Option.bind_eq_some_iff.1 houter
      have hout : Inside w s₂.store p := hs₁.order.above hb₁ (.step hp (.refl _ _))
      have hin : Inside w s₂.store scope := .inl hb₁
      exact (takeOver_upholds (hin.names hown) (hout.names hsym) s₂ (.refl _) hs₁).bind fun _ s₃ hgo₃ hs₃ _ => hrest s₃ hgo₃ hs₃
    · exact hrest s₂ (.refl _) hs₁
  · exact hrest s₂ (.refl _) hs₁

/-- What binding a name gives: a symbol of the module, or one that a `nonlocal` statement names. -/
structure BindsTo (w : Job) (ctx : Context) (scope : Nat) (name : String) (ref : Option SymbolRef) (s : State ω) : Prop where
  fair : ∀ r, ref = some r → Fair w s.store r
  inside : ∀ r, ref = some r → Inside w s.store r.scope
  atBase : ctx.scope = w.base → scope = w.base → ∀ r, ref = some r → r.scope = w.base
  known : (s.store.redirection? ctx.scope name).isSome ∨ (s.store.symbol? scope name).isSome

/-- Binding a name to a scope of the module, into which it comes for a reason if it is new. -/
theorem bindName_runs (hs : Holds u w s) (hc : w.Below s.store ctx.scope) (hb : w.Below s.store scope)
    (hadds : s.store.redirection? ctx.scope name = none → s.store.symbol? scope name = none → w.Adds s.store scope name) :
    Runs u w low s (bindName u ctx scope name) fun b s' => BindsTo w ctx scope name b.symbol s' := by
  refine (Runs.get hs).bind fun t s _ _ hq => ?_
  obtain ⟨rfl, rfl⟩ := hq
  have hredirect : (s.store.scope? ctx.scope).bind (·.redirection? name) = s.store.redirection? ctx.scope name := rfl
  dsimp only
  rw [hredirect]
  cases hr : s.store.redirection? ctx.scope name with
  | some r =>
    have hne : ctx.scope ≠ w.base := by
      intro heq
      rw [heq, hs.order.root.2.2] at hr
      cases hr
    have hknown : (s.store.redirection? ctx.scope name).isSome ∨ (s.store.symbol? scope name).isSome := .inl (by simp [hr])
    -- a look-up from where the name is redirected to
    have hlook : ∀ start, w.Below s.store start →
        (∀ found, s.store.lookUp start name = .ok (some found) → Fair w s.store ⟨found.scope, name⟩) →
        Runs u w low s (do return (⟨(← lookUp start name).map (fun found => ⟨found.scope, name⟩), false⟩ : Binding)) fun b s' =>
          BindsTo w ctx scope name b.symbol s' := by
      intro start hstart hfair
      refine (lookUp_runs hs hstart name).bind fun res s₂ _ hs₂ hq => ?_
      obtain ⟨rfl, hres, hfinds⟩ := hq
      refine .pure hs₂ ⟨fun ref href => ?_, fun ref href => ?_, fun heq => absurd heq hne, hknown⟩
      · obtain ⟨found, rfl, rfl⟩ := Option.map_eq_some_iff.1 href
        exact hfair found hres
      · obtain ⟨found, rfl, rfl⟩ := Option.map_eq_some_iff.1 href
        exact (hfinds found rfl).inside.imp_right And.left
    cases r with
    | «nonlocal» =>
      obtain ⟨p, hp, _, hbp, _⟩ := hs.order.parent_of_below hc hne
      rw [hp]
      exact hlook p hbp fun _ _ => .inr (hs.order.toOuter _ _ hc hr).1
    | global =>
      refine Runs.bind (Q := fun start s' => s' = s ∧ start = some w.base) ?_ fun start s₂ _ hs₂ hq => ?_
      · exact ((globalScope_runs hs hc).map some).imp fun a s' _ h => by
          obtain ⟨b, rfl, rfl, rfl⟩ := h
          exact ⟨rfl, rfl⟩
      · obtain ⟨rfl, rfl⟩ := hq
        refine hlook w.base hs.order.below_base fun found hfound => ?_
        obtain ⟨sym, hsym⟩ := Option.isSome_iff_exists.1 (hs.order.toGlobal _ _ hc hr)
        have hown := hs.order.lookUpFrom_own hs.order.below_base (.inl hs.order.type_base_ne_class) hsym
          s₂.store.scopes.size false
        rw [Store.lookUp, hown] at hfound
        cases hfound
        exact .inl hs.order.below_base
  | none =>
    cases hsym : s.store.symbol? scope name with
    | some sym =>
      refine .pure hs ⟨fun r h => ?_, fun r h => ?_, fun _ heq r h => ?_, .inr (by simp [hsym])⟩
      · cases h
        exact .inl hb
      · cases h
        exact .inl hb
      · cases h
        exact heq
    | none =>
      refine (addBoundName_runs hs hb hsym (hadds hr hsym)).bind fun ref s₂ hgo hs₂ hq => ?_
      obtain ⟨rfl, hsome⟩ := hq
      refine .pure hs₂ ⟨fun r h => ?_, fun r h => ?_, fun _ heq r h => ?_, .inr hsome⟩
      · cases h
        exact .inl (hb.mono hgo.grows)
      · cases h
        exact .inl (hb.mono hgo.grows)
      · cases h
        exact heq

/-- Binding a name to the current scope. -/
theorem bindName_here (hc : Stands w ctx.scope s₀.store) (name : String) :
    Walks u w low s₀ (bindName u ctx ctx.scope name) fun b s =>
      BindsTo w ctx ctx.scope name b.symbol s ∧ w.Known s.store ctx.scope name := by
  intro s hgo hs
  have hc' := hc.mono hgo.grows
  refine (bindName_runs hs hc'.below hc'.below fun hr _ => .here hc'.below hc'.here hr).imp fun b s' _ hb => ⟨hb, ?_⟩
  rcases hb.known with hr | hs
  · obtain ⟨r, hr⟩ := Option.isSome_iff_exists.1 hr
    exact .redirected hr
  · exact .own hs

theorem bindHere_walks (hc : Stands w ctx.scope s₀.store) (name : String) :
    Walks u w low s₀ (bindHere u ctx name) fun ref s =>
      BindsTo w ctx ctx.scope name ref s ∧ w.Known s.store ctx.scope name :=
  (bindName_here hc name).bind fun b s₁ _ h => .ret fun s hgo => ⟨⟨fun r hr => (h.1.fair r hr).mono hgo.grows,
    fun r hr => (h.1.inside r hr).mono hgo.grows, h.1.atBase,
    h.1.known.imp (fun hr => by
      obtain ⟨r, hr⟩ := Option.isSome_iff_exists.1 hr
      simp [hgo.grows.redirection? hr]) hgo.grows.symbol?⟩, h.2.mono hgo.grows⟩

mutual

/-- The names of a target are known where they were bound, and those that are new are symbols of the module. -/
theorem bindTarget_binds {low : Nat} {s₀ : State ω} (hc : Stands w ctx.scope s₀.store) (target : Expr) :
    Walks u w low s₀ (bindTarget u ctx target) fun refs s =>
      (∀ x ∈ target.targetNames, w.Known s.store ctx.scope x) ∧ ∀ r ∈ refs, Inside w s.store r.scope := by
  unfold bindTarget
  split
  · refine (bindName_here hc _).bind fun b s₁ _ h => .ret fun s hgo => ⟨fun x hx => ?_, fun r hr => ?_⟩
    · rw [Expr.targetNames, List.mem_singleton] at hx
      exact hx ▸ h.2.mono hgo.grows
    · split at hr
      · exact (h.1.inside r (Option.mem_toList.1 hr)).mono hgo.grows
      · cases hr
  · rename_i elements
    exact bindTargets_bind hc elements
  · rename_i elements
    exact bindTargets_bind hc elements
  · rename_i value
    exact bindTarget_binds hc value
  · exact .ret fun _ _ => ⟨fun x hx => by simp [Expr.targetNames] at hx, by simp⟩

theorem bindTargets_bind {low : Nat} {s₀ : State ω} (hc : Stands w ctx.scope s₀.store) (targets : List Expr) :
    Walks u w low s₀ (bindTargets u ctx targets) fun refs s =>
      (∀ x ∈ Expr.namesTargeted targets, w.Known s.store ctx.scope x) ∧ ∀ r ∈ refs, Inside w s.store r.scope := by
  match targets with
  | [] =>
    rw [bindTargets]
    exact .ret fun _ _ => ⟨fun x hx => by simp [Expr.namesTargeted] at hx, by simp⟩
  | target :: targets =>
    rw [bindTargets]
    refine (bindTarget_binds hc target).bind fun _ s₁ hgo₁ h₁ => ?_
    refine (bindTargets_bind (hc.mono hgo₁.grows) targets).bind fun _ s₂ hgo₂ h₂ => .ret fun s hgo =>
      ⟨fun x hx => ?_, fun r hr => ?_⟩
    · rw [Expr.namesTargeted, List.mem_append] at hx
      rcases hx with hx | hx
      · exact (h₁.1 x hx).mono (hgo₂.trans hgo).grows
      · exact (h₂.1 x hx).mono hgo.grows
    · rcases List.mem_append.1 hr with hr | hr
      · exact (h₁.2 r hr).mono (hgo₂.trans hgo).grows
      · exact (h₂.2 r hr).mono hgo.grows

end

theorem bindTarget_walks (hc : Stands w ctx.scope s₀.store) (target : Expr) :
    Walks u w low s₀ (bindTarget u ctx target) fun _ s => ∀ x ∈ target.targetNames, w.Known s.store ctx.scope x :=
  (bindTarget_binds hc target).imp fun _ _ _ h => h.1

theorem bindTargets_walks (hc : Stands w ctx.scope s₀.store) (targets : List Expr) :
    Walks u w low s₀ (bindTargets u ctx targets) fun _ s => ∀ x ∈ Expr.namesTargeted targets, w.Known s.store ctx.scope x :=
  (bindTargets_bind hc targets).imp fun _ _ _ h => h.1

/-- Adding a name that is not redirected to the current scope. -/
theorem addSymbol_runs {isInitiallyUnbound : Bool} (hs : Holds u w s) (hc : Stands w ctx.scope s.store)
    (hr : s.store.redirection? ctx.scope name = none) :
    Runs u w low s (addSymbol u ctx name isInitiallyUnbound) fun ref s' => w.Below s'.store ref.scope := by
  refine Runs.bind (Q := fun sym t => t = s ∧ sym = s.store.symbol? ctx.scope name) ?_ fun sym t _ _ hq => ?_
  · refine (Runs.get hs).bind fun a t _ ht hq => ?_
    obtain ⟨rfl, rfl⟩ := hq
    exact .pure ht ⟨rfl, rfl⟩
  obtain ⟨rfl, rfl⟩ := hq
  cases hsym : t.store.symbol? ctx.scope name with
  | some sym => exact .pure hs hc.below
  | none =>
    refine Runs.bind (Q := fun _ t' => t' = t) ?_ fun type t' _ _ hq => ?_
    · refine (Runs.get hs).bind fun a t' _ ht hq => ?_
      obtain ⟨rfl, rfl⟩ := hq
      exact .pure ht rfl
    subst hq
    refine (newSymbol_runs hs hsym (.here hc.below hc.here hr)).imp fun ref s' hgo' hq => ?_
    rw [hq.1]
    exact hc.below.mono hgo'.grows

/-- Adding a name that the language provides to a scope that does not redirect it. -/
theorem addIntrinsic_runs (hs : Holds u w s) (hc : Stands w ctx.scope s.store) (site : Site) (type : String)
    (hr : s.store.redirection? ctx.scope name = none) :
    Runs u w low s (addIntrinsic u ctx name site type) fun _ _ => True := by
  refine (addSymbol_runs hs hc hr).bind fun ref s₁ _ hs₁ hb => ?_
  have hfair : Fair w s₁.store ref := .inl hb
  refine (declare_upholds hfair rfl s₁ (.refl _) hs₁).bind fun _ s₂ hgo₂ hs₂ _ => ?_
  refine adjustSymbol_fair (hfair.mono hgo₂.grows) ?_ (fun _ => ?_) (fun _ => .ofFlags _ _) s₂ (.refl _) hs₂
  · exact .ofFlags fun _ => rfl
  · rfl

/-! ## Assignments -/

/-- A known name can be assigned. -/
theorem assignedSymbol_walks (hv : Serves u w) (hc : Stands w ctx.scope s₀.store) {name : Option String}
    (hk : ∀ x, name = some x → w.Known s₀.store ctx.scope x) :
    Walks u w low s₀ (assignedSymbol ctx name : BindM ω (Option Int)) fun target s => ∀ id ∈ target, w.Names s.store id := by
  cases name with
  | none => exact .ret fun _ _ => nofun
  | some name =>
    refine (lookUp_known_walks hc (hk name rfl)).bind fun r s₁ _ h => ?_
    cases r with
    | some found =>
      refine .ret fun s hgo id hid => ?_
      obtain rfl := Option.some.inj hid
      exact (h.1 found rfl).2.mono hgo.grows
    | none =>
      refine .throw ?_ _
      by_contra hstrict
      have hstub := hv.isStub.trans (hv.regular (by simpa using hstrict))
      simpa using h.2 hstub

theorem assignKey_upholds (ctx : Context) (node : Nat) (key : String) {target : Option Int}
    (ht : ∀ id ∈ target, w.Names s₀.store id) (raises unbound : Bool) :
    Upholds u w low s₀ (assignKey ctx node key target raises unbound : BindM ω Unit) := by
  have hsymbols : ∀ cur, ∀ id ∈ (FlowStep.assign (some node) key cur target unbound).symbols, w.Names s₀.store id :=
    fun _ id hid => ht id (Option.mem_toList.1 hid)
  refine isDead_upholds.seq fun _ => .ite (.pure _) <| current_upholds.seq fun _ => (newNode_upholds _ (hsymbols _)).seq fun _ =>
    (addKey_upholds _ _).seq fun _ => .ite ?_ (setCurrent_upholds _)
  exact (linkRaise_upholds _ _).seq fun _ => setCurrent_upholds _

theorem stampAssigned_upholds (node : Nat) (before : FlowRef) (unbound : Bool) :
    Upholds u w low s₀ (stampAssigned node before unbound : BindM ω Unit) :=
  .ite ((factsOf_upholds node).seq fun _ => .ite (stampWith_upholds _ _) (.pure _)) (stamp_upholds _)

section

variable (hv : Serves u w) (hc : Stands w ctx.scope s₀.store)
include hv hc

theorem assign_upholds (node : Nat) {name : Option String}
    (hk : ∀ x, name = some x → w.Known s₀.store ctx.scope x) (key : Option String) (raises stamps unbound : Bool) :
    Upholds u w low s₀ (assign ctx node name key raises stamps unbound : BindM ω Unit) := by
  refine (assignedSymbol_walks hv hc hk).bind fun target s₁ _ ht => current_upholds.seq fun before => ?_
  have hstamp : ∀ s₁ :
    State ω, Upholds u w low s₁ (if stamps then stampAssigned node before unbound else pure () : BindM ω Unit) :=
    fun s₁ => .ite (stampAssigned_upholds _ _ _) (.pure _)
  cases key with
  | some key => exact (assignKey_upholds ctx node key ht raises unbound).seq fun _ => hstamp _
  | none => exact (Walks.pure ()).seq fun _ => hstamp _

theorem assignName_upholds (node : Nat)
    (hk : w.Known s₀.store ctx.scope name) (stamps unbound : Bool) :
    Upholds u w low s₀ (assignName ctx node name stamps unbound : BindM ω Unit) :=
  assign_upholds hv hc node (fun _ hx => by cases hx; exact hk) _ _ _ _

theorem assignReference_upholds {e : Expr}
    (hk : ∀ x ∈ e.targetNames, w.Known s₀.store ctx.scope x) (unbound : Bool) :
    Upholds u w low s₀ (assignReference ctx e unbound : BindM ω Unit) := by
  unfold assignReference
  split
  · rename_i m id
    exact assign_upholds hv hc _ (fun x hx => by cases hx; exact hk _ (by simp [Expr.targetNames])) _ _ _ _
  · exact assign_upholds hv hc _ (fun _ hx => by cases hx) _ _ _ _
  · exact assign_upholds hv hc _ (fun _ hx => by cases hx) _ _ _ _

mutual

theorem assignTarget_upholds (unbound : Bool)
    (target : Expr) (hk : ∀ x ∈ target.targetNames, w.Known s₀.store ctx.scope x) :
    Upholds u w low s₀ (assignTarget ctx unbound target : BindM ω Unit) := by
  unfold assignTarget
  split
  · exact assignReference_upholds hv hc hk unbound
  · exact assignReference_upholds hv hc hk unbound
  · exact assignReference_upholds hv hc hk unbound
  · rename_i elements
    exact assignTargets_upholds unbound elements hk
  · rename_i elements
    exact assignTargets_upholds unbound elements hk
  · rename_i value
    exact assignTarget_upholds unbound value hk
  · exact .pure _

theorem assignTargets_upholds (unbound : Bool)
    (targets : List Expr) (hk : ∀ x ∈ Expr.namesTargeted targets, w.Known s₀.store ctx.scope x) :
    Upholds u w low s₀ (assignTargets ctx unbound targets : BindM ω Unit) := by
  match targets with
  | [] =>
    rw [assignTargets]
    exact .pure _
  | target :: targets =>
    rw [assignTargets]
    simp only [Expr.namesTargeted, List.mem_append] at hk
    exact (assignTarget_upholds unbound target fun x hx => hk x (.inl hx)).seq fun _ =>
      assignTargets_upholds unbound targets fun x hx => hk x (.inr hx)

end

end

end Bind

end ScopeFlow
