import ScopeFlow.Proofs.JobPlaces

/-!
# Jobs and imports

An import binds names like any other statement. What other modules export is asked of the setup, which may bind them first; that
adds scopes of other modules and leaves those of this one alone. An import can fail only where the setup fails, where a level is
missing, or in a stub.
-/

namespace ScopeFlow.Bind

open Store NodeTree

variable {ω : Type} {u : Setup ω} {w : Job} {low : Nat} {s s' s₀ s₁ : State ω} {ctx : Context} {name : String}

/-- Other modules are asked for without a change to this one. -/
theorem lookUpExports_upholds (hv : Serves u w) (path : String) : Upholds u w low s₀ (lookUpExports u path) := by
  intro s _ hs
  have haside := hv.aside path s.store s.world
  rw [← hv.builtins] at haside
  have hpass : ∀ world : ω, Passes u w s { s with
      store := (u.exports path s.store s.world).2.1, world := world, past := s.past.map (s.store :: ·) } := fun _ =>
    ⟨Passes.trail_record (.foreign haside) rfl, rfl, fun _ => rfl, fun _ => rfl, fun _ _ _ _ => rfl, rfl, rfl, fun _ => .inl⟩
  have hanswers := fun hstrict => hv.answers hstrict path s.store s.world
  rcases hx : u.exports path s.store s.world with ⟨answer, store, world⟩
  rw [hx] at hpass hanswers
  cases answer with
  | ok exports =>
    have hrun : lookUpExports u path s = .ok exports { s with
        store := store, world := world, past := s.past.map (s.store :: ·) } := by simp [lookUpExports, hx]
    refine ⟨fun a s' h => ?_, fun e s' h => ?_⟩
    · have heq := hrun.symm.trans h
      cases heq
      exact ⟨(hpass world).goes, (hpass world).holds hs, trivial⟩
    · have heq := hrun.symm.trans h
      cases heq
  | error fault =>
    have hrun : lookUpExports u path s = .error fault { s with
        store := store, world := world, past := s.past.map (s.store :: ·) } := by simp [lookUpExports, hx]
    refine ⟨fun a s' h => ?_, fun e s' h => ?_⟩
    · have heq := hrun.symm.trans h
      cases heq
    · have heq := hrun.symm.trans h
      cases heq
      refine ⟨?_, (hpass world).trail⟩
      by_contra hstrict
      obtain ⟨a, ha⟩ := hanswers (by simpa using hstrict)
      cases ha

/-! ## The list of exported names -/

theorem adjustAll_upholds (f : List String → List String) : Upholds u w low s₀ (adjustAll f : BindM ω Unit) :=
  .ofModify fun _ _ => .ofRest rfl rfl rfl rfl fun _ => id

theorem setAll_upholds (names : List String) : Upholds u w low s₀ (setAll names : BindM ω Unit) :=
  .ofModify fun _ _ => .ofRest rfl rfl rfl rfl fun _ => id

theorem reportUnsupportedAll_upholds (mark : Mark) : Upholds u w low s₀ (reportUnsupportedAll u mark) :=
  reportRule_upholds _ _ _ _ _

theorem importedAll_upholds (hv : Serves u w) (ctx : Context) (name : String) :
    Upholds u w low s₀ (importedAll u ctx name) := by
  refine (symbolIn_upholds _ _).seq fun symbol => ?_
  cases symbol with
  | none => exact .pure _
  | some symbol =>
    dsimp only
    split
    · exact .pure _
    · split
      · exact .pure _
      · exact (lookUpExports_upholds hv _).seq fun _ => .pure _

theorem namesOfAll_upholds (hv : Serves u w) (ctx : Context) (e : Expr) : Upholds u w low s₀ (namesOfAll u ctx e) := by
  unfold namesOfAll
  split
  · exact .ite (importedAll_upholds hv ctx _) (.pure _)
  · exact .pure _

theorem followAllCall_upholds (hv : Serves u w) (ctx : Context) (method : String) (args : List Expr) :
    Upholds u w low s₀ (followAllCall u ctx method args) := by
  unfold followAllCall
  split
  · split
    · split
      · exact (adjustAll_upholds _).seq fun _ => .pure _
      · refine (namesOfAll_upholds hv ctx _).seq fun names => ?_
        split
        · exact (adjustAll_upholds _).seq fun _ => .pure _
        · exact .pure _
    · refine Walks.get.seq fun s => ?_
      split
      · exact (adjustAll_upholds _).seq fun _ => .pure _
      · exact .pure _
    · split
      · exact (adjustAll_upholds _).seq fun _ => .pure _
      · exact .pure _
    · exact .pure _
  · exact .pure _

theorem followCall_upholds (hv : Serves u w) (ctx : Context) (mark : Mark) (func : Expr) (args : List Expr) :
    Upholds u w low s₀ (followCall u ctx mark func args) := by
  unfold followCall
  split
  · refine (scopeType_upholds ctx).seq fun _ => .ite ?_ (.pure _)
    exact (followAllCall_upholds hv ctx _ _).seq fun _ => .ite (.pure _) (reportUnsupportedAll_upholds _)
  · exact .pure _

theorem assignAll_upholds (mark : Mark) (value : Expr) : Upholds u w low s₀ (assignAll u mark value) := by
  unfold assignAll
  split
  · exact (setAll_upholds _).seq fun _ => .ite (.pure _) (reportUnsupportedAll_upholds _)
  · exact (setAll_upholds _).seq fun _ => .ite (.pure _) (reportUnsupportedAll_upholds _)
  · exact (setAll_upholds _).seq fun _ => reportUnsupportedAll_upholds _

theorem followAssign_upholds (ctx : Context) (mark : Mark) (targets : List Expr) (value : Expr) :
    Upholds u w low s₀ (followAssign u ctx mark targets value) :=
  (scopeType_upholds ctx).seq fun _ => .ite (assignAll_upholds _ _) (.pure _)

theorem followAdd_upholds (hv : Serves u w) (ctx : Context) (mark : Mark) (target : Expr) (op : BinaryOperator) (value : Expr) :
    Upholds u w low s₀ (followAdd u ctx mark target op value) := by
  refine (scopeType_upholds ctx).seq fun _ => .ite ?_ (.pure _)
  split
  · exact adjustAll_upholds _
  · refine (namesOfAll_upholds hv ctx _).seq fun names => ?_
    cases names with
    | some names => exact adjustAll_upholds _
    | none => exact reportUnsupportedAll_upholds _

/-! ## Import statements -/

theorem reportImport_upholds (mark : Mark) (record : Option ImportRecord) : Upholds u w low s₀ (reportImport u mark record) := by
  cases record with
  | none => exact .pure _
  | some r =>
    refine .ite (.pure _) <| .ite ((reportRule_upholds _ _ _ _ _).seq fun _ => .pure _) <|
      .when (fun _ => reportRule_upholds _ _ _ _ _) fun _ => .ite ?_ (.pure _)
    cases r.nonStub with
    | some source => exact .ite (.pure _) (reportRule_upholds _ _ _ _ _)
    | none => exact .pure _

/-- An imported name is hidden, or kept back at module level, where it is bound in the module itself. -/
theorem hideImported_upholds (hv : Serves u w) (hc : Stands w ctx.scope s₀.store) {ref : SymbolRef}
    (hb : BindsTo w ctx ctx.scope name (some ref) s₀) (key : String) :
    Upholds u w low s₀ (hideImported u ctx key ref) := by
  refine .branch (fun hstub => ?_) fun _ => ?_
  · refine adjustSymbol_upholds (fun s hgo _ => ?_) fun _ => .ofFlags _ _
    rcases (hb.fair ref rfl).mono hgo.grows with hbelow | hn
    · exact .inside hbelow .hide
    · refine .outside hn .hide fun hno => ?_
      rw [hv.isStub, hstub] at hno
      cases hno
  · intro s hgo hs
    have hc' := hc.mono hgo.grows
    refine Runs.bind (Q := fun t s' => s' = s ∧ t = (s.store.type? ctx.scope).getD .builtin) ?_ fun t s' _ hs' hq => ?_
    · refine (Runs.get hs).bind fun a t _ ht hq => ?_
      obtain ⟨rfl, rfl⟩ := hq
      exact .pure ht ⟨rfl, rfl⟩
    obtain ⟨rfl, rfl⟩ := hq
    split
    · rename_i hmodule
      have htype : s'.store.type? ctx.scope = some .moduleBody := by
        simp only [Bool.and_eq_true, beq_iff_eq] at hmodule
        cases ht : s'.store.type? ctx.scope with
        | none => simp [ht] at hmodule
        | some t => simpa [ht] using hmodule.2
      have hbase := hs.order.eq_base_of_global hc'.below htype rfl
      refine keepBack_upholds ?_ key s' (.refl _) hs
      rw [hb.atBase hbase hbase ref rfl]
      exact hs.order.below_base
    · exact .pure hs trivial

theorem trait_extendAlias (record : ImportRecord) (localName : Option String) (parts : List String) (d : Declaration) :
    Symbol.trait (extendAlias record localName parts d) = Symbol.trait d := by
  unfold extendAlias
  split
  · rename_i a h
    split <;> simp [Symbol.trait, Declaration.isMemberOnly, h]
  · rfl

theorem origin_extendAlias (record : ImportRecord) (localName : Option String) (parts : List String) (d : Declaration) :
    (extendAlias record localName parts d).origin = d.origin := by
  unfold extendAlias
  split
  · rename_i a h
    split <;> simp [Declaration.origin, Declaration.type, DeclarationInfo.type, h]
  · rfl

theorem declareModule_upholds {ref : SymbolRef} (hr : Fair w s₀.store ref) (site : Site) (localName : Option String)
    (record : Option ImportRecord) (parts : List String) :
    Upholds u w low s₀ (declareModule site localName record ref parts : BindM ω Unit) := by
  unfold declareModule
  split
  · refine (symbolIn_upholds _ _).seq fun known => ?_
    dsimp only
    split
    · exact adjustSymbol_fair hr (.ofModify (trait_extendAlias _ _ _) _) (fun _ => rfl)
        (.ofModify (origin_extendAlias _ _ _) _)
    · exact declare_upholds hr (congrArg Prod.snd (trait_extendAlias _ _ _ _))
  · exact declare_upholds hr rfl

theorem noteModule_upholds (n : ImportName) : Upholds u w low s₀ (noteModule n : BindM ω Unit) := by
  unfold noteModule
  split
  · exact .ite (.ofModify fun _ _ => .ofRest rfl rfl rfl rfl fun _ => id)
      (.ite (.ofModify fun _ _ => .ofRest rfl rfl rfl rfl fun _ => id) (.pure _))
  · exact .pure _

section

variable (hv : Serves u w) (hc : Stands w ctx.scope s₀.store)
include hv hc

theorem declareImport_walks (n : ImportName) :
    Walks u w low s₀ (declareImport u ctx n) fun _ s => w.Known s.store ctx.scope n.boundName := by
  refine (bindHere_walks hc n.boundName).bind fun ref s₁ hgo h => ?_
  have hkeep : ∀ {f : BindM ω Unit}, Upholds u w low s₁ f →
      Walks u w low s₁ f fun _ s => w.Known s.store ctx.scope n.boundName :=
    fun hf => hf.imp fun _ s hgo' _ => h.2.mono hgo'.grows
  refine hkeep ?_
  cases ref with
  | none => exact reportImport_upholds _ _
  | some ref =>
    have hrest : Upholds u w low s₁ (do
        reportImport u n.mark (importRecord u n.mark.index)
        declareModule n.site n.asName (importRecord u n.mark.index) ref (DottedName.parts n.name)) :=
      (reportImport_upholds _ _).seq fun _ => declareModule_upholds (h.1.fair ref rfl) _ _ _ _
    exact .ite hrest ((hideImported_upholds hv (hc.mono hgo.grows) h.1 _).seq fun _ => hrest)

theorem importModule_upholds (n : ImportName) :
    Upholds u w low s₀ (importModule u ctx n) :=
  (declareImport_walks hv hc n).bind fun _ _ hgo hk =>
    (assignName_upholds hv (hc.mono hgo.grows) _ hk _ _).seq fun _ => noteModule_upholds n

theorem importSubmodule_upholds (site : Site) (record : Option ImportRecord)
    (parts : List String) : Upholds u w low s₀ (importSubmodule u ctx site record parts) := by
  refine (bindHere_walks hc _).bind fun ref s₁ hgo h => ?_
  have hassign : Upholds u w low s₁ (assignName ctx site.index (parts.headD "") false : BindM ω Unit) :=
    assignName_upholds hv (hc.mono hgo.grows) site.index h.2 false false
  cases ref with
  | none => exact hassign
  | some ref => exact (declareModule_upholds (h.1.fair ref rfl) _ _ _ _).seq fun _ => hassign

omit hv in
theorem importWildcardName_upholds (site : Site) (record : ImportRecord) (exports : Exports)
    (name : String) : Upholds u w low s₀ (importWildcardName u ctx site record exports name) := by
  refine (bindHere_walks hc name).bind fun ref s₁ _ h => ?_
  cases ref with
  | none => exact .pure _
  | some ref =>
    refine .ite ((declare_upholds (h.1.fair ref rfl) rfl).seq fun _ => .pure _) ?_
    cases submodule? record name with
    | none => exact .pure _
    | some i => exact (declare_upholds (h.1.fair ref rfl) rfl).seq fun _ => .pure _

omit hv in
theorem importWildcardNames_upholds (site : Site) (record : ImportRecord) (exports : Exports)
    (names : List String) : Upholds u w low s₀ (importWildcardNames u ctx site record exports names) := by
  induction names with
  | nil => exact .pure _
  | cons name names ih => exact (importWildcardName_upholds hc site record exports name).seq fun _ => ih.seq fun _ => .pure _

theorem importWildcard_upholds (site : Site) (record : Option ImportRecord)
    {level : Option Int} (hl : w.strict = true → level.isSome) (parts : List String) (inPackage : Bool) :
    Upholds u w low s₀ (importWildcard u ctx site record level parts inPackage) := by
  have hmissing : level.isNone = true → w.strict = false := by
    intro hnone
    by_contra hstrict
    have := hl (by simpa using hstrict)
    simp_all
  unfold importWildcard
  refine .when (fun _ => reportError_upholds _ _ _) fun _ => ?_
  cases record with
  | none => exact .branch (fun h => .throw (hmissing h) _) fun _ => .pure _
  | some r =>
    refine (lookUpExports_upholds hv _).seq fun exports => ?_
    cases exports with
    | none => exact .when (fun h => Walks.throw (Q := fun _ _ => True) (hmissing h) _) fun _ => importAll_upholds _ _ _
    | some exports =>
      exact .when (fun _ => importSubmodule_upholds hv hc _ _ _) fun _ =>
        (importWildcardNames_upholds hc site r exports _).seq fun _ => importAll_upholds _ _ _

theorem importName_upholds (record : Option ImportRecord) (parts : List String)
    (isOwnPackage : Bool) (n : ImportName) : Upholds u w low s₀ (importName u ctx record parts isOwnPackage n) := by
  refine (bindHere_walks hc _).bind fun ref s₁ hgo h => ?_
  have hc₁ := hc.mono hgo.grows
  cases ref with
  | none => exact .pure _
  | some ref =>
    refine .when (fun _ => hideImported_upholds hv hc₁ h.1 _) fun _ => (declare_upholds (h.1.fair ref rfl) rfl).seq fun _ =>
      (assignName_upholds hv hc₁ n.mark.index h.2 true false).seq fun _ => ?_
    split
    · exact .ite (.ofModify fun _ _ => .ofRest rfl rfl rfl rfl fun _ => id) (.pure _)
    · exact .pure _

theorem importNames_upholds (record : Option ImportRecord) (parts : List String)
    (isOwnPackage : Bool) (names : List ImportName) : Upholds u w low s₀ (importNames u ctx record parts isOwnPackage names) := by
  induction names with
  | nil => exact .pure _
  | cons n names ih => exact (importName_upholds hv hc record parts isOwnPackage n).seq fun _ => ih

theorem importFrom_upholds (site : Site) (source : Option String)
    (names : List ImportName) {level : Option Int} (hl : w.strict = true → level.isSome) :
    Upholds u w low s₀ (importFrom u ctx site source names level) := by
  have hmissing : (importRecord u site.index).isNone && level.isNone → w.strict = false := by
    intro hnone
    by_contra hstrict
    have := hl (by simpa using hstrict)
    simp_all
  refine .branch (fun h => (Walks.throw (Q := fun _ _ => True) (hmissing h) _).seq fun _ => ?_) fun _ => ?_
  all_goals
    refine (reportImport_upholds _ _).seq fun _ => ?_
    dsimp only
    split
    · refine (importWildcard_upholds hv hc _ _ hl _ _).seq fun _ => ?_
      split
      · exact .ite (.ofModify fun _ _ => .ofRest rfl rfl rfl rfl fun _ => id) (.pure _)
      · exact .pure _
    · exact .ite ((importSubmodule_upholds hv hc _ _ _).seq fun _ => importNames_upholds hv hc _ _ _ _)
        (importNames_upholds hv hc _ _ _ _)

end

end ScopeFlow.Bind
