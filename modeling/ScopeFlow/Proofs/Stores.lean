import Mathlib
import ScopeFlow.Scope

/-!
# Stores of scopes

What is seen of a store are the kind and the parent of each scope, its symbols and its redirections. The lemmas here say what
each way to change a store does to that view, and that a store grows (`Store.Grows`) if scopes keep kind and parent, and if
symbols and redirections stay.

A symbol is changed mildly (`Symbol.Mild`) if it does not become one that is known by member access only.
-/

namespace ScopeFlow

namespace Table

variable {α : Type} {f : Symbol → Symbol}

theorem lookup_adjust_self (t : Table α) (name : String) (f : α → α) :
    (t.adjust name f).lookup name = (t.lookup name).map f := by
  induction t with
  | nil => rfl
  | cons p rest ih =>
    obtain ⟨n, v⟩ := p
    by_cases h : n = name
    · subst h
      simp [adjust]
    · have hb : (name == n) = false := by simpa using Ne.symm h
      simp [adjust, h, List.lookup_cons, hb, ih]

theorem lookup_adjust_ne (t : Table α) {name other : String} (f : α → α) (h : other ≠ name) :
    (t.adjust name f).lookup other = t.lookup other := by
  have hb : (other == name) = false := by simpa using h
  induction t with
  | nil => rfl
  | cons p rest ih =>
    obtain ⟨n, v⟩ := p
    by_cases hn : n = name
    · subst hn
      simp [adjust, List.lookup_cons, hb]
    · simp only [adjust, if_neg hn, List.lookup_cons, ih]

end Table

/-! ## Symbols -/

/-- What a declaration is known by while more is found out of it: the node that introduced it, its range, its module and its
kind. -/
def Declaration.origin (d : Declaration) : Site × Range × String × String := (d.site, d.range, d.moduleName, d.type)

namespace Symbol

/-- Whether no declaration of a symbol is by member access. -/
def NoMember (s : Symbol) : Prop := ∀ d ∈ s.declarations, d.isMemberOnly = false

/-- A symbol that no member access declares can be seen as a bare name. -/
theorem NoMember.isBareName {s : Symbol} (h : s.NoMember) : s.isBareName = true := by
  unfold Symbol.isBareName
  cases hd : s.declarations with
  | nil => rfl
  | cons d ds => simp [h d (by simp [hd])]

/-- Where a declaration is, and whether it is only by member access. -/
def trait (d : Declaration) : Site × Bool := (d.site, d.isMemberOnly)

/-- A change that adds declarations by member access only at sites of a kind. -/
def Gains (P : Site → Prop) (f : Symbol → Symbol) : Prop :=
  ∀ s, ∀ d ∈ (f s).declarations, d.isMemberOnly = true → (d.site, true) ∈ s.declarations.map trait ∨ P d.site

/-- A change that hides no bare name behind member access and adds no member. -/
structure Mild (f : Symbol → Symbol) : Prop where
  gains : Gains (fun _ => False) f
  bare : ∀ s, s.isBareName = true → (f s).isBareName = true

theorem Mild.noMember (h : Mild f) {s : Symbol} (hs : s.NoMember) : (f s).NoMember := by
  intro d hd
  cases hm : d.isMemberOnly with
  | false => rfl
  | true =>
    obtain ⟨e, he, heq⟩ := List.mem_map.1 ((h.gains s d hd hm).resolve_right not_false)
    exact (congrArg Prod.snd heq).symm.trans (hs e he)

theorem Gains.ofFlags {P : Site → Prop} (hd : ∀ s, (f s).declarations = s.declarations) : Gains P f := by
  intro s d hmem hm
  exact .inl (List.mem_map.2 ⟨d, hd s ▸ hmem, by rw [trait, hm]⟩)

/-- A change of flags is mild. -/
theorem Mild.ofFlags (hd : ∀ s, (f s).declarations = s.declarations) : Mild f := by
  refine ⟨.ofFlags hd, fun s h => ?_⟩
  unfold Symbol.isBareName at h ⊢
  rw [hd]
  exact h

theorem Mild.hide : Mild Symbol.hide := .ofFlags fun _ => rfl

theorem Mild.list : Mild Symbol.list := .ofFlags fun _ => rfl

/-- Whether a symbol can be seen as a bare name depends on which of its declarations are by member access. -/
theorem isBareName_eq (s : Symbol) :
    s.isBareName = ((s.declarations.map trait).isEmpty || (s.declarations.map trait).any (!·.2)) := by
  simp [Symbol.isBareName, List.any_map, Function.comp_def, trait]

theorem Gains.ofTraits {new : Site × Bool} (hf : ∀ s, (f s).declarations.map trait = s.declarations.map trait ∨
    (f s).declarations.map trait = s.declarations.map trait ++ [new]) : Gains (fun site => (site, true) = new) f := by
  intro s d hd hm
  have hmem : (d.site, true) ∈ (f s).declarations.map trait := List.mem_map.2 ⟨d, hd, by rw [trait, hm]⟩
  rcases hf s with heq | heq
  · exact .inl (heq ▸ hmem)
  · rw [heq, List.mem_append, List.mem_singleton] at hmem
    exact hmem

theorem Mild.ofTraits {new : Site × Bool} (hnew : new.2 = false)
    (hf : ∀ s, (f s).declarations.map trait = s.declarations.map trait ∨
      (f s).declarations.map trait = s.declarations.map trait ++ [new]) : Mild f := by
  refine ⟨fun s d hd hm => (Gains.ofTraits hf s d hd hm).imp_right fun heq => ?_, fun s h => ?_⟩
  · rw [← heq] at hnew
    cases hnew
  · rw [isBareName_eq] at h ⊢
    rcases hf s with heq | heq
    · rw [heq]
      exact h
    · rw [heq]
      simp [hnew]

/-- A change of declarations one by one that does not make one of them a member access is mild. -/
theorem Mild.ofModify {g : Declaration → Declaration} (hg : ∀ d, trait (g d) = trait d) (slot : Nat) :
    Mild fun s => { s with declarations := s.declarations.modify slot g } := by
  refine .ofTraits (Eq.refl (Prod.snd ((⟨{}, ""⟩, false) : Site × Bool))) fun s => .inl (List.ext_getElem? fun i => ?_)
  simp only [List.getElem?_map, List.getElem?_modify]
  cases s.declarations[i]? with
  | none => simp
  | some d => by_cases h : slot = i <;> simp [h, hg]

theorem trait_merge (e d : Declaration) : trait (e.merge d) = trait e := by
  unfold Declaration.merge
  split
  · rename_i hv _
    simp [trait, Declaration.isMemberOnly, hv, VariableInfo.merge]
  · rfl

theorem trait_dropAliasName (d : Declaration) : trait d.dropAliasName = trait d := by
  unfold Declaration.dropAliasName DeclarationInfo.dropAliasName trait Declaration.isMemberOnly
  cases d.info <;> rfl

theorem trait_adjustFunction (f : FunctionInfo → FunctionInfo) (d : Declaration) : trait (d.adjustFunction f) = trait d := by
  unfold Declaration.adjustFunction
  split
  · rename_i h
    simp [trait, Declaration.isMemberOnly, h]
  · rfl

theorem map_trait_mergeInto (d : Declaration) (ds : List Declaration) : (mergeInto d ds).map trait = ds.map trait := by
  induction ds with
  | nil => rfl
  | cons e rest ih =>
    unfold mergeInto
    split
    · simp [trait_merge]
    · simp [ih]

theorem map_trait_declare (d : Declaration) (s : Symbol) : (s.declare d).declarations.map trait = s.declarations.map trait ∨
    (s.declare d).declarations.map trait = s.declarations.map trait ++ [trait d] := by
  unfold Symbol.declare
  split
  · exact .inl (map_trait_mergeInto d _)
  · split
    · rename_i h
      rw [List.isEmpty_iff] at h
      exact .inr (by simp [h])
    · exact .inr (by simp [Function.comp_def, trait_dropAliasName])

/-- A declaration that is not by member access is a mild change. -/
theorem Mild.declare {d : Declaration} (hd : d.isMemberOnly = false) : Mild fun s => s.declare d :=
    .ofTraits hd (map_trait_declare d)

theorem Gains.declare (d : Declaration) : Gains (· = d.site) fun s => s.declare d :=
  fun s e he hm => (Gains.ofTraits (map_trait_declare d) s e he hm).imp_right (congrArg Prod.fst)

/-- A symbol that stays the same: it keeps its number, and its declarations keep their order, with new ones behind them at
most. -/
structure Retains (s s' : Symbol) : Prop where
  id : s'.id = s.id
  declarations : s.declarations.map Declaration.origin <+: s'.declarations.map Declaration.origin

theorem Retains.refl (s : Symbol) : s.Retains s := ⟨rfl, List.prefix_rfl⟩

theorem Retains.trans {s s' s'' : Symbol} (h : s.Retains s') (h' : s'.Retains s'') : s.Retains s'' :=
  ⟨h'.id.trans h.id, h.declarations.trans h'.declarations⟩

theorem Retains.ofFlags (s : Symbol) (flags : SymbolFlags) : s.Retains { s with flags := flags } := ⟨rfl, List.prefix_rfl⟩

theorem Retains.ofModify {g : Declaration → Declaration} (hg : ∀ d, (g d).origin = d.origin) (slot : Nat) (s : Symbol) :
    s.Retains { s with declarations := s.declarations.modify slot g } := by
  have hmap : (s.declarations.modify slot g).map Declaration.origin = s.declarations.map Declaration.origin := by
    refine List.ext_getElem? fun i => ?_
    simp only [List.getElem?_map, List.getElem?_modify]
    cases s.declarations[i]? with
    | none => simp
    | some d => by_cases h : slot = i <;> simp [h, hg]
  exact ⟨rfl, hmap.symm ▸ List.prefix_rfl⟩

theorem origin_merge (e d : Declaration) : (e.merge d).origin = e.origin := by
  unfold Declaration.merge
  split
  · rename_i hv _
    simp [Declaration.origin, Declaration.type, DeclarationInfo.type, hv]
  · rfl

theorem origin_dropAliasName (d : Declaration) : d.dropAliasName.origin = d.origin := by
  unfold Declaration.dropAliasName DeclarationInfo.dropAliasName Declaration.origin Declaration.type
  cases d.info <;> rfl

theorem origin_adjustFunction (f : FunctionInfo → FunctionInfo) (d : Declaration) : (d.adjustFunction f).origin = d.origin := by
  unfold Declaration.adjustFunction
  split
  · rename_i h
    simp [Declaration.origin, Declaration.type, DeclarationInfo.type, h]
  · rfl

theorem map_origin_mergeInto (d : Declaration) (ds : List Declaration) :
    (mergeInto d ds).map Declaration.origin = ds.map Declaration.origin := by
  induction ds with
  | nil => rfl
  | cons e rest ih =>
    unfold mergeInto
    split
    · simp [origin_merge]
    · simp [ih]

/-- A declaration is merged into an earlier one or goes to the end. -/
theorem Retains.declare (d : Declaration) (s : Symbol) : s.Retains (s.declare d) := by
  unfold Symbol.declare
  split
  · exact ⟨rfl, (map_origin_mergeInto d s.declarations).symm ▸ List.prefix_rfl⟩
  · split
    · rename_i h
      rw [List.isEmpty_iff] at h
      exact ⟨rfl, by simp [h]⟩
    · refine ⟨rfl, ?_⟩
      simp [Function.comp_def, origin_dropAliasName]

end Symbol

/-! ## The view of a store -/

/-- A scope that keeps its kind and parent, and that may gain symbols and redirections. -/
structure Scope.GrowsTo (sc sc' : Scope) : Prop where
  type : sc'.type = sc.type
  parent : sc'.parent = sc.parent
  symbols : ∀ name s, sc.symbol? name = some s → ∃ s', sc'.symbol? name = some s' ∧ s.Retains s'
  redirections : ∀ name r, sc.redirection? name = some r → sc'.redirection? name = some r

namespace Scope.GrowsTo

variable {sc sc' sc'' : Scope}

theorem refl (sc : Scope) : sc.GrowsTo sc := ⟨rfl, rfl, fun _ s h => ⟨s, h, .refl s⟩, fun _ _ h => h⟩

theorem trans (h : sc.GrowsTo sc') (h' : sc'.GrowsTo sc'') : sc.GrowsTo sc'' := by
  refine ⟨h'.type.trans h.type, h'.parent.trans h.parent, fun n s hs => ?_,
    fun n r hn => h'.redirections n r (h.redirections n r hn)⟩
  obtain ⟨s', hs', hr⟩ := h.symbols n s hs
  obtain ⟨s'', hs'', hr'⟩ := h'.symbols n s' hs'
  exact ⟨s'', hs'', hr.trans hr'⟩

end Scope.GrowsTo

namespace Store

variable {st st' st'' : Store} {i j p : Nat} {name other : String}

/-- Whether a member is declared in one scope at a site. -/
def HasMember (st : Store) (i : Nat) (site : Site) : Prop :=
  ∃ name symbol, st.symbol? i name = some symbol ∧ (site, true) ∈ symbol.declarations.map Symbol.trait

/-- Where a name is redirected to in one scope. -/
def redirection? (st : Store) (i : Nat) (name : String) : Option Redirection := (st.scope? i).bind (·.redirection? name)

theorem scope?_isSome : (st.scope? i).isSome ↔ i < st.scopes.size := by
  simp [scope?]

theorem lt_size {sc : Scope} (h : st.scope? i = some sc) : i < st.scopes.size := scope?_isSome.1 (by simp [h])

theorem lt_size_of_type? {t : ScopeType} (h : st.type? i = some t) : i < st.scopes.size := by
  obtain ⟨sc, hsc, _⟩ := Option.map_eq_some_iff.1 h
  exact lt_size hsc

theorem lt_size_of_parent? (h : st.parent? i = some p) : i < st.scopes.size := by
  obtain ⟨sc, hsc, _⟩ := Option.bind_eq_some_iff.1 h
  exact lt_size hsc

theorem scope?_addScope (sc : Scope) : (st.addScope sc).2.scope? i = if i = st.scopes.size then some sc else st.scope? i := by
  simp [scope?, addScope, Array.getElem?_push]

theorem scope?_adjustScope (f : Scope → Scope) :
    (st.adjustScope i f).scope? j = if i = j then (st.scope? j).map f else st.scope? j := by
  simp [scope?, adjustScope, Array.getElem?_modify]

@[simp] theorem size_adjustScope (f : Scope → Scope) : (st.adjustScope i f).scopes.size = st.scopes.size := by
  simp [adjustScope]

@[simp] theorem size_addScope (sc : Scope) : (st.addScope sc).2.scopes.size = st.scopes.size + 1 := by simp [addScope]

/-- A change that keeps kind and parent of a scope is seen in its symbols and redirections only. -/
theorem type?_adjustScope {f : Scope → Scope} (hf : ∀ sc, (f sc).type = sc.type) :
    (st.adjustScope i f).type? j = st.type? j := by
  simp only [type?, scope?_adjustScope]
  split
  · cases st.scope? j <;> simp [hf]
  · rfl

theorem parent?_adjustScope {f : Scope → Scope} (hf : ∀ sc, (f sc).parent = sc.parent) :
    (st.adjustScope i f).parent? j = st.parent? j := by
  simp only [parent?, scope?_adjustScope]
  split
  · cases st.scope? j <;> simp [hf]
  · rfl

theorem symbol?_adjustScope {f : Scope → Scope} (hf : ∀ sc n, (f sc).symbol? n = sc.symbol? n) :
    (st.adjustScope i f).symbol? j name = st.symbol? j name := by
  simp only [symbol?, scope?_adjustScope]
  split
  · cases st.scope? j <;> simp [hf]
  · rfl

theorem redirection?_adjustScope {f : Scope → Scope} (hf : ∀ sc n, (f sc).redirection? n = sc.redirection? n) :
    (st.adjustScope i f).redirection? j name = st.redirection? j name := by
  simp only [redirection?, scope?_adjustScope]
  split
  · cases st.scope? j <;> simp [hf]
  · rfl

/-- A change to one symbol is seen at this symbol only. -/
theorem symbol?_adjustSymbol (f : Symbol → Symbol) :
    (st.adjustSymbol i name f).symbol? j other =
      if i = j ∧ name = other then (st.symbol? j other).map f else st.symbol? j other := by
  simp only [symbol?, adjustSymbol, scope?_adjustScope]
  by_cases hi : i = j
  · cases hsc : st.scope? j with
    | none => simp [hi]
    | some sc =>
      by_cases hn : name = other
      · simp [hi, hn, Scope.symbol?, Table.lookup_adjust_self]
      · simp [hi, hn, Scope.symbol?, Table.lookup_adjust_ne _ f (Ne.symm hn)]
  · simp [hi]

/-- A new symbol is seen under its name only. -/
theorem symbol?_setSymbol (symbol : Symbol) :
    (st.adjustScope i (·.setSymbol name symbol)).symbol? j other =
      if i = j ∧ name = other then (st.scope? j).map (fun _ => symbol) else st.symbol? j other := by
  simp only [symbol?, scope?_adjustScope]
  by_cases hi : i = j
  · cases hsc : st.scope? j with
    | none => simp [hi]
    | some sc =>
      by_cases hn : name = other
      · subst hn
        simp [hi, Scope.symbol?, Scope.setSymbol, Table.lookup_put_self]
      · simp [hi, hn, Scope.symbol?, Scope.setSymbol, Table.lookup_put_ne _ _ (Ne.symm hn)]
  · simp [hi]

theorem redirection?_adjustSymbol (f : Symbol → Symbol) :
    (st.adjustSymbol i name f).redirection? j other = st.redirection? j other := by
  unfold adjustSymbol
  exact redirection?_adjustScope fun _ _ => rfl

theorem redirection?_setSymbol (symbol : Symbol) :
    (st.adjustScope i (·.setSymbol name symbol)).redirection? j other = st.redirection? j other :=
  redirection?_adjustScope fun _ _ => rfl

theorem symbol?_redirect (r : Redirection) :
    (st.adjustScope i fun sc => (sc.redirect name r).2).symbol? j other = st.symbol? j other := by
  refine symbol?_adjustScope fun sc n => ?_
  unfold Scope.redirect
  cases sc.redirection? name <;> rfl

/-- A redirection is recorded for its name only, and not if there is one already. -/
theorem redirection?_redirect (r : Redirection) :
    (st.adjustScope i fun sc => (sc.redirect name r).2).redirection? j other =
      if i = j ∧ name = other then (st.scope? j).map (fun _ => (st.redirection? j other).getD r)
      else st.redirection? j other := by
  simp only [redirection?, scope?_adjustScope]
  by_cases hi : i = j
  · cases hsc : st.scope? j with
    | none => simp [hi]
    | some sc =>
      unfold Scope.redirect
      cases hr : sc.redirection? name with
      | some old =>
        by_cases hn : name = other
        · subst hn
          simp [hi, hr]
        · simp [hi, hn, hr]
      | none =>
        by_cases hn : name = other
        · subst hn
          simp [hi, hr]
          simp [Scope.redirection?, Table.lookup_put_self]
        · simp only [hi, hn, hr, and_false, if_true, if_false, Option.map_some, Option.bind_some]
          exact Table.lookup_put_ne _ _ (Ne.symm hn)
  · simp [hi]

theorem redirect_type (sc : Scope) (r : Redirection) : (sc.redirect name r).2.type = sc.type := by
  unfold Scope.redirect
  cases sc.redirection? name <;> rfl

theorem redirect_parent (sc : Scope) (r : Redirection) : (sc.redirect name r).2.parent = sc.parent := by
  unfold Scope.redirect
  cases sc.redirection? name <;> rfl

theorem redirect_symbols (sc : Scope) (r : Redirection) : (sc.redirect name r).2.symbols = sc.symbols := by
  unfold Scope.redirect
  cases sc.redirection? name <;> rfl

/-- To redirect a name once more changes nothing. -/
theorem redirect_eq_self {r : Redirection} (h : (st.redirection? i name).isSome) :
    st.adjustScope i (fun sc => (sc.redirect name r).2) = st := by
  have hscopes : st.scopes.modify i (fun sc => (sc.redirect name r).2) = st.scopes := by
    refine Array.ext_getElem? fun j => ?_
    rw [Array.getElem?_modify]
    split
    · rename_i hij
      subst hij
      cases hsc : st.scopes[i]? with
      | none => rfl
      | some sc =>
        have hsome : (sc.redirection? name).isSome := by simpa [redirection?, scope?, hsc] using h
        obtain ⟨old, hold⟩ := Option.isSome_iff_exists.1 hsome
        simp [Scope.redirect, hold]
    · rfl
  simp [adjustScope, hscopes]

/-! ## Growth -/

/-- A store that grows: no scope is lost, and each one grows. -/
def Grows (st st' : Store) : Prop := ∀ i sc, st.scope? i = some sc → ∃ sc', st'.scope? i = some sc' ∧ sc.GrowsTo sc'

namespace Grows

theorem refl (st : Store) : st.Grows st := fun _ sc h => ⟨sc, h, .refl sc⟩

section

variable (h : st.Grows st')
include h

theorem trans (h' : st'.Grows st'') : st.Grows st'' := by
  intro i sc hsc
  obtain ⟨sc', hsc', hg⟩ := h i sc hsc
  obtain ⟨sc'', hsc'', hg'⟩ := h' i sc' hsc'
  exact ⟨sc'', hsc'', hg.trans hg'⟩

theorem type? {t : ScopeType} (ht : st.type? i = some t) : st'.type? i = some t := by
  obtain ⟨sc, hsc, rfl⟩ := Option.map_eq_some_iff.1 ht
  obtain ⟨sc', hsc', hg⟩ := h i sc hsc
  simp [Store.type?, hsc', hg.type]

theorem type?_eq (hi : i < st.scopes.size) : st'.type? i = st.type? i := by
  obtain ⟨sc, hsc⟩ := Option.isSome_iff_exists.1 (scope?_isSome.2 hi)
  have htype : st.type? i = some sc.type := by simp [Store.type?, hsc]
  rw [h.type? htype, htype]

theorem parent? (hi : i < st.scopes.size) : st'.parent? i = st.parent? i := by
  obtain ⟨sc, hsc⟩ := Option.isSome_iff_exists.1 (scope?_isSome.2 hi)
  obtain ⟨sc', hsc', hg⟩ := h i sc hsc
  simp [Store.parent?, hsc, hsc', hg.parent]

/-- A symbol stays under its name, and it stays the same. -/
theorem retains {s : Symbol} (hs : st.symbol? i name = some s) :
    ∃ s', st'.symbol? i name = some s' ∧ s.Retains s' := by
  obtain ⟨sc, hsc, hn⟩ := Option.bind_eq_some_iff.1 hs
  obtain ⟨sc', hsc', hg⟩ := h i sc hsc
  simpa [Store.symbol?, hsc'] using hg.symbols name s hn

theorem symbol? (hs : (st.symbol? i name).isSome) : (st'.symbol? i name).isSome := by
  obtain ⟨s, hsym⟩ := Option.isSome_iff_exists.1 hs
  obtain ⟨s', hs', _⟩ := h.retains hsym
  simp [hs']

theorem redirection? {r : Redirection} (hr : st.redirection? i name = some r) :
    st'.redirection? i name = some r := by
  obtain ⟨sc, hsc, hn⟩ := Option.bind_eq_some_iff.1 hr
  obtain ⟨sc', hsc', hg⟩ := h i sc hsc
  simpa [Store.redirection?, hsc'] using hg.redirections name r hn

theorem size_le : st.scopes.size ≤ st'.scopes.size := by
  by_contra hlt
  obtain ⟨sc, hsc⟩ := Option.isSome_iff_exists.1 (scope?_isSome.2 (not_le.1 hlt))
  obtain ⟨sc', hsc', _⟩ := h _ sc hsc
  exact absurd (lt_size hsc') (lt_irrefl _)

end

/-- A change to one scope under which the scope grows. -/
theorem ofAdjustScope {f : Scope → Scope} (hf : ∀ sc, st.scope? i = some sc → sc.GrowsTo (f sc)) :
    st.Grows (st.adjustScope i f) := by
  intro j sc hsc
  rw [scope?_adjustScope]
  split
  · rename_i hij
    subst hij
    exact ⟨f sc, by simp [hsc], hf sc hsc⟩
  · exact ⟨sc, hsc, .refl sc⟩

theorem addScope (sc : Scope) : st.Grows (st.addScope sc).2 := by
  intro j old hold
  have hj := lt_size hold
  exact ⟨old, by rw [scope?_addScope, if_neg (by omega)]; exact hold, .refl old⟩

theorem adjustSymbol (hf : ∀ s : Symbol, s.Retains (f s)) : st.Grows (st.adjustSymbol i name f) := by
  refine ofAdjustScope fun sc _ => ⟨rfl, rfl, fun n s hs => ?_, fun _ _ h => h⟩
  by_cases h : n = name
  · subst h
    exact ⟨f s, by simpa [Scope.symbol?, Table.lookup_adjust_self] using ⟨s, hs, rfl⟩, hf s⟩
  · exact ⟨s, by simpa [Scope.symbol?, Table.lookup_adjust_ne _ f h] using hs, .refl s⟩

/-- A name that is new to a scope hides nothing. -/
theorem setSymbol (symbol : Symbol) (hnone : st.symbol? i name = none) :
    st.Grows (st.adjustScope i (·.setSymbol name symbol)) := by
  refine ofAdjustScope fun sc hsc => ⟨rfl, rfl, fun n s hs => ⟨s, ?_, .refl s⟩, fun _ _ h => h⟩
  by_cases h : n = name
  · subst h
    simp [Store.symbol?, hsc, hs] at hnone
  · simpa [Scope.symbol?, Scope.setSymbol, Table.lookup_put_ne _ _ h] using hs

theorem redirect (r : Redirection) : st.Grows (st.adjustScope i fun sc => (sc.redirect name r).2) := by
  refine ofAdjustScope fun sc _ => ⟨redirect_type sc r, redirect_parent sc r, fun n s hs => ⟨s, ?_, .refl s⟩, fun n old h => ?_⟩
  · simpa [Scope.symbol?, redirect_symbols] using hs
  · unfold Scope.redirect
    cases hr : sc.redirection? name with
    | some _ => exact h
    | none =>
      have hne : n ≠ name := fun heq => by simp [heq, hr] at h
      simpa [Scope.redirection?, Table.lookup_put_ne _ _ hne] using h

end Grows

/-- A store in which every parent is a scope. -/
def Closed (st : Store) : Prop := ∀ i p, st.parent? i = some p → p < st.scopes.size

/-- A store that gains scopes and keeps those that it has. -/
structure Extends (st st' : Store) : Prop where
  scope? : ∀ i, i < st.scopes.size → st'.scope? i = st.scope? i
  size_le : st.scopes.size ≤ st'.scopes.size

namespace Extends

section

variable (h : st.Extends st')
include h

theorem grows : st.Grows st' := fun i sc hsc => ⟨sc, (h.scope? i (lt_size hsc)).trans hsc, .refl sc⟩

theorem parent? (hi : i < st.scopes.size) : st'.parent? i = st.parent? i := by
  simp only [Store.parent?, h.scope? i hi]

theorem type? (hi : i < st.scopes.size) : st'.type? i = st.type? i := by
  simp only [Store.type?, h.scope? i hi]

theorem symbol? (hi : i < st.scopes.size) : st'.symbol? i name = st.symbol? i name := by
  simp only [Store.symbol?, h.scope? i hi]

theorem redirection? (hi : i < st.scopes.size) :
    st'.redirection? i name = st.redirection? i name := by
  simp only [Store.redirection?, h.scope? i hi]

end

theorem addScope (sc : Scope) : st.Extends (st.addScope sc).2 :=
  ⟨fun i hi => by rw [scope?_addScope, if_neg (by omega)], by simp⟩

end Extends

/-! ## Climbing -/

/-- Whether a scope is another one or stands, by any number of steps, in it. -/
def Climbs (st : Store) : Nat → Nat → Prop := Relation.ReflTransGen fun i p => st.parent? i = some p

namespace Climbs

theorem refl (st : Store) (i : Nat) : st.Climbs i i := Relation.ReflTransGen.refl

theorem trans (h : st.Climbs i j) (h' : st.Climbs j p) : st.Climbs i p := Relation.ReflTransGen.trans h h'

theorem step (h : st.parent? i = some p) (h' : st.Climbs p j) : st.Climbs i j := Relation.ReflTransGen.head h h'

theorem mono (h : st.Climbs i j) (hg : st.Grows st') : st'.Climbs i j := by
  induction h with
  | refl => exact refl _ _
  | tail _ hp ih => exact Relation.ReflTransGen.tail ih ((hg.parent? (lt_size_of_parent? hp)).trans hp)

/-- A climb stays, or it goes through the parent. -/
theorem cases_head (h : st.Climbs i j) : i = j ∨ ∃ p, st.parent? i = some p ∧ st.Climbs p j :=
  Relation.ReflTransGen.cases_head h

/-- Of two scopes above a scope one is above the other. -/
theorem total (h : st.Climbs i j) (h' : st.Climbs i p) : st.Climbs j p ∨ st.Climbs p j :=
  Relation.ReflTransGen.total_of_right_unique (fun _ _ _ hb hc => Option.some.inj (hb.symm.trans hc)) h h'

/-- A climb within the scopes of an older store. -/
theorem back (h : st'.Climbs i j) (he : st.Extends st') (hc : st.Closed) (hi : i < st.scopes.size) : st.Climbs i j := by
  induction h using Relation.ReflTransGen.head_induction_on with
  | refl => exact refl _ _
  | head hstep _ ih =>
    rw [he.parent? hi] at hstep
    exact step hstep (ih (hc _ _ hstep))

end Climbs

/-- A climb to a scope that a test accepts ends at or above the scope it starts from. -/
theorem climbTo_eq_some {accept : ScopeType → Bool} : ∀ {bound i c : Nat}, st.climbTo accept bound i = some c →
    st.Climbs i c ∧ ∃ type, st.type? c = some type ∧ accept type = true := by
  intro bound
  induction bound with
  | zero => intro i c h; cases h
  | succ bound ih =>
    intro i c h
    rw [climbTo] at h
    cases hsc : st.scope? i with
    | none => simp [hsc] at h
    | some sc =>
      simp only [hsc] at h
      split at h
      · rename_i haccept
        cases h
        exact ⟨.refl _ _, sc.type, by simp [Store.type?, hsc], haccept⟩
      · cases hp : sc.parent with
        | none => simp [hp] at h
        | some p =>
          rw [hp] at h
          obtain ⟨hclimb, htype⟩ := ih h
          exact ⟨.step (by simp [Store.parent?, hsc, hp]) hclimb, htype⟩

theorem climbs_of_globalScope {g : Nat} (h : st.globalScope i = .ok g) : st.Climbs i g := by
  unfold globalScope at h
  split at h
  · rename_i hc
    cases h
    exact (climbTo_eq_some hc).1
  · cases h

end Store

end ScopeFlow
