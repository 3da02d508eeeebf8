import ScopeFlow.Proofs.Twins

/-!
# Stores under other labels

A relabelling gives symbols other numbers, by where they stand, and other marks of private members. Binding reads neither, so a
relabelled store looks like the store, and what is done to a store can as well be done to the relabelled one: scopes are added,
names redirected, symbols added and changed.
-/

namespace ScopeFlow

/-! ## Symbols -/

/-- The symbol with another number and another mark of a private member. -/
def Symbol.relabel (s : Symbol) (id : Int) (privateMember : Bool) : Symbol :=
  { s with id := id, flags := { s.flags with privateMember := privateMember } }

/-- Whether a change of a symbol neither reads nor changes its number and its mark of a private member. -/
def Symbol.Blind (f : Symbol → Symbol) : Prop :=
  ∀ s id privateMember, f (s.relabel id privateMember) = (f s).relabel id privateMember

namespace Symbol.Blind

theorem declare (d : Declaration) : Symbol.Blind fun s => s.declare d := by
  intro s id privateMember
  unfold Symbol.declare Symbol.relabel
  dsimp only
  split
  · rfl
  · split <;> rfl

variable {f : Symbol → Symbol} {st st' : Store}

/-- What is changed blindly keeps its labels. -/
theorem relabel_self (h : Symbol.Blind f) (s : Symbol) : f s = (f s).relabel s.id s.flags.privateMember :=
  h s s.id s.flags.privateMember

theorem id_eq (h : Symbol.Blind f) (s : Symbol) : (f s).id = s.id := by
  rw [h.relabel_self]
  rfl

theorem privateMember_eq (h : Symbol.Blind f) (s : Symbol) : (f s).flags.privateMember = s.flags.privateMember := by
  rw [h.relabel_self]
  rfl

end Symbol.Blind

theorem Symbol.like_relabel (s : Symbol) (id : Int) (privateMember : Bool) : s.Like (s.relabel id privateMember) :=
    ⟨rfl, rfl, rfl⟩

/-! ## Tables -/

namespace Table

variable {α β : Type}

/-- The table with other values under the same names. -/
def mapValues (g : String → α → β) (t : Table α) : Table β := t.map fun e => (e.1, g e.1 e.2)

theorem lookup_mapValues (g : String → α → β) (t : Table α) (name : String) :
    (t.mapValues g).lookup name = (t.lookup name).map (g name) := by
  induction t with
  | nil => rfl
  | cons e t ih =>
    obtain ⟨n, v⟩ := e
    simp only [mapValues, List.map_cons, List.lookup_cons] at ih ⊢
    cases hn : name == n with
    | false => exact ih
    | true =>
      obtain rfl : name = n := by simpa using hn
      rfl

theorem mapValues_put (g : String → α → β) (t : Table α) (name : String) (value : α) :
    (t.put name value).mapValues g = (t.mapValues g).put name (g name value) := by
  induction t with
  | nil => rfl
  | cons e t ih =>
    obtain ⟨n, v⟩ := e
    simp only [mapValues, List.map_cons, put] at ih ⊢
    split
    · rename_i hn
      subst hn
      rfl
    · simp [ih]

theorem mapValues_adjust {g : String → α → α} {f : α → α} (t : Table α) {name : String} (h : ∀ v, g name (f v) = f (g name v)) :
    (t.adjust name f).mapValues g = (t.mapValues g).adjust name f := by
  induction t with
  | nil => rfl
  | cons e t ih =>
    obtain ⟨n, v⟩ := e
    simp only [mapValues, List.map_cons, adjust] at ih ⊢
    split
    · rename_i hn
      subst hn
      simp [h]
    · simp [ih]

end Table

/-! ## Relabellings -/

/-- Other numbers, by the place of a symbol, and other marks of private members. -/
structure Relabelling where
  id : Nat → String → Int → Int
  mark : Bool → Bool

namespace Relabelling

/-- The labels stay as they are. -/
def same : Relabelling := ⟨fun _ _ a => a, fun b => b⟩

/-- No symbol is marked as a private member. -/
def unmark : Relabelling := ⟨fun _ _ a => a, fun _ => false⟩

variable (g : Relabelling)

/-- The symbol of a name in a scope under other labels. -/
def symbol (i : Nat) (name : String) (s : Symbol) : Symbol := s.relabel (g.id i name s.id) (g.mark s.flags.privateMember)

/-- The scope with a number under other labels. -/
def scope (i : Nat) (sc : Scope) : Scope := { sc with symbols := sc.symbols.mapValues (g.symbol i) }

/-- The store under other labels. -/
def store (st : Store) : Store := { st with scopes := st.scopes.mapIdx g.scope }

/-- A change that does not look at labels can be made under other labels. -/
theorem symbol_blind {f : Symbol → Symbol} (h : Symbol.Blind f) (i : Nat) (name : String) (s : Symbol) :
    g.symbol i name (f s) = f (g.symbol i name s) := by
  simp only [symbol, h _ _ _, h.id_eq, h.privateMember_eq]

variable {g}

@[simp] theorem scope?_store (st : Store) (i : Nat) : (g.store st).scope? i = (st.scope? i).map (g.scope i) := by
  simp [Store.scope?, store]

@[simp] theorem size_store (st : Store) : (g.store st).scopes.size = st.scopes.size := by simp [store]

@[simp] theorem symbol?_store (st : Store) (i : Nat) (name : String) :
    (g.store st).symbol? i name = (st.symbol? i name).map (g.symbol i name) := by
  simp only [Store.symbol?, scope?_store]
  cases st.scope? i with
  | none => rfl
  | some sc => exact Table.lookup_mapValues _ _ _

theorem nextFlowId_of_store_eq (h : g.store st' = g.store st) : st'.nextFlowId = st.nextFlowId := by
  rw [show st'.nextFlowId = (g.store st').nextFlowId from rfl, h]
  rfl

theorem nextSymbolId_of_store_eq (h : g.store st' = g.store st) : st'.nextSymbolId = st.nextSymbolId := by
  rw [show st'.nextSymbolId = (g.store st').nextSymbolId from rfl, h]
  rfl

theorem like_scope (i : Nat) (sc : Scope) : sc.Like (g.scope i sc) := by
  refine ⟨rfl, rfl, rfl, ?_⟩
  rw [scope, Table.mapValues, List.forall₂_map_right_iff]
  exact List.forall₂_same.2 fun e _ => ⟨rfl, Symbol.like_relabel _ _ _⟩

theorem like_store (st : Store) : st.Like (g.store st) := by
  refine ⟨size_store st, fun i => ?_⟩
  rw [scope?_store]
  cases st.scope? i with
  | none => exact .none
  | some sc => exact .some (like_scope i sc)

/-- Scopes that are the same under other labels look alike. -/
theorem like_of_scope_eq {i : Nat} {sc sc' : Scope} (h : g.scope i sc' = g.scope i sc) : sc.Like sc' := by
  obtain ⟨type, parent, symbols, redirections⟩ := sc
  obtain ⟨type', parent', symbols', redirections'⟩ := sc'
  simp only [scope, Scope.mk.injEq] at h
  obtain ⟨rfl, rfl, hsymbols, rfl⟩ := h
  refine ⟨rfl, rfl, rfl, ?_⟩
  rw [← List.forall₂_eq_eq_eq, Table.mapValues, Table.mapValues, List.forall₂_map_left_iff,
    List.forall₂_map_right_iff] at hsymbols
  refine (hsymbols.imp fun e e' he => ?_).flip
  obtain ⟨hname, hsymbol⟩ := Prod.mk.inj he
  have hhidden : (g.symbol i e.1 e.2).isHidden = (g.symbol i e'.1 e'.2).isHidden := by rw [hsymbol]
  have hmember : (g.symbol i e.1 e.2).flags.classMember = (g.symbol i e'.1 e'.2).flags.classMember := by rw [hsymbol]
  have hdeclarations : (g.symbol i e.1 e.2).declarations = (g.symbol i e'.1 e'.2).declarations := by rw [hsymbol]
  exact ⟨hname, hhidden, hmember, hdeclarations⟩

/-- Stores that are the same under other labels look alike. -/
theorem like_of_store_eq (h : g.store st' = g.store st) : st.Like st' := by
  have hsize : st'.scopes.size = st.scopes.size := by rw [← size_store st', h, size_store]
  refine ⟨hsize, fun i => ?_⟩
  have hi : (st'.scope? i).map (g.scope i) = (st.scope? i).map (g.scope i) := by rw [← scope?_store, h, scope?_store]
  generalize st.scope? i = x at hi
  generalize st'.scope? i = y at hi
  cases x with
  | none =>
    rw [Option.map_eq_none_iff.1 hi]
    exact .none
  | some sc =>
    obtain ⟨sc', rfl, hsc⟩ := Option.map_eq_some_iff.1 hi
    refine .some (like_of_scope_eq hsc)

theorem store_same (st : Store) : Relabelling.same.store st = st := by
  have hscope : ∀ (i : Nat) (sc : Scope), Relabelling.same.scope i sc = sc := fun i sc => by
    have hvalues : sc.symbols.mapValues (Relabelling.same.symbol i) = sc.symbols := List.map_id' sc.symbols
    rw [scope, hvalues]
  have hscopes : st.scopes.mapIdx Relabelling.same.scope = st.scopes := by
    refine Array.ext_getElem? fun i => ?_
    rw [Array.getElem?_mapIdx]
    cases st.scopes[i]? with
    | none => rfl
    | some sc => rw [Option.map_some, hscope]
  rw [store, hscopes]

theorem store_addScope (st : Store) (type : ScopeType) (parent : Option Nat) :
    g.store (st.addScope { type := type, parent := parent }).2 =
      ((g.store st).addScope { type := type, parent := parent }).2 := by
  simp [store, Store.addScope, scope, Table.mapValues]

/-- A change of a scope that can be made under other labels can be made to the relabelled store. -/
theorem store_adjustScope {f f' : Scope → Scope} (st : Store) {i : Nat} (hf : ∀ sc, g.scope i (f sc) = f' (g.scope i sc)) :
    g.store (st.adjustScope i f) = (g.store st).adjustScope i f' := by
  simp only [store, Store.adjustScope]
  congr 1
  refine Array.ext_getElem? fun j => ?_
  simp only [Array.getElem?_mapIdx, Array.getElem?_modify]
  split
  · rename_i hj
    subst hj
    cases st.scopes[i]? with
    | none => rfl
    | some sc => simp [hf]
  · rfl

theorem store_setSymbol (st : Store) (i : Nat) (name : String) (s : Symbol) :
    g.store (st.adjustScope i fun sc => sc.setSymbol name s) =
      (g.store st).adjustScope i fun sc => sc.setSymbol name (g.symbol i name s) :=
  store_adjustScope st fun sc => by simp [scope, Scope.setSymbol, Table.mapValues_put]

theorem store_adjustSymbol (st : Store) (i : Nat) (name : String) {f : Symbol → Symbol} (hf : Symbol.Blind f) :
    g.store (st.adjustSymbol i name f) = (g.store st).adjustSymbol i name f :=
  store_adjustScope st fun sc => by simp [scope, Table.mapValues_adjust _ (g.symbol_blind hf i name)]

theorem store_redirect (st : Store) (i : Nat) (name : String) (r : Redirection) :
    g.store (st.adjustScope i fun sc => (sc.redirect name r).2) = (g.store st).adjustScope i fun sc =>
      (sc.redirect name r).2 := by
  refine store_adjustScope st fun sc => ?_
  simp only [Scope.redirect, Scope.redirection?, scope]
  split <;> rfl

end Relabelling

end ScopeFlow
