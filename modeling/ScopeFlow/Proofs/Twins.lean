import ScopeFlow.Proofs.Run
import ScopeFlow.Proofs.Stores

/-!
# Two runs side by side

Two steps are alike (`Alike`) under a relation between states if, from related states, they end in the same way: with related
answers and related states, or with the same fault and related states. Steps that are put together from alike steps in the same
order are alike, so a fact about two runs follows from what the primitive steps do.

With equality and an invariant as the relation, the two runs are one, and the fact is that the run keeps the invariant, also if it
fails.

Stores look alike (`Store.Like`) if they differ at most in what binding does not read, the numbers of symbols among it; what
binding reads from a store it reads from any store that looks alike.
-/

namespace ScopeFlow

/-! ## Runs that end in the same way -/

section

variable {σ τ : Type} {α β γ δ : Type} {R : σ → τ → Prop} {V : α → β → Prop} {W : γ → δ → Prop} {l : β → EStateM Fault τ δ}
  {k : α → EStateM Fault σ γ} {g : EStateM Fault τ β} {f : EStateM Fault σ α}

/-- Two runs end in the same way. -/
inductive Meets (R : σ → τ → Prop) (V : α → β → Prop) : EStateM.Result Fault σ α → EStateM.Result Fault τ β → Prop where
  | ok {a : α} {b : β} {s : σ} {t : τ} : V a b → R s t → Meets R V (.ok a s) (.ok b t)
  | error {fault : Fault} {s : σ} {t : τ} : R s t → Meets R V (.error fault s) (.error fault t)

/-- From related states two steps end in the same way. -/
def Alike (R : σ → τ → Prop) (V : α → β → Prop) (f : EStateM Fault σ α) (g : EStateM Fault τ β) : Prop :=
  ∀ ⦃s t⦄, R s t → Meets R V (f.run s) (g.run t)

/-- Alike steps with the same answer. -/
abbrev Mirrors (R : σ → τ → Prop) (f : EStateM Fault σ α) (g : EStateM Fault τ α) : Prop := Alike R Eq f g

theorem Meets.imp {V' : α → β → Prop} {x : EStateM.Result Fault σ α} {y : EStateM.Result Fault τ β} (h : Meets R V x y)
    (hv : ∀ a b, V a b → V' a b) : Meets R V' x y := by
  cases h with
  | ok ha hs => exact .ok (hv _ _ ha) hs
  | error hs => exact .error hs

theorem Meets.mono {R' : σ → τ → Prop} {x : EStateM.Result Fault σ α} {y : EStateM.Result Fault τ β} (h : Meets R V x y)
    (hr : ∀ s t, R s t → R' s t) : Meets R' V x y := by
  cases h with
  | ok ha hs => exact .ok ha (hr _ _ hs)
  | error hs => exact .error (hr _ _ hs)

/-- What follows after runs that end in the same way ends in the same way, if it does so from the states they end in. -/
theorem Meets.andThen {Q : σ → τ → Prop}
    {s : σ} {t : τ} (h : Meets Q V (f.run s) (g.run t)) (hq : ∀ s t, Q s t → R s t)
    (hk : ∀ a b s t, V a b → Q s t → Meets R W ((k a).run s) ((l b).run t)) :
    Meets R W ((f >>= k).run s) ((g >>= l).run t) := by
  show Meets R W (EStateM.bind f k s) (EStateM.bind g l t)
  change Meets Q V (f s) (g t) at h
  unfold EStateM.bind
  cases hf : f s <;> cases hg : g t <;> rw [hf, hg] at h <;> cases h
  case ok.ok.ok ha hs => exact hk _ _ _ _ ha hs
  case error.error.error hs => exact .error (hq _ _ hs)

theorem Meets.bind
    {s : σ} {t : τ} (h : Meets R V (f.run s) (g.run t)) (hk : ∀ a b, V a b → Alike R W (k a) (l b)) :
    Meets R W ((f >>= k).run s) ((g >>= l).run t) :=
  h.andThen (fun _ _ => id) fun a b _ _ hab hs => hk a b hab hs

namespace Alike

theorem pure {a : α} {b : β} (h : V a b) : Alike R V (Pure.pure a) (Pure.pure b) := fun _ _ hs => .ok h hs

theorem throw (fault : Fault) : Alike R V (MonadExcept.throw fault) (MonadExcept.throw fault) := fun _ _ hs => .error hs

theorem bind
    (hf : Alike R V f g) (hk : ∀ a b, V a b → Alike R W (k a) (l b)) : Alike R W (f >>= k) (g >>= l) :=
  fun _ _ hs => (hf hs).bind hk

/-- One step after another, if the first gives the same answer. -/
theorem seq {g : EStateM Fault τ α} {l : α → EStateM Fault τ δ}
    (hf : Mirrors R f g) (hk : ∀ a, Alike R W (k a) (l a)) : Alike R W (f >>= k) (g >>= l) :=
  hf.bind fun a _ hab => hab ▸ hk a

theorem map {p : α → γ} {q : β → δ} (hf : Alike R V f g)
    (h : ∀ a b, V a b → W (p a) (q b)) : Alike R W (p <$> f) (q <$> g) := by
  intro s t hs
  show Meets R W (EStateM.map p f s) (EStateM.map q g t)
  have hfg : Meets R V (f s) (g t) := hf hs
  unfold EStateM.map
  cases hx : f s <;> cases hy : g t <;> rw [hx, hy] at hfg <;> cases hfg
  case ok.ok.ok ha hs => exact .ok (h _ _ ha) hs
  case error.error.error hs => exact .error hs

theorem discard (hf : Alike R V f g) :
    Mirrors R (Functor.discard f : EStateM Fault σ Unit) (Functor.discard g : EStateM Fault τ Unit) :=
  hf.map fun _ _ _ => rfl

theorem ite {c : Prop} [Decidable c] {f f' : EStateM Fault σ α} {g g' : EStateM Fault τ β} (h : Alike R V f g)
    (h' : Alike R V f' g') : Alike R V (if c then f else f') (if c then g else g') := by
  split
  · exact h
  · exact h'

/-- A step that is taken under a condition, in front of what follows in any case. -/
theorem when {c : Prop} [Decidable c] {f : EStateM Fault σ PUnit} {g : EStateM Fault τ PUnit} {k : PUnit → EStateM Fault σ γ}
    {l : PUnit → EStateM Fault τ δ} (hf : Mirrors R f g) (hk : ∀ x, Alike R W (k x) (l x)) :
    Alike R W (if c then f >>= k else k ⟨⟩) (if c then g >>= l else l ⟨⟩) := ite (seq hf hk) (hk _)

theorem forM {f : α → EStateM Fault σ Unit} {g : α → EStateM Fault τ Unit} {xs : List α}
    (h : ∀ x ∈ xs, Mirrors R (f x) (g x)) : Mirrors R (xs.forM f) (xs.forM g) := by
  induction xs with
  | nil => exact pure rfl
  | cons x xs ih => exact seq (h x (by simp)) fun _ => ih fun y hy => h y (by simp [hy])

/-- What is read from related states is handed on with what the relation says of it. -/
theorem read {k : σ → EStateM Fault σ γ} {l : τ → EStateM Fault τ δ}
    (h : ∀ s t, R s t → Meets R W ((k s).run s) ((l t).run t)) : Alike R W (get >>= k) (get >>= l) :=
  fun s t hs => h s t hs

theorem ofModify {f : σ → σ} {g : τ → τ} (h : ∀ s t, R s t → R (f s) (g t)) :
    Mirrors R (modify f : EStateM Fault σ PUnit) (modify g : EStateM Fault τ PUnit) :=
  fun s t hs => .ok rfl (h s t hs)

end Alike

end

/-! ## Stores that look alike -/

/-- Symbols that differ at most in what binding does not read: their numbers and some flags. -/
structure Symbol.Like (s t : Symbol) : Prop where
  isHidden : t.isHidden = s.isHidden
  classMember : t.flags.classMember = s.flags.classMember
  declarations : t.declarations = s.declarations

/-- Scopes whose symbols differ at most in what binding does not read. -/
structure Scope.Like (a b : Scope) : Prop where
  type : b.type = a.type
  parent : b.parent = a.parent
  redirections : b.redirections = a.redirections
  symbols : List.Forall₂ (fun p q => q.1 = p.1 ∧ p.2.Like q.2) a.symbols b.symbols

/-- Stores that binding cannot tell apart. -/
structure Store.Like (st st' : Store) : Prop where
  size : st'.scopes.size = st.scopes.size
  scope? : ∀ i, Option.Rel Scope.Like (st.scope? i) (st'.scope? i)

theorem Symbol.Like.refl (s : Symbol) : s.Like s := ⟨rfl, rfl, rfl⟩

theorem Scope.Like.refl (a : Scope) : a.Like a := ⟨rfl, rfl, rfl, List.forall₂_same.2 fun p _ => ⟨rfl, .refl p.2⟩⟩

theorem Store.Like.refl (st : Store) : st.Like st := by
  refine ⟨rfl, fun i => ?_⟩
  cases st.scope? i with
  | none => exact .none
  | some sc => exact .some (.refl sc)

theorem Scope.Like.symbol? {a b : Scope} (h : a.Like b) (name : String) :
    Option.Rel Symbol.Like (a.symbol? name) (b.symbol? name) := by
  have hsymbols := h.symbols
  unfold Scope.symbol?
  generalize a.symbols = ps at hsymbols
  generalize b.symbols = qs at hsymbols
  induction hsymbols with
  | nil => exact .none
  | @cons p q ps qs hpq _ ih =>
    obtain ⟨n, x⟩ := p
    obtain ⟨n', y⟩ := q
    obtain ⟨rfl, hxy⟩ : n' = n ∧ x.Like y := hpq
    rw [List.lookup_cons, List.lookup_cons]
    split
    · exact .some hxy
    · exact ih

namespace Store

/-- Numbers of one symbol in two stores. -/
def SameId (st st' : Store) (a b : Int) : Prop :=
  ∃ i name x y, st.symbol? i name = some x ∧ st'.symbol? i name = some y ∧ x.id = a ∧ y.id = b

/-- In one store a symbol has one number. -/
theorem SameId.eq {st : Store} {a b : Int} (h : SameId st st a b) : a = b := by
  obtain ⟨i, name, x, y, hx, hy, rfl, rfl⟩ := h
  rw [hx] at hy
  cases hy
  rfl

/-- Where a look-up of a name goes on that has nothing to find in a scope. -/
def next (st : Store) (sc : Scope) (i : Nat) (name : String) : Except Fault (Option Nat) :=
  if sc.redirection? name = some .global then (st.globalScope i).map some else .ok sc.parent

/-- A look-up ends at a symbol that can be seen, or it goes on. -/
theorem lookUpFrom_succ (st : Store) (name : String) (bound i : Nat) (outside beyond : Bool) :
    st.lookUpFrom name (bound + 1) i outside beyond = (st.scope? i).elim (.ok none) fun sc =>
      let climb := (st.next sc i name).bind fun next => next.elim (.ok none) fun p =>
        st.lookUpFrom name bound p (outside || sc.type == .moduleBody) (beyond || sc.type.runsAlone)
      (sc.symbol? name).elim climb fun symbol =>
        if outside && symbol.isHidden then .ok none
        else if symbol.isBareName then .ok (some ⟨i, symbol, outside, beyond⟩) else climb := by
  rw [lookUpFrom]
  cases hsc : st.scope? i with
  | none => rfl
  | some sc =>
    dsimp only [Option.elim_some, next]
    cases hs : sc.symbol? name with
    | none =>
      rcases sc.redirection? name with _ | _ | _
      · cases sc.parent <;> rfl
      · cases sc.parent <;> rfl
      · cases st.globalScope i <;> rfl
    | some symbol =>
      dsimp only [Option.elim_some]
      congr 2
      rcases sc.redirection? name with _ | _ | _
      · cases sc.parent <;> rfl
      · cases sc.parent <;> rfl
      · cases st.globalScope i <;> rfl

/-- Where a look-up goes on is above the scope. -/
theorem climbs_of_next {st : Store} {sc : Scope} {i p : Nat} {name : String} (hsc : st.scope? i = some sc)
    (h : st.next sc i name = .ok (some p)) : st.Climbs i p := by
  unfold next at h
  split at h
  · cases hg : st.globalScope i with
    | error fault => rw [hg] at h; cases h
    | ok g =>
      rw [hg] at h
      cases h
      exact climbs_of_globalScope hg
  · exact .step (by simpa [Store.parent?, hsc] using h) (.refl _ _)

/-- A name that is found is the symbol of a scope at or above the one that the look-up starts from. -/
theorem climbs_of_lookUpFrom {st : Store} {name : String} {found : Found} : ∀ {bound i : Nat} {outside beyond : Bool},
    st.lookUpFrom name bound i outside beyond = .ok (some found) →
    st.Climbs i found.scope ∧ st.symbol? found.scope name = some found.symbol := by
  intro bound
  induction bound with
  | zero => intro i outside beyond h; cases h
  | succ bound ih =>
    intro i outside beyond h
    rw [lookUpFrom_succ] at h
    cases hsc : st.scope? i with
    | none => rw [hsc] at h; cases h
    | some sc =>
      rw [hsc] at h
      dsimp only [Option.elim_some] at h
      have hclimb : ∀ {o b : Bool}, ((st.next sc i name).bind fun next => next.elim (.ok none) fun p =>
          st.lookUpFrom name bound p o b) = .ok (some found) →
          st.Climbs i found.scope ∧ st.symbol? found.scope name = some found.symbol := by
        intro o b hnext
        rcases hn : st.next sc i name with fault | _ | p <;> rw [hn] at hnext
        · cases hnext
        · cases hnext
        · exact ⟨(climbs_of_next hsc hn).trans (ih hnext).1, (ih hnext).2⟩
      cases hs : sc.symbol? name with
      | none => exact hclimb (by rw [hs] at h; exact h)
      | some symbol =>
        rw [hs] at h
        dsimp only [Option.elim_some] at h
        split at h
        · cases h
        · split at h
          · cases h
            exact ⟨.refl _ _, by simp [Store.symbol?, hsc, hs]⟩
          · exact hclimb h

namespace Like

variable {st st' : Store}

section

variable (h : st.Like st')
include h

theorem symbol? (i : Nat) (name : String) :
    Option.Rel Symbol.Like (st.symbol? i name) (st'.symbol? i name) := by
  have hi := h.scope? i
  unfold Store.symbol?
  cases hx : st.scope? i <;> cases hy : st'.scope? i <;> rw [hx, hy] at hi <;> cases hi
  case none.none.none => exact .none
  case some.some.some hsc => exact hsc.symbol? name

theorem isSome_symbol? (i : Nat) (name : String) :
    (st'.symbol? i name).isSome = (st.symbol? i name).isSome := by
  have hs := h.symbol? i name
  cases hx : st.symbol? i name <;> cases hy : st'.symbol? i name <;> rw [hx, hy] at hs <;> cases hs
  rfl

theorem type? (i : Nat) : st'.type? i = st.type? i := by
  have hi := h.scope? i
  unfold Store.type?
  cases hx : st.scope? i <;> cases hy : st'.scope? i <;> rw [hx, hy] at hi <;> cases hi
  case some.some.some hsc => simp [hsc.type]

theorem parent? (i : Nat) : st'.parent? i = st.parent? i := by
  have hi := h.scope? i
  unfold Store.parent?
  cases hx : st.scope? i <;> cases hy : st'.scope? i <;> rw [hx, hy] at hi <;> cases hi
  case some.some.some hsc => simp [hsc.parent]

theorem redirection? (i : Nat) (name : String) :
    (st'.scope? i).bind (·.redirection? name) = (st.scope? i).bind (·.redirection? name) := by
  have hi := h.scope? i
  cases hx : st.scope? i <;> cases hy : st'.scope? i <;> rw [hx, hy] at hi <;> cases hi
  case some.some.some hsc => simp [Scope.redirection?, hsc.redirections]

theorem climbTo (accept : ScopeType → Bool) : ∀ bound i : Nat,
    st'.climbTo accept bound i = st.climbTo accept bound i := by
  intro bound
  induction bound with
  | zero => intro i; rfl
  | succ bound ih =>
    intro i
    have hi := h.scope? i
    simp only [Store.climbTo]
    cases hx : st.scope? i <;> cases hy : st'.scope? i <;> rw [hx, hy] at hi <;> cases hi
    case some.some.some hsc => simp only [hsc.type, hsc.parent, ih]

theorem globalScope (i : Nat) : st'.globalScope i = st.globalScope i := by
  simp only [Store.globalScope, h.climbTo, h.size]

/-- A name is found in the same scope, or a look-up fails in the same way. -/
theorem lookUpFrom (name : String) : ∀ (bound i : Nat) (outside beyond : Bool),
    (st'.lookUpFrom name bound i outside beyond).map (Option.map Found.scope) =
      (st.lookUpFrom name bound i outside beyond).map (Option.map Found.scope) := by
  intro bound
  induction bound with
  | zero => intro i outside beyond; rfl
  | succ bound ih =>
    intro i outside beyond
    have hi := h.scope? i
    simp only [lookUpFrom_succ]
    cases hx : st.scope? i <;> cases hy : st'.scope? i <;> rw [hx, hy] at hi <;> cases hi
    case none.none.none => rfl
    case some.some.some sc sc' hsc =>
      dsimp only [Option.elim_some]
      have hredirection : sc'.redirection? name = sc.redirection? name := by rw [Scope.redirection?, hsc.redirections]; rfl
      have hnext : st'.next sc' i name = st.next sc i name := by
        rw [Store.next, hredirection, hsc.parent, h.globalScope, Store.next]
      have hclimb : ∀ o b : Bool, ((st'.next sc' i name).bind fun next => next.elim (.ok none) fun p =>
          st'.lookUpFrom name bound p o b).map (Option.map Found.scope) = ((st.next sc i name).bind fun next =>
            next.elim (.ok none) fun p => st.lookUpFrom name bound p o b).map (Option.map Found.scope) := by
        intro o b
        rw [hnext]
        rcases st.next sc i name with fault | _ | p
        · rfl
        · rfl
        · exact ih p o b
      have hs := hsc.symbol? name
      rw [hsc.type]
      cases hx : sc.symbol? name <;> cases hy : sc'.symbol? name <;> rw [hx, hy] at hs <;> cases hs
      case none.none.none => exact hclimb _ _
      case some.some.some x y hxy =>
        have hbare : y.isBareName = x.isBareName := by simp [Symbol.isBareName, hxy.declarations]
        dsimp only [Option.elim_some]
        rw [hxy.isHidden, hbare]
        split
        · rfl
        · split
          · rfl
          · exact hclimb _ _

end

end Like

end Store

end ScopeFlow
