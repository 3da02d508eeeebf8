import ScopeFlow.Proofs.Stores

/-!
# Orderly stores

While one body is bound, what is known of the scopes is known relative to a `Stage`: the scope of the module, the builtins around
it, the scope of the body and the number of scopes that were there before. In an orderly store the scopes of the module stand,
parent by parent, in the scope of the module, whose only parent is the builtins; what is redirected can be found where it is
redirected to; and names that are known by member access only are confined to classes of earlier bodies.

So a look-up that starts in a scope of the module always ends. A name that is known in a scope (`Stage.Known`) is found, and it is
found in a scope of the module unless a `nonlocal` statement names it.
-/

namespace ScopeFlow

open Store

/-- What is fixed while one body is bound. -/
structure Stage where
  /-- The scope of the module. -/
  base : Nat
  builtins : Option Nat
  /-- The number of scopes before the body. -/
  start : Nat
  /-- The scope of the body. -/
  home : Nat
  isStub : Bool
  /-- The names that a `nonlocal` statement may redirect. -/
  nonlocals : String → Prop
  /-- The names that a `global` statement of the body may add to the module. -/
  globals : String → Prop
  /-- The names that an assignment expression inside a comprehension may add. -/
  walruses : String → Prop
  /-- The names that may be added to a class as members. -/
  members : String → Prop
  /-- The sites at which members of a class may be declared. -/
  receives : Nat → Site → Prop

namespace Stage

variable (g : Stage) (st : Store) {b : Nat}

/-- Whether a scope stands in the scope of the module. -/
def Below (i : Nat) : Prop := st.Climbs i g.base

/-- Whether a scope belongs to the body: its own scope, or one that was opened in it. -/
def Here (i : Nat) : Prop := i = g.home ∨ g.start ≤ i

/-- Whether a scope is no class of an earlier body. -/
def Live (i : Nat) : Prop := st.type? i ≠ some .classBody ∨ g.start ≤ i

/-- Whether a name can be seen in a scope from the scopes in it. -/
def Shown (i : Nat) (name : String) : Prop :=
  (g.Below st i ∧ st.type? i ≠ some .classBody ∧ (st.symbol? i name).isSome) ∨
    (g.builtins = some i ∧ ∃ s, st.symbol? i name = some s ∧ s.isBareName = true ∧ s.isHidden = false)

/-- Whether a name can be seen in a scope or above it. -/
def Seen (i : Nat) (name : String) : Prop := ∃ j, st.Climbs i j ∧ g.Shown st j name

/-- Whether a name is known in a scope: it has it or redirects it, or it is a comprehension in a scope that knows it. -/
inductive Known : Nat → String → Prop where
  | own {i : Nat} {name : String} : (st.symbol? i name).isSome → Known i name
  | redirected {i : Nat} {name : String} {r : Redirection} : st.redirection? i name = some r → Known i name
  | outer {i p : Nat} {name : String} : g.start ≤ i → st.type? i = some .comprehension → st.parent? i = some p →
    Known p name → Known i name

/-- The kind of the scope of a module, which depends on whether there are builtins. -/
def baseType : ScopeType := if g.builtins.isNone then .builtin else .moduleBody

end Stage

/-- A store in which look-ups from the scopes of the module work. -/
structure Orderly (g : Stage) (st : Store) : Prop where
  closed : st.Closed
  root : st.type? g.base = some g.baseType ∧ st.parent? g.base = g.builtins ∧ ∀ name, st.redirection? g.base name = none
  outermost : ∀ b, g.builtins = some b →
    b < g.base ∧ st.parent? b = none ∧ ∀ name, st.redirection? b name ≠ some .global
  /-- A scope in the module is not global, and it is younger than its parent. -/
  inner : ∀ i p, g.Below st i → i ≠ g.base → st.parent? i = some p →
    p < i ∧ ∃ t, st.type? i = some t ∧ t.isGlobal = false
  /-- A comprehension of the body stands in a scope of the body. -/
  nested : ∀ i p, g.Below st i → g.start ≤ i → st.type? i = some .comprehension → st.parent? i = some p → g.Here p
  /-- Comprehensions redirect no names. -/
  plain : ∀ i name, g.Below st i → st.type? i = some .comprehension → st.redirection? i name = none
  /-- Member access is confined to classes of earlier bodies. -/
  bare : ∀ i name s, g.Below st i → g.Live st i → st.symbol? i name = some s → s.NoMember
  toGlobal : ∀ i name, g.Below st i → st.redirection? i name = some .global → (st.symbol? g.base name).isSome
  toOuter : ∀ i name, g.Below st i → st.redirection? i name = some .nonlocal → g.nonlocals name ∧
    (g.isStub = false → g.Live st i → (st.symbol? i name).isSome ∨ ∃ p, st.parent? i = some p ∧ g.Seen st p name)
  /-- The scope of the body is that of a function or of the module. -/
  home : g.Below st g.home ∧ st.type? g.home ≠ some .classBody ∧ st.type? g.home ≠ some .comprehension
  started : g.start ≤ st.scopes.size

variable {g : Stage} {st st' : Store} {i j p bound : Nat} {name : String}

namespace Stage

theorem baseType_isGlobal (g : Stage) : g.baseType.isGlobal = true := by
  unfold baseType
  split <;> rfl

theorem baseType_eq_module (h : g.builtins = some b) : g.baseType = .moduleBody := by
  simp [baseType, h]

/-- What grows keeps what is known. -/
theorem Known.mono (h : g.Known st i name) (hg : st.Grows st') : g.Known st' i name := by
  induction h with
  | own h => exact .own (hg.symbol? h)
  | redirected h => exact .redirected (hg.redirection? h)
  | outer hs ht hp _ ih => exact .outer hs (hg.type? ht) ((hg.parent? (lt_size_of_parent? hp)).trans hp) ih

theorem Below.mono (h : g.Below st i) (hg : st.Grows st') : g.Below st' i := Climbs.mono h hg

/-- Scopes above a scope of the module that are not above the module itself are scopes of the module. -/
theorem Below.total (h : g.Below st i) (hc : st.Climbs i j) : g.Below st j ∨ st.Climbs g.base j := Climbs.total hc h

end Stage

namespace Orderly

open Stage

/-- The root is a scope of the module. -/
theorem below_base (_ : Orderly g st) : g.Below st g.base := Climbs.refl _ _

section

variable (h : Orderly g st)
include h

theorem base_lt : g.base < st.scopes.size := lt_size_of_type? h.root.1

theorem lt_of_below (hb : g.Below st i) : i < st.scopes.size := by
  rcases Climbs.cases_head hb with rfl | ⟨p, hp, _⟩
  · exact h.base_lt
  · exact lt_size_of_parent? hp

/-- A scope of the module other than the root has an older parent in the module. -/
theorem parent_of_below (hb : g.Below st i) (hne : i ≠ g.base) :
    ∃ p, st.parent? i = some p ∧ p < i ∧ g.Below st p ∧ ∃ t, st.type? i = some t ∧ t.isGlobal = false := by
  rcases Climbs.cases_head hb with heq | ⟨p, hp, hup⟩
  · exact absurd heq hne
  · obtain ⟨hlt, ht⟩ := h.inner i p hb hne hp
    exact ⟨p, hp, hlt, hup, ht⟩

theorem type_of_below (hb : g.Below st i) : ∃ t, st.type? i = some t := by
  by_cases hne : i = g.base
  · exact ⟨_, hne ▸ h.root.1⟩
  · obtain ⟨_, _, _, _, t, ht, _⟩ := h.parent_of_below hb hne
    exact ⟨t, ht⟩

/-- The builtins stand outside of the module. -/
theorem not_below_builtins (hb : g.builtins = some b) : ¬ g.Below st b := by
  intro hbelow
  obtain ⟨hlt, hparent, _⟩ := h.outermost b hb
  rcases Climbs.cases_head hbelow with heq | ⟨p, hp, _⟩
  · omega
  · rw [hparent] at hp
    cases hp

/-- What is above the root is the root or the builtins. -/
theorem above_base (hc : st.Climbs g.base j) : j = g.base ∨ g.builtins = some j := by
  rcases Climbs.cases_head hc with heq | ⟨b, hb, hup⟩
  · exact .inl heq.symm
  · rw [h.root.2.1] at hb
    obtain ⟨_, hparent, _⟩ := h.outermost b hb
    rcases Climbs.cases_head hup with rfl | ⟨q, hq, _⟩
    · exact .inr hb
    · rw [hparent] at hq
      cases hq

/-- What is above a scope of the module is in the module, or it is the builtins. -/
theorem above (hb : g.Below st i) (hc : st.Climbs i j) : g.Below st j ∨ g.builtins = some j := by
  rcases hb.total hc with hj | hj
  · exact .inl hj
  · rcases h.above_base hj with rfl | hj
    · exact .inl h.below_base
    · exact .inr hj

/-- What is above a scope of the module or the builtins is not younger. -/
theorem climbs_le (hi : g.Below st i ∨ g.builtins = some i) (hc : st.Climbs i j) : j ≤ i := by
  induction hc using Relation.ReflTransGen.head_induction_on with
  | refl => exact le_refl _
  | @head i p hp _ ih =>
    rcases hi with hb | hb
    · by_cases hne : i = g.base
      · subst hne
        rw [h.root.2.1] at hp
        exact (ih (.inr hp)).trans (h.outermost p hp).1.le
      · obtain ⟨q, hq, hlt, hup, _⟩ := h.parent_of_below hb hne
        rw [hp] at hq
        cases hq
        exact (ih (.inl hup)).trans hlt.le
    · rw [(h.outermost i hb).2.1] at hp
      cases hp

/-- The scopes of the body are no classes of earlier bodies. -/
theorem live_of_here (hi : g.Here i) : g.Live st i := by
  rcases hi with rfl | hi
  · exact .inl h.home.2.1
  · exact .inr hi

/-- A scope that is not the root is no module. -/
theorem eq_base_of_global (hb : g.Below st i) {t : ScopeType} (ht : st.type? i = some t)
    (hg : t.isGlobal = true) : i = g.base := by
  by_contra hne
  obtain ⟨_, _, _, _, t', ht', hg'⟩ := h.parent_of_below hb hne
  rw [ht] at ht'
  cases ht'
  rw [hg] at hg'
  cases hg'

theorem type_base_ne_class : st.type? g.base ≠ some .classBody := by
  rw [h.root.1]
  unfold baseType
  split <;> simp

theorem type_ne_module (hb : g.Below st i) (hne : i ≠ g.base) :
    (st.type? i == some .moduleBody) = false := by
  obtain ⟨_, _, _, _, t, ht, hg⟩ := h.parent_of_below hb hne
  rw [ht]
  cases t
  case moduleBody => cases hg
  all_goals rfl

/-! ## Climbing to a scope of a kind -/

/-- A climb to a kind of scope that the root is of ends within the module. -/
theorem climbTo_some (accept : ScopeType → Bool) (ha : accept g.baseType = true) :
    ∀ (bound i : Nat), g.Below st i → i < bound → ∃ c t, st.climbTo accept bound i = some c ∧ st.Climbs i c ∧
      g.Below st c ∧ st.type? c = some t ∧ accept t = true := by
  intro bound
  induction bound with
  | zero => intro i _ hlt; exact absurd hlt (Nat.not_lt_zero _)
  | succ bound ih =>
    intro i hb hlt
    obtain ⟨sc, hsc⟩ := Option.isSome_iff_exists.1 (scope?_isSome.2 (h.lt_of_below hb))
    have htype : st.type? i = some sc.type := by simp [Store.type?, hsc]
    simp only [climbTo, hsc]
    by_cases hacc : accept sc.type = true
    · exact ⟨i, sc.type, by simp [hacc], .refl _ _, hb, htype, hacc⟩
    · have hne : i ≠ g.base := by
        rintro rfl
        rw [h.root.1, Option.some.injEq] at htype
        exact hacc (htype ▸ ha)
      obtain ⟨p, hp, hlt', hup, _⟩ := h.parent_of_below hb hne
      have hparent : sc.parent = some p := by simpa [Store.parent?, hsc] using hp
      obtain ⟨c, t, hc, hclimb, hrest⟩ := ih p hup (by omega)
      exact ⟨c, t, by simp [hacc, hparent, hc], .step hp hclimb, hrest⟩

/-- The global scope above a scope of the module is the scope of the module. -/
theorem globalScope_eq (hb : g.Below st i) : st.globalScope i = .ok g.base := by
  obtain ⟨c, t, hc, _, hbc, ht, hg⟩ := h.climbTo_some ScopeType.isGlobal (baseType_isGlobal g) _ i hb (h.lt_of_below hb)
  have hbase := h.eq_base_of_global hbc ht hg
  simp [Store.globalScope, hc, hbase]

end

/-! ## Look-up -/

/-- Where a look-up goes that finds nothing in a scope of the module. -/
def next (g : Stage) (st : Store) (i : Nat) (name : String) : Option Nat :=
  if st.redirection? i name = some .global then some g.base else st.parent? i

/-- A look-up in a scope of the module finds its symbol or goes on outwards. -/
theorem lookUpFrom_below (h : Orderly g st) (hb : g.Below st i) (name : String) (bound : Nat) (outside beyond : Bool) :
    st.lookUpFrom name (bound + 1) i outside beyond =
      match (st.symbol? i name).filter fun s => outside && s.isHidden || s.isBareName with
      | some s => .ok (if outside && s.isHidden then none else some ⟨i, s, outside, beyond⟩)
      | none =>
        match next g st i name with
        | none => .ok none
        | some p => st.lookUpFrom name bound p (outside || st.type? i == some .moduleBody)
            (beyond || (st.type? i).any ScopeType.runsAlone) := by
  obtain ⟨sc, hsc⟩ := Option.isSome_iff_exists.1 (scope?_isSome.2 (h.lt_of_below hb))
  have hglobal := h.globalScope_eq hb
  have htype : (st.type? i == some .moduleBody) = (sc.type == .moduleBody) := by simp [Store.type?, hsc]
  have halone : (st.type? i).any ScopeType.runsAlone = sc.type.runsAlone := by simp [Store.type?, hsc]
  rw [lookUpFrom, htype, halone]
  simp only [hsc, hglobal, next, Store.redirection?, Store.parent?, Store.symbol?, Option.bind_some]
  cases hs : sc.symbol? name with
  | none => rcases sc.redirection? name with _ | _ | _ <;> cases sc.parent <;> rfl
  | some s =>
    cases ho : outside && s.isHidden <;> cases hbare : s.isBareName <;> simp only [Option.filter, ho, hbare]
    case false.false => rcases sc.redirection? name with _ | _ | _ <;> cases sc.parent <;> rfl
    all_goals simp [ho]

/-- A look-up in the builtins finds their symbol or nothing. -/
theorem lookUpFrom_builtins (h : Orderly g st) (hb : g.builtins = some b) (name : String) (bound : Nat)
    (outside beyond : Bool) :
    st.lookUpFrom name (bound + 1) b outside beyond =
      .ok (((st.symbol? b name).filter fun s => !(outside && s.isHidden) && s.isBareName).map
        fun s => ⟨b, s, outside, beyond⟩) := by
  obtain ⟨_, hparent, hredirection⟩ := h.outermost b hb
  rw [lookUpFrom]
  cases hsc : st.scope? b with
  | none => simp [Store.symbol?, hsc]
  | some sc =>
    have hp : sc.parent = none := by simpa [Store.parent?, hsc] using hparent
    have hr : sc.redirection? name ≠ some .global := by simpa [Store.redirection?, hsc] using hredirection name
    simp only [hp, Store.symbol?, hsc, Option.bind_some]
    cases hs : sc.symbol? name with
    | none =>
      revert hr
      rcases sc.redirection? name with _ | _ | _ <;> intro hr
      · rfl
      · rfl
      · exact absurd rfl hr
    | some s =>
      cases ho : outside && s.isHidden <;> cases hbare : s.isBareName <;> simp only [Option.filter, ho, hbare]
      case false.false =>
        revert hr
        rcases sc.redirection? name with _ | _ | _ <;> intro hr
        · rfl
        · rfl
        · exact absurd rfl hr
      all_goals rfl

/-- The next scope of a look-up is older, and it is in the module or the builtins; from the root it leaves the module. -/
theorem next_spec (h : Orderly g st) (hb : g.Below st i) (hn : next g st i name = some p) :
    p < i ∧ st.Climbs i p ∧ (g.Below st p ∧ i ≠ g.base ∨ g.builtins = some p ∧ i = g.base) := by
  unfold next at hn
  split at hn
  · rename_i hr
    cases hn
    have hne : i ≠ g.base := by
      rintro rfl
      rw [h.root.2.2] at hr
      cases hr
    obtain ⟨q, hq, hlt, hup, _⟩ := h.parent_of_below hb hne
    exact ⟨(h.climbs_le (.inl hup) hup).trans_lt hlt, hb, .inl ⟨h.below_base, hne⟩⟩
  · by_cases hne : i = g.base
    · subst hne
      rw [h.root.2.1] at hn
      exact ⟨(h.outermost p hn).1, .step (h.root.2.1.trans hn) (.refl _ _), .inr ⟨hn, rfl⟩⟩
    · obtain ⟨q, hq, hlt, hup, _⟩ := h.parent_of_below hb hne
      rw [hq] at hn
      cases hn
      exact ⟨hlt, .step hq (.refl _ _), .inl ⟨hup, hne⟩⟩

/-- What a look-up from a scope of the module gives: a symbol of a scope above it that can be seen as a bare name and, in the
builtins, is not hidden. -/
structure Finds (g : Stage) (st : Store) (i : Nat) (name : String) (found : Found) : Prop where
  climbs : st.Climbs i found.scope
  symbol : st.symbol? found.scope name = some found.symbol
  bare : found.symbol.isBareName = true
  inside : g.Below st found.scope ∨ g.builtins = some found.scope ∧ found.symbol.isHidden = false

/-- The way of a look-up, with what is passed on it, to what it finds. -/
inductive Reaches (g : Stage) (st : Store) (name : String) : Nat → Bool → Bool → Found → Prop where
  | here {i : Nat} {outside beyond : Bool} {s : Symbol} : st.symbol? i name = some s → s.isBareName = true →
    (g.Below st i ∨ g.builtins = some i ∧ s.isHidden = false) → Reaches g st name i outside beyond ⟨i, s, outside, beyond⟩
  | on {i p : Nat} {outside beyond : Bool} {found : Found} : g.Below st i → next g st i name = some p →
    Reaches g st name p (outside || st.type? i == some .moduleBody) (beyond || (st.type? i).any ScopeType.runsAlone) found →
    Reaches g st name i outside beyond found

theorem Reaches.finds (h : Orderly g st) {outside beyond : Bool} {found : Found} (hr : Reaches g st name i outside beyond found) :
    Finds g st i name found := by
  induction hr with
  | here hs hbare hin => exact ⟨.refl _ _, hs, hbare, hin⟩
  | on hb hn _ ih => exact { ih with climbs := (h.next_spec hb hn).2.1.trans ih.climbs }

/-- A look-up from a scope of the module ends. -/
theorem lookUpFrom_ends (h : Orderly g st) (name : String) : ∀ (bound i : Nat) (outside beyond : Bool), i < bound →
    g.Below st i ∨ g.builtins = some i ∧ outside = true →
    ∃ r, st.lookUpFrom name bound i outside beyond = .ok r ∧ ∀ found, r = some found →
      Reaches g st name i outside beyond found := by
  intro bound
  induction bound with
  | zero => intro i _ _ hlt; exact absurd hlt (Nat.not_lt_zero _)
  | succ bound ih =>
    intro i outside beyond hlt hi
    rcases hi with hb | ⟨hb, rfl⟩
    · rw [h.lookUpFrom_below hb]
      cases hs : (st.symbol? i name).filter fun s => outside && s.isHidden || s.isBareName with
      | some s =>
        obtain ⟨hsym, hcond⟩ := Option.filter_eq_some_iff.1 hs
        refine ⟨_, rfl, fun found hfound => ?_⟩
        cases ho : outside && s.isHidden with
        | true => simp [ho] at hfound
        | false =>
          simp only [ho, Bool.false_eq_true, if_false, Option.some.injEq] at hfound
          subst hfound
          exact .here hsym (by simpa [ho] using hcond) (.inl hb)
      | none =>
        cases hn : next g st i name with
        | none => exact ⟨none, rfl, fun _ hf => by cases hf⟩
        | some p =>
          obtain ⟨hlt', _, hp⟩ := h.next_spec hb hn
          obtain ⟨r, hr, hspec⟩ := ih p (outside || st.type? i == some .moduleBody) _ (by omega) (by
            rcases hp with ⟨hp, _⟩ | ⟨hp, rfl⟩
            · exact .inl hp
            · exact .inr ⟨hp, by simp [h.root.1, baseType_eq_module hp]⟩)
          exact ⟨r, hr, fun found hfound => .on hb hn (hspec found hfound)⟩
    · rw [h.lookUpFrom_builtins hb]
      refine ⟨_, rfl, fun found hfound => ?_⟩
      obtain ⟨s, hs, rfl⟩ := Option.map_eq_some_iff.1 hfound
      obtain ⟨hsym, hcond⟩ := Option.filter_eq_some_iff.1 hs
      simp only [Bool.true_and, Bool.and_eq_true, Bool.not_eq_true'] at hcond
      exact .here hsym hcond.2 (.inr ⟨hb, hcond.1⟩)

theorem lookUp_reaches (h : Orderly g st) (hb : g.Below st i) (name : String) :
    ∃ r, st.lookUp i name = .ok r ∧ ∀ found, r = some found → Reaches g st name i false false found :=
  h.lookUpFrom_ends name _ i _ _ (Nat.lt_succ_of_lt (h.lt_of_below hb)) (.inl hb)

theorem lookUp_ends (h : Orderly g st) (hb : g.Below st i) (name : String) :
    ∃ r, st.lookUp i name = .ok r ∧ ∀ found, r = some found → Finds g st i name found := by
  obtain ⟨r, hr, hreaches⟩ := h.lookUp_reaches hb name
  exact ⟨r, hr, fun found hfound => (hreaches found hfound).finds h⟩

/-- A name that a scope of the body has is found there. -/
theorem lookUpFrom_own (h : Orderly g st) (hb : g.Below st i) (hl : g.Live st i) {s : Symbol}
    (hs : st.symbol? i name = some s) (bound : Nat) (beyond : Bool) :
    st.lookUpFrom name (bound + 1) i false beyond = .ok (some ⟨i, s, false, beyond⟩) := by
  have hstep := h.lookUpFrom_below hb name bound false beyond
  have hbare := (h.bare i name s hb hl hs).isBareName
  rw [hstep, hs]
  simp [Option.filter, hbare]

/-- A look-up from a scope from which a name can be seen finds it. -/
theorem lookUpFrom_seen (h : Orderly g st) (name : String) : ∀ (bound i : Nat) (outside beyond : Bool), i < bound →
    g.Below st i ∧ outside = false ∨ g.builtins = some i → g.Seen st i name →
    ∃ found, st.lookUpFrom name bound i outside beyond = .ok (some found) := by
  intro bound
  induction bound with
  | zero => intro i _ _ hlt; exact absurd hlt (Nat.not_lt_zero _)
  | succ bound ih =>
    intro i outside beyond hlt hi hseen
    obtain ⟨j, hclimb, hshown⟩ := hseen
    rcases hi with ⟨hb, rfl⟩ | hb
    · have hstep := h.lookUpFrom_below hb name bound false beyond
      rw [hstep]
      cases hs : (st.symbol? i name).filter fun s => false && s.isHidden || s.isBareName with
      | some s => exact ⟨_, rfl⟩
      | none =>
        have hne : i ≠ j := by
          rintro rfl
          rcases hshown with ⟨_, hclass, hsome⟩ | ⟨hj, _⟩
          · obtain ⟨s, hsym⟩ := Option.isSome_iff_exists.1 hsome
            simp [hsym, Option.filter, (h.bare i name s hb (.inl hclass) hsym).isBareName] at hs
          · exact h.not_below_builtins hj hb
        obtain ⟨p, hp, hup⟩ := (Climbs.cases_head hclimb).resolve_left hne
        -- the scope where the look-up goes on sees the name as well
        have hnext : ∃ q, next g st i name = some q ∧ g.Seen st q name := by
          unfold next
          split
          · rename_i hr
            have hbase := h.toGlobal i name hb hr
            exact ⟨_, rfl, g.base, .refl _ _, .inl ⟨h.below_base, h.type_base_ne_class, hbase⟩⟩
          · exact ⟨p, hp, j, hup, hshown⟩
        obtain ⟨q, hq, hseen'⟩ := hnext
        obtain ⟨hlt', _, hcase⟩ := h.next_spec hb hq
        simp only [hq]
        refine ih q _ _ (by omega) ?_ hseen'
        rcases hcase with ⟨hbq, hib⟩ | ⟨hq', _⟩
        · exact .inl ⟨hbq, h.type_ne_module hb hib⟩
        · exact .inr hq'
    · obtain ⟨_, hparent, _⟩ := h.outermost i hb
      have hij : i = j := by
        rcases Climbs.cases_head hclimb with heq | ⟨p, hp, _⟩
        · exact heq
        · rw [hparent] at hp
          cases hp
      subst hij
      rcases hshown with ⟨hbelow, _⟩ | ⟨_, s, hs, hbare, hhidden⟩
      · exact absurd hbelow (h.not_below_builtins hb)
      · rw [h.lookUpFrom_builtins hb]
        exact ⟨_, by simp [hs, Option.filter, hbare, hhidden]; rfl⟩

/-- A look-up in an inner scope of the module that does not have the name goes on within the module. -/
theorem lookUpFrom_next (h : Orderly g st) (hb : g.Below st i) (hne : i ≠ g.base) (hs : st.symbol? i name = none)
    (hn : next g st i name = some p) (bound : Nat) (beyond : Bool) :
    ∃ beyond', st.lookUpFrom name (bound + 1) i false beyond = st.lookUpFrom name bound p false beyond' := by
  have hstep := h.lookUpFrom_below hb name bound false beyond
  refine ⟨beyond || (st.type? i).any ScopeType.runsAlone, ?_⟩
  rw [hstep, hs, hn, h.type_ne_module hb hne]
  rfl

/-- A known name is found in the module, unless a `nonlocal` statement names it; outside of stubs it is found in any case. -/
theorem lookUpFrom_known (h : Orderly g st) (hk : g.Known st i name) : ∀ (bound : Nat) (beyond : Bool), i < bound →
    g.Below st i → g.Here i → ∃ r, st.lookUpFrom name bound i false beyond = .ok r ∧
      (∀ found, r = some found → g.Below st found.scope ∨ g.nonlocals name) ∧ (g.isStub = false → r.isSome) := by
  -- a scope of the body that has the name itself answers at once
  have hown : ∀ {i : Nat} {name : String} {s : Symbol} (bound : Nat) (beyond : Bool), g.Below st i → g.Live st i →
      st.symbol? i name = some s → ∃ r, st.lookUpFrom name (bound + 1) i false beyond = .ok r ∧
        (∀ found, r = some found → g.Below st found.scope ∨ g.nonlocals name) ∧ (g.isStub = false → r.isSome) := by
    intro i name s bound beyond hb hlive hs
    refine ⟨_, h.lookUpFrom_own hb hlive hs bound beyond, fun found hfound => ?_, fun _ => rfl⟩
    cases hfound
    exact .inl hb
  induction hk with
  | @own i name hsome =>
    intro bound beyond hlt hb hhere
    obtain ⟨bound, rfl⟩ : ∃ n, bound = n + 1 := ⟨bound - 1, by omega⟩
    obtain ⟨s, hs⟩ := Option.isSome_iff_exists.1 hsome
    exact hown bound beyond hb (h.live_of_here hhere) hs
  | @redirected i name r hr =>
    intro bound beyond hlt hb hhere
    obtain ⟨bound, rfl⟩ : ∃ n, bound = n + 1 := ⟨bound - 1, by omega⟩
    have hne : i ≠ g.base := by
      rintro rfl
      rw [h.root.2.2] at hr
      cases hr
    cases hs : st.symbol? i name with
    | some s => exact hown bound beyond hb (h.live_of_here hhere) hs
    | none =>
      cases r with
      | global =>
        have hn : next g st i name = some g.base := by simp [next, hr]
        obtain ⟨beyond', hstep⟩ := h.lookUpFrom_next hb hne hs hn bound beyond
        obtain ⟨hlt', _⟩ := h.next_spec hb hn
        obtain ⟨s, hsbase⟩ := Option.isSome_iff_exists.1 (h.toGlobal i name hb hr)
        obtain ⟨bound, rfl⟩ : ∃ n, bound = n + 1 := ⟨bound - 1, by omega⟩
        rw [hstep]
        exact hown bound beyond' h.below_base (.inl h.type_base_ne_class) hsbase
      | «nonlocal» =>
        obtain ⟨hnonlocal, hresolves⟩ := h.toOuter i name hb hr
        obtain ⟨res, hres, _⟩ := h.lookUpFrom_ends name (bound + 1) i false beyond hlt (.inl hb)
        refine ⟨res, hres, fun _ _ => .inr hnonlocal, fun hstub => ?_⟩
        obtain ⟨p, hp, hseen⟩ := (hresolves hstub (h.live_of_here hhere)).resolve_left (by simp [hs])
        have hn : next g st i name = some p := by simp [next, hr, hp]
        obtain ⟨beyond', hstep⟩ := h.lookUpFrom_next hb hne hs hn bound beyond
        obtain ⟨hlt', _, hbp⟩ := h.next_spec hb hn
        have hp' : g.Below st p := (hbp.resolve_right fun hq => hne hq.2).1
        obtain ⟨found, hfound⟩ := h.lookUpFrom_seen name bound p false beyond' (by omega) (.inl ⟨hp', rfl⟩) hseen
        rw [hstep, hfound] at hres
        cases hres
        rfl
  | @outer i p name hstart htype hparent _ ih =>
    intro bound beyond hlt hb hhere
    obtain ⟨bound, rfl⟩ : ∃ n, bound = n + 1 := ⟨bound - 1, by omega⟩
    have hne : i ≠ g.base := by
      rintro rfl
      rw [h.root.1, Option.some.injEq] at htype
      exact absurd (baseType_isGlobal g) (by simp [htype, ScopeType.isGlobal])
    cases hs : st.symbol? i name with
    | some s => exact hown bound beyond hb (h.live_of_here hhere) hs
    | none =>
      have hn : next g st i name = some p := by simp [next, h.plain i name hb htype, hparent]
      obtain ⟨beyond', hstep⟩ := h.lookUpFrom_next hb hne hs hn bound beyond
      obtain ⟨hlt', _, hbp⟩ := h.next_spec hb hn
      rw [hstep]
      exact ih bound beyond' (by omega) (hbp.resolve_right fun hq => hne hq.2).1 (h.nested i p hb hstart htype hparent)

theorem lookUp_known (h : Orderly g st) (hk : g.Known st i name) (hb : g.Below st i) (hhere : g.Here i) :
    ∃ r, st.lookUp i name = .ok r ∧ (∀ found, r = some found → g.Below st found.scope ∨ g.nonlocals name) ∧
      (g.isStub = false → r.isSome) :=
  h.lookUpFrom_known hk _ _ (Nat.lt_succ_of_lt (h.lt_of_below hb)) hb hhere

end Orderly

end ScopeFlow
