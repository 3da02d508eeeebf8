import ScopeFlow.Proofs.FlowGraphs
import ScopeFlow.Proofs.Worlds

/-!
# Names of classes

The scope of a function, a lambda or a class is opened in the nearest scope around it that is no class, so that the names of a
class are hidden from what is defined in it. The scope of a comprehension is opened in place. So a class can be seen from a
function in one way only: through a comprehension that stands directly in the class, with the function in it.
-/

namespace ScopeFlow

namespace Store

variable {st : Store} {i p : Nat}

/-- Whether a scope is there and is no class. -/
def IsOuter (st : Store) (i : Nat) : Prop := ∃ type, st.type? i = some type ∧ type ≠ .classBody

/-- A store in which nothing but comprehensions stands directly in a class. -/
def Sheltered (st : Store) : Prop := ∀ i p, st.parent? i = some p → st.type? i = some .comprehension ∨ st.IsOuter p

/-- Whether a look-up from a function finds a name of a class only if the function stands in a comprehension that stands directly
in the class. -/
def HidesClasses (st : Store) : Prop := ∀ function name found, st.type? function = some .function →
  st.lookUp function name = .ok (some found) → st.type? found.scope = some .classBody →
  ∃ c, st.Climbs function c ∧ st.type? c = some .comprehension ∧ st.parent? c = some found.scope

theorem IsOuter.mono {st' : Store} (h : st.IsOuter i) (hg : st.Grows st') : st'.IsOuter i := by
  obtain ⟨type, htype, hne⟩ := h
  exact ⟨type, hg.type? htype, hne⟩

theorem isOuter_of_climbTo {bound : Nat} (h : st.climbTo (fun t => t != .classBody) bound i = some p) : st.IsOuter p := by
  obtain ⟨_, type, htype, haccept⟩ := climbTo_eq_some h
  exact ⟨type, htype, by simpa using haccept⟩

/-- A scope may be opened if it is a comprehension or does not stand directly in a class. -/
theorem Sheltered.addScope (h : st.Sheltered) {sc : Scope}
    (hsc : sc.type = .comprehension ∨ ∀ p, sc.parent = some p → st.IsOuter p) : (st.addScope sc).2.Sheltered := by
  intro i p hp
  by_cases hi : i = st.scopes.size
  · have hnew : (st.addScope sc).2.scope? i = some sc := by rw [scope?_addScope, if_pos hi]
    rcases hsc with hcomprehension | houter
    · exact .inl (by simp [Store.type?, hnew, hcomprehension])
    · exact .inr ((houter p (by simpa [Store.parent?, hnew] using hp)).mono (.addScope sc))
  · have hold : (st.addScope sc).2.scope? i = st.scope? i := by rw [scope?_addScope, if_neg hi]
    rcases h i p (by simpa [Store.parent?, hold] using hp) with hcomprehension | houter
    · exact .inl (by simpa [Store.type?, hold] using hcomprehension)
    · exact .inr (houter.mono (.addScope sc))

/-- Above a function in a sheltered store, a class has a comprehension directly in it. -/
theorem Sheltered.hidesClasses (h : st.Sheltered) : st.HidesClasses := by
  intro function name found htype hfound hclass
  rcases Relation.ReflTransGen.cases_tail (climbs_of_lookUpFrom hfound).1 with heq | ⟨c, hclimb, hparent⟩
  · rw [heq, htype] at hclass
    cases hclass
  · refine ⟨c, hclimb, ?_, hparent⟩
    rcases h c found.scope hparent with hcomprehension | ⟨type, houter, hne⟩
    · exact hcomprehension
    · rw [hclass] at houter
      cases houter
      exact absurd rfl hne

end Store

namespace Bind

open Store

variable {ω : Type} {u : Setup ω}

/-- Binding a module opens scopes in a sheltered way. -/
theorem opens_sheltered (builtins : Option Nat) :
    Opens builtins fun st => st.Sheltered ∧ ∀ b, builtins = some b → st.IsOuter b where
  frame := by
    rintro st st' ⟨hst, hb⟩ hshape _
    have houter : ∀ {i}, st.IsOuter i → st'.IsOuter i := fun ⟨type, htype, hne⟩ => ⟨type, (hshape.type? _).trans htype, hne⟩
    refine ⟨fun i p hp => ?_, fun b hbuiltins => houter (hb b hbuiltins)⟩
    rw [hshape.parent?] at hp
    rw [hshape.type?]
    exact (hst i p hp).imp id houter
  openScope := by
    rintro st ⟨hst, hb⟩ type scope _
    exact ⟨hst.addScope (.inr fun p hp => isOuter_of_climbTo hp), fun b hbuiltins => (hb b hbuiltins).mono (.addScope _)⟩
  openComprehension := by
    rintro st ⟨hst, hb⟩ parent
    exact ⟨hst.addScope (.inl rfl), fun b hbuiltins => (hb b hbuiltins).mono (.addScope _)⟩
  openModule := by
    rintro st ⟨hst, hb⟩ type
    exact ⟨hst.addScope (.inr hb), fun b hbuiltins => (hb b hbuiltins).mono (.addScope _)⟩

/-- The names of a class are hidden from the functions and lambdas in it, unless a comprehension stands between: after a module is
bound, also if that failed, a look-up from a function that finds a name of a class goes through a comprehension that stands
directly in the class. Other modules that are bound meanwhile are to keep the store sheltered too. -/
theorem classes_hidden_from_functions {m : Module} {store : Store} {world : ω} (hstore : store.Sheltered)
    (hbuiltins : ∀ b, u.builtins = some b → store.IsOuter b)
    (hexports : ∀ path st w, st.Sheltered → (u.exports path st w).2.1.Sheltered ∧ st.Grows (u.exports path st w).2.1) :
    (bindModule u m store world).2.store.HidesClasses := by
  have hlasts : Lasts u fun st _ => st.Sheltered ∧ ∀ b, u.builtins = some b → st.IsOuter b :=
    { opens := fun _ => opens_sheltered u.builtins
      exports := fun {st w} h path => by
        obtain ⟨hsheltered, hgrows⟩ := hexports path st w h.1
        exact ⟨hsheltered, fun b hb => (h.2 b hb).mono hgrows⟩ }
  exact (hlasts.bindModule m ⟨hstore, hbuiltins⟩).1.hidesClasses

/-- A class with a lambda in a comprehension, which reads a name of the class. -/
def sampleLambda : Module :=
  { body :=
      [.classDef {} "A" [] []
        [.assign {} [.name {} "x"] (.name {} "z"),
        .assign {} [.name {} "y"] (.comprehension {} .list [.lambda {} (.mk {} [] [] none [] [] none []) (.name {} "x")]
          [.mk {} (.name {} "_") (.name {} "z") []])] []] }

/-- The store after the sample is bound: the scopes of the module, the class, the comprehension and the lambda. -/
def sampleLambdaStore : Store := (bindModule (Setup.alone sampleLambda.number) sampleLambda.number {} ()).2.store

theorem sampleLambda_sees_class : ∃ found c, sampleLambdaStore.lookUp 3 "x" = .ok (some found) ∧ found.scope = 1 ∧
    sampleLambdaStore.Climbs 3 c ∧ sampleLambdaStore.type? c = some .comprehension ∧
      sampleLambdaStore.parent? c = some found.scope := by
  have hfound : (sampleLambdaStore.lookUp 3 "x").toOption.join.map Found.scope = some 1 := by decide +kernel
  rcases hlookUp : sampleLambdaStore.lookUp 3 "x" with fault | _ | found <;> rw [hlookUp] at hfound
  · cases hfound
  · cases hfound
  · have hscope : found.scope = 1 := by simpa [Except.toOption] using hfound
    have hhidden : sampleLambdaStore.HidesClasses :=
      classes_hidden_from_functions (fun i p hp => by simp [Store.parent?, Store.scope?] at hp) (fun b hb => by cases hb)
        fun _ _ _ h => ⟨h, .refl _⟩
    obtain ⟨c, hclimb, htype, hparent⟩ :=
      hhidden 3 "x" found (by decide +kernel) hlookUp (by rw [hscope]; decide +kernel)
    exact ⟨found, c, rfl, hscope, hclimb, htype, hparent⟩

end Bind

end ScopeFlow
