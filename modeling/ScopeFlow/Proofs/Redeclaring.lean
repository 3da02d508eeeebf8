import Mathlib
import ScopeFlow.Symbol

/-!
# Declarations of one name

However often a name is declared, its declarations stay apart: a second sight of a declaration is merged into the first one.
If there are several, an assignment among them is taken for a type alias only if its annotation says so.
-/

namespace ScopeFlow

namespace Declaration

variable {a b d e : Declaration}

theorem same_comm (a b : Declaration) : a.same b = b.same a := by
  obtain ⟨site, path, range, _, i⟩ := a
  obtain ⟨site', path', range', _, j⟩ := b
  have hkind : i.sameKind j = j.sameKind i := by cases i <;> cases j <;> rfl
  unfold same
  dsimp only
  rw [hkind, BEq.comm (a := path), BEq.comm (a := range.start)]
  congr 1
  cases i with
  | imported x =>
    cases j with
    | imported y =>
      dsimp only
      rw [BEq.comm (a := x.symbolName), BEq.comm (a := x.usesLocalName), BEq.comm (a := site.index)]
    | _ => rfl
  | _ => cases j <;> rfl

/-- What tells declarations apart stays when another sight of one is merged into it. -/
theorem same_merge (e d b : Declaration) : (e.merge d).same b = e.same b := by
  obtain ⟨_, _, _, _, i⟩ := e
  obtain ⟨_, _, _, _, j⟩ := d
  obtain ⟨_, _, _, _, k⟩ := b
  cases i <;> cases j <;> cases k <;> rfl

theorem same_dropAliasName (a b : Declaration) : a.dropAliasName.same b.dropAliasName = a.same b := by
  obtain ⟨_, _, _, _, i⟩ := a
  obtain ⟨_, _, _, _, j⟩ := b
  cases i <;> cases j <;> rfl

/-- Whether a declaration may be a type alias only because its annotation says so. -/
def IsAliasByHint (d : Declaration) : Prop := ∀ v, d.info = .variableName v → v.aliasName.isSome = true →
    v.aliasHint.isSome = true

theorem isAliasByHint_dropAliasName (d : Declaration) : d.dropAliasName.IsAliasByHint := by
  obtain ⟨_, _, _, _, i⟩ := d
  intro v hv hname
  cases i <;> cases hv
  cases hname

theorem IsAliasByHint.merge (h : e.IsAliasByHint) (d : Declaration) : (e.merge d).IsAliasByHint := by
  obtain ⟨_, _, _, _, i⟩ := e
  obtain ⟨_, _, _, _, j⟩ := d
  cases i with
  | variableName v =>
    cases j with
    | variableName other =>
      rintro _ ⟨⟩ hname
      have hv := h v rfl
      simp only [VariableInfo.merge] at hname ⊢
      cases hother : other.aliasHint with
      | some hint => rfl
      | none => simpa [hother] using hv (by simpa [hother] using hname)
    | _ => exact h
  | _ => cases j <;> exact h

end Declaration

namespace Symbol

/-- What holds of the declarations of a symbol: no two are the same, and if there are several, type aliases are annotated as
such. -/
structure Apart (ds : List Declaration) : Prop where
  differ : ds.Pairwise fun a b => a.same b = false
  hinted : 1 < ds.length → ∀ d ∈ ds, d.IsAliasByHint

theorem mergeInto_length (d : Declaration) (ds : List Declaration) : (mergeInto d ds).length = ds.length := by
  fun_induction mergeInto d ds <;> simp_all

theorem mem_mergeInto {d x : Declaration} {ds : List Declaration} (h : x ∈ mergeInto d ds) :
    x ∈ ds ∨ ∃ e ∈ ds, x = e.merge d := by
  fun_induction mergeInto d ds with
  | case1 => simp at h
  | case2 e rest hsame =>
    rcases List.mem_cons.1 h with rfl | h
    · exact .inr ⟨e, by simp, rfl⟩
    · exact .inl (by simp [h])
  | case3 e rest hsame ih =>
    rcases List.mem_cons.1 h with rfl | h
    · exact .inl (by simp)
    · rcases ih h with h | ⟨e', he', rfl⟩
      · exact .inl (by simp [h])
      · exact .inr ⟨e', by simp [he'], rfl⟩

theorem Apart.mergeInto {ds : List Declaration} (h : Apart ds) (d : Declaration) : Apart (mergeInto d ds) where
  differ := by
    have hd := h.differ
    clear h
    fun_induction Symbol.mergeInto d ds with
    | case1 => exact hd
    | case2 e rest hsame =>
      rw [List.pairwise_cons] at hd ⊢
      exact ⟨fun b hb => (Declaration.same_merge e d b).trans (hd.1 b hb), hd.2⟩
    | case3 e rest hsame ih =>
      rw [List.pairwise_cons] at hd ⊢
      refine ⟨fun b hb => ?_, ih hd.2⟩
      rcases mem_mergeInto hb with hb | ⟨e', he', rfl⟩
      · exact hd.1 b hb
      · rw [Declaration.same_comm, Declaration.same_merge, Declaration.same_comm]
        exact hd.1 e' he'
  hinted hlen x hx := by
    rw [mergeInto_length] at hlen
    rcases mem_mergeInto hx with hx | ⟨e, he, rfl⟩
    · exact h.hinted hlen x hx
    · exact (h.hinted hlen e he).merge d

/-- One more declaration keeps them apart. -/
theorem Apart.declare {s : Symbol} (h : Apart s.declarations) (d : Declaration) : Apart (s.declare d).declarations := by
  unfold Symbol.declare
  split
  · exact h.mergeInto d
  · rename_i hnew
    split
    · exact ⟨List.pairwise_singleton .., fun hlen => absurd hlen (by simp)⟩
    · refine ⟨?_, fun _ x hx => ?_⟩
      · rw [List.pairwise_map, List.pairwise_append]
        simp only [Declaration.same_dropAliasName]
        refine ⟨h.differ, List.pairwise_singleton .., fun e he x hx => ?_⟩
        obtain rfl := List.mem_singleton.1 hx
        simp only [List.any_eq_true, not_exists, not_and] at hnew
        simpa using hnew e he
      · obtain ⟨e, _, rfl⟩ := List.mem_map.1 hx
        exact e.isAliasByHint_dropAliasName

/-- However a name is declared, no two of its declarations are the same, in whichever order they are compared, and if there
are several, none is a type alias unless its annotation says so. -/
theorem declarations_stay_apart (id : Int) (flags : SymbolFlags) (ds : List Declaration) :
    let all := (ds.foldl declare { id := id, flags := flags }).declarations
    (all.Pairwise fun a b => a.same b = false ∧ b.same a = false) ∧ (1 < all.length → ∀ d ∈ all, d.IsAliasByHint) := by
  have hrun : ∀ (ds : List Declaration) (s : Symbol), Apart s.declarations → Apart (ds.foldl declare s).declarations := by
    intro ds
    induction ds with
    | nil => exact fun _ h => h
    | cons d ds ih => exact fun s h => ih _ (h.declare d)
  have hall := hrun ds { id := id, flags := flags } ⟨.nil, fun _ d hd => by cases hd⟩
  refine ⟨hall.differ.imp fun {a b} hab => ⟨hab, ?_⟩, hall.hinted⟩
  rw [Declaration.same_comm, hab]

end Symbol

end ScopeFlow
