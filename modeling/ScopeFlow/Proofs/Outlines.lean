import Mathlib
import ScopeFlow.Tree.Outline

/-!
# The outline lists a tree

The explicit stack gives the entries that the recursive walk of the tree gives (`NodeTree.entries`): its nodes in pre-order,
each with the number of its parent. A parent has a smaller number than its children, so climbing from a node ends.
-/

namespace ScopeFlow

namespace NodeTree

theorem preorders_append (ts us : List NodeTree) : preorders (ts ++ us) = preorders ts ++ preorders us := by
  induction ts with
  | nil => simp [preorders]
  | cons t ts ih => simp [preorders, ih]

theorem sizes_append (ts us : List NodeTree) : sizes (ts ++ us) = sizes ts + sizes us := by
  induction ts with
  | nil => simp [sizes]
  | cons t ts ih => simp [sizes, ih, Nat.add_assoc]

mutual

/-- The entries of a tree whose top node has a number. -/
def entries (parent : Option Nat) (k : Nat) : NodeTree → List OutlineEntry
  | mk n cs => ⟨n, parent⟩ :: entriesIn (some k) (k + 1) cs

/-- The entries of trees that share a parent, from a number on. -/
def entriesIn (parent : Option Nat) (k : Nat) : List NodeTree → List OutlineEntry
  | [] => []
  | t :: ts => t.entries parent k ++ entriesIn parent (k + t.size) ts

end

mutual

theorem length_preorder (t : NodeTree) : t.preorder.length = t.size := by
  match t with
  | .mk n cs => simp [preorder, size, length_preorders cs]

theorem length_preorders (ts : List NodeTree) : (preorders ts).length = sizes ts := by
  match ts with
  | [] => rfl
  | t :: ts => simp [preorders, sizes, length_preorder t, length_preorders ts]

end

mutual

theorem nodes_entries (parent : Option Nat) (k : Nat) (t : NodeTree) :
    (t.entries parent k).map OutlineEntry.node = t.preorder := by
  match t with
  | .mk n cs => simp [entries, preorder, nodes_entriesIn (some k) (k + 1) cs]

theorem nodes_entriesIn (parent : Option Nat) (k : Nat) (ts : List NodeTree) :
    (entriesIn parent k ts).map OutlineEntry.node = preorders ts := by
  match ts with
  | [] => rfl
  | t :: ts => simp [entriesIn, preorders, nodes_entries parent k t, nodes_entriesIn parent (k + t.size) ts]

end

theorem length_entries (parent : Option Nat) (k : Nat) (t : NodeTree) : (t.entries parent k).length = t.size := by
  rw [← length_preorder, ← nodes_entries parent k, List.length_map]

/-- The entries of trees on a stack, each with a parent of its own. -/
def entriesOf (k : Nat) : List (NodeTree × Option Nat) → List OutlineEntry
  | [] => []
  | (t, parent) :: rest => t.entries parent k ++ entriesOf (k + t.size) rest

theorem entriesOf_append (k : Nat) (parent : Option Nat) (cs : List NodeTree) (rest : List (NodeTree × Option Nat)) :
    entriesOf k (cs.map (fun c => (c, parent)) ++ rest) = entriesIn parent k cs ++ entriesOf (k + sizes cs) rest := by
  induction cs generalizing k with
  | nil => simp [entriesIn, sizes]
  | cons c cs ih => simp [entriesOf, entriesIn, sizes, ih, Nat.add_assoc]

end NodeTree

namespace Outline

open NodeTree

/-- Gathering with a sufficient bound adds the entries of the trees on the stack, tree after tree. -/
theorem gather_entries (bound : Nat) : ∀ (stack : List (NodeTree × Option Nat)) (entries : Array OutlineEntry),
    sizes (stack.map Prod.fst) ≤ bound →
    (gather bound stack entries).toList = entries.toList ++ entriesOf entries.size stack := by
  induction bound with
  | zero =>
    intro stack entries h
    cases stack with
    | nil => simp [gather, entriesOf]
    | cons top stack =>
      obtain ⟨⟨n, cs⟩, parent⟩ := top
      simp [sizes, NodeTree.size] at h
  | succ bound ih =>
    intro stack entries h
    cases stack with
    | nil => simp [gather, entriesOf]
    | cons top stack =>
      obtain ⟨⟨n, cs⟩, parent⟩ := top
      simp only [List.map_cons, sizes, NodeTree.size] at h
      rw [gather, ih]
      · simp [entriesOf, NodeTree.entries, NodeTree.size, entriesOf_append, Nat.add_assoc, Nat.add_comm]
      · simp only [List.map_append, List.map_map, sizes_append]
        have hfst : (Prod.fst ∘ fun child : NodeTree => (child, some entries.size)) = id := rfl
        rw [hfst, List.map_id]
        omega

theorem ofTree_entries (t : NodeTree) : (ofTree t).entries.toList = t.entries none 0 := by
  have h := gather_entries t.size [(t, none)] #[] (by simp [sizes])
  simpa [ofTree, entriesOf] using h

theorem size_ofTree (t : NodeTree) : (ofTree t).size = t.size := by
  rw [size, ← Array.length_toList, ofTree_entries, length_entries]

variable {o : Outline} {i j k p : Nat} {e : OutlineEntry} {es fs : List OutlineEntry}

/-- Whether the outline has entries one after the other from a number on. -/
def Lists (o : Outline) (k : Nat) (es : List OutlineEntry) : Prop := ∀ j e, es[j]? = some e → o.entries[k + j]? = some e

theorem Lists.cons (h : o.Lists k (e :: es)) : o.entries[k]? = some e ∧ o.Lists (k + 1) es := by
  refine ⟨h 0 e rfl, fun j e' he => ?_⟩
  rw [Nat.add_assoc, Nat.add_comm 1]
  exact h (j + 1) e' he

theorem Lists.append (h : o.Lists k (es ++ fs)) : o.Lists k es ∧ o.Lists (k + es.length) fs := by
  refine ⟨fun j e he => h j e ?_, fun j e he => ?_⟩
  · rw [List.getElem?_append_left (List.getElem?_eq_some_iff.1 he).1, he]
  · rw [Nat.add_assoc]
    exact h _ e (by rw [List.getElem?_append_right (Nat.le_add_right _ _), Nat.add_sub_cancel_left, he])

theorem lists_ofTree (t : NodeTree) : (ofTree t).Lists 0 (t.entries none 0) := by
  intro j e he
  rw [Nat.zero_add, ← Array.getElem?_toList, ofTree_entries, he]

mutual

/-- The top node of a tree has the parent of the tree; the others have parents before them in the tree. -/
theorem Lists.parent {o : Outline} {parent : Option Nat} {j k : Nat} {t : NodeTree}
    (h : o.Lists k (t.entries parent k)) (hk : k ≤ j)
    (hj : j < k + t.size) : j = k ∧ o.parent? j = parent ∨ ∃ q, o.parent? j = some q ∧ k ≤ q ∧ q < j := by
  match t with
  | .mk n cs =>
    rw [NodeTree.entries] at h
    rw [NodeTree.size] at hj
    obtain ⟨htop, hrest⟩ := h.cons
    rcases Nat.eq_or_lt_of_le hk with rfl | hlt
    · exact .inl ⟨rfl, by simp [parent?, htop]⟩
    · rcases Lists.parentIn (j := j) hrest hlt (by omega) with hq | ⟨q, hq, hle, hlt'⟩
      · exact .inr ⟨k, hq, le_refl k, hlt⟩
      · exact .inr ⟨q, hq, by omega, hlt'⟩

theorem Lists.parentIn {o : Outline} {parent : Option Nat} {j k : Nat} {ts : List NodeTree}
    (h : o.Lists k (entriesIn parent k ts))
    (hk : k ≤ j) (hj : j < k + sizes ts) : o.parent? j = parent ∨ ∃ q, o.parent? j = some q ∧ k ≤ q ∧ q < j := by
  match ts with
  | [] => exact absurd hj (by simp [sizes, hk])
  | t :: ts =>
    rw [entriesIn] at h
    rw [sizes] at hj
    obtain ⟨ht, hts⟩ := h.append
    rw [length_entries] at hts
    by_cases hjt : j < k + t.size
    · exact (Lists.parent ht hk hjt).imp And.right id
    · rcases Lists.parentIn (j := j) hts (by omega) (by omega) with hq | ⟨q, hq, hle, hlt⟩
      · exact .inl hq
      · exact .inr ⟨q, hq, by omega, hlt⟩

end

theorem lt_size_of_parent (h : o.parent? i = some p) : i < o.size := by
  obtain ⟨e, he, _⟩ := Option.bind_eq_some_iff.1 h
  exact (Array.getElem?_eq_some_iff.1 he).1

/-- In the outline of a tree a parent has a smaller number than its children. -/
def Descends (o : Outline) : Prop := ∀ i p, o.parent? i = some p → p < i

theorem descends_ofTree (t : NodeTree) : (ofTree t).Descends := by
  intro i p h
  have hi := lt_size_of_parent h
  rw [size_ofTree] at hi
  rcases (lists_ofTree t).parent (Nat.zero_le i) (by omega) with ⟨_, hnone⟩ | ⟨q, hq, _, hlt⟩
  · rw [h] at hnone
    cases hnone
  · rw [h] at hq
    cases hq
    exact hlt

/-- A bound that is not below the number of a node does not cut its ancestors short. -/
theorem ancestorsFrom_eq (hd : o.Descends) (i : Nat) : ∀ {b b' : Nat}, i ≤ b → i ≤ b' →
    o.ancestorsFrom b i = o.ancestorsFrom b' i := by
  induction i using Nat.strong_induction_on with
  | _ i ih =>
    intro b b' hb hb'
    cases hp : o.parent? i with
    | none => cases b <;> cases b' <;> simp [ancestorsFrom, hp]
    | some p =>
      have hlt := hd i p hp
      obtain ⟨c, rfl⟩ : ∃ c, b = c + 1 := ⟨b - 1, by omega⟩
      obtain ⟨c', rfl⟩ : ∃ c', b' = c' + 1 := ⟨b' - 1, by omega⟩
      simp only [ancestorsFrom, hp]
      exact congrArg (p :: ·) (ih p hlt (by omega) (by omega))

/-- The ancestors of a node are its parent and the ancestors of its parent. -/
theorem ancestors_of_parent (hd : o.Descends) (h : o.parent? i = some p) : o.ancestors i = p :: o.ancestors p := by
  have hlt := hd i p h
  obtain ⟨j, rfl⟩ : ∃ j, i = j + 1 := ⟨i - 1, by omega⟩
  simp only [ancestors, ancestorsFrom, h]
  rw [ancestorsFrom_eq hd p (by omega) (le_refl p)]

end Outline

end ScopeFlow
