import ScopeFlow.Proofs.Numbering

/-!
# Outlines number trees in pre-order

The nodes below a node have the numbers behind its own, up to a last one: the outline lists the subtree there, and this run of
numbers is closed (`Outline.Run`). A parent within the run has only children within it, and all numbers of the run but the
first have a parent in it.
-/

namespace ScopeFlow.Outline

open NodeTree Relation

variable {o : Outline} {i j n limit : Nat}

def IsParent (o : Outline) (p i : Nat) : Prop := o.parent? i = some p

/-- A run of numbers below a limit of which the first is above all others, and above no other number below the limit. -/
structure Run (o : Outline) (i n limit : Nat) : Prop where
  pos : 0 < n
  le : i + n ≤ limit
  inner : ∀ j, i < j → j < i + n → ∃ p, o.IsParent p j ∧ i ≤ p
  outer : ∀ j p, i + n ≤ j → j < limit → o.IsParent p j → p < i ∨ i + n ≤ p

/-- What is below the first number of a run is the run. -/
theorem Run.below_iff (h : o.Run i n o.size) (hd : o.Descends) : ReflTransGen o.IsParent i j ↔ i ≤ j ∧ j < i + n := by
  have hpos := h.pos
  constructor
  · intro hij
    induction hij with
    | refl => omega
    | @tail p j _ hp ih =>
      have hlt := hd j p hp
      refine ⟨by omega, Nat.lt_of_not_le fun hout => ?_⟩
      rcases h.outer j p hout (lt_size_of_parent hp) hp with hp' | hp' <;> omega
  · induction j using Nat.strong_induction_on with
    | _ j ih =>
      rintro ⟨hle, hlt⟩
      rcases Nat.eq_or_lt_of_le hle with rfl | hij
      · exact .refl
      · obtain ⟨p, hp, hip⟩ := h.inner j hij hlt
        have hpj := hd j p hp
        exact (ih p hpj ⟨hip, by omega⟩).tail hp

mutual

/-- Each node of a listed tree is the top of a listed tree whose numbers are a run. -/
theorem Lists.run {o : Outline} {parent : Option Nat} {i k : Nat} {t : NodeTree} (h : o.Lists k (t.entries parent k)) (hk : k ≤ i)
    (hi : i < k + t.size) : ∃ (s : NodeTree) (q : Option Nat), o.Lists i (s.entries q i) ∧ o.Run i s.size (k + t.size) := by
  match t with
  | .mk node cs =>
    rcases Nat.eq_or_lt_of_le hk with rfl | hlt
    · refine ⟨_, parent, h, by omega, le_refl _, fun j hkj hj => ?_, fun j p hle hlt _ => by omega⟩
      rcases h.parent (by omega) hj with ⟨heq, _⟩ | ⟨q, hq, hle, _⟩
      · omega
      · exact ⟨q, hq, hle⟩
    · rw [NodeTree.entries] at h
      rw [NodeTree.size, Nat.add_comm _ 1, ← Nat.add_assoc] at hi ⊢
      exact Lists.runIn h.cons.2 (Nat.lt_succ_self k) hlt hi

theorem Lists.runIn {o : Outline} {i k q : Nat} {ts : List NodeTree} (h : o.Lists k (entriesIn (some q) k ts))
    (hq : q < k) (hk : k ≤ i)
    (hi : i < k + sizes ts) : ∃ (s : NodeTree) (q : Option Nat), o.Lists i (s.entries q i) ∧ o.Run i s.size (k + sizes ts) := by
  match ts with
  | [] => exact absurd hi (by simp [sizes, hk])
  | t :: ts =>
    rw [entriesIn] at h
    rw [sizes, ← Nat.add_assoc] at hi ⊢
    obtain ⟨ht, hts⟩ := h.append
    rw [length_entries] at hts
    by_cases hit : i < k + t.size
    · obtain ⟨s, q', hs, hrun⟩ := Lists.run ht hk hit
      have hle := hrun.le
      refine ⟨s, q', hs, hrun.pos, by omega, hrun.inner, fun j p hj hlimit hp => ?_⟩
      by_cases hjt : j < k + t.size
      · exact hrun.outer j p hj hjt hp
      -- behind the tree of `i` a parent is that of all these trees, or in one of the trees there
      · rcases hts.parentIn (by omega) hlimit with hp' | ⟨q', hp', hle', _⟩
        · cases hp.symm.trans hp'
          exact .inl (by omega)
        · cases hp.symm.trans hp'
          exact .inr (by omega)
    · exact Lists.runIn hts (by omega) (by omega) hi

end

/-- The ancestors of a node are those that it is below. -/
theorem mem_ancestors_iff (hd : o.Descends) {a : Nat} (i : Nat) : a ∈ o.ancestors i ↔ TransGen o.IsParent a i := by
  induction i using Nat.strong_induction_on with
  | _ i ih =>
    rw [TransGen.tail'_iff]
    cases hp : o.parent? i with
    | none =>
      have hnil : o.ancestors i = [] := by cases i <;> simp [ancestors, ancestorsFrom, hp]
      simp [hnil, IsParent, hp]
    | some p => simp [ancestors_of_parent hd hp, IsParent, hp, ih p (hd i p hp), reflTransGen_iff_eq_or_transGen, eq_comm]

theorem parent?_ofTree (t : NodeTree) (hi : i < t.size) :
    i = 0 ∧ (ofTree t).parent? i = none ∨ ∃ p, (ofTree t).IsParent p i ∧ p < i := by
  rcases (lists_ofTree t).parent (Nat.zero_le i) (by omega) with hroot | ⟨q, hq, _, hlt⟩
  · exact .inl hroot
  · exact .inr ⟨q, hq, hlt⟩

/-- Climbing from a node goes from parent to parent up to the root. -/
theorem ancestors_ofTree (t : NodeTree) (hi : i < t.size) :
    List.IsChain (fun a b => (ofTree t).IsParent b a) (i :: (ofTree t).ancestors i) ∧
      (i :: (ofTree t).ancestors i).getLast? = some 0 := by
  induction i using Nat.strong_induction_on with
  | _ i ih =>
    rcases parent?_ofTree t hi with ⟨rfl, _⟩ | ⟨p, hp, hlt⟩
    · simp [ancestors, ancestorsFrom]
    · rw [ancestors_of_parent (descends_ofTree t) hp]
      obtain ⟨hchain, hlast⟩ := ih p hlt (by omega)
      exact ⟨List.isChain_cons_cons.2 ⟨hp, hchain⟩, by rw [List.getLast?_cons_cons, hlast]⟩

/-- The outline has the entries of the recursive walk. The root has no parent and every other node has one with a smaller
number. From the number of a node on the outline lists a tree, whose numbers are those below the node. Climbing from a node
lists what it is below, from parent to parent up to the root. In a numbered module the nodes have their numbers in the outline. -/
theorem outline_is_preorder (t : NodeTree) :
    (ofTree t).entries.toList = t.entries none 0 ∧ (ofTree t).entries.toList.map OutlineEntry.node = t.preorder ∧
      (ofTree t).parent? 0 = none ∧ (∀ i, 0 < i → i < t.size → ∃ p, (ofTree t).IsParent p i ∧ p < i) ∧
      (∀ i < t.size, ∃ (s : NodeTree) (q : Option Nat), (ofTree t).Lists i (s.entries q i) ∧
        ∀ j, ReflTransGen (ofTree t).IsParent i j ↔ i ≤ j ∧ j < i + s.size) ∧
      (∀ i < t.size, List.IsChain (fun a b => (ofTree t).IsParent b a) (i :: (ofTree t).ancestors i) ∧
        (i :: (ofTree t).ancestors i).getLast? = some 0 ∧ ∀ a, a ∈ (ofTree t).ancestors i ↔ TransGen (ofTree t).IsParent a i) ∧
      ∀ m : Module, (ofModule m.number).entries.toList.map (fun e => e.node.mark.index) =
        List.range (ofModule m.number).size := by
  have hd := descends_ofTree t
  have hnodes : (ofTree t).entries.toList.map OutlineEntry.node = t.preorder := by rw [ofTree_entries, nodes_entries]
  refine ⟨ofTree_entries t, hnodes, ?_, fun i hpos hi => ?_, fun i hi => ?_, fun i hi => ?_, fun m => ?_⟩
  · cases hp : (ofTree t).parent? 0 with
    | none => rfl
    | some p => exact absurd (hd 0 p hp) (Nat.not_lt_zero p)
  · exact (parent?_ofTree t hi).resolve_left fun h => by omega
  · obtain ⟨s, q, hs, hrun⟩ := (lists_ofTree t).run (Nat.zero_le i) (by omega)
    rw [Nat.zero_add, ← size_ofTree t] at hrun
    exact ⟨s, q, hs, fun j => hrun.below_iff hd⟩
  · obtain ⟨hchain, hlast⟩ := ancestors_ofTree t hi
    exact ⟨hchain, hlast, fun a => mem_ancestors_iff hd i⟩
  · have hlabels := m.labels_number
    rw [labels, ← nodes_entries none 0, ← ofTree_entries, List.map_map] at hlabels
    rw [ofModule, size_ofTree]
    exact hlabels

end ScopeFlow.Outline
