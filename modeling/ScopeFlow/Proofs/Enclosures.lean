import ScopeFlow.Proofs.Numbering
import ScopeFlow.Proofs.Trees
import ScopeFlow.Tree.Enclosing

/-!
# What encloses a node, from the root down

What encloses a node is found by climbing its ancestors. A walk goes the other way, from the root down, and what it needs to know
of the ancestors it inherits: the `Enclosure` of a node says which node receives an assignment expression, which class is around
it, and so on. `Node.inside` gives the enclosure of a child from that of its parent, and `NodeTree.Under` is a property of all
nodes of a tree in their enclosures.

In a numbered module both ways agree (`Module.under_number`): the enclosure of a node is what climbing finds.
-/

namespace ScopeFlow

/-! ## Enclosures -/

/-- What a node inherits from its ancestors. -/
structure Enclosure where
  /-- The node that receives an assignment expression, and the one that does so from inside a comprehension. -/
  plain : Option Nat := none
  inComprehension : Option Nat := none
  /-- The class around the node. -/
  cls : Option Nat := none
  /-- The class around the function around the node. -/
  owner : Option Nat := none
  /-- Whether the node stands in a comprehension of the same body. -/
  isNested : Bool := false
  /-- A number that is not above that of the node, and above those of the bodies around it. -/
  low : Nat := 0

/-- The enclosure of a child of a node, given that of the node and the number of the child. -/
def Node.inside (n : Node) (l : Enclosure) (child : Nat) : Enclosure :=
  if n.isComprehension then { l with plain := l.inComprehension, isNested := true }
  else if (n.isFunction || n.isLambda) && n.holdsInBody child then
    { plain := some n.mark.index
      inComprehension := some n.mark.index
      cls := l.cls
      owner := if n.isFunction then l.cls else l.owner
      low := n.mark.index + 1 }
  else if n.isClass && n.holdsInBody child then
    { plain := some n.mark.index, cls := some n.mark.index, low := n.mark.index + 1 }
  else if n.isModule then
    { l with plain := some n.mark.index, inComprehension := some n.mark.index, low := n.mark.index + 1 }
  else l

/-- Only functions, lambdas and classes hold anything in a body. -/
theorem Node.kind_of_holdsInBody (n : Node) {i : Nat} (h : n.holdsInBody i = true) :
    n.isFunction = true ∧ n.isLambda = false ∧ n.isClass = false ∨
      n.isFunction = false ∧ n.isLambda = true ∧ n.isClass = false ∨
      n.isFunction = false ∧ n.isLambda = false ∧ n.isClass = true := by
  unfold Node.holdsInBody at h
  split at h
  · exact .inl ⟨rfl, rfl, rfl⟩
  · exact .inr (.inr ⟨rfl, rfl, rfl⟩)
  · exact .inr (.inl ⟨rfl, rfl, rfl⟩)
  · cases h

namespace Outline

variable {o : Outline} {i p : Nat} {n : Node} {l : Enclosure} {ts : List NodeTree}

/-- Whether an enclosure is what climbing from a node finds. -/
structure Agrees (o : Outline) (l : Enclosure) (i : Nat) : Prop where
  plain : o.containerFrom false i (o.ancestors i) = l.plain
  inComprehension : o.containerFrom true i (o.ancestors i) = l.inComprehension
  cls : o.enclosingClass i false = l.cls
  owner : (o.enclosingFunction i).bind (fun f => o.enclosingClass f false) = l.owner
  low : l.low ≤ i

/-- Climbing from a child looks at its parent and goes on from there. -/
theorem climb_of_parent {α : Type} (hd : o.Descends) (hp : o.parent? i = some p) (hn : o.node? p = some n)
    (step : Node → Nat → Nat → Option α) (missing : α) :
    o.climb step missing i (o.ancestors i) = (step n p i).getD (o.climb step missing p (o.ancestors p)) := by
  rw [ancestors_of_parent hd hp]
  simp only [climb, hn]
  cases step n p i <;> rfl

/-- The enclosure of a child agrees with climbing if that of its parent does. -/
theorem Agrees.inside (h : o.Agrees l p) (hd : o.Descends) (hp : o.parent? i = some p) (hn : o.node? p = some n)
    (hmark : n.mark.index = p) : o.Agrees (n.inside l i) i := by
  have hlt := hd i p hp
  have hcls : o.enclosingClass i false = if n.isClass && n.holdsInBody i then some p else l.cls := by
    have hup := h.cls
    unfold enclosingClass at hup ⊢
    rw [climb_of_parent hd hp hn, hup]
    cases n.isClass && n.holdsInBody i <;> simp
  have hfun : o.enclosingFunction i = if n.isFunction && n.holdsInBody i then some p
      else if n.isClass && n.holdsInBody i then none else o.enclosingFunction p := by
    unfold enclosingFunction
    rw [climb_of_parent hd hp hn]
    cases n.isFunction && n.holdsInBody i <;> cases n.isClass && n.holdsInBody i <;> simp
  have hcontainer : ∀ flag, o.containerFrom flag i (o.ancestors i) =
      if n.isComprehension then l.inComprehension
      else if (n.isFunction || n.isLambda) && n.holdsInBody i then some p
      else if n.isClass && n.holdsInBody i then (if flag then none else some p)
      else if n.isModule then some p
      else o.containerFrom flag p (o.ancestors p) := by
    intro flag
    rw [ancestors_of_parent hd hp]
    simp only [containerFrom, hn, h.inComprehension]
  have hlow := h.low
  unfold Node.inside
  cases hc : n.isComprehension with
  | true =>
    have hf : n.isFunction = false ∧ n.isClass = false := by
      cases n with
      | expr e => exact ⟨rfl, rfl⟩
      | _ => cases hc
    refine ⟨by rw [hcontainer]; simp [hc], by rw [hcontainer]; simp [hc], by rw [hcls]; simp [hf.2], ?_, by simp; omega⟩
    rw [hfun]
    simpa [hf] using h.owner
  | false =>
    cases hb : n.holdsInBody i with
    | false =>
      cases hm : n.isModule with
      | true =>
        refine ⟨by rw [hcontainer]; simp [hc, hb, hm, hmark], by rw [hcontainer]; simp [hc, hb, hm, hmark],
          by rw [hcls]; simp [hb], ?_, by simp; omega⟩
        rw [hfun]
        simpa [hb] using h.owner
      | false =>
        refine ⟨by rw [hcontainer]; simp [hc, hb, hm, h.plain], by rw [hcontainer]; simp [hc, hb, hm, h.inComprehension],
          by rw [hcls]; simp [hb], ?_, by simp; omega⟩
        rw [hfun]
        simpa [hb] using h.owner
    | true =>
      -- only functions, lambdas and classes hold anything in a body
      rcases n.kind_of_holdsInBody hb with ⟨hf, hl, hk⟩ | ⟨hf, hl, hk⟩ | ⟨hf, hl, hk⟩
      · refine ⟨by rw [hcontainer]; simp [hc, hb, hf, hmark], by rw [hcontainer]; simp [hc, hb, hf, hmark],
          by rw [hcls]; simp [hb, hf, hk], ?_, by simp [hf]; omega⟩
        rw [hfun]
        simp [hb, hf, h.cls]
      · refine ⟨by rw [hcontainer]; simp [hc, hb, hl, hmark], by rw [hcontainer]; simp [hc, hb, hl, hmark],
          by rw [hcls]; simp [hb, hl, hk], ?_, by simp [hl]; omega⟩
        rw [hfun]
        simpa [hb, hf, hl, hk] using h.owner
      · refine ⟨by rw [hcontainer]; simp [hc, hb, hf, hl, hk, hmark], by rw [hcontainer]; simp [hc, hb, hf, hl, hk],
          by rw [hcls]; simp [hb, hf, hl, hk, hmark], ?_, by simp [hf, hl, hk]; omega⟩
        rw [hfun]
        simp [hb, hf, hl, hk]

end Outline

/-! ## Nodes in their enclosures -/

namespace NodeTree

mutual

/-- Whether a property holds of every node of a tree in its enclosure. -/
def Under (P : Enclosure → Node → Prop) (l : Enclosure) : NodeTree → Prop
  | mk n cs => P l n ∧ UnderIn P (n.inside l) cs

/-- Whether a property holds of every node of several trees, of which each top node has an enclosure that depends on its
number. -/
def UnderIn (P : Enclosure → Node → Prop) (f : Nat → Enclosure) : List NodeTree → Prop
  | [] => True
  | t :: ts => t.Under P (f t.node.mark.index) ∧ UnderIn P f ts

end

variable {P Q : Enclosure → Node → Prop} {l : Enclosure} {f g : Nat → Enclosure}

@[simp] theorem under_mk {n : Node} {cs : List NodeTree} : (mk n cs).Under P l ↔ P l n ∧ UnderIn P (n.inside l) cs := by
  rw [Under]

@[simp] theorem underIn_nil : UnderIn P f [] := by
  rw [UnderIn]
  trivial

@[simp] theorem underIn_cons {t : NodeTree} {ts : List NodeTree} :
    UnderIn P f (t :: ts) ↔ t.Under P (f t.node.mark.index) ∧ UnderIn P f ts := by
  rw [UnderIn]

@[simp] theorem underIn_append {ts us : List NodeTree} : UnderIn P f (ts ++ us) ↔ UnderIn P f ts ∧ UnderIn P f us := by
  induction ts with
  | nil => simp
  | cons t ts ih => simp [ih, and_assoc]

/-- Trees whose top nodes have the same enclosures. -/
theorem UnderIn.congr (h : UnderIn P f ts) (hfg : ∀ t ∈ ts, g t.node.mark.index = f t.node.mark.index) :
    UnderIn P g ts := by
  induction ts with
  | nil => simp
  | cons t ts ih =>
    rw [underIn_cons] at h ⊢
    rw [hfg t (by simp)]
    exact ⟨h.1, ih h.2 fun t' ht' => hfg t' (by simp [ht'])⟩

mutual

theorem Under.and_all {P : Enclosure → Node → Prop} {l : Enclosure} {R : Node → Prop} {t : NodeTree} (h : t.Under P l)
    (hall : t.All R) : t.Under (fun l n => P l n ∧ R n) l := by
  match t with
  | .mk n cs =>
    rw [under_mk] at h ⊢
    rw [all_mk] at hall
    exact ⟨⟨h.1, hall.1⟩, UnderIn.and_all h.2 hall.2⟩

theorem UnderIn.and_all {P : Enclosure → Node → Prop} {f : Nat → Enclosure} {R : Node → Prop}
    (h : UnderIn P f ts) (hall : AllIn R ts) :
    UnderIn (fun l n => P l n ∧ R n) f ts := by
  match ts with
  | [] => simp
  | t :: ts =>
    rw [underIn_cons] at h ⊢
    rw [allIn_cons] at hall
    exact ⟨Under.and_all h.1 hall.1, UnderIn.and_all h.2 hall.2⟩

end

mutual

theorem Under.imp {P Q : Enclosure → Node → Prop} {l : Enclosure} {t : NodeTree} (h : t.Under P l)
    (hi : ∀ l n, P l n → Q l n) : t.Under Q l := by
  match t with
  | .mk n cs =>
    rw [under_mk] at h ⊢
    exact ⟨hi l n h.1, UnderIn.imp h.2 hi⟩

theorem UnderIn.imp {P Q : Enclosure → Node → Prop} {f : Nat → Enclosure} (h : UnderIn P f ts)
    (hi : ∀ l n, P l n → Q l n) : UnderIn Q f ts := by
  match ts with
  | [] => simp
  | t :: ts =>
    rw [underIn_cons] at h ⊢
    exact ⟨Under.imp h.1 hi, UnderIn.imp h.2 hi⟩

end

end NodeTree

namespace Outline

open NodeTree

/-- Whether the outline has a node under its number, in an enclosure that is what climbing finds. -/
def Encloses (o : Outline) (l : Enclosure) (n : Node) : Prop := o.node? n.mark.index = some n ∧ o.Agrees l n.mark.index

mutual

/-- A tree whose entries stand in the outline from a number on, and whose nodes are numbered from there, is enclosed as climbing
finds. -/
theorem under_of_entries {o : Outline} (hd : o.Descends) {l : Enclosure} (parent : Option Nat) {k : Nat} (t : NodeTree)
    (hlabels : t.labels = List.range' k t.size)
    (hentries : o.Lists k (t.entries parent k)) (hl : o.Agrees l k) : t.Under o.Encloses l := by
  match t with
  | .mk n cs =>
    simp only [labels_mk, NodeTree.size, List.range'_succ, List.cons.injEq] at hlabels
    obtain ⟨hmark, hrest⟩ := hlabels
    rw [NodeTree.entries] at hentries
    obtain ⟨htop, hchildren⟩ := hentries.cons
    have hnode : o.node? k = some n := by simp [node?, htop]
    rw [under_mk, Encloses, hmark]
    exact ⟨⟨hnode, hl⟩, underIn_of_entries hd cs hrest hchildren fun i hi => hl.inside hd hi hnode hmark⟩

theorem underIn_of_entries {o : Outline} (hd : o.Descends) {p k : Nat} {f : Nat → Enclosure} (ts : List NodeTree)
    (hlabels : labelsIn ts = List.range' k (sizes ts))
    (hentries : o.Lists k (entriesIn (some p) k ts)) (hf : ∀ i, o.parent? i = some p → o.Agrees (f i) i) :
    UnderIn o.Encloses f ts := by
  match ts with
  | [] => simp
  | .mk n cs :: ts =>
    have hlength : (NodeTree.mk n cs).labels.length = (NodeTree.mk n cs).size := by
      rw [labels, List.length_map, length_preorder]
    rw [labelsIn_cons, sizes, ← List.range'_append_1] at hlabels
    obtain ⟨hfirst, hrest⟩ := List.append_inj hlabels (by rw [hlength, List.length_range'])
    have hmark : n.mark.index = k := by
      simp only [labels_mk, NodeTree.size, List.range'_succ, List.cons.injEq] at hfirst
      exact hfirst.1
    rw [entriesIn] at hentries
    obtain ⟨ht, hts⟩ := hentries.append
    rw [length_entries] at hts
    have hparent : o.parent? k = some p := by
      have htop := ht
      rw [NodeTree.entries] at htop
      simp [parent?, htop.cons.1]
    rw [underIn_cons]
    refine ⟨under_of_entries hd (some p) (.mk n cs) hfirst ht ?_, underIn_of_entries hd ts hrest hts hf⟩
    simp only [NodeTree.node, hmark]
    exact hf k hparent

end

end Outline

/-- In a numbered module every node stands in the outline under its number, and its enclosure is what climbing finds. -/
theorem Module.under_number (m : Module) :
    m.number.tree.Under (Outline.ofModule m.number).Encloses {} := by
  have hd := Outline.descends_ofTree m.number.tree
  refine Outline.under_of_entries hd none _ ?_ (Outline.lists_ofTree _) ⟨rfl, rfl, rfl, rfl, le_refl _⟩
  rw [m.labels_number, List.range_eq_range']

end ScopeFlow
