import ScopeFlow.Proofs.Trees
import ScopeFlow.Bind.Module

/-!
# Nodes, counted

What a walk meets, and what it puts aside for later, is counted with repetitions: the nodes of trees and of bodies that wait,
and the statements of a piece of code, which the bodies of its functions are no part of.
-/

namespace ScopeFlow

namespace NodeTree

/-- The nodes of a tree, with repetitions. -/
def nodes (t : NodeTree) : Multiset Node := t.preorder

/-- The nodes of several trees, with repetitions. -/
def nodesIn (ts : List NodeTree) : Multiset Node := preorders ts

@[simp] theorem nodes_mk (n : Node) (cs : List NodeTree) : (mk n cs).nodes = {n} + nodesIn cs := by
  simp [nodes, nodesIn, preorder, ← Multiset.cons_coe, Multiset.singleton_add]

@[simp] theorem nodesIn_nil : nodesIn [] = 0 := rfl

@[simp] theorem nodesIn_cons (t : NodeTree) (ts : List NodeTree) : nodesIn (t :: ts) = t.nodes + nodesIn ts := by
  simp [nodes, nodesIn, preorders]

@[simp] theorem nodesIn_append (ts us : List NodeTree) : nodesIn (ts ++ us) = nodesIn ts + nodesIn us := by
  induction ts with
  | nil => simp
  | cons t ts ih => simp [ih, add_assoc]

end NodeTree

/-- The numbers of nodes, with repetitions. -/
def Node.numbers (ns : Multiset Node) : Multiset Nat := ns.map fun n => n.mark.index

namespace Node

@[simp] theorem numbers_zero : numbers 0 = 0 := rfl

@[simp] theorem numbers_singleton (n : Node) : numbers {n} = {n.mark.index} := rfl

@[simp] theorem numbers_cons (n : Node) (ns : Multiset Node) : numbers (n ::ₘ ns) = n.mark.index ::ₘ numbers ns :=
  Multiset.map_cons _ _ _

@[simp] theorem numbers_add (ns ms : Multiset Node) : numbers (ns + ms) = numbers ns + numbers ms := Multiset.map_add _ _ _

theorem numbers_le {ns ms : Multiset Node} (h : ns ≤ ms) : numbers ns ≤ numbers ms := Multiset.map_le_map h

end Node

namespace Bind

open NodeTree

/-- The mark of the node that a body belongs to. -/
def Body.mark : Body → Mark
  | .function m .. | .lambda m .. => m

/-- The nodes of parameters. -/
def paramNodes (ps : List Parameter) : Multiset Node := ps.map Node.parameter

/-- The nodes of a body and of the parameters that are bound with it. -/
def Body.nodes : Body → Multiset Node
  | .function _ params body => paramNodes params.all + nodesIn (Stmt.trees body)
  | .lambda _ params body => paramNodes params.all + body.tree.nodes

/-- The nodes of the iterable of the first clause, which is evaluated outside of the comprehension. -/
def firstIterable : List Clause → Multiset Node
  | [] => 0
  | .mk _ _ iterable _ :: _ => iterable.tree.nodes

/-- The nodes of clauses that are evaluated inside of the comprehension. -/
def clauseNodes (isFirst : Bool) : List Clause → Multiset Node
  | [] => 0
  | .mk _ target iterable conditions :: cs =>
    (if isFirst then 0 else iterable.tree.nodes) + (target.tree.nodes + (nodesIn (Expr.trees conditions) + clauseNodes false cs))

theorem clauseNodes_le (clauses : List Clause) : clauseNodes false clauses ≤ nodesIn (Clause.trees clauses) := by
  induction clauses with
  | nil => exact Multiset.zero_le _
  | cons clause clauses ih =>
    obtain ⟨m, target, iterable, conditions⟩ := clause
    have h := add_le_add (le_refl (iterable.tree.nodes + target.tree.nodes + nodesIn (Expr.trees conditions))) ih
    simp only [clauseNodes, Clause.trees, nodesIn_cons, nodes_mk, Bool.false_eq_true, if_false]
    refine (h.trans (Multiset.le_add_left _ {Node.clause (.mk m target iterable conditions)})).trans_eq' ?_ |>.trans_eq ?_
    · abel
    · abel

theorem firstIterable_add_le (clauses : List Clause) :
    firstIterable clauses + clauseNodes true clauses ≤ nodesIn (Clause.trees clauses) := by
  cases clauses with
  | nil => exact Multiset.zero_le _
  | cons clause clauses =>
    obtain ⟨m, target, iterable, conditions⟩ := clause
    have h := clauseNodes_le (.mk m target iterable conditions :: clauses)
    simpa [clauseNodes, firstIterable] using h

/-- The nodes of the defaults of parameters. -/
def defaultNodes : Parameters → Multiset Node
  | .mk _ _ _ _ _ kwDefaults _ defaults => nodesIn (Expr.trees defaults) + nodesIn (Expr.givenTrees kwDefaults)

/-- The nodes of the annotations of parameters. -/
def annotationNodes (ps : List Parameter) : Multiset Node := (ps.map fun p => nodesIn (Expr.givenTree p.hint)).sum

theorem annotationNodes_append (ps qs : List Parameter) :
    annotationNodes (ps ++ qs) = annotationNodes ps + annotationNodes qs := by
  simp [annotationNodes]

theorem paramNodes_append (ps qs : List Parameter) : paramNodes (ps ++ qs) = paramNodes ps + paramNodes qs := by
  simp [paramNodes]

theorem nodesIn_parameterTrees (ps : List Parameter) :
    nodesIn (Parameter.trees ps) = paramNodes ps + annotationNodes ps := by
  induction ps with
  | nil => rfl
  | cons p ps ih =>
    obtain ⟨m, name, hint⟩ := p
    have hone : paramNodes (.mk m name hint :: ps) = {Node.parameter (.mk m name hint)} + paramNodes ps := by
      simp [paramNodes, ← Multiset.cons_coe, Multiset.singleton_add]
    rw [Parameter.trees, nodesIn_cons, nodes_mk, ih, hone]
    simp only [annotationNodes, List.map_cons, List.sum_cons, Parameter.hint]
    abel

theorem nodesIn_parameterGivenTree (p : Option Parameter) :
    nodesIn (Parameter.givenTree p) = paramNodes p.toList + annotationNodes p.toList := by
  cases p with
  | none => rfl
  | some p =>
    obtain ⟨m, name, hint⟩ := p
    exact nodesIn_parameterTrees [.mk m name hint]

/-- The nodes of a parameter list: it, its parameters, their annotations and their defaults. -/
theorem nodes_parametersTree (ps : Parameters) :
    ps.tree.nodes = {Node.parameters ps} + (paramNodes ps.all + annotationNodes ps.all + defaultNodes ps) := by
  obtain ⟨m, posOnly, pos, rest, kwOnly, kwDefaults, kwRest, defaults⟩ := ps
  simp only [defaultNodes, Parameters.all, annotationNodes_append, paramNodes_append, Parameters.tree, nodes_mk,
    nodesIn_append, nodesIn_parameterTrees, nodesIn_parameterGivenTree]
  abel

mutual

/-- The statements of the code of a statement, itself included; the bodies of functions are not part of that
code. -/
def own (s : Stmt) : Multiset Node :=
  match s with
  | .classDef _ _ _ _ body _ => {Node.stmt s} + owns body
  | .forLoop _ _ _ _ body orElse => {Node.stmt s} + owns body + owns orElse
  | .whileLoop _ _ body orElse => {Node.stmt s} + owns body + owns orElse
  | .ifElse _ _ body orElse => {Node.stmt s} + owns body + owns orElse
  | .withBlock _ _ _ body => {Node.stmt s} + owns body
  | .matchOn _ _ cases => {Node.stmt s} + ownsCases cases
  | .tryBlock _ _ body handlers orElse final =>
    {Node.stmt s} + owns body + ownsHandlers handlers + owns orElse + owns final
  | s => {Node.stmt s}

/-- The same for several statements. -/
def owns (ss : List Stmt) : Multiset Node :=
  match ss with
  | [] => 0
  | s :: ss => own s + owns ss

/-- The same for `except` clauses. -/
def ownsHandlers (hs : List Handler) : Multiset Node :=
  match hs with
  | [] => 0
  | .mk _ _ _ body :: hs => owns body + ownsHandlers hs

/-- The same for `case` clauses. -/
def ownsCases (cs : List MatchCase) : Multiset Node :=
  match cs with
  | [] => 0
  | .mk _ _ _ body :: cs => owns body + ownsCases cs

end

mutual

theorem own_le (s : Stmt) : own s ≤ s.tree.nodes := by
  match s with
  | .classDef m name bases keywords body decorators =>
    have hb := owns_le body
    simp only [own, Stmt.tree, nodes_mk, nodesIn_append]
    exact add_le_add (le_refl _) (hb.trans ((Multiset.le_add_left _ _).trans (Multiset.le_add_right _ _)))
  | .forLoop m isAsync target iterable body orElse =>
    have h := add_le_add (owns_le body) (owns_le orElse)
    simp only [own, Stmt.tree, nodes_mk, nodesIn_cons, nodesIn_append, add_assoc]
    exact add_le_add (le_refl _) (h.trans ((Multiset.le_add_left _ _).trans (Multiset.le_add_left _ _)))
  | .whileLoop m test body orElse | .ifElse m test body orElse =>
    have h := add_le_add (owns_le body) (owns_le orElse)
    simp only [own, Stmt.tree, nodes_mk, nodesIn_cons, nodesIn_append, add_assoc]
    exact add_le_add (le_refl _) (h.trans (Multiset.le_add_left _ _))
  | .withBlock m isAsync items body =>
    simp only [own, Stmt.tree, nodes_mk, nodesIn_append]
    exact add_le_add (le_refl _) ((owns_le body).trans (Multiset.le_add_left _ _))
  | .matchOn m subject cases =>
    simp only [own, Stmt.tree, nodes_mk, nodesIn_cons]
    exact add_le_add (le_refl _) ((ownsCases_le cases).trans (Multiset.le_add_left _ _))
  | .tryBlock m isGroup body handlers orElse final =>
    have h := add_le_add (add_le_add (add_le_add (owns_le body) (ownsHandlers_le handlers)) (owns_le orElse)) (owns_le final)
    simp only [own, Stmt.tree, nodes_mk, nodesIn_append]
    refine (add_le_add (le_refl {Node.stmt (.tryBlock m isGroup body handlers orElse final)}) h).trans_eq' ?_
    abel
  | .function .. | .returnValue .. | .delete .. | .assign .. | .augAssign .. | .annAssign .. | .raise .. | .assertion ..
  | .importModules .. | .importFrom .. | .globals .. | .nonlocals .. | .expr .. | .pass .. | .breakLoop ..
  | .continueLoop .. | .typeAlias .. | .nested .. =>
    simp only [own, Stmt.tree, nodes_mk]
    exact Multiset.le_add_right _ _

theorem owns_le (ss : List Stmt) : owns ss ≤ nodesIn (Stmt.trees ss) := by
  match ss with
  | [] => exact le_refl _
  | s :: ss =>
    simp only [owns, Stmt.trees, nodesIn_cons]
    exact add_le_add (own_le s) (owns_le ss)

theorem ownsHandlers_le (hs : List Handler) : ownsHandlers hs ≤ nodesIn (Handler.trees hs) := by
  match hs with
  | [] => exact le_refl _
  | .mk m type name body :: hs =>
    simp only [ownsHandlers, Handler.trees, nodesIn_cons, nodes_mk, nodesIn_append]
    exact add_le_add ((owns_le body).trans ((Multiset.le_add_left _ _).trans (Multiset.le_add_left _ _)))
      (ownsHandlers_le hs)

theorem ownsCases_le (cs : List MatchCase) : ownsCases cs ≤ nodesIn (MatchCase.trees cs) := by
  match cs with
  | [] => exact le_refl _
  | .mk m pattern guard body :: cs =>
    simp only [ownsCases, MatchCase.trees, nodesIn_cons, nodes_mk, nodesIn_append]
    exact add_le_add ((owns_le body).trans ((Multiset.le_add_left _ _).trans ((Multiset.le_add_left _ _).trans
      (Multiset.le_add_left _ _)))) (ownsCases_le cs)

end

end Bind

end ScopeFlow
