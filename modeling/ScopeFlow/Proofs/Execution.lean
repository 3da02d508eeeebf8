import ScopeFlow.Proofs.Truth

/-!
# Abstract execution

What the execution of statements may come to, without a look at values. A simple statement completes; an exception may occur
at any statement; a test comes out as `MayBe` allows; a loop runs any number of rounds; the cases of a `match` are tried in
order; an exception in the body of a `try` may enter any of its clauses, and a context manager may swallow it; a `finally`
suite runs whatever it follows has come to, and what it comes to itself takes precedence unless it completes.

What decides static conditions grows with the imports of modules on the way, in the order of the text. Imports in statements
that are marked as dead do not count, so the marks are a parameter (`dead`).
-/

namespace ScopeFlow

/-- What an execution comes to: an end, or a statement that it comes by. -/
inductive Outcome where
  | completes | breaks | continues | returns | raises
  | reaches (node : Nat)

namespace Outcome

/-- Whether an outcome is an end. -/
def isEnd : Outcome → Bool
  | reaches _ => false
  | _ => true

/-- Whether an outcome of a round of a loop is one of the whole loop. -/
def leavesLoop : Outcome → Bool
  | returns | raises | reaches _ => true
  | _ => false

end Outcome

/-- The outcomes of a loop, of which `round` are the outcomes of one more round and `exhausted` those of the code behind the
last one. -/
inductive Rounds (round exhausted : Outcome → Prop) : Outcome → Prop where
  | exhausted {o : Outcome} : exhausted o → Rounds round exhausted o
  | again {o : Outcome} : round .completes ∨ round .continues → Rounds round exhausted o → Rounds round exhausted o
  | broken : round .breaks → Rounds round exhausted .completes
  | left {o : Outcome} : o.leavesLoop = true → round o → Rounds round exhausted o

/-- The outcomes of a `try` statement without its `finally` suite. -/
def Tried (body orElse handlers : Outcome → Prop) (o : Outcome) : Prop :=
  body .completes ∧ orElse o ∨ o ≠ .completes ∧ body o ∨ body .raises ∧ handlers o

/-- The outcomes of code that a `finally` suite follows. -/
def Finally (tried final : Outcome → Prop) (o : Outcome) : Prop :=
  o.isEnd = false ∧ tried o ∨ ∃ o', o'.isEnd = true ∧ tried o' ∧ (o ≠ .completes ∧ final o ∨ final .completes ∧ o = o')

namespace StaticContext

mutual

/-- What decides static conditions behind a statement. -/
def behind (dead : Nat → Bool) (c : StaticContext) (s : Stmt) : StaticContext :=
  match s with
  | .importModules _ names => names.foldl learn c
  | .classDef _ _ _ _ body _ => behindAll dead c body
  | .forLoop _ _ _ _ body orElse => behindAll dead (behindAll dead c body) orElse
  | .whileLoop _ _ body orElse => behindAll dead (behindAll dead c body) orElse
  | .ifElse _ _ body orElse => behindAll dead (behindAll dead c body) orElse
  | .withBlock _ _ _ body => behindAll dead c body
  | .matchOn _ _ cases => behindCases dead c cases
  | .tryBlock _ _ body handlers orElse final =>
    behindAll dead (behindHandlers dead (behindAll dead (behindAll dead c body) orElse) handlers) final
  | _ => c

/-- What decides static conditions behind several statements. -/
def behindAll (dead : Nat → Bool) (c : StaticContext) (ss : List Stmt) : StaticContext :=
  match ss with
  | [] => c
  | s :: ss => behindAll dead (if dead s.mark.index then c else behind dead c s) ss

/-- What decides static conditions behind `except` clauses. -/
def behindHandlers (dead : Nat → Bool) (c : StaticContext) (hs : List Handler) : StaticContext :=
  match hs with
  | [] => c
  | .mk _ _ _ body :: hs => behindHandlers dead (behindAll dead c body) hs

/-- What decides static conditions behind `case` clauses. -/
def behindCases (dead : Nat → Bool) (c : StaticContext) (cs : List MatchCase) : StaticContext :=
  match cs with
  | [] => c
  | .mk _ _ _ body :: cs => behindCases dead (behindAll dead c body) cs

end

end StaticContext

mutual

/-- Whether a statement may run to an outcome. -/
def Stmt.RunsTo (dead : Nat → Bool) (c : StaticContext) (s : Stmt) (o : Outcome) : Prop :=
  match s with
  | .returnValue .. => o = .returns
  | .raise .. => o = .raises
  | .breakLoop _ => o = .breaks
  | .continueLoop _ => o = .continues
  | .classDef _ _ _ _ body _ => Stmt.AllRunTo dead c body o
  | .forLoop _ _ _ _ body orElse =>
    Rounds (Stmt.AllRunTo dead c body) (Stmt.AllRunTo dead (c.behindAll dead body) orElse) o
  | .whileLoop _ test body orElse =>
    Rounds (fun o => c.MayBe test true ∧ Stmt.AllRunTo dead c body o)
      (fun o => c.MayBe test false ∧ Stmt.AllRunTo dead (c.behindAll dead body) orElse o) o
  | .ifElse _ test body orElse =>
    c.MayBe test true ∧ Stmt.AllRunTo dead c body o ∨
      c.MayBe test false ∧ Stmt.AllRunTo dead (c.behindAll dead body) orElse o
  | .withBlock _ _ _ body => Stmt.AllRunTo dead c body o ∨ o = .completes ∧ Stmt.AllRunTo dead c body .raises
  | .matchOn _ _ cases => MatchCase.OneRunsTo dead c cases o
  | .tryBlock _ _ body handlers orElse final =>
    let behindBody := c.behindAll dead body
    let behindElse := behindBody.behindAll dead orElse
    Finally
      (Tried (Stmt.AllRunTo dead c body) (Stmt.AllRunTo dead behindBody orElse)
        (Handler.OneRunsTo dead behindElse handlers))
      (Stmt.AllRunTo dead (behindElse.behindHandlers dead handlers) final) o
  | .assertion _ test _ => c.MayBe test true ∧ o = .completes ∨ c.MayBe test false ∧ o = .raises
  | _ => o = .completes

/-- Whether statements, one after the other, may run to an outcome. An exception may occur at any of them. -/
def Stmt.AllRunTo (dead : Nat → Bool) (c : StaticContext) (ss : List Stmt) (o : Outcome) : Prop :=
  match ss with
  | [] => o = .completes
  | s :: ss =>
    o = .reaches s.mark.index ∨ o = .raises ∨ o ≠ .completes ∧ s.RunsTo dead c o ∨
      s.RunsTo dead c .completes ∧ Stmt.AllRunTo dead (if dead s.mark.index then c else c.behind dead s) ss o

/-- Whether the `except` clause that an exception enters may run to an outcome. -/
def Handler.OneRunsTo (dead : Nat → Bool) (c : StaticContext) (hs : List Handler) (o : Outcome) : Prop :=
  match hs with
  | [] => False
  | .mk _ _ _ body :: hs => Stmt.AllRunTo dead c body o ∨ Handler.OneRunsTo dead (c.behindAll dead body) hs o

/-- Whether the `case` that matches, if one does, may run to an outcome. -/
def MatchCase.OneRunsTo (dead : Nat → Bool) (c : StaticContext) (cs : List MatchCase) (o : Outcome) : Prop :=
  match cs with
  | [] => o = .completes
  | .mk _ pattern guard body :: cs =>
    GuardMayBe guard c true ∧ Stmt.AllRunTo dead c body o ∨
      (pattern.isWildcard = false ∨ GuardMayBe guard c false) ∧ MatchCase.OneRunsTo dead (c.behindAll dead body) cs o

end

end ScopeFlow
