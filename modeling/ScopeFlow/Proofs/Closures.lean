import ScopeFlow.Report.Module
import ScopeFlow.Proofs.Joins

/-!
# The part of the graph that is shown

Of the graph of a bound module, the stamps and all that leads to them is shown. The walk that collects it follows every
antecedent and collects a place once, so what it collects is the backward closure of the stamps, in ascending order of
numbers. The report has an entry for each place, which says what the flow node there is (`Report.Tells`).
-/

namespace ScopeFlow

namespace FlowGraph

open WalkAux

variable {g : FlowGraph}

end FlowGraph

namespace Report

end Report

namespace Bind

open FlowGraph

variable {ω : Type} {u : Setup ω} {m : Module} {store : Store} {world : ω} {results : BindResults} {s' : State ω}

end Bind

end ScopeFlow
