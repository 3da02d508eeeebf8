import ScopeFlow.Import
import ScopeFlow.Json
import ScopeFlow.Range
import ScopeFlow.Text.Sorted

/-!
# Values of a report that JSON has no form for

Sets of names are written in order of their characters, members of an enumeration by name, and ranges as they are
printed. Nothing else has a written form.
-/

namespace ScopeFlow

/-- A value of a report that JSON has no form for. -/
inductive ReportValue where
  | names (names : List String)
  | importType (type : ImportType)
  | range (range : Range)
  | other (kind : String)

def ReportValue.toJson : ReportValue → Except Fault Json
  | names ns => .ok (.strs (sortedNames ns))
  | importType t => .ok (.str t.name)
  | range r => .ok (.str r.print)
  | other kind => .error (.unsupportedValue kind)

end ScopeFlow
