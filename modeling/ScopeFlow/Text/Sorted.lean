/-!
# Names in order

Sets of names are shown in order of their characters, each name once.
-/

namespace ScopeFlow

/-- Names in order of their characters, each once. -/
def sortedNames (names : List String) : List String := names.eraseDups.mergeSort (fun a b => a ≤ b)

end ScopeFlow
