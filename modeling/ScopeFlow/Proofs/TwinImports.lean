import ScopeFlow.Proofs.TwinNames
import ScopeFlow.Proofs.Evaluations

/-!
# Imports, exported names and conditions in two runs

What is seen of another module is the same in both runs, so the same names are imported, and the same operations on the list of
exported names are followed. Where an operation cannot be followed or an import is not found, both runs go on in the same way
whether or not the rule lets it be reported.
-/

namespace ScopeFlow.Bind

open Store NodeTree

variable {ω ω' : Type} {p : Twins ω ω'} {N : Nat → Prop} {R : State ω → State ω' → Prop}

section

variable (H : Notes p R)
include H

/-! ## The list of exported names -/

theorem Notes.adjustAll_mirrors (f : List String → List String) : Mirrors R (adjustAll f) (adjustAll f) :=
  .ofModify fun _ _ h => H.change h id (·.map f)

theorem Notes.setAll_mirrors (names : List String) : Mirrors R (setAll names) (setAll names) :=
  .ofModify fun _ _ h => H.change h id fun _ => some names

theorem Notes.reportUnsupportedAll_mirrors (mark : Mark) :
    Mirrors R (reportUnsupportedAll p.left mark) (reportUnsupportedAll p.right mark) := H.reportRule _ _ _ _ _

/-- Strings that are appended in both runs. -/
theorem Notes.appendAll_mirrors (names : List String) (b : Bool) :
    Mirrors R (do adjustAll (· ++ names); return b : BindM ω Bool) (do adjustAll (· ++ names); return b : BindM ω' Bool) :=
  .seq (H.adjustAll_mirrors _) fun _ => .pure rfl

theorem Notes.assignAll_mirrors (mark : Mark) (value : Expr) :
    Mirrors R (assignAll p.left mark value) (assignAll p.right mark value) := by
  have hreport := H.reportUnsupportedAll_mirrors mark
  unfold assignAll
  split
  · exact .seq (H.setAll_mirrors _) fun _ => .ite (.pure rfl) hreport
  · exact .seq (H.setAll_mirrors _) fun _ => .ite (.pure rfl) hreport
  · exact .seq (H.setAll_mirrors _) fun _ => hreport

theorem Notes.followAssign_mirrors (ctx : Context) (mark : Mark) (targets : List Expr) (value : Expr) :
    Mirrors R (followAssign p.left ctx mark targets value) (followAssign p.right ctx mark targets value) :=
  .seq (scopeType_mirrors H ctx) fun _ => .ite (H.assignAll_mirrors mark value) (.pure rfl)

end

section

variable (H : Views p R)
include H

theorem Views.importedAll_mirrors (ctx : Context) (name : String) :
    Mirrors R (importedAll p.left ctx name) (importedAll p.right ctx name) := by
  refine .bind (symbolIn_alike H ctx.scope name) fun x y hxy => ?_
  cases hxy with
  | none => exact .pure rfl
  | some hxy =>
    dsimp only
    rw [hxy.declarations]
    split
    · exact .pure rfl
    · split
      · exact .pure rfl
      · exact .seq (H.exports _) fun _ => .pure rfl

theorem Views.namesOfAll_mirrors (ctx : Context) (e : Expr) : Mirrors R (namesOfAll p.left ctx e) (namesOfAll p.right ctx e) := by
  unfold namesOfAll
  split
  · exact .ite (H.importedAll_mirrors ctx _) (.pure rfl)
  · exact .pure rfl

theorem Views.followAllCall_mirrors (ctx : Context) (method : String) (args : List Expr) :
    Mirrors R (followAllCall p.left ctx method args) (followAllCall p.right ctx method args) := by
  unfold followAllCall
  split
  · split
    · split
      · exact H.appendAll_mirrors _ _
      · refine .seq (H.namesOfAll_mirrors ctx _) fun names => ?_
        split
        · exact H.appendAll_mirrors _ _
        · exact .pure rfl
    · refine .read fun s t h => ?_
      rw [(H.look h).all]
      split
      · exact Alike.seq (H.adjustAll_mirrors _) (fun _ => .pure rfl) h
      · exact .ok rfl h
    · split
      · exact H.appendAll_mirrors _ _
      · exact .pure rfl
    · exact .pure rfl
  · exact .pure rfl

theorem Views.followCall_mirrors (ctx : Context) (mark : Mark) (func : Expr) (args : List Expr) :
    Mirrors R (followCall p.left ctx mark func args) (followCall p.right ctx mark func args) := by
  unfold followCall
  split
  · refine .seq (scopeType_mirrors H ctx) fun _ => .ite (.seq (H.followAllCall_mirrors ctx _ args) fun _ => ?_) (.pure rfl)
    exact .ite (.pure rfl) (H.reportUnsupportedAll_mirrors mark)
  · exact .pure rfl

theorem Views.followAdd_mirrors (ctx : Context) (mark : Mark) (target : Expr) (op : BinaryOperator) (value : Expr) :
    Mirrors R (followAdd p.left ctx mark target op value) (followAdd p.right ctx mark target op value) := by
  refine .seq (scopeType_mirrors H ctx) fun _ => .ite ?_ (.pure rfl)
  split
  · exact H.adjustAll_mirrors _
  · refine .seq (H.namesOfAll_mirrors ctx value) fun names => ?_
    split
    · exact H.adjustAll_mirrors _
    · exact H.reportUnsupportedAll_mirrors mark

end

section

variable (H : Notes p R)
include H

/-! ## Imports -/

theorem Notes.reportImport_mirrors (mark : Mark) (record : Option ImportRecord) :
    Mirrors R (reportImport p.left mark record) (reportImport p.right mark record) := by
  have hrule := fun rule key name actions => H.reportRule rule key mark name actions
  unfold reportImport
  split
  · exact .pure rfl
  · refine .ite (.pure rfl) (.ite (.seq (hrule _ _ _ _) fun _ => .pure rfl) (.when (hrule _ _ _ _) fun _ => .ite ?_ (.pure rfl)))
    split
    · exact .ite (.pure rfl) (hrule _ _ _ _)
    · exact .pure rfl

theorem Notes.hideImported_mirrors (ctx : Context) (name : String) (ref : SymbolRef) :
    Mirrors R (hideImported p.left ctx name ref) (hideImported p.right ctx name ref) :=
  .ite (H.adjustSymbol _ _ fun _ _ _ => rfl) (.seq (scopeType_mirrors H ctx) fun _ =>
    .ite (H.keepBack_mirrors _ _) (.pure rfl))

theorem Notes.declareModule_mirrors (site : Site) (localName : Option String) (record : Option ImportRecord) (ref : SymbolRef)
    (parts : List String) :
    Mirrors R (declareModule site localName record ref parts) (declareModule site localName record ref parts) := by
  unfold declareModule
  dsimp only
  split
  · refine .bind (symbolIn_alike H ref.scope ref.name) fun x y hxy => ?_
    rw [declarations_of_like hxy]
    split
    · exact H.adjustSymbol _ _ fun _ _ _ => rfl
    · exact H.declare_mirrors _ _
  · exact H.declare_mirrors _ _

end

section

variable (H : Mirror p (fun _ => True) R)
include H

theorem declareImport_mirrors (ctx : Context) (n : ImportName) :
    Mirrors R (declareImport p.left ctx n) (declareImport p.right ctx n) := by
  refine .seq (bindHere_mirrors H ctx _) fun symbol => ?_
  have hreport := H.reportImport_mirrors n.mark (importRecord p.left n.mark.index)
  cases symbol with
  | none => exact hreport
  | some ref =>
    have hrest := Alike.seq hreport fun _ => H.declareModule_mirrors n.site n.asName (importRecord p.left n.mark.index) ref
      (DottedName.parts n.name)
    exact .ite hrest (.seq (H.hideImported_mirrors ctx _ ref) fun _ => hrest)

theorem noteModule_mirrors (n : ImportName) : Mirrors R (noteModule n) (noteModule n) := by
  unfold noteModule
  split
  · refine .ite (.ofModify fun _ _ h => ?_) (.ite (.ofModify fun _ _ h => ?_) (.pure rfl))
    · exact H.note h (· ++ [n.boundName]) id id
    · exact H.note h id (· ++ [n.boundName]) id
  · exact .pure rfl

theorem importModule_mirrors (ctx : Context) (n : ImportName) :
    Mirrors R (importModule p.left ctx n) (importModule p.right ctx n) :=
  .seq (declareImport_mirrors H ctx n) fun _ => .seq (assignName_mirrors H ctx (fun _ => trivial) _ _) fun _ =>
    noteModule_mirrors H n

theorem importSubmodule_mirrors (ctx : Context) (site : Site) (record : Option ImportRecord) (parts : List String) :
    Mirrors R (importSubmodule p.left ctx site record parts) (importSubmodule p.right ctx site record parts) := by
  have hassign :
    Mirrors R (assignName ctx site.index (parts.headD "") false) (assignName ctx site.index (parts.headD "") false) :=
    assignName_mirrors H ctx (fun _ => trivial) _ _
  refine .seq (bindHere_mirrors H ctx _) fun symbol => ?_
  cases symbol with
  | none => exact hassign
  | some ref => exact .seq (H.declareModule_mirrors site none record ref parts) fun _ => hassign

theorem importWildcardName_mirrors (ctx : Context) (site : Site) (record : ImportRecord) (exports : Exports) (name : String) :
    Mirrors R (importWildcardName p.left ctx site record exports name)
      (importWildcardName p.right ctx site record exports name) := by
  refine .seq (bindHere_mirrors H ctx name) fun symbol => ?_
  cases symbol with
  | none => exact .pure rfl
  | some ref =>
    refine .ite (.seq (H.declare_mirrors _ _) fun _ => .pure rfl) ?_
    cases submodule? record name with
    | none => exact .pure rfl
    | some i => exact .seq (H.declare_mirrors _ _) fun _ => .pure rfl

theorem importWildcardNames_mirrors (ctx : Context) (site : Site) (record : ImportRecord) (exports : Exports)
    (names : List String) : Mirrors R (importWildcardNames p.left ctx site record exports names)
      (importWildcardNames p.right ctx site record exports names) := by
  induction names with
  | nil => exact .pure rfl
  | cons name names ih =>
    exact .seq (importWildcardName_mirrors H ctx site record exports name) fun _ => .seq ih fun _ => .pure rfl

theorem importWildcard_mirrors (ctx : Context) (site : Site) (record : Option ImportRecord) (level : Option Int)
    (parts : List String) (inPackage : Bool) :
    Mirrors R (importWildcard p.left ctx site record level parts inPackage)
      (importWildcard p.right ctx site record level parts inPackage) := by
  have himport := importAll_mirrors H ctx site.index
  unfold importWildcard
  refine .when (H.reportError _ _ _) fun _ => ?_
  cases record with
  | none => exact .ite (.throw _) (.pure rfl)
  | some r =>
    refine .seq (H.exports _) fun exports => ?_
    cases exports with
    | none => exact .ite (.seq (.throw _) fun _ => himport _) (himport _)
    | some exports =>
      exact .when (importSubmodule_mirrors H ctx site (some r) parts) fun _ =>
        .seq (importWildcardNames_mirrors H ctx site r exports _) fun _ => himport _

theorem importName_mirrors (ctx : Context) (record : Option ImportRecord) (parts : List String) (isOwnPackage : Bool)
    (n : ImportName) :
    Mirrors R (importName p.left ctx record parts isOwnPackage n) (importName p.right ctx record parts isOwnPackage n) := by
  refine .seq (bindHere_mirrors H ctx _) fun symbol => ?_
  cases symbol with
  | none => exact .pure rfl
  | some ref =>
    refine .when (H.hideImported_mirrors ctx _ ref) fun _ => .seq (H.declare_mirrors _ _) fun _ => ?_
    refine .seq (assignName_mirrors H ctx (fun _ => trivial) _ _) fun _ => ?_
    split
    · exact .ite (.ofModify fun _ _ h => H.note h id id (·.put _ n.name)) (.pure rfl)
    · exact .pure rfl

theorem importNames_mirrors (ctx : Context) (record : Option ImportRecord) (parts : List String) (isOwnPackage : Bool)
    (names : List ImportName) :
    Mirrors R (importNames p.left ctx record parts isOwnPackage names)
      (importNames p.right ctx record parts isOwnPackage names) := by
  induction names with
  | nil => exact .pure rfl
  | cons n names ih => exact .seq (importName_mirrors H ctx record parts isOwnPackage n) fun _ => ih

theorem importFrom_mirrors (ctx : Context) (site : Site) (source : Option String) (names : List ImportName) (level : Option Int) :
    Mirrors R (importFrom p.left ctx site source names level) (importFrom p.right ctx site source names level) := by
  unfold importFrom
  refine .when (.throw _) fun _ => .seq (H.reportImport_mirrors _ _) fun _ => ?_
  split
  · refine .seq (importWildcard_mirrors H ctx site _ level _ _) fun _ => ?_
    split
    · refine .ite (.ofModify fun _ _ h => ?_) (.pure rfl)
      exact H.note h id id (fun symbols => formsOfInterest.foldl (fun t form => t.put form form) symbols)
    · exact .pure rfl
  · exact .when (importSubmodule_mirrors H ctx site _ _) fun _ => importNames_mirrors H ctx _ _ _ names

end

/-! ## Conditions -/

section

variable (H : Mirror p N R)
include H

theorem linkTest_mirrors (ctx : Context) (onTrue onFalse : FlowRef) (e : Expr) :
    Mirrors R (linkTest p.left ctx onTrue onFalse e) (linkTest p.right ctx onTrue onFalse e) :=
  .seq (current_mirrors H) fun _ => .seq (H.conditional ctx _ _ e) fun _ => .seq (link_mirrors H _ _) fun _ =>
    .seq (current_mirrors H) fun _ => .seq (H.conditional ctx _ _ e) fun _ => link_mirrors H _ _

theorem linkNever_mirrors (ctx : Context) (target : FlowRef) (positive : Bool) (e : Expr) :
    Mirrors R (linkNever p.left ctx target positive e) (linkNever p.right ctx target positive e) := by
  refine linkNever_law (Q := fun _ => True) (Φ := fun _ f g => Mirrors R f g) ?_ e trivial target positive
  refine ⟨.pure rfl, .seq, current_mirrors H, setCurrent_mirrors H, newBranch_mirrors H, finish_mirrors H, ?_, fun _ => trivial,
    fun _ _ _ => trivial, fun _ => .throw _⟩
  intro e hl _ target positive
  rw [linkNever_leaf hl, linkNever_leaf hl]
  refine .seq (ofExcept_mirrors _) fun _ => .ite ?_ (linkCurrent_mirrors H target)
  exact .seq (current_mirrors H) fun _ => .seq (H.conditional ctx _ _ _) fun _ => .seq (setCurrent_mirrors H _) fun _ =>
    linkCurrent_mirrors H target

end

end ScopeFlow.Bind
