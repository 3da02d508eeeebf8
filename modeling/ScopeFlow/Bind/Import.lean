import ScopeFlow.DottedName
import ScopeFlow.Bind.Name
import ScopeFlow.Tree.Enclosing

/-!
# Import statements

An import binds a name to an alias of a module, or of a name within it. All dotted imports with one first part share one
alias, whose tree of loads gains a branch for each; a wildcard import binds what the imported module exports.
-/

namespace ScopeFlow

/-- The tree with the submodules that an import brings along; a submodule that is there gets the new path. -/
def Load.addImplicit (loads : Table Load) (imports : List ImplicitImport) : Table Load :=
  imports.foldl (fun loads i =>
    match loads.lookup i.name with
    | some load => loads.put i.name (load.setPath i.path)
    | none => loads.put i.name (Load.leaf i.path)) loads

/-- The tree with the branch of a dotted name whose parts below the first one are given with their paths. The end of the
branch gets its path and the submodules that come along; parts without a path are not entered. -/
def Load.addBranch (imports : List ImplicitImport) : List String → List String → Table Load → Table Load
  | [], _, loads => loads
  | _, [], loads => loads
  | [part], path :: _, loads =>
    let load := (loads.lookup part).getD (Load.leaf "")
    loads.put part ((load.setPath path).setChildren (Load.addImplicit load.children imports))
  | part :: parts, _ :: paths, loads =>
    let load := (loads.lookup part).getD (Load.leaf "")
    loads.put part (load.setChildren (Load.addBranch imports parts paths load.children))

namespace ImportName

/-- The local name that an import gives, if it gives one that is not empty. -/
def given (n : ImportName) : Option String := n.asName.filter (fun s => s != "")

/-- The local name that the import of a module binds: the given one, or the first part of the name of the module. -/
def boundName (n : ImportName) : String := n.given.getD ((DottedName.parts n.name).headD "")

end ImportName

namespace Bind

variable {ω : Type}

/-- The special forms of the typing modules that annotations are searched for. -/
def formsOfInterest : List String := ["Final", "TypeAlias", "ClassVar", "Required", "NotRequired"]

def isTypingModule (name : String) : Bool := name == "typing" || name == "typing_extensions"

def importRecord (u : Setup ω) (node : Nat) : Option ImportRecord := u.imports.lookup node

/-- Reports an import that was not found, has no stub or has only one. -/
def reportImport (u : Setup ω) (mark : Mark) (record : Option ImportRecord) : BindM ω Unit := do
  match record with
  | none => return
  | some r =>
    if r.isNative then return
    if !r.isFound then
      reportRule u .missingImports .importResolveFailure mark r.name
      return
    if !r.isStub && r.type == .thirdParty && !r.isPyTyped then
      reportRule u .missingTypeStubs .stubFileMissing mark r.name [.createTypeStub r.name]
    if r.isStub && r.type != .builtIn && !u.file.isStub then
      match r.nonStub with
      | some source =>
        unless source.isFound do reportRule u .missingModuleSource .importSourceResolveFailure mark r.name
      | none => return

/-- Keeps an imported name that is not re-exported from importers: at once in a stub, and in the end for a module of a
typed package. -/
def hideImported (u : Setup ω) (ctx : Context) (name : String) (ref : SymbolRef) : BindM ω Unit := do
  if u.file.isStub then adjustSymbol ref Symbol.hide
  else if u.file.isPyTyped && (← scopeType ctx) == .moduleBody then
    modify fun s => { s with privates := s.privates.put name ref }

/-- An alias as a declaration; it starts at the empty range. -/
def aliasDeclaration (site : Site) (path moduleName : String) (info : AliasInfo) : Declaration :=
  ⟨site, path, .empty, moduleName, .imported info⟩

/-- What the import of a dotted name adds to the alias of its first part. With a local name, or without further parts,
the alias stands for the module itself. -/
def extendAlias (record : ImportRecord) (localName : Option String) (parts : List String) (d : Declaration) :
    Declaration :=
  match d.info with
  | .imported a =>
    if (localName.getD "") != "" || parts.length == 1 then
      { d with
        path := (record.paths.getLast?).getD ""
        info := .imported { a with loads := Load.addImplicit a.loads record.filteredImports } }
    else
      { d with
        info := .imported { a with
          loads := Load.addBranch record.filteredImports (parts.drop 1) (record.paths.drop 1) a.loads } }
  | _ => d

/-- Whether a declaration is the alias that dotted imports of a first part share. -/
def sharesFirstPart (first : String) (d : Declaration) : Bool :=
  match d.alias? with
  | some a => a.firstNamePart == some first
  | none => false

/-- Declares the symbol that the import of a dotted name binds. -/
def declareModule (site : Site) (localName : Option String) (record : Option ImportRecord) (ref : SymbolRef)
    (parts : List String) : BindM ω Unit := do
  let first := parts.headD ""
  match record.filter (fun r => r.isFound && !r.isNative && !r.paths.isEmpty) with
  | some r =>
    let known := ((← symbolIn ref.scope ref.name).map Symbol.declarations).getD []
    match known.findIdx? (sharesFirstPart first) with
    | some slot =>
      adjustSymbol ref fun s => { s with declarations := s.declarations.modify slot (extendAlias r localName parts) }
    | none =>
      declare ref (extendAlias r localName parts
        (aliasDeclaration site "" r.name { usesLocalName := localName.isSome, firstNamePart := some first }))
  | none =>
    declare ref (aliasDeclaration site unresolvedPath "" { usesLocalName := localName.isSome, isUnresolved := true })

/-- Binds and declares one name of an `import` statement. -/
def declareImport (u : Setup ω) (ctx : Context) (n : ImportName) : BindM ω Unit := do
  let parts := DottedName.parts n.name
  let record := importRecord u n.mark.index
  match ← bindHere u ctx n.boundName with
  | some ref =>
    unless parts.length == 1 && n.given == some (parts.headD "") do hideImported u ctx n.boundName ref
    reportImport u n.mark record
    declareModule n.site n.asName record ref parts
  | none => reportImport u n.mark record

/-- Notes the local name of a typing module or of the system module. -/
def noteModule (n : ImportName) : BindM ω Unit :=
  match DottedName.parts n.name with
  | [first] =>
    if isTypingModule first then modify fun s => { s with typingNames := s.typingNames ++ [n.boundName] }
    else if first == "sys" then modify fun s => { s with systemNames := s.systemNames ++ [n.boundName] }
    else return
  | _ => return

def importModule (u : Setup ω) (ctx : Context) (n : ImportName) : BindM ω Unit := do
  declareImport u ctx n
  assignName ctx n.mark.index n.boundName
  noteModule n

/-- Binds the submodule that a package imports from, under the first part of its name. -/
def importSubmodule (u : Setup ω) (ctx : Context) (site : Site) (record : Option ImportRecord) (parts : List String) :
    BindM ω Unit := do
  let name := parts.headD ""
  match ← bindHere u ctx name with
  | some ref => declareModule site none record ref parts
  | none => pure ()
  assignName ctx site.index name false

/-- The submodule with a name among those that an import asks for. -/
def submodule? (record : ImportRecord) (name : String) : Option ImplicitImport :=
  record.filteredImports.find? (fun i => i.name == name)

/-- Binds one name of a wildcard import. The answer is whether it is a symbol of the module, and not one of its
submodules. -/
def importWildcardName (u : Setup ω) (ctx : Context) (site : Site) (record : ImportRecord) (exports : Exports)
    (name : String) : BindM ω Bool := do
  match ← bindHere u ctx name with
  | none => return false
  | some ref =>
    let path := record.resolvedPath
    if exports.symbols.has name then
      declare ref (aliasDeclaration site path u.file.moduleName { symbolName := some name })
      return true
    else
      match submodule? record name with
      | some i =>
        declare ref (aliasDeclaration site path u.file.moduleName
          { symbolName := some name, fallback := some ⟨site, i.path, u.file.moduleName⟩ })
      | none => pure ()
      return false

/-- Binds the names of a wildcard import, and gives those that are symbols of the module. -/
def importWildcardNames (u : Setup ω) (ctx : Context) (site : Site) (record : ImportRecord) (exports : Exports) :
    List String → BindM ω (List String)
  | [] => return []
  | name :: names => do
    let isSymbol ← importWildcardName u ctx site record exports name
    let rest ← importWildcardNames u ctx site record exports names
    return if isSymbol then name :: rest else rest

/-- Binds what a wildcard import brings. A package that imports from a submodule of its own binds the submodule as well,
unless the wildcard replaces it. -/
def importWildcard (u : Setup ω) (ctx : Context) (site : Site) (record : Option ImportRecord) (level : Option Int)
    (parts : List String) (inPackage : Bool) : BindM ω Unit := do
  if (u.outline.enclosingClass site.index false).isSome || (u.outline.enclosingFunction site.index).isSome then
    reportError .wildcardInFunction site.mark
  match record with
  | none => if level.isNone then throw .missingLevel
  | some r =>
    match ← lookUpExports u r.resolvedPath with
    | none =>
      if level.isNone then throw .missingLevel
      importAll ctx site.index []
    | some exports =>
      let names := exports.wildcardNames
      if inPackage && !names.contains (parts.headD "") then importSubmodule u ctx site record parts
      let bound ← importWildcardNames u ctx site r exports names
      importAll ctx site.index bound

def importName (u : Setup ω) (ctx : Context) (record : Option ImportRecord) (parts : List String)
    (isOwnPackage : Bool) (n : ImportName) : BindM ω Unit := do
  let name := n.given.getD n.name
  match ← bindHere u ctx name with
  | none => return
  | some ref =>
    if !parts.isEmpty && n.given != some n.name then hideImported u ctx name ref
    let fallback := (record.bind (submodule? · n.name)).map (fun i => Fallback.mk n.site i.path u.file.moduleName)
    let resolved := (record.map ImportRecord.resolvedPath).getD ""
    let path := if fallback.isSome && isOwnPackage then "" else resolved
    let isFound := (record.map ImportRecord.isFound).getD false
    declare ref (aliasDeclaration n.site path u.file.moduleName
      { usesLocalName := n.asName.isSome
        symbolName := some n.name
        fallback := fallback
        isUnresolved := !isFound && fallback.isNone })
    assignName ctx n.mark.index name
    match parts with
    | [part] =>
      if isTypingModule part && formsOfInterest.contains n.name then
        modify fun s => { s with typingSymbols := s.typingSymbols.put name n.name }
    | _ => return

def importNames (u : Setup ω) (ctx : Context) (record : Option ImportRecord) (parts : List String)
    (isOwnPackage : Bool) : List ImportName → BindM ω Unit
  | [] => return
  | n :: names => do
    importName u ctx record parts isOwnPackage n
    importNames u ctx record parts isOwnPackage names

def importFrom (u : Setup ω) (ctx : Context) (site : Site) (source : Option String) (names : List ImportName)
    (level : Option Int) : BindM ω Unit := do
  let record := importRecord u site.index
  if record.isNone && level.isNone then throw .missingLevel
  reportImport u site.mark record
  let source := source.filter (fun s => s != "")
  let parts := (source.map DottedName.parts).getD []
  let isInit := u.file.stem == "__init__" && level == some 1
  match names with
  | [⟨_, "*", _⟩] =>
    importWildcard u ctx site record level parts (isInit && !parts.isEmpty)
    match parts with
    | [part] =>
      if isTypingModule part && record.isSome then
        modify fun s =>
          { s with typingSymbols := formsOfInterest.foldl (fun t form => t.put form form) s.typingSymbols }
    | _ => return
  | _ =>
    if isInit && !parts.isEmpty then importSubmodule u ctx site record parts
    importNames u ctx record parts (isInit && parts.isEmpty) names

end Bind

end ScopeFlow
