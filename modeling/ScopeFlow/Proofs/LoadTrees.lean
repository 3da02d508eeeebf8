import ScopeFlow.Proofs.Entering
import ScopeFlow.Proofs.Run
import ScopeFlow.Proofs.Stores

/-!
# The tree of dotted imports

All imports of dotted names with one first part share an alias. It is the root of a tree of loads (`Declaration.tree`), into which
every import grafts the parts of its name (`Load.graft`): parts that are missing are there without a path, and the last one
gets the path of the module. What has been grafted can be read off the tree, and neither order nor repetition is seen
(`Load.Shows`).
-/

namespace ScopeFlow

theorem Table.names_put {α : Type} (t : Table α) (name : String) (value : α) :
    (t.put name value).names = if name ∈ t.names then t.names else t.names ++ [name] := by
  induction t with
  | nil => rfl
  | cons p rest ih =>
    by_cases h : p.1 = name
    · simp [Table.put, Table.names, h]
    · simp only [Table.put, if_neg h, Table.names, List.map_cons, List.mem_cons, Ne.symm h, false_or] at ih ⊢
      rw [ih]
      split <;> simp_all

namespace Load

/-- The load that names lead to. -/
def follow : List String → Load → Option Load
  | [], load => some load
  | name :: names, load => (load.children.lookup name).bind (follow names)

/-- The path of a load, and whether the names of what comes with it are distinct. -/
def face (load : Load) : String × Bool := (load.path, decide (Table.names load.children).Nodup)

/-- The load with a branch, whose end gets the last path. -/
def graft : List String → List String → Load → Load
  | [], paths, load => load.setPath (paths.headD "")
  | part :: parts, paths, load =>
    load.setChildren (load.children.put part (graft parts paths.tail ((load.children.lookup part).getD (leaf ""))))

@[simp] theorem children_setChildren (children : Table Load) (load : Load) : (load.setChildren children).children = children := by
  cases load
  rfl

@[simp] theorem children_setPath (path : String) (load : Load) : (load.setPath path).children = load.children := by
  cases load
  rfl

@[simp] theorem face_setPath (path : String) (load : Load) : (load.setPath path).face = (path, load.face.2) := by
  cases load
  rfl

@[simp] theorem face_setChildren (load below : Load) (name : String) :
    (load.setChildren (load.children.put name below)).face = load.face := by
  have hnodup : (Table.names (load.children.put name below)).Nodup ↔ (Table.names load.children).Nodup := by
    rw [Table.names_put]
    split
    · rfl
    · rename_i hname
      simp only [List.nodup_append, List.nodup_singleton, List.mem_singleton, true_and, and_iff_left_iff_imp]
      rintro - a ha b rfl rfl
      exact hname ha
  cases load
  exact Prod.ext rfl (decide_eq_decide.2 hnodup)

/-- Branches of the tree are grafts onto its children. -/
theorem addBranch_eq (part : String) (parts paths : List String) (h : paths.length = parts.length + 1) (loads : Table Load) :
    addBranch [] (part :: parts) paths loads = loads.put part (graft parts paths ((loads.lookup part).getD (leaf ""))) := by
  induction parts generalizing part paths loads with
  | nil =>
    obtain ⟨path, rfl⟩ := List.length_eq_one_iff.1 h
    simp only [addBranch, graft, addImplicit, List.foldl_nil]
    congr 1
    cases (loads.lookup part).getD (leaf "")
    rfl
  | cons next parts ih =>
    cases paths with
    | nil => simp at h
    | cons path paths =>
      simp only [addBranch, graft, List.tail_cons]
      rw [ih next paths (by simpa using h)]

/-- What is found in a tree after a graft: the end of the branch, what is on the way to it, and all that was there. -/
theorem follow_graft (parts paths names : List String) (load : Load) (h : paths.length = parts.length + 1) :
    ((load.graft parts paths).follow names).map face =
      if names <+: parts then
        some (if names = parts then paths.getLastD "" else (((load.follow names).map face).getD ("", true)).1,
          (((load.follow names).map face).getD ("", true)).2)
      else (load.follow names).map face := by
  induction parts generalizing paths names load with
  | nil =>
    obtain ⟨path, rfl⟩ := List.length_eq_one_iff.1 h
    cases names with
    | nil => simp [graft, follow]
    | cons name names => simp [graft, follow]
  | cons part parts ih =>
    cases names with
    | nil => simp [graft, follow]
    | cons name names =>
      by_cases hname : name = part
      · subst hname
        have hlast : paths.getLastD "" = paths.tail.getLastD "" := by
          cases paths with
          | nil => rfl
          | cons path paths =>
            cases paths with
            | nil => simp at h
            | cons next paths => rfl
        simp only [graft, follow, children_setChildren, Table.lookup_put_self, Option.bind_some, List.cons_prefix_cons, true_and,
          List.cons.injEq, hlast]
        rw [ih paths.tail names _ (by simp [h])]
        cases load.children.lookup name with
        | some below => rfl
        | none => cases names <;> simp [follow, leaf, children, face, path, Table.names]
      · simp [graft, follow, Table.lookup_put_ne _ _ hname, hname]

/-- A tree in which the names that were imported, and nothing else, can be seen. They have a path, and what is on the way to
them has none. -/
def Shows (π : List String → String) (p : String) (done : List (List String)) (load : Load) : Prop :=
  ∀ names, (load.follow names).map face =
    if names = [] ∨ ∃ full ∈ done, p :: names <+: full then some (if p :: names ∈ done then π (p :: names) else "",
      true) else none

theorem shows_leaf (π : List String → String) (p : String) : (leaf "").Shows π p [] := by
  intro names
  cases names with
  | nil => rfl
  | cons name names => simp [follow, leaf, children]

theorem Shows.graft {π : List String → String} {p : String} {done : List (List String)} {load : Load} (h : load.Shows π p done)
    {parts paths : List String} (hlen : paths.length = parts.length + 1) (hlast : paths.getLastD "" = π (p :: parts)) :
    (load.graft parts paths).Shows π p ((p :: parts) :: done) := by
  intro names
  rw [follow_graft parts paths names load hlen, h names]
  by_cases hp : names <+: parts
  · have hseen : names = [] ∨ ∃ full ∈ (p :: parts) :: done, p :: names <+: full :=
      .inr ⟨_, List.mem_cons_self, by simpa using hp⟩
    simp only [if_pos hp, if_pos hseen]
    by_cases hn : names = parts
    · subst hn
      simp only [if_true, hlast, List.mem_cons_self]
      split <;> rfl
    · simp only [List.mem_cons, List.cons.injEq, true_and, hn, false_or, if_false]
      by_cases hm : p :: names ∈ done
      · have hold : names = [] ∨ ∃ full ∈ done, p :: names <+: full := .inr ⟨_, hm, List.prefix_rfl⟩
        simp [hm, if_pos hold]
      · simp only [if_neg hm]
        split <;> rfl
  · have hn : names ≠ parts := fun h => hp (h ▸ List.prefix_rfl)
    simp [hp, hn]

end Load

/-- The tree of an alias, whose root is the alias itself. -/
def Declaration.tree (d : Declaration) : Load :=
  match d.info with
  | .imported a => .mk d.path a.loadsSymbols a.loads
  | _ => .leaf d.path

/-- The declarations of a name in one scope. -/
def Store.declared (st : Store) (i : Nat) (name : String) : List Declaration :=
  ((st.symbol? i name).map Symbol.declarations).getD []

namespace Bind

variable {ω : Type} {α β : Type} {u : Setup ω} {ctx : Context} {s t : State ω} {π : List String → String} {p : String} {sc : Nat}
  {n : ImportName} {done : List (List String)} {ds : List Declaration} {d : Declaration} {r : ImportRecord} {rest : List String}

/-! ## The shared alias -/

/-- The import of a module without a local name whose name has a first part, that was found with a path for each part of its
name. The path of a module depends on its name. -/
structure Dotted (u : Setup ω) (π : List String → String) (p : String) (n : ImportName) : Prop where
  unnamed : n.asName = none
  record : ∃ r rest, importRecord u n.mark.index = some r ∧ DottedName.parts n.name = p :: rest ∧ r.isFound = true ∧
    r.isNative = false ∧ r.filteredImports = [] ∧ r.paths.length = rest.length + 1 ∧ r.paths.getLastD "" = π (p :: rest)

theorem exists_alias (h : sharesFirstPart p d = true) : ∃ a, d.info = .imported a ∧ a.firstNamePart = some p := by
  unfold sharesFirstPart Declaration.alias? at h
  cases hinfo : d.info with
  | imported a => exact ⟨a, rfl, by simpa [hinfo] using h⟩
  | _ => simp [hinfo] at h

theorem extendAlias_tree (hfiltered : r.filteredImports = []) (hlen : r.paths.length = rest.length + 1) {a : AliasInfo}
    (hd : d.info = .imported a) :
    (∃ loads, (extendAlias r none (p :: rest) d).info = .imported { a with loads := loads }) ∧
      (extendAlias r none (p :: rest) d).site = d.site ∧ (extendAlias r none (p :: rest) d).tree = d.tree.graft rest r.paths := by
  unfold extendAlias
  rw [hd, hfiltered]
  cases rest with
  | nil =>
    obtain ⟨path, hpath⟩ := List.length_eq_one_iff.1 hlen
    refine ⟨⟨_, rfl⟩, rfl, ?_⟩
    simp [Declaration.tree, hd, hpath, Load.graft, Load.addImplicit, Load.setPath]
  | cons part rest =>
    cases hpaths : r.paths with
    | nil => simp [hpaths] at hlen
    | cons path paths =>
      rw [hpaths] at hlen
      have hbranch := Load.addBranch_eq part rest paths (by simpa using hlen) a.loads
      refine ⟨⟨_, rfl⟩, rfl, ?_⟩
      simp [Declaration.tree, hd, Load.graft, Load.setChildren, Load.children, hbranch]

/-- The alias that imports share, after some of them. -/
structure Grown (π : List String → String) (p : String) (done : List (List String)) (d : Declaration) : Prop where
  shares : sharesFirstPart p d = true
  shows : d.tree.Shows π p done

theorem Grown.extend (h : Grown π p done d) (hfiltered : r.filteredImports = []) (hlen : r.paths.length = rest.length + 1)
    (hlast : r.paths.getLastD "" = π (p :: rest)) : Grown π p ((p :: rest) :: done) (extendAlias r none (p :: rest) d) := by
  obtain ⟨a, hd, hfirst⟩ := exists_alias h.shares
  obtain ⟨⟨loads, hloads⟩, -, htree⟩ := extendAlias_tree (p := p) hfiltered hlen hd
  exact ⟨by simp [sharesFirstPart, Declaration.alias?, hloads, hfirst], htree ▸ h.shows.graft hlen hlast⟩

/-- The declarations hold one alias of a first part, that imports have grown. -/
def Shared (π : List String → String) (p : String) (done : List (List String)) (ds : List Declaration) : Prop :=
  ∃ d, ds.filter (sharesFirstPart p) = [d] ∧ Grown π p done d

/-- The declarations before an import: there is the alias, or the import is the first one, and the first at its place. -/
def Awaits (π : List String → String) (p : String) (done : List (List String)) (site : Nat) (ds : List Declaration) : Prop :=
  (done = [] ∧ ∀ d ∈ ds, sharesFirstPart p d = false ∧ d.site.index ≠ site) ∨ Shared π p done ds

theorem filter_modify_findIdx? {P : α → Bool} {f : α → α} {x : α} (hf : P (f x) = true) {k : Nat} (l : List α)
    (hk : l.findIdx? P = some k) (hl : l.filter P = [x]) : (l.modify k f).filter P = [f x] := by
  induction l generalizing k with
  | nil => cases hl
  | cons y l ih =>
    by_cases hy : P y = true
    · simp only [List.findIdx?_cons, hy, if_true, Option.some.injEq] at hk
      simp only [List.filter_cons, hy, if_true, List.cons.injEq] at hl
      obtain ⟨rfl, hrest⟩ := hl
      subst hk
      simp [hf, hrest]
    · simp only [List.findIdx?_cons, hy, if_false, Option.map_eq_some_iff, Bool.false_eq_true] at hk
      obtain ⟨j, hj, rfl⟩ := hk
      simp only [List.filter_cons, hy, if_false, Bool.false_eq_true] at hl
      simp [hy, ih hj hl]

/-- An alias that is declared for the first time is the only one of its first part. -/
theorem filter_declare {symbol : Symbol} (hd : sharesFirstPart p d = true)
    (hnew : ∀ e ∈ symbol.declarations, sharesFirstPart p e = false ∧ e.site.index ≠ d.site.index) :
    (symbol.declare d).declarations.filter (sharesFirstPart p) = [d] := by
  obtain ⟨a, hinfo, -⟩ := exists_alias hd
  have hsame : symbol.declarations.any (fun e => e.same d) = false := by
    simp only [List.any_eq_false, Bool.not_eq_true]
    intro e he
    have hsite := (hnew e he).2
    unfold Declaration.same
    cases e.info <;> simp [hinfo, DeclarationInfo.sameKind, hsite]
  have hdrop : ∀ e : Declaration, sharesFirstPart p e.dropAliasName = sharesFirstPart p e := fun e => by
    unfold sharesFirstPart Declaration.alias? Declaration.dropAliasName DeclarationInfo.dropAliasName
    cases e.info <;> rfl
  have hself : d.dropAliasName = d := by
    cases d
    cases hinfo
    rfl
  have hold : symbol.declarations.filter (sharesFirstPart p ∘ Declaration.dropAliasName) = [] :=
    List.filter_eq_nil_iff.2 fun e he => by
    simp [hdrop, (hnew e he).1]
  unfold Symbol.declare
  rw [if_neg (by simp [hsame])]
  split
  · simp [hd]
  · simp [List.filter_map, hold, hself, hd]

/-! ## Steps -/

/-- A step that has a result and keeps a property of states. -/
def Lasting (I : State ω → Prop) (f : BindM ω α) : Prop := ∀ s, I s → Gives (fun _ t => I t) (f.run s)

namespace Lasting

variable {I : State ω → Prop}

theorem pure (x : α) : Lasting I (Pure.pure x : BindM ω α) := fun _ h => .ok h

theorem bind {f : BindM ω α} {g : α → BindM ω β} (hf : Lasting I f) (hg : ∀ x, Lasting I (g x)) : Lasting I (f >>= g) :=
  fun s h => (hf s h).bind fun x t ht => hg x t ht

theorem ite {c : Prop} [Decidable c] {f g : BindM ω α} (hf : Lasting I f) (hg : Lasting I g) :
    Lasting I (if c then f else g) := by
  split
  · exact hf
  · exact hg

theorem when {c : Prop} [Decidable c] {f : BindM ω PUnit} {g : PUnit → BindM ω β} (hf : Lasting I f) (hg : ∀ x, Lasting I (g x)) :
    Lasting I (if c then f >>= g else g ⟨⟩) := ite (bind hf hg) (hg _)

end Lasting

/-- A scope does not redirect a name, and has it with declarations if it has it. -/
structure Bears (sc : Nat) (p : String) (ds : Option (List Declaration)) (s : State ω) : Prop where
  scope : sc < s.store.scopes.size
  free : s.store.redirection? sc p = none
  declared : (s.store.symbol? sc p).map Symbol.declarations = ds

section

variable {o : Option (List Declaration)}

theorem Bears.ofScopes (h : Bears sc p o s) (hs : t.store.scopes = s.store.scopes) : Bears sc p o t := by
  have hscope : ∀ i, t.store.scope? i = s.store.scope? i := fun i => by simp only [Store.scope?, hs]
  exact ⟨by rw [hs]; exact h.scope, by simpa only [Store.redirection?, hscope] using h.free,
    by simpa only [Store.symbol?, hscope] using h.declared⟩

theorem Bears.adjust {f : Symbol → Symbol} {g : List Declaration → List Declaration} (h : Bears sc p o s)
    (hf : ∀ symbol : Symbol, some symbol.declarations = o → (f symbol).declarations = g symbol.declarations) :
    Bears sc p (o.map g) { s with store := s.store.adjustSymbol sc p f, past := s.past.map (s.store :: ·) } := by
  refine ⟨by simpa [Store.adjustSymbol] using h.scope, (Store.redirection?_adjustSymbol f).trans h.free, ?_⟩
  rw [Store.symbol?_adjustSymbol, if_pos ⟨rfl, rfl⟩]
  have hd := h.declared
  cases hs : s.store.symbol? sc p with
  | none => simp [← hd, hs]
  | some symbol =>
    rw [hs] at hd
    simp [← hd, hf symbol hd]

theorem Lasting.ofModify {f : State ω → State ω} (hf : ∀ s, (f s).store.scopes = s.store.scopes) :
    Lasting (Bears sc p o) (modify f : BindM ω Unit) := fun s h => .ok (h.ofScopes (hf s))

theorem Lasting.hide : Lasting (Bears sc p o) (adjustSymbol ⟨sc, p⟩ Symbol.hide : BindM ω Unit) := fun _ h =>
  .ok (by simpa using h.adjust (f := Symbol.hide) (g := id) fun _ _ => rfl)

theorem takeOver_lasting (target source : Int) : Lasting (Bears sc p o) (takeOver target source : BindM ω Unit) :=
  .bind (fun _ h => .ok h) fun _ => .ite (.pure _) (.bind (fun _ h => .ok h) fun _ =>
    .bind (fun _ h => .ok (h.ofScopes rfl)) fun _ => .ofModify fun _ => rfl)

/-- A symbol may be kept from importers at once or in the end. -/
theorem keepBack_lasting (ctx : Context) (now later : Bool) : Lasting (Bears sc p o) (do
    if now then adjustSymbol ⟨sc, p⟩ Symbol.hide
    else if later && (← scopeType ctx) == .moduleBody then
      modify fun s => { s with privates := s.privates.put p ⟨sc, p⟩ } : BindM ω Unit) :=
  .ite .hide (.bind (fun _ h => .ok h) fun _ => .ite (.ofModify fun _ => rfl) (.pure _))

theorem reportRule_lasting (u : Setup ω) (rule : Rule) (key : MessageKey) (mark : Mark) (name : String)
    (actions : List DiagnosticAction) :
    Lasting (Bears sc p o) (reportRule u rule key mark name actions) := .ite (.ofModify fun _ => rfl) (.pure _)

theorem reportImport_lasting (u : Setup ω) (mark : Mark) (record : Option ImportRecord) :
    Lasting (Bears sc p o) (reportImport u mark record) := by
  have hrule : ∀ rule key name actions, Lasting (Bears sc p o) (reportRule u rule key mark name actions) := fun rule key =>
    reportRule_lasting u rule key mark
  unfold reportImport
  split
  · exact .pure _
  · refine .ite (.pure _) (.ite (.bind (hrule _ _ _ _) fun _ => .pure _) (.when (hrule _ _ _ _) fun _ => .ite ?_ (.pure _)))
    split
    · exact .ite (.pure _) (hrule _ _ _ _)
    · exact .pure _

theorem noteModule_lasting (n : ImportName) : Lasting (Bears sc p o) (noteModule n : BindM ω Unit) := by
  unfold noteModule
  split
  · exact .ite (.ofModify fun _ => rfl) (.ite (.ofModify fun _ => rfl) (.pure _))
  · exact .pure _

/-- Binding a name that is not redirected gives its symbol in the current scope, without a declaration of its own. -/
theorem bindHere_bears (u : Setup ω) (h : Bears ctx.scope p o s) :
    Gives (fun ref t => ref = some ⟨ctx.scope, p⟩ ∧ Bears ctx.scope p (some (o.getD [])) t) ((bindHere u ctx p).run s) := by
  refine Gives.bind (V := fun b t => b.symbol = some ⟨ctx.scope, p⟩ ∧ Bears ctx.scope p (some (o.getD [])) t) ?_ fun _ _ h =>
    .ok h
  unfold bindName
  refine .get ?_
  have hfree := h.free
  change (s.store.scope? ctx.scope).bind (·.redirection? p) = none at hfree
  simp only [hfree]
  cases hs : s.store.symbol? ctx.scope p with
  | some symbol =>
    have ho := h.declared
    rw [hs] at ho
    subst ho
    exact .ok ⟨rfl, h⟩
  | none =>
    obtain ⟨scope, hscope⟩ := Option.isSome_iff_exists.1 (Store.scope?_isSome.2 h.scope)
    obtain rfl : o = none := by rw [← h.declared, hs]; rfl
    refine Gives.bind (V := fun ref t => ref = ⟨ctx.scope, p⟩ ∧ Bears ctx.scope p (some []) t) ?_ fun ref t h =>
      .ok ⟨by rw [h.1], h.2⟩
    refine Gives.bind (V := fun ref t => ref = ⟨ctx.scope, p⟩ ∧ Bears ctx.scope p (some []) t) (.ok ⟨rfl, ?_⟩) fun ref t h =>
      .get ?_
    · refine Bears.ofScopes (s := { s with store := s.store.adjustScope ctx.scope (·.setSymbol p _) }) ⟨?_, ?_, ?_⟩ rfl
      · simpa [Store.adjustScope] using h.scope
      · exact (Store.redirection?_setSymbol _).trans h.free
      · simp [Store.symbol?_setSymbol, hscope]
    · obtain ⟨rfl, ht⟩ := h
      have hhide : Lasting (Bears ctx.scope p (some [])) (hidePrivate u ctx ⟨ctx.scope, p⟩) :=
        .ite (keepBack_lasting ctx _ _) (.pure _)
      have hend : ∀ t, Bears ctx.scope p (some []) t → Gives (fun (ref : SymbolRef) t => ref = ⟨ctx.scope, p⟩ ∧
          Bears ctx.scope p (some []) t) ((hidePrivate u ctx ⟨ctx.scope, p⟩ >>= fun _ => pure ⟨ctx.scope, p⟩).run t) := fun t h =>
        (hhide t h).bind fun _ _ h => .ok ⟨rfl, h⟩
      dsimp only
      split
      · split
        · exact (takeOver_lasting _ _ t ht).bind fun _ t h => hend t h
        · exact hend t ht
      · exact hend t ht

/-- A name that has been imported can be assigned. -/
theorem assignName_lasting (hds : Shared π p done ds) (node : Nat) :
    Lasting (Bears ctx.scope p (some ds)) (assignName ctx node p : BindM ω Unit) := by
  intro s h
  obtain ⟨d, hd, hgrown⟩ := hds
  obtain ⟨a, hinfo, -⟩ := exists_alias hgrown.shares
  obtain ⟨symbol, hs, rfl⟩ := Option.map_eq_some_iff.1 h.declared
  have hbare : symbol.isBareName = true := by
    simp only [Symbol.isBareName, Bool.or_eq_true, List.any_eq_true]
    exact .inr ⟨d, (List.mem_filter.1 (hd ▸ List.mem_singleton_self d)).1, by simp [Declaration.isMemberOnly, hinfo]⟩
  obtain ⟨scope, hscope, hsymbol⟩ := Option.bind_eq_some_iff.1 hs
  have hfound : s.store.lookUp ctx.scope p = .ok (some ⟨ctx.scope, symbol, false, false⟩) := by
    simp [Store.lookUp, Store.lookUpFrom, hscope, hsymbol, hbare]
  have hlook : (assignedSymbol ctx (some p) : BindM ω _).run s = .ok (some symbol.id) s := by
    simp only [assignedSymbol, bind_ok, lookUp, consult_ok]
    exact ⟨_, s, ⟨hfound, rfl⟩, rfl⟩
  refine Gives.bind (V := fun _ t => t = s) (by rw [hlook]; exact .ok rfl) fun target t ht => ?_
  subst ht
  have hcurrent : Lasting (Bears ctx.scope p (some symbol.declarations)) (current : BindM ω FlowRef) := fun _ h => .ok h
  have hkey : Lasting (Bears ctx.scope p (some symbol.declarations)) (assignKey ctx node p target false false : BindM ω Unit) :=
    .bind (fun _ h => .ok h) fun _ => .ite (.pure _) (hcurrent.bind fun _ => .bind (fun _ h => .ok (h.ofScopes rfl)) fun _ =>
      .bind (.ofModify fun _ => rfl) fun _ => .ofModify fun _ => rfl)
  have hstamp : Lasting (Bears ctx.scope p (some symbol.declarations)) (stamp node : BindM ω Unit) :=
    fun _ h => .ok (h.ofScopes rfl)
  exact (hcurrent.bind fun _ => hkey.bind fun _ => hstamp) t h

end

/-! ## Runs -/

/-- A scope has a name with the one alias that imports have grown. -/
def Leaves (π : List String → String) (sc : Nat) (p : String) (done : List (List String)) (t : State ω) : Prop :=
  ∃ ds, Bears sc p (some ds) t ∧ Shared π p done ds

/-- Declaring an import grafts its name onto the tree of the shared alias, or starts the tree. -/
theorem declareModule_shares (hn : Dotted u π p n) (h : Bears sc p (some ds) s) (hds : Awaits π p done n.mark.index ds) :
    Gives (fun _ => Leaves π sc p (DottedName.parts n.name :: done))
      ((declareModule n.site n.asName (importRecord u n.mark.index) ⟨sc, p⟩ (DottedName.parts n.name)).run s) := by
  obtain ⟨r, rest, hr, hparts, hfound, hnative, hfiltered, hlen, hlast⟩ := hn.record
  have hpaths := List.ne_nil_of_length_eq_add_one hlen
  have hfilter : (some r).filter (fun r => r.isFound && !r.isNative && !r.paths.isEmpty) = some r :=
    by simp [hfound, hnative, hpaths]
  unfold declareModule
  rw [hparts, hr, hn.unnamed]
  simp only [hfilter, List.headD_cons]
  refine Gives.bind (V := fun found t => t = s ∧ found = s.store.symbol? sc p) (.ok ⟨rfl, rfl⟩) fun found t ht => ?_
  obtain ⟨rfl, rfl⟩ := ht
  rw [h.declared, Option.getD_some]
  rcases hds with ⟨rfl, hnew⟩ | ⟨d, hd, hgrown⟩
  · have hk : ds.findIdx? (sharesFirstPart p) = none := List.findIdx?_eq_none_iff.2 fun d hd => (hnew d hd).1
    rw [hk]
    generalize hbase :
      aliasDeclaration n.site "" r.name { usesLocalName := (none : Option String).isSome, firstNamePart := some p } = base
    have hshares : sharesFirstPart p base = true := by simp [← hbase, sharesFirstPart, aliasDeclaration, Declaration.alias?]
    have hgrown : Grown π p [] base := ⟨hshares, by rw [← hbase]; exact Load.shows_leaf π p⟩
    have hextended := hgrown.extend hfiltered hlen hlast
    obtain ⟨a, hinfo, -⟩ := exists_alias hshares
    have hsite : (extendAlias r none (p :: rest) base).site.index = n.mark.index := by
      rw [(extendAlias_tree hfiltered hlen hinfo).2.1, ← hbase]
      rfl
    obtain ⟨symbol, -, rfl⟩ := Option.map_eq_some_iff.1 h.declared
    refine .ok ⟨_,
      h.adjust (g := fun _ => (symbol.declare (extendAlias r none (p :: rest) base)).declarations) fun other ho => ?_, _,
      filter_declare hextended.shares fun e he => ⟨(hnew e he).1, hsite ▸ (hnew e he).2⟩, hextended⟩
    simp only [Symbol.declare, Option.some.inj ho]
    split
    · rfl
    · split <;> rfl
  · cases hk : ds.findIdx? (sharesFirstPart p) with
    | none =>
      have hmem := List.mem_filter.1 (hd ▸ List.mem_singleton_self d)
      have hnone := List.findIdx?_eq_none_iff.1 hk d hmem.1
      simp [hmem.2] at hnone
    | some k =>
      have hextended := hgrown.extend hfiltered hlen hlast
      exact .ok ⟨_, h.adjust fun _ _ => rfl, _, filter_modify_findIdx? hextended.shares ds hk hd, hextended⟩

/-- An import never fails, and leaves the alias with its name. -/
theorem importModule_shares (hn : Dotted u π p n) {o : Option (List Declaration)} (h : Bears ctx.scope p o s)
    (hds : Awaits π p done n.mark.index (o.getD [])) :
    Gives (fun _ => Leaves π ctx.scope p (DottedName.parts n.name :: done)) ((importModule u ctx n).run s) := by
  have hbound : n.boundName = p := by
    obtain ⟨r, rest, -, hparts, -⟩ := hn.record
    simp [ImportName.boundName, ImportName.given, hn.unnamed, hparts]
  unfold importModule declareImport
  rw [hbound]
  refine Gives.bind (V := fun _ => Leaves π ctx.scope p (DottedName.parts n.name :: done)) ?_ fun _ t ht => ?_
  · refine Gives.bind (bindHere_bears u h) fun ref t ht => ?_
    obtain ⟨rfl, ht⟩ := ht
    have hdeclare : ∀ t, Bears ctx.scope p (some (o.getD [])) t →
        Gives (fun _ => Leaves π ctx.scope p (DottedName.parts n.name :: done)) ((do
          reportImport u n.mark (importRecord u n.mark.index)
          declareModule n.site n.asName (importRecord u n.mark.index) ⟨ctx.scope, p⟩ (DottedName.parts n.name)).run t) :=
            fun t ht =>
      Gives.bind (reportImport_lasting u n.mark _ t ht) fun _ t ht => declareModule_shares hn ht hds
    dsimp only
    split
    · exact hdeclare t ht
    · exact Gives.bind (keepBack_lasting ctx _ _ t ht) fun _ t ht => hdeclare t ht
  · obtain ⟨ds, ht, hshared⟩ := ht
    exact ((assignName_lasting hshared _).bind (fun _ => noteModule_lasting n) t ht).imp fun _ t ht => ⟨ds, ht, hshared⟩

/-- Imports one after the other: each grafts its name onto the tree of the alias that the first of them leaves. -/
theorem importModules_share {ns : List ImportName} (hns : ∀ n ∈ ns, Dotted u π p n) (h : Leaves π ctx.scope p done s) :
    Gives (fun _ => Leaves π ctx.scope p ((ns.map fun n => DottedName.parts n.name).reverse ++ done))
      ((ns.forM (importModule u ctx)).run s) := by
  induction ns generalizing s done with
  | nil => exact .ok h
  | cons n ns ih =>
    obtain ⟨ds, hs, hds⟩ := h
    refine Gives.bind (importModule_shares (hns n (by simp)) hs (.inr hds)) fun _ t ht => ?_
    simpa using ih (fun n hn => hns n (by simp [hn])) ht

/-- Imports of dotted names with one first part leave one alias for it, and its tree tells which names were imported: it has
one place for each part of them, and the places of the names themselves have their paths. In which order and how often they
were imported cannot be told. -/
theorem dotted_imports_merge (ctx : Context) {ns ns' : List ImportName} (hne : ns ≠ []) (hns : ∀ n ∈ ns, Dotted u π p n)
    (hsc : ctx.scope < s.store.scopes.size) (hr : s.store.redirection? ctx.scope p = none)
    (hnew : ∀ d ∈ s.store.declared ctx.scope p, sharesFirstPart p d = false ∧ ∀ n ∈ ns, d.site.index ≠ n.mark.index)
    (hsame : ∀ n, n ∈ ns' ↔ n ∈ ns) :
    ∃ t d, (ns'.forM (importModule u ctx)).run s = .ok () t ∧ (t.store.declared ctx.scope p).filter (sharesFirstPart p) = [d] ∧
      ∀ names, (d.tree.follow names).map Load.face =
        if ∃ n ∈ ns, p :: names <+: DottedName.parts n.name then
          some (if ∃ n ∈ ns, DottedName.parts n.name = p :: names then π (p :: names) else "", true)
        else none := by
  have hrun : Gives (fun _ => Leaves π ctx.scope p (ns'.map fun n => DottedName.parts n.name).reverse)
      ((ns'.forM (importModule u ctx)).run s) := by
    cases ns' with
    | nil =>
      obtain ⟨n, hn⟩ := List.exists_mem_of_ne_nil ns hne
      exact absurd ((hsame n).2 hn) List.not_mem_nil
    | cons n rest =>
      have hdotted : ∀ m ∈ n :: rest, Dotted u π p m := fun m hm => hns m ((hsame m).1 hm)
      refine Gives.bind (importModule_shares (hdotted n (by simp)) ⟨hsc, hr, rfl⟩ (.inl ⟨rfl, fun d hd =>
        ⟨(hnew d hd).1, (hnew d hd).2 n ((hsame n).1 (by simp))⟩⟩)) fun _ t ht => ?_
      simpa using importModules_share (fun m hm => hdotted m (by simp [hm])) ht
  generalize (ns'.forM (importModule u ctx)).run s = x at hrun ⊢
  obtain ⟨ds, ht, d, hd, -, hshows⟩ := hrun
  refine ⟨_, d, rfl, by simpa only [Store.declared, ht.declared, Option.getD_some] using hd, fun names => ?_⟩
  rw [hshows names]
  refine if_congr ?_ (by simp [hsame]) rfl
  simp only [List.mem_reverse, List.mem_map, hsame, exists_exists_and_eq_and, or_iff_right_iff_imp]
  rintro rfl
  obtain ⟨n, hn⟩ := List.exists_mem_of_ne_nil ns hne
  obtain ⟨r, rest, -, hparts, -⟩ := (hns n hn).record
  exact ⟨n, hn, by simp [hparts]⟩

/-- The path of a module is the path of its parts. -/
def samplePaths (parts : List String) : String := "/".intercalate parts

/-- `import os.path.x` and `import os`. -/
def sampleDotted : List ImportName := [⟨{ index := 1 }, "os.path.x", none⟩, ⟨{ index := 2 }, "os", none⟩]

/-- A setup in which they are found. -/
def sampleDottedSetup : Setup Unit :=
  { file := { path := "m.py", moduleName := "m" }
    outline := .ofModule { body := [] }
    imports := [(1, { name := "os.path.x", isFound := true, paths := ["os", "os/path", "os/path/x"] }),
      (2, { name := "os", isFound := true, paths := ["os"] })]
    exports := fun _ store world => (.ok none, store, world) }

theorem sampleDotted_merges : ∃ t d, ((sampleDotted ++ sampleDotted).forM
      (importModule sampleDottedSetup { scope := 0, owner := 0 })).run
        { store := { scopes := #[{ type := .moduleBody }] }, world := () } = .ok () t ∧
    (t.store.declared 0 "os").filter (sharesFirstPart "os") = [d] ∧ (d.tree.follow []).map Load.face = some ("os", true) ∧
    (d.tree.follow ["path"]).map Load.face = some ("", true) ∧
      (d.tree.follow ["path", "x"]).map Load.face = some ("os/path/x", true) := by
  have hdotted : ∀ n ∈ sampleDotted, Dotted sampleDottedSetup samplePaths "os" n := by
    simp only [sampleDotted, List.forall_mem_cons, List.not_mem_nil, false_imp_iff, implies_true, and_true]
    exact ⟨⟨rfl, _, ["path", "x"], rfl, by decide +kernel, rfl, rfl, rfl, by decide +kernel, by decide +kernel⟩,
      ⟨rfl, _, [], rfl, by decide +kernel, rfl, rfl, rfl, by decide +kernel, by decide +kernel⟩⟩
  obtain ⟨t, d, hrun, hd, hfollow⟩ :=
    dotted_imports_merge (s := { store := { scopes := #[{ type := .moduleBody }] }, world := () })
    { scope := 0, owner := 0 } (by simp [sampleDotted]) hdotted (by decide) rfl (fun d hd => absurd hd List.not_mem_nil)
    (fun n => by simp : ∀ n, n ∈ sampleDotted ++ sampleDotted ↔ n ∈ sampleDotted)
  exact ⟨t, d, hrun, hd, (hfollow []).trans (by decide +kernel), (hfollow ["path"]).trans (by decide +kernel),
    (hfollow ["path", "x"]).trans (by decide +kernel)⟩

end Bind

end ScopeFlow
