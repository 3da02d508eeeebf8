import ScopeFlow.Proofs.OneWay
import ScopeFlow.Proofs.Steadiness

/-!
# The packages above a module

A name that is registered has the names of all packages above it registered too (`Workspace.Closed`), whatever is asked of a
workspace and in whatever order: names come in with the packages above them, or below a package that is there, and a name that is
taken out comes back at once. So a relative import that does not climb above the top finds the package it starts from
(`packages_are_registered`).
-/

namespace ScopeFlow

/-! ## Names and their parts -/

namespace DottedName

variable {name front back part : String}

theorem parts_ne_nil (name : String) : parts name ≠ [] := by
  simpa [parts, splitAt] using pieces_ne_nil '.' name.toList

theorem ofParts_parts (name : String) : ofParts (parts name) = name := by
  have htexts : ((pieces '.' name.toList).map String.ofList).map String.toList = pieces '.' name.toList := by
    simp [Function.comp_def]
  simp only [ofParts, joinWith, parts, splitAt, htexts, joined_pieces, String.ofList_toList]

theorem parts_inj (h : parts front = parts back) : front = back := by
  rw [← ofParts_parts front, h, ofParts_parts]

theorem parts_ofParts {ps : List String} (hne : ps ≠ []) (hdot : ∀ p ∈ ps, '.' ∉ p.toList) : parts (ofParts ps) = ps := by
  have htexts : ∀ t ∈ ps.map String.toList, '.' ∉ t := by simpa using hdot
  simp only [parts, splitAt, ofParts, joinWith, String.toList_ofList, pieces_joined (by simpa using hne) htexts, List.map_map]
  simp [Function.comp_def]

theorem parts_dot (front back : String) : parts (front ++ "." ++ back) = parts front ++ parts back := by
  have hlist : (front ++ "." ++ back).toList = front.toList ++ '.' :: back.toList := by simp
  simp only [parts, splitAt, hlist, pieces_append, List.map_append]

/-- What is above a name is a front of its parts. -/
theorem exists_dot_iff : (∃ back, name = front ++ "." ++ back) ↔ parts front <+: parts name ∧ parts front ≠ parts name := by
  constructor
  · rintro ⟨back, rfl⟩
    refine ⟨⟨parts back, (parts_dot front back).symm⟩, fun heq => ?_⟩
    rw [parts_dot, List.self_eq_append_right] at heq
    exact parts_ne_nil back heq
  · rintro ⟨⟨rest, hrest⟩, hne⟩
    have hrestne : rest ≠ [] := by
      rintro rfl
      exact hne (by simpa using hrest)
    have hdot : ∀ p ∈ rest, '.' ∉ p.toList := fun p hp => by
      have hmem : p ∈ parts name := by
        rw [← hrest]
        exact List.mem_append_right _ hp
      exact Workspace.dot_not_mem_parts hmem
    refine ⟨ofParts rest, parts_inj ?_⟩
    rw [parts_dot, parts_ofParts hrestne hdot, hrest]

/-- What is above a part of a package is the package, or above it. -/
theorem above_child {parent : String} (hdot : '.' ∉ part.toList) (h : parent ++ "." ++ part = front ++ "." ++ back) :
    front = parent ∨ ∃ rest, parent = front ++ "." ++ rest := by
  have hparts : parts part = [part] := by simp [parts, splitAt, pieces_of_not_mem hdot]
  obtain ⟨hbelow, hne⟩ := exists_dot_iff.1 ⟨back, h⟩
  rw [parts_dot, hparts, List.prefix_concat_iff] at hbelow
  rw [parts_dot, hparts] at hne
  have hfront := hbelow.resolve_left hne
  by_cases heq : parts front = parts parent
  · exact .inl (parts_inj heq)
  · exact .inr (exists_dot_iff.2 ⟨hfront, heq⟩)

theorem not_above_of_not_mem (hdot : '.' ∉ part.toList) : part ≠ front ++ "." ++ back := by
  rintro rfl
  simp at hdot

theorem parents_eq (name : String) :
    parents name = (List.range ((parts name).length - 1)).map fun n => ofParts ((parts name).take (n + 1)) := rfl

theorem parts_take (name : String) (n : Nat) : parts (ofParts ((parts name).take (n + 1))) = (parts name).take (n + 1) := by
  refine parts_ofParts ?_ fun p hp => Workspace.dot_not_mem_parts (List.mem_of_mem_take hp)
  rw [Ne, List.take_eq_nil_iff]
  have hne := parts_ne_nil name
  simp [hne]

theorem mem_parents (h : name = front ++ "." ++ back) : front ∈ parents name := by
  have hlength : 0 < (parts front).length := List.length_pos_iff.2 (parts_ne_nil front)
  have hlength' : 0 < (parts back).length := List.length_pos_iff.2 (parts_ne_nil back)
  rw [parents_eq, List.mem_map]
  refine ⟨(parts front).length - 1, ?_, ?_⟩
  · rw [List.mem_range, h, parts_dot, List.length_append]
    omega
  · have htake : (parts name).take ((parts front).length - 1 + 1) = parts front := by
      rw [h, parts_dot, Nat.sub_add_cancel hlength, List.take_left]
    rw [htake, ofParts_parts]

/-- The packages above a package that is above a name come before it. -/
theorem parents_of_split {done rest : List String} (h : parents name = done ++ front :: rest) : parents front = done := by
  have hlength : done.length < (parts name).length - 1 := by
    have hall := congrArg List.length h
    simp only [parents_eq, List.length_map, List.length_range, List.length_append, List.length_cons] at hall
    omega
  have hfront : front = ofParts ((parts name).take (done.length + 1)) := by
    have hat : (parents name)[done.length]? = some front := by simp [h]
    simpa [parents_eq, hlength, eq_comm] using hat
  have hparts : parts front = (parts name).take (done.length + 1) := by rw [hfront, parts_take]
  have hdone : done = (parents name).take done.length := by simp [h]
  rw [hdone, parents_eq, parents_eq, hparts, ← List.map_take, List.take_range, List.length_take]
  have hmin : min done.length ((parts name).length - 1) = min (done.length + 1) (parts name).length - 1 := by omega
  rw [hmin]
  refine List.map_congr_left fun n hn => ?_
  rw [List.mem_range] at hn
  rw [List.take_take]
  congr 2
  omega

end DottedName

/-! ## Closed registries -/

namespace Workspace

open DottedName

variable {hole : Option String} {w w' w'' : Workspace} {name part : String} {i : Nat}

/-- With every name the names of the packages above it are registered. The name of a module is registered, also if it leads to a
module that has taken its place. One name may be missing. -/
structure Closed (hole : Option String) (w : Workspace) : Prop where
  registered : w.Registered
  named : ∀ i < w.modules.size, hole = some (w.moduleAt i).name ∨ w.names.has (w.moduleAt i).name
  above : ∀ front back, w.names.has (front ++ "." ++ back) → hole = some front ∨ w.names.has front

/-- A change of nothing that names go by. -/
theorem Closed.aside (h : Closed hole w) (hnames : w'.names = w.names) (hsize : w'.modules.size = w.modules.size)
    (hmodules : ∀ i, (w'.moduleAt i).name = (w.moduleAt i).name) : Closed hole w' where
  registered name i hi := by
    rw [hnames] at hi
    rw [hsize, hmodules]
    exact h.registered name i hi
  named i hi := by
    rw [hsize] at hi
    rw [hmodules, hnames]
    exact h.named i hi
  above := by
    rw [hnames]
    exact h.above

/-- What steps of registering do: the registry stays closed, and names stay. -/
structure Widens (hole : Option String) (w w' : Workspace) : Prop where
  closed : Closed hole w'
  names : ∀ name, w.names.has name → w'.names.has name

namespace Widens

theorem refl (h : Closed hole w) : Widens hole w w := ⟨h, fun _ => id⟩

theorem trans {hole' : Option String} (h : Widens hole w w') (h' : Widens hole' w' w'') : Widens hole' w w'' :=
  ⟨h'.closed, fun name hname => h'.names name (h.names name hname)⟩

/-- A change of nothing that names go by. -/
theorem aside {f : Workspace → Workspace} (h : Closed hole w) (hnames : (f w).names = w.names)
    (hsize : (f w).modules.size = w.modules.size) (hmodules : ∀ i, ((f w).moduleAt i).name = (w.moduleAt i).name) :
    Gives (fun _ => Widens hole w) ((modify f : WorkM Unit).run w) :=
  .ok ⟨h.aside hnames hsize hmodules, fun _ hname => hnames ▸ hname⟩

theorem adjust {f : ModuleRecord → ModuleRecord} (h : Closed hole w) (i : Nat) (hf : ∀ m, (f m).name = m.name) :
    Gives (fun _ => Widens hole w) ((Workspace.adjust i f).run w) := by
  refine aside h rfl (by simp) fun j => ?_
  rw [moduleAt_modify]
  split
  · rename_i hj
    rw [hf, hj.1]
  · rfl

theorem notePath (h : Closed hole w) (i : Nat) (path : String) :
    Gives (fun _ => Widens hole w) ((Workspace.notePath i path).run w) := aside h rfl rfl fun _ => rfl

end Widens

/-! ## Registering -/

theorem has_put (names : Table Nat) (name other : String) (i : Nat) :
    (names.put name i).has other ↔ other = name ∨ names.has other := by
  rw [Table.has_iff, Table.has_iff]
  simp only [Table.lookup_put]
  by_cases h : other = name
  · simp [h]
  · simp [h]

/-- A name comes in when the packages above it are registered. It may be the one that was missing. -/
theorem enter_widens (h : Closed hole w) (habove : ∀ front back, name = front ++ "." ++ back → w.names.has front) :
    Gives (fun i w' => Widens (hole.filter (· != name)) w w' ∧ w'.names.lookup name = some i) ((enter name).run w) := by
  have hhole : ∀ {names : Table Nat} {other : String}, names.has name → hole = some other →
      hole.filter (· != name) = some other ∨ names.has other := by
    rintro names other hname rfl
    by_cases heq : other = name
    · exact .inr (heq ▸ hname)
    · exact .inl (by simp [heq])
  cases hn : w.names.lookup name with
  | some i =>
    have hhas : w.names.has name := Table.has_iff.2 ⟨i, hn⟩
    rw [enter_known hn]
    refine .ok ⟨.refl ⟨h.registered, fun j hj => ?_, fun front back hback => ?_⟩, hn⟩
    · rcases h.named j hj with hj' | hj'
      · exact hhole hhas hj'
      · exact .inr hj'
    · rcases h.above front back hback with hfront | hfront
      · exact hhole hhas hfront
      · exact .inr hfront
  | none =>
    have hmono : ∀ other, w.names.has other → (w.names.put name w.modules.size).has other := fun other hother =>
      (has_put _ _ _ _).2 (.inr hother)
    have hself : (w.names.put name w.modules.size).has name := (has_put _ _ _ _).2 (.inl rfl)
    rw [enter_new hn]
    refine .ok ⟨⟨⟨h.registered.push name, fun j hj => ?_, fun front back hback => ?_⟩, hmono⟩,
      by simp [Table.lookup_put]⟩
    · rw [moduleAt_push]
      split
      · exact .inr hself
      · rename_i hne
        have hlt : j < w.modules.size := by
          have hj' : j < w.modules.size + 1 := by simpa using hj
          omega
        rcases h.named j hlt with hj' | hj'
        · exact hhole hself hj'
        · exact .inr (hmono _ hj')
    · rcases (has_put _ _ _ _).1 hback with heq | hback
      · exact .inr (hmono _ (habove front back heq.symm))
      · rcases h.above front back hback with hfront | hfront
        · exact hhole hself hfront
        · exact .inr (hmono _ hfront)

/-- The packages above a module come in from the outermost one on, so that each finds those above it. -/
theorem enterParents_widens (h : Closed hole w) (hhole : ∀ parent ∈ parents name, hole ≠ some parent) (type : ImportType) :
    Gives (fun _ w' => Widens hole w w' ∧ ∀ parent ∈ parents name, w'.names.has parent) ((enterParents name type).run w) := by
  -- the packages that came before are those above the next one
  have hloop : ∀ (rest done : List String) {w : Workspace}, parents name = done ++ rest → Closed hole w →
      (∀ parent ∈ done, w.names.has parent) →
      Gives (fun _ w' => Widens hole w w' ∧ ∀ parent ∈ done ++ rest, w'.names.has parent) ((rest.forM fun parent => do
        if !(← get).names.has parent then
          let i ← enter parent
          adjust i fun m => { m with isNamespace := true, type := type, locations := some [asPath parent] } :
            WorkM Unit).run w) := by
    intro rest
    induction rest with
    | nil =>
      intro done w _ h hdone
      exact .ok ⟨.refl h, by simpa using hdone⟩
    | cons parent rest ih =>
      intro done w hsplit h hdone
      have hsplit' : parents name = (done ++ [parent]) ++ rest := by simpa using hsplit
      have hkeeps : hole.filter (· != parent) = hole := by
        have hne := hhole parent (by simp [hsplit])
        cases hole with
        | none => rfl
        | some missing =>
          have hmissing : missing ≠ parent := fun heq => hne (by rw [heq])
          simp [hmissing]
      have hnext : Gives (fun _ w' => Widens hole w w' ∧ w'.names.has parent) ((do
          if !(← get).names.has parent then
            let i ← enter parent
            adjust i fun m => { m with isNamespace := true, type := type, locations := some [asPath parent] } :
              WorkM Unit).run w) := by
        refine .get ?_
        split
        · have henter := enter_widens h fun front back hfront => hdone front (parents_of_split hsplit ▸ mem_parents hfront)
          rw [hkeeps] at henter
          refine henter.bind fun i w₁ ⟨hw₁, hi⟩ => (Widens.adjust hw₁.closed i fun m => ?_).imp fun _ w₂ hw₂ => ?_
          · rfl
          · exact ⟨hw₁.trans hw₂, hw₂.names _ (Table.has_iff.2 ⟨i, hi⟩)⟩
        · rename_i hhas
          exact .ok ⟨.refl h, by simpa using hhas⟩
      refine hnext.bind fun _ w₁ ⟨hw₁, hparent⟩ => (ih _ hsplit' hw₁.closed fun p hp => ?_).imp fun _ w₂ ⟨hw₂, hall⟩ => ?_
      · rcases List.mem_append.1 hp with hp | hp
        · exact hw₁.names p (hdone p hp)
        · rw [List.mem_singleton.1 hp]
          exact hparent
      · exact ⟨hw₁.trans hw₂, by simpa using hall⟩
  unfold enterParents
  exact hloop _ [] rfl h (by simp)

/-- A module comes in with the packages above it, and no name is missing then. -/
theorem place_widens (r : Registration) (h : Closed hole w) (hhole : ∀ missing, hole = some missing → missing = r.name) :
    Gives (fun _ => Widens none w) ((place r).run w) := by
  have hparents : ∀ parent ∈ parents r.name, hole ≠ some parent := by
    intro parent hparent hmissing
    rw [hhole parent hmissing, parents_eq, List.mem_map] at hparent
    obtain ⟨n, hn, heq⟩ := hparent
    rw [List.mem_range] at hn
    have hlength := congrArg (fun p => (parts p).length) heq
    rw [parts_take, List.length_take] at hlength
    omega
  have hnone : hole.filter (· != r.name) = none := by
    cases hole with
    | none => rfl
    | some missing => simp [hhole missing rfl]
  refine (enterParents_widens h hparents r.type).bind fun _ w₁ ⟨hw₁, hdone⟩ => ?_
  have henter := enter_widens hw₁.closed fun front back hfront => hdone front (mem_parents hfront)
  rw [hnone] at henter
  refine henter.bind fun i w₂ ⟨hw₂, _⟩ => ?_
  refine (Widens.adjust hw₂.closed i fun m => ?_).bind fun _ w₃ hw₃ => ?_
  · rfl
  · exact (Widens.notePath hw₃.closed i r.path).bind fun _ w₄ hw₄ => .ok (((hw₁.trans hw₂).trans hw₃).trans hw₄)

/-- The name of a module that is taken out is missing. -/
theorem forget_closed (h : Closed none w) (m : ModuleRecord) :
    Gives (fun _ => Closed (some m.name)) ((forget m).run w) := by
  have hhas : ∀ other, w.names.has other → some m.name = some other ∨ (w.names.erase m.name).has other := by
    intro other hother
    by_cases heq : other = m.name
    · exact .inl (by rw [heq])
    · obtain ⟨i, hi⟩ := Table.has_iff.1 hother
      exact .inr (Table.has_iff.2 ⟨i, by rwa [Table.lookup_erase_ne heq]⟩)
  have hold : ∀ other i, (w.names.erase m.name).lookup other = some i → w.names.lookup other = some i := by
    intro other i hi
    by_cases heq : other = m.name
    · rw [heq, Table.lookup_erase_self] at hi
      cases hi
    · rwa [Table.lookup_erase_ne heq] at hi
  refine .ok ⟨fun other i hi => h.registered other i (hold other i hi), fun i hi => ?_, fun front back hback => ?_⟩
  · exact hhas _ ((h.named i hi).resolve_left (by simp))
  · obtain ⟨i, hi⟩ := Table.has_iff.1 hback
    exact hhas front ((h.above front back (Table.has_iff.2 ⟨i, hold _ i hi⟩)).resolve_left (by simp))

theorem register_closed (r : Registration) (h : Closed none w) : Ends (Closed none) (fun _ _ => True) ((register r).run w) := by
  unfold register
  refine .get ?_
  cases hi : w.names.lookup r.name with
  | none => exact (place_widens r h (by simp)).ends fun _ _ hw => ⟨hw.closed, trivial⟩
  | some i =>
    dsimp only
    split
    · exact (place_widens r h (by simp)).ends fun _ _ hw => ⟨hw.closed, trivial⟩
    · split
      · refine Gives.ends (V := fun _ => Closed none) ((Widens.adjust h i fun m => ?_).bind fun _ w₁ hw₁ => .ok hw₁.closed)
          fun _ _ hw => ⟨hw, trivial⟩
        rfl
      · split
        · have hname := (h.registered r.name i hi).2
          refine Gives.ends (V := fun _ => Closed none) ((forget_closed h (w.moduleAt i)).bind fun _ w₁ hw₁ => ?_)
            fun _ _ hw => ⟨hw, trivial⟩
          rw [hname] at hw₁
          refine (place_widens r hw₁ (by simp)).bind fun j w₂ hw₂ =>
            (Widens.adjust hw₂.closed j fun m => ?_).bind fun _ w₃ hw₃ => .ok hw₃.closed
          rfl
        · exact .error h

/-! ## Finding modules -/

/-- A module that is found comes in below a package that is there, or at the top. -/
theorem Widens.ofStep (h : Closed none w) (hs : Resolves False w w') : Widens none w w' := by
  cases hs with
  | enters hs =>
    refine ⟨⟨hs.registered h.registered, ?_, ?_⟩, fun other hother => ?_⟩
    · cases hs with
      | missing _ _ => exact h.named
      | found _ _ _ _ =>
        intro j hj
        rw [moduleAt_entered]
        split
        · rw [(found_spec _ _ _ _).1]
          exact .inr ((has_put _ _ _ _).2 (.inl rfl))
        · have hj' : j < w.modules.size + 1 := by simpa [entered] using hj
          exact .inr ((has_put _ _ _ _).2 (.inr ((h.named j (by omega)).resolve_left (by simp))))
    · cases hs with
      | missing _ _ => exact h.above
      | @found parent part _ _ _ hparent hdot _ =>
        refine fun front back hback => .inr ((has_put _ _ _ _).2 (.inr ?_))
        rcases (has_put _ _ _ _).1 hback with hname | hback
        · cases parent with
          | none => exact absurd hname.symm (not_above_of_not_mem hdot)
          | some p =>
            have hpackage := (h.named p (hparent p rfl).1).resolve_left (by simp)
            rcases above_child hdot hname.symm with rfl | ⟨rest, hrest⟩
            · exact hpackage
            · change (w.moduleAt p).name = _ at hrest
              rw [hrest] at hpackage
              exact (h.above front rest hpackage).resolve_left (by simp)
        · exact (h.above front back hback).resolve_left (by simp)
    · obtain ⟨i, hi⟩ := Table.has_iff.1 hother
      exact Table.has_iff.2 ⟨i, hs.gains.lookup hi⟩
  | imports i more =>
    refine ⟨h.aside rfl (by simp) fun j => ?_, fun _ => id⟩
    rw [moduleAt_modify]
    split
    · rename_i heq
      rw [heq.1]
    · rfl
  | entries l => exact ⟨h.aside rfl rfl fun _ => rfl, fun _ => id⟩

theorem Widens.ofResolve (h : Closed none w) (hs : Resolve False w w') : Widens none w w' := by
  induction hs with
  | refl => exact .refl h
  | tail _ hstep ih => exact ih.trans (.ofStep ih.closed hstep)

/-! ## Binding modules -/

theorem closed_ofResolve {α : Type} {f : WorkM α}
    (hf : ∀ {w : Workspace}, w.Registered → Ends (Resolve False w) (fun _ _ => True) (f.run w)) : Maintains (Closed none) f :=
  fun _ h => (hf h.registered).imp (fun _ hs => (Widens.ofResolve h hs).closed) fun _ _ _ => id

/-- Binding modules leaves the registry closed. -/
theorem bindings_closed : Bindings (Closed none) where
  adjust i _ hf _ h := (Widens.adjust h i hf).ends fun _ _ hw => ⟨hw.closed, trivial⟩
  resolveAll i tree := closed_ofResolve fun h => resolveAll_resolves h i tree
  opens _ w := by
    have hstore : ∀ {st st' : Store}, Closed none { w with store := st } → Closed none { w with store := st' } := fun h =>
      h.aside rfl rfl fun _ => rfl
    exact ⟨fun h _ _ => hstore h, fun h _ _ _ => hstore h, fun h _ => hstore h, fun h _ => hstore h⟩

/-- Whatever is asked of a workspace, the registry stays closed. -/
theorem call_closed (c : Call) : Maintains (Closed none) c.run := by
  cases c with
  | register r => exact .bind (fun _ h => register_closed r h) fun _ => .pure _
  | addEntry file name => exact .bind (closed_ofResolve fun h => addEntry_resolves h file name) fun _ => .pure _
  | bind name => exact .bind (bind_keeps bindings_closed name) fun _ => .pure _
  | bindEntries => exact .bind (.get fun w => .mapM (fun i => bind_keeps bindings_closed _) _) fun _ => .pure _
  | bindAll => exact .bind (.get fun w => .mapM (bind_keeps bindings_closed) _) fun _ => .pure _
  | exports path => exact .bind (exportsBy_keeps (bind_keeps bindings_closed) path) fun _ => .pure _

/-! ## Whatever is asked of a workspace -/

/-- What a step leads to, also if it fails. -/
def after {α : Type} (w : Workspace) (f : WorkM α) : Workspace :=
  match f.run w with
  | .ok _ w' | .error _ w' => w'

/-- What a workspace comes to by anything that can be asked of it, in any order. Between the steps, anything may change that
names do not go by: the disk, what is known of the modules, how far they are bound. -/
inductive Reached : Workspace → Prop where
  | opened (builtins : Source) {w : Workspace} : w.modules = #[] → w.names = [] → Reached (w.openedWith builtins)
  | call {w : Workspace} (c : Call) : Reached w → Reached (w.after c.run)
  | resolve {w : Workspace} (caller : Nat) (name : String) (level : Option Int) (wanted : Option (List String)) :
    Reached w → Reached (w.after (resolve caller name level wanted))
  | implicitImports {w : Workspace} (i : Nat) (caller : Option Nat) : Reached w → Reached (w.after (implicitImports i caller))
  | aside {w w' : Workspace} : Reached w → w'.names = w.names → w'.modules.size = w.modules.size →
    (∀ i, (w'.moduleAt i).name = (w.moduleAt i).name) → Reached w'

theorem Maintains.after {α : Type} {I : Workspace → Prop} {f : WorkM α} (hf : Maintains I f) (h : I w) : I (w.after f) := by
  have hends := hf w h
  unfold Workspace.after
  generalize f.run w = x at hends
  cases hends with
  | ok hw _ => exact hw
  | error hw => exact hw

theorem Reached.closed (h : Reached w) : Closed none w := by
  induction h with
  | @opened builtins w hmodules hnames =>
    have hempty : Closed none w :=
      { registered := fun name i hi => by rw [hnames] at hi; cases hi
        named := fun i hi => by rw [hmodules] at hi; cases hi
        above := fun front back hback => by rw [hnames] at hback; cases hback }
    have hends := register_closed { name := builtinsName, source := builtins, isStub := true, type := .builtIn } hempty
    unfold openedWith
    generalize (register _).run w = x at hends
    cases hends with
    | ok hw _ => exact hw
    | error hw => exact hw
  | call c _ ih => exact (call_closed c).after ih
  | resolve caller name level wanted _ ih =>
    exact Maintains.after (closed_ofResolve fun h => (resolve_enters h caller name level wanted).imp (fun _ => resolve_of_enter)
      fun _ _ _ => id) ih
  | implicitImports i caller _ ih =>
    refine Maintains.after (closed_ofResolve fun h => (implicitImports_enters h (fun hlt => ⟨hlt, False.elim⟩) caller).ends ?_) ih
    exact fun _ _ hw => ⟨resolve_of_enter hw.1, trivial⟩
  | aside _ hnames hsize hmodules ih => exact ih.aside hnames hsize hmodules

/-- How many packages a relative import climbs. The first level of a package is the package itself. -/
def climbs (w : Workspace) (caller : Nat) (level : Int) : Nat :=
  (if (w.moduleAt caller).locations.getD [] = [] then level else level - 1).toNat

/-- A relative import by a registered module looks for the package that is left of its name. -/
theorem start_eq (hi : w.names.lookup (w.moduleAt i).name = some i) {level : Int} (hlevel : 1 ≤ level) :
    w.start i level = if (parts (w.moduleAt i).name).length ≤ w.climbs i level then .error .tooDeep
      else (w.ancestor (ofParts ((parts (w.moduleAt i).name).rdrop (w.climbs i level)))).map some := by
  have hpos : 0 < (parts (w.moduleAt i).name).length := List.length_pos_iff.2 (parts_ne_nil _)
  have hsteps : ((w.climbs i level : Nat) : Int) = if !((w.moduleAt i).locations.getD []).isEmpty then level - 1 else level := by
    unfold climbs
    cases (w.moduleAt i).locations.getD [] with
    | nil => simp; omega
    | cons _ _ => simp; omega
  unfold start
  dsimp only
  rw [← hsteps]
  generalize w.climbs i level = steps
  rw [if_neg (by omega)]
  by_cases hzero : steps = 0
  · subst hzero
    have hself : w.ancestor (w.moduleAt i).name = .ok i := by rw [ancestor, hi]
    rw [if_pos (by omega), if_neg (by omega), List.rdrop_zero, ofParts_parts, hself]
    simp [Except.bind, Except.map]
  · rw [if_neg (by omega)]
    by_cases hdeep : (parts (w.moduleAt i).name).length ≤ steps
    · rw [if_pos hdeep, if_pos (by omega)]
    · rw [if_neg hdeep, if_neg (by omega), if_pos (by omega)]
      rfl

/-- The package some steps above a registered module is registered. -/
theorem Closed.has_rdrop (h : Closed none w) (hname : w.names.has name) {steps : Nat} (hsteps : steps < (parts name).length) :
    ∃ j, w.names.lookup (ofParts ((parts name).rdrop steps)) = some j ∧ parts (w.moduleAt j).name = (parts name).rdrop steps := by
  have hparts : parts (ofParts ((parts name).rdrop steps)) = (parts name).rdrop steps := by
    refine parts_ofParts (fun hnil => ?_) fun p hp => dot_not_mem_parts (List.mem_of_mem_take hp)
    have hlength := congrArg List.length hnil
    simp only [List.rdrop, List.length_take, List.length_nil] at hlength
    omega
  have hhas : w.names.has (ofParts ((parts name).rdrop steps)) := by
    by_cases hzero : (parts name).rdrop steps = parts name
    · rwa [hzero, ofParts_parts]
    · obtain ⟨back, hback⟩ : ∃ back, name = ofParts ((parts name).rdrop steps) ++ "." ++ back := by
        refine exists_dot_iff.2 ?_
        rw [hparts]
        exact ⟨List.take_prefix _ _, hzero⟩
      rw [hback] at hname
      exact (h.above _ _ hname).resolve_left (by simp)
  obtain ⟨j, hj⟩ := Table.has_iff.1 hhas
  exact ⟨j, hj, by rw [(h.registered _ j hj).2, hparts]⟩

/-- With every name the names of the packages above it are registered, and a registered module is found by its name. For a
registered module, a relative import starts from the package that is left of its name without as many parts as it climbs, and
is too deep if no part is left; there is no other way for it to fail. -/
theorem packages_are_registered (h : Reached w) :
    (∀ front back, w.names.has (front ++ "." ++ back) → w.names.has front) ∧
      ∀ name i, w.names.lookup name = some i → w.names.lookup (w.moduleAt i).name = some i ∧ ∀ level : Int, 1 ≤ level →
        let left := (parts (w.moduleAt i).name).rdrop (w.climbs i level)
        (left ≠ [] → ∃ j, w.start i level = .ok (some j) ∧ w.names.lookup (w.moduleAt j).name = some j ∧
          parts (w.moduleAt j).name = left) ∧
        (left = [] → w.start i level = .error .tooDeep) := by
  have hclosed := h.closed
  refine ⟨fun front back hback => (hclosed.above front back hback).resolve_left (by simp), fun name i hi => ?_⟩
  have hself : w.names.lookup (w.moduleAt i).name = some i := by rwa [(hclosed.registered name i hi).2]
  refine ⟨hself, fun level hlevel => ?_⟩
  have hleft : (parts (w.moduleAt i).name).rdrop (w.climbs i level) = [] ↔
      (parts (w.moduleAt i).name).length ≤ w.climbs i level := by
    rw [List.rdrop, List.take_eq_nil_iff]
    have hne := parts_ne_nil (w.moduleAt i).name
    simp only [hne, or_false]
    omega
  dsimp only
  rw [start_eq hself hlevel, Ne, hleft]
  refine ⟨fun hshallow => ?_, fun hdeep => if_pos hdeep⟩
  obtain ⟨j, hj, hparts⟩ := hclosed.has_rdrop (Table.has_iff.2 ⟨i, hself⟩) (Nat.lt_of_not_le hshallow)
  refine ⟨j, ?_, ?_, hparts⟩
  · rw [if_neg hshallow, ancestor, hj]
    rfl
  · rwa [(hclosed.registered _ j hj).2]

/-- A module two packages deep, registered alone. -/
def sampleDeep : Workspace :=
  (({} : Workspace).openedWith (.parsed { body := [] })).after
    (Call.run (.register { name := "a.b.c", source := sampleImporting "a" }))

theorem sampleDeep_packages : sampleDeep.names.names = ["builtins", "a", "a.b", "a.b.c"] ∧
    (∃ j, sampleDeep.start 3 2 = .ok (some j) ∧ (sampleDeep.moduleAt j).name = "a") ∧
    (∃ j, sampleDeep.start 2 1 = .ok (some j) ∧ (sampleDeep.moduleAt j).name = "a.b") ∧
    sampleDeep.start 3 3 = .error .tooDeep := by
  have hreached : Reached sampleDeep := .call _ (.opened _ rfl rfl)
  obtain ⟨_, hstart⟩ := packages_are_registered hreached
  have hmodule := (hstart "a.b.c" 3 (by decide +kernel)).2
  have hpackage := (hstart "a.b" 2 (by decide +kernel)).2
  refine ⟨by decide +kernel, ?_, ?_, (hmodule 3 (by decide)).2 (by decide +kernel)⟩
  · obtain ⟨j, hj, _, hparts⟩ := (hmodule 2 (by decide)).1 (by decide +kernel)
    exact ⟨j, hj, parts_inj (hparts.trans (by decide +kernel))⟩
  · obtain ⟨j, hj, _, hparts⟩ := (hpackage 1 (by decide)).1 (by decide +kernel)
    exact ⟨j, hj, parts_inj (hparts.trans (by decide +kernel))⟩

end Workspace

end ScopeFlow
