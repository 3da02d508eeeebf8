import ScopeFlow.Proofs.Entering

/-!
# Modules that are found while imports are resolved

Resolving imports registers modules and changes nothing else that binding goes by: what is registered stays registered, and
how far the binding of a module has come stays as it is (`Workspace.Finds`). The names under which modules with a file are
registered are candidates of the workspace in which the search began (`Workspace.Rooted`), if no extension module is named
`__init__`.
-/

namespace ScopeFlow.Workspace

open DottedName

variable {strict : Prop} {w₀ w w' w'' : Workspace} {i j : Nat} {name part : String} {f : ModuleRecord → ModuleRecord}
  {location : Location} {parent : Option Nat}

/-! ## Where modules can be found -/

/-- The name of a module goes on from an origin along the directories that its submodules are searched in. -/
def Reaches (w₀ : Workspace) (m : ModuleRecord) : Prop := ∃ start ∈ w₀.origins, ∃ parts, extend start parts = some m.name ∧
  ∀ directory ∈ m.locations.getD [], parts <:+ Path.places directory

/-- Registered modules go on from origins, and those with a file are named by candidates. -/
def Rooted (w₀ w : Workspace) : Prop := ∀ name i, w.names.lookup name = some i →
  w₀.Reaches (w.moduleAt i) ∧ ((w.moduleAt i).code?.isSome → name ∈ w₀.candidates)

/-- What holds while imports are resolved, in a workspace that began as `w₀`. -/
structure Sound (w₀ w : Workspace) : Prop where
  registered : w.Registered
  disk : w.disk = w₀.disk
  rooted : w₀.disk.Plain → w₀.Rooted w

theorem Registered.sound (h : w.Registered) : w.Sound w where
  registered := h
  disk := rfl
  rooted _ name i hi := by
    have hmem := Table.mem_names_of_lookup hi
    refine ⟨⟨some name, by simp [origins, hmem], [], by simp [extend, (h name i hi).2], by simp⟩, fun _ => ?_⟩
    exact List.mem_append_left _ hmem

/-- What resolving imports does to a workspace. -/
structure Finds (w₀ : Workspace) (strict : Prop) (w w' : Workspace) : Prop where
  sound : w₀.Sound w'
  keeps : w.Keeps strict w'
  names : ∀ name i, w.names.lookup name = some i → w'.names.lookup name = some i

theorem Finds.refl (h : w₀.Sound w) : Finds w₀ strict w w := ⟨h, .refl w, fun _ _ => id⟩

theorem Finds.trans (h : Finds w₀ strict w w') (h' : Finds w₀ strict w' w'') : Finds w₀ strict w w'' :=
  ⟨h'.sound, h.keeps.trans h'.keeps, fun name i hi => h'.names name i (h.names name i hi)⟩

/-- Where a part of a name was found, when the name goes on from an origin along the directories that were searched. -/
def Anchored (w₀ : Workspace) (name part : String) (location : Location) : Prop := ∃ start ∈ w₀.origins, ∃ parts,
  extend start (parts ++ [part]) = some name ∧
    (location = .builtIn ∨ ∃ directories, (∀ d ∈ directories, parts <:+ Path.places d) ∧ w₀.disk.Below directories part location)

/-- A stretch of places that goes on by a part. -/
theorem suffix_concat {parts places : List String} (h : parts <:+ places) (part : String) :
    parts ++ [part] <:+ places ++ [part] := by
  obtain ⟨front, rfl⟩ := h
  exact ⟨front, by simp⟩

/-- A source file that was found below a directory gives its module a name that is a candidate. -/
theorem mem_candidates_of_source {start : Option String} (hs : start ∈ w₀.origins) {parts directories : List String}
    (hn : extend start (parts ++ [part]) = some name) (hd : ∀ d ∈ directories, parts <:+ Path.places d) {path : String}
    (hb : w₀.disk.Below directories part (.file .source path)) : name ∈ w₀.candidates := by
  cases hb with
  | native hne => exact absurd rfl hne
  | source hmem hfile hplaces =>
    obtain ⟨key, hkey, hparts⟩ := Disk.exists_key_of_isFile hfile
    refine mem_candidates hs hn hkey ?_
    have hend := suffix_concat (hd _ hmem) part
    rw [hparts]
    rcases hplaces with hplaces | ⟨more, hplaces⟩
    · rw [hplaces]
      exact Path.mem_stretches_of_source hend
    · rw [hplaces]
      refine Path.mem_stretches_of_infix (List.IsInfix.trans hend.isInfix ⟨[], more, by simp⟩)

/-- What a module comes to have, by where it was found: the directories of its submodules, and whether it has a file to bind. -/
theorem found_cases (disk : Disk) (location : Location) (type : ImportType) (name : String) :
    ((found disk location type { name := name }).locations.getD [] = [] ∧
        ((found disk location type { name := name }).code?.isSome → ∃ path, location = .file .source path)) ∨
      (∃ directory, location = .package directory ∧ (found disk location type { name := name }).locations.getD [] = [directory] ∧
        ((found disk location type { name := name }).code?.isSome →
          ∃ path, disk.find? "__init__" [directory] = some (.file .source path))) ∨
      ∃ directories, location = .namespacePackage directories ∧
        (found disk location type { name := name }).locations.getD [] = directories ∧
        (found disk location type { name := name }).code? = none := by
  unfold found
  split
  · rename_i directory
    refine .inr (.inl ⟨directory, rfl, ?_⟩)
    split
    · rename_i path hinit
      exact ⟨rfl, fun _ => ⟨path, hinit⟩⟩
    · exact ⟨rfl, fun h => by cases h⟩
  · exact .inr (.inr ⟨_, rfl, rfl, rfl⟩)
  · exact .inl ⟨rfl, fun _ => ⟨_, rfl⟩⟩
  · exact .inl ⟨rfl, fun h => by cases h⟩
  · exact .inl ⟨rfl, fun h => by cases h⟩

/-- What was found where a name leads has that name among the candidates, if it has a file. -/
theorem found_rooted (hplain : w₀.disk.Plain) (hl : w₀.Anchored name part location) (type : ImportType) :
    w₀.Reaches (found w₀.disk location type { name := name }) ∧
      ((found w₀.disk location type { name := name }).code?.isSome → name ∈ w₀.candidates) := by
  obtain ⟨start, hs, parts, hn, hwhere⟩ := hl
  have hreaches : (∀ d ∈ (found w₀.disk location type { name := name }).locations.getD [], parts ++ [part] <:+ Path.places d) →
      w₀.Reaches (found w₀.disk location type { name := name }) := fun h =>
    ⟨start, hs, parts ++ [part], by rw [hn, (found_spec _ _ _ _).1], h⟩
  rcases found_cases w₀.disk location type name with ⟨hnone, hsource⟩ | ⟨directory, rfl, hone, hinit⟩ | ⟨found, rfl, hmany, hcode⟩
  · refine ⟨hreaches (by simp [hnone]), fun h => ?_⟩
    obtain ⟨path, rfl⟩ := hsource h
    obtain ⟨directories, hd, hb⟩ := hwhere.resolve_left (by simp)
    exact mem_candidates_of_source hs hn hd hb
  · obtain ⟨directories, hd, hb⟩ := hwhere.resolve_left (by simp)
    cases hb with
    | package hmem hplaces =>
      have hend : parts ++ [part] <:+ Path.places directory := hplaces ▸ suffix_concat (hd _ hmem) part
      refine ⟨hreaches (by simpa [hone] using hend), fun h => ?_⟩
      obtain ⟨path, hpath⟩ := hinit h
      cases Disk.find?_below hplain (by decide) hpath with
      | native hne => exact absurd rfl hne
      | source hmem' hfile hinside =>
        rw [List.mem_singleton] at hmem'
        obtain ⟨key, hkey, hparts⟩ := Disk.exists_key_of_isFile hfile
        refine mem_candidates hs hn hkey (Path.mem_stretches_of_infix ?_)
        rw [hparts]
        rcases hinside with hinside | ⟨more, hinside⟩ <;> rw [hinside, hmem'] <;>
          exact List.IsInfix.trans hend.isInfix ⟨[], _, by rfl⟩
  · obtain ⟨directories, hd, hb⟩ := hwhere.resolve_left (by simp)
    cases hb with
    | namespacePackage hall =>
      refine ⟨hreaches fun directory hmem => ?_, fun h => by simp [hcode] at h⟩
      obtain ⟨above, habove, hplaces⟩ := hall directory (hmany ▸ hmem)
      exact hplaces ▸ suffix_concat (hd _ habove) part

section

variable (h : w₀.Sound w)
include h

/-- What a search for a part finds is anchored at the origin of the name. -/
theorem locate?_anchored (hplain : w₀.disk.Plain) (hp : ∀ p, parent = some p → w.Has p)
    (hdot : '.' ∉ part.toList) {type : ImportType} (hl : w.locate? part parent = some (location, type)) :
    w₀.Anchored (w.nameBelow parent part) part location := by
  unfold locate? at hl
  cases parent with
  | none =>
    refine ⟨none, by simp [origins], [], rfl, ?_⟩
    dsimp only at hl
    split at hl
    · cases hl
      exact .inl rfl
    · obtain ⟨⟨directories, _⟩, _, hfound⟩ := List.exists_of_findSome?_eq_some hl
      obtain ⟨_, hfind, heq⟩ := Option.map_eq_some_iff.1 hfound
      cases heq
      rw [h.disk] at hfind
      exact .inr ⟨directories, by simp, Disk.find?_below hplain hdot hfind⟩
  | some p =>
    obtain ⟨name, hname⟩ := hp p rfl
    obtain ⟨⟨start, hs, parts, hparts, hd⟩, _⟩ := h.rooted hplain name p hname
    refine ⟨start, hs, parts, by rw [extend_concat, hparts]; rfl, .inr ?_⟩
    dsimp only at hl
    cases hlocations : (w.moduleAt p).locations with
    | none => simp [hlocations] at hl
    | some directories =>
      rw [hlocations] at hl
      dsimp only at hl
      split at hl
      · obtain ⟨_, hfind, heq⟩ := Option.map_eq_some_iff.1 hl
        cases heq
        rw [h.disk] at hfind
        exact ⟨directories, by simpa [hlocations] using hd, Disk.find?_below hplain hdot hfind⟩
      · cases hl

/-- A change of what is known of a module that neither names nor searches go by. -/
theorem Sound.modify (i : Nat)
    (hf : ∀ m, (f m).name = m.name ∧ (f m).locations = m.locations ∧ (f m).code? = m.code?) :
    w₀.Sound { w with modules := w.modules.modify i f } := by
  refine ⟨h.registered.modify fun m => (hf m).1, h.disk, fun hplain name j hj => ?_⟩
  obtain ⟨⟨start, hs, parts, hparts, hd⟩, hcode⟩ := h.rooted hplain name j hj
  rw [moduleAt_modify]
  split
  · rename_i heq
    obtain ⟨hname, hlocations, hcode?⟩ := hf (w.moduleAt i)
    rw [heq.1] at hparts hd hcode
    exact ⟨⟨start, hs, parts, hname ▸ hparts, hlocations ▸ hd⟩, fun hsome => hcode (hcode? ▸ hsome)⟩
  · exact ⟨⟨start, hs, parts, hparts, hd⟩, hcode⟩

theorem Finds.adjustAside (i : Nat)
    (hf : ∀ m, (f m).name = m.name ∧ (f m).locations = m.locations ∧ (f m).code? = m.code?)
    (hk : ∀ m : ModuleRecord, m.Keeps strict (f m)) :
    Ends (Finds w₀ strict w) (fun _ _ => True) ((Workspace.adjust i f).run w) :=
  .ok ⟨h.modify i hf, .modify (hk _), fun _ _ => id⟩ trivial

/-- What resolving does, thing by thing, leaves what binding goes by. -/
theorem Finds.ofStep (hs : Resolves True w w') : Finds w₀ strict w w' := by
  cases hs with
  | enters hs =>
    refine ⟨⟨hs.registered h.registered, hs.gains.disk.trans h.disk, fun hplain other j hj => ?_⟩, fun j => ?_,
      fun _ _ => hs.gains.lookup⟩
    · cases hs with
      | missing _ _ => exact h.rooted hplain other j hj
      | found hfree hparent hdot hl =>
        rw [moduleAt_entered]
        simp only [entered, Table.lookup_put] at hj
        split at hj
        · rename_i heq
          cases hj
          rw [if_pos rfl, heq, h.disk]
          exact found_rooted hplain (locate?_anchored h hplain (fun p hp => (hparent p hp).2 trivial) hdot hl) _
        · have hlt := (h.registered other j hj).1
          rw [if_neg (by omega)]
          exact h.rooted hplain other j hj
    · by_cases hj : j < w.modules.size
      · rw [hs.gains.modules j hj]
        exact .refl _
      · -- a module that comes in is not bound
        rw [moduleAt_of_le (Nat.le_of_not_lt hj)]
        cases hs with
        | missing _ _ => exact moduleAt_of_le (w := w) (Nat.le_of_not_lt hj) ▸ .refl _
        | @found parent part location type hfree hparent hdot hl =>
          rw [moduleAt_entered]
          split
          · obtain ⟨_, hprogress, hscope, hresults, _⟩ := found_spec w.disk location type { name := w.nameBelow parent part }
            exact .ofUnbound rfl hprogress hscope hresults fun h => by simp at h
          · rw [moduleAt_of_le (Nat.le_of_not_lt hj)]
            exact .refl _
  | imports i more =>
    refine ⟨h.modify i fun _ => ?_, .modify ?_, fun _ _ => id⟩
    · exact ⟨rfl, rfl, rfl⟩
    · exact ⟨rfl, rfl, rfl, id, fun _ _ => rfl⟩
  | entries l => exact ⟨⟨h.registered, h.disk, h.rooted⟩, fun _ => .refl _, fun _ _ => id⟩

theorem Finds.ofResolve (hs : Resolve True w w') : Finds w₀ strict w w' := by
  induction hs with
  | refl => exact .refl h
  | tail _ hstep ih => exact ih.trans (.ofStep ih.sound hstep)

theorem resolveAll_finds (caller : Nat) (m : Module) :
    Ends (Finds w₀ strict w) (fun _ _ => True) ((resolveAll caller m).run w) :=
  (resolveAll_resolves h.registered caller m).imp (fun _ => .ofResolve h) fun _ _ _ => id

/-- An entry is found like an import. -/
theorem addEntry_finds (file name : Option String) :
    Ends (Finds w₀ strict w) (fun _ _ => True) ((addEntry file name).run w) :=
  (addEntry_resolves h.registered file name).imp (fun _ => .ofResolve h) fun _ _ _ => id

end

end ScopeFlow.Workspace
