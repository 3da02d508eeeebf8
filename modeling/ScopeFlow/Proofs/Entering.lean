import ScopeFlow.Proofs.Candidates

/-!
# What resolving an import does to a workspace

Resolving an import does two things, again and again: it registers a module that is found on disk under a name that is free,
and it remembers a name that is not found (`Workspace.Enters`). So a workspace only gains by it (`Workspace.Gains`), and what
else is known of resolving is shown for these two things. In the end the parts of a name lead as far as the registry does
(`Workspace.trail`).
-/

namespace ScopeFlow

/-! ## How a step ends -/

section

variable {σ α β : Type} {I I' : σ → Prop} {V V' : α → σ → Prop} {W : β → σ → Prop} {live : Prop}
  {x : EStateM.Result Fault σ α} {f : EStateM Fault σ α} {parent : Option Nat} {s : σ}

/-- A step ends in a state, with an answer unless it fails. -/
inductive Ends (I : σ → Prop) (V : α → σ → Prop) : EStateM.Result Fault σ α → Prop where
  | ok {a : α} {s : σ} : I s → V a s → Ends I V (.ok a s)
  | error {fault : Fault} {s : σ} : I s → Ends I V (.error fault s)

namespace Ends

theorem imp (h : Ends I V x) (hI : ∀ s, I s → I' s)
    (hV : ∀ a s, I s → V a s → V' a s) : Ends I' V' x := by
  cases h with
  | ok hs ha => exact .ok (hI _ hs) (hV _ _ hs ha)
  | error hs => exact .error (hI _ hs)

theorem bind {g : α → EStateM Fault σ β} (hf : Ends I V (f.run s)) (hI : ∀ s, I s → I' s)
    (hg : ∀ a s', I s' → V a s' → Ends I' W ((g a).run s')) : Ends I' W ((f >>= g).run s) := by
  show Ends I' W (EStateM.bind f g s)
  change Ends I V (f s) at hf
  unfold EStateM.bind
  cases hrun : f s with
  | ok a s' =>
    rw [hrun] at hf
    cases hf with
    | ok hs ha => exact hg a s' hs ha
  | error fault s' =>
    rw [hrun] at hf
    cases hf with
    | error hs => exact .error (hI _ hs)

/-- What is read is the state. -/
theorem get {k : σ → EStateM Fault σ β} (h : Ends I W ((k s).run s)) : Ends I W ((MonadState.get >>= k).run s) := h

/-- An answer that is not wanted. -/
theorem discard (h : Ends I V (f.run s)) :
    Ends I (fun _ t => ∃ a, V a t) ((Functor.discard f : EStateM Fault σ Unit).run s) := by
  show Ends I _ (EStateM.map (Function.const α ()) f s)
  change Ends I V (f s) at h
  unfold EStateM.map
  cases hrun : f s with
  | ok a t =>
    rw [hrun] at h
    cases h with
    | ok ht ha => exact .ok ht ⟨a, ha⟩
  | error fault t =>
    rw [hrun] at h
    cases h with
    | error ht => exact .error ht

end Ends

/-- A step does not fail. -/
inductive Gives (V : α → σ → Prop) : EStateM.Result Fault σ α → Prop where
  | ok {a : α} {s : σ} : V a s → Gives V (.ok a s)

theorem Gives.imp (h : Gives V x) (hV : ∀ a s, V a s → V' a s) : Gives V' x := by
  cases h with
  | ok ha => exact .ok (hV _ _ ha)

theorem Gives.bind {g : α → EStateM Fault σ β} (hf : Gives V (f.run s))
    (hg : ∀ a s', V a s' → Gives W ((g a).run s')) : Gives W ((f >>= g).run s) := by
  show Gives W (EStateM.bind f g s)
  change Gives V (f s) at hf
  unfold EStateM.bind
  cases hrun : f s with
  | ok a s' =>
    rw [hrun] at hf
    cases hf with
    | ok ha => exact hg a s' ha
  | error fault s' =>
    rw [hrun] at hf
    cases hf

/-- What is read is the state. -/
theorem Gives.get {k : σ → EStateM Fault σ β} (h : Gives W ((k s).run s)) : Gives W ((MonadState.get >>= k).run s) := h

theorem Gives.ends (h : Gives V x) (hI : ∀ a s, V a s → I s ∧ V' a s) : Ends I V' x := by
  cases h with
  | ok ha => exact .ok (hI _ _ ha).1 (hI _ _ ha).2

end

namespace Table

variable {α : Type} {t : Table α} {name other : String}

theorem has_iff : t.has name = true ↔ ∃ value, t.lookup name = some value := by
  induction t with
  | nil => simp [has, names]
  | cons p t ih =>
    obtain ⟨n, v⟩ := p
    by_cases h : name = n
    · simp [has, names, h]
    · have hb : (name == n) = false := by simpa using h
      simpa [has, names, List.lookup_cons, hb, h] using ih

theorem mem_names_of_lookup {value : α} (h : t.lookup name = some value) : name ∈ t.names := by
  have hhas := has_iff.2 ⟨value, h⟩
  simpa [has] using hhas

theorem lookup_erase_self : (t.erase name).lookup name = none := by
  rw [List.lookup_eq_none_iff]
  intro p hp
  simp only [erase, List.mem_filter, decide_eq_true_eq] at hp
  simpa using Ne.symm hp.2

theorem lookup_erase_ne (h : other ≠ name) : (t.erase name).lookup other = t.lookup other := by
  induction t with
  | nil => rfl
  | cons p t ih =>
    obtain ⟨n, v⟩ := p
    by_cases hn : n = name
    · have hb : (other == name) = false := by simpa using h
      simpa [erase, hn, List.lookup_cons, hb] using ih
    · have herase : erase ((n, v) :: t) name = (n, v) :: erase t name := by simp [erase, hn]
      rw [herase, List.lookup_cons, List.lookup_cons, ih]

theorem lookup_put (t : Table α) (name other : String) (value : α) :
    (t.put name value).lookup other = if other = name then some value else t.lookup other := by
  split
  · rename_i h
    rw [h, lookup_put_self]
  · rename_i h
    rw [lookup_put_ne t value h]

theorem put_of_lookup (h : t.lookup name = none) (value : α) : t.put name value = t ++ [(name, value)] := by
  induction t with
  | nil => rfl
  | cons p t ih =>
    obtain ⟨n, v⟩ := p
    rw [List.lookup_cons] at h
    by_cases hn : name = n
    · simp [hn] at h
    · have hb : (name == n) = false := by simpa using hn
      rw [hb] at h
      rw [put, if_neg (Ne.symm hn), ih h, List.cons_append]

end Table

/-! ## What stays of a record -/

/-- How far the binding of a module has come stays as it is. With `strict`, so does the file that it was bound from. -/
structure ModuleRecord.Keeps (strict : Prop) (m m' : ModuleRecord) : Prop where
  progress : m'.progress = m.progress
  scope : m'.scope = m.scope
  results : m'.results = m.results
  analysis : m.analysis.isSome → m'.analysis.isSome
  code? : strict → m.progress ≠ .unbound → m'.code? = m.code?

namespace ModuleRecord.Keeps

variable {strict : Prop} {m m' m'' : ModuleRecord}

theorem refl (m : ModuleRecord) : m.Keeps strict m := ⟨rfl, rfl, rfl, id, fun _ _ => rfl⟩

theorem trans (h : m.Keeps strict m') (h' : m'.Keeps strict m'') : m.Keeps strict m'' where
  progress := h'.progress.trans h.progress
  scope := h'.scope.trans h.scope
  results := h'.results.trans h.results
  analysis := fun hs => h'.analysis (h.analysis hs)
  code? hs hp := (h'.code? hs (by rwa [h.progress])).trans (h.code? hs hp)

/-- A change of a module that was not bound yet. -/
theorem ofUnbound (hu : m.progress = .unbound) (hp : m'.progress = m.progress) (hs : m'.scope = m.scope)
    (hr : m'.results = m.results) (ha : m.analysis.isSome → m'.analysis.isSome) : m.Keeps strict m' :=
  ⟨hp, hs, hr, ha, fun _ hne => absurd hu hne⟩

end ModuleRecord.Keeps

namespace Workspace

open DottedName

variable {strict : Prop} {w₀ w w' w'' : Workspace} {i j : Nat} {name part : String}

theorem moduleAt_modify (f : ModuleRecord → ModuleRecord) :
    moduleAt { w with modules := w.modules.modify i f } j =
      if j = i ∧ i < w.modules.size then f (w.moduleAt i) else w.moduleAt j := by
  unfold moduleAt
  rw [Array.getElem?_modify]
  by_cases hj : i = j
  · subst hj
    by_cases hi : i < w.modules.size
    · simp [hi]
    · simp [hi]
  · have hj' : ¬ (j = i ∧ i < w.modules.size) := fun h => hj h.1.symm
    simp [hj, hj']

theorem moduleAt_push (m : ModuleRecord) (names : Table Nat) :
    moduleAt { w with modules := w.modules.push m, names := names } j = if j = w.modules.size then m else w.moduleAt j := by
  unfold moduleAt
  rw [Array.getElem?_push]
  split <;> simp [*]

/-- A module that is not there is a blank one. -/
theorem moduleAt_of_le (h : w.modules.size ≤ i) : w.moduleAt i = { name := "" } := by
  simp [moduleAt, Array.getElem?_eq_none h]

/-- How far binding has come stays as it is, module by module. -/
def Keeps (strict : Prop) (w w' : Workspace) : Prop := ∀ i, (w.moduleAt i).Keeps strict (w'.moduleAt i)

theorem Keeps.refl (w : Workspace) : w.Keeps strict w := fun _ => .refl _

theorem Keeps.trans (h : w.Keeps strict w') (h' : w'.Keeps strict w'') : w.Keeps strict w'' := fun i => (h i).trans (h' i)

theorem Keeps.modify {f : ModuleRecord → ModuleRecord} (hf : (w.moduleAt i).Keeps strict (f (w.moduleAt i))) :
    w.Keeps strict { w with modules := w.modules.modify i f } := by
  intro j
  rw [moduleAt_modify]
  split
  · rename_i h
    exact h.1 ▸ hf
  · exact .refl _

theorem Keeps.push (name : String) (names : Table Nat) :
    w.Keeps strict { w with modules := w.modules.push { name := name }, names := names } := by
  intro j
  rw [moduleAt_push]
  split
  · rename_i h
    rw [moduleAt_of_le (le_of_eq h.symm)]
    exact .ofUnbound rfl rfl rfl rfl id
  · exact .refl _

/-- Whether names lead to modules of that name. -/
def Registered (w : Workspace) : Prop := ∀ name i, w.names.lookup name = some i → i < w.modules.size ∧ (w.moduleAt i).name = name

theorem Registered.modify {f : ModuleRecord → ModuleRecord} (h : w.Registered) (hf : ∀ m, (f m).name = m.name) :
    Registered { w with modules := w.modules.modify i f } := by
  intro name j hj
  obtain ⟨hlt, hname⟩ := h name j hj
  refine ⟨by simpa using hlt, ?_⟩
  rw [moduleAt_modify]
  split
  · rename_i heq
    rw [hf, ← heq.1]
    exact hname
  · exact hname

theorem Registered.push (h : w.Registered) (name : String) :
    Registered { w with modules := w.modules.push { name := name }, names := w.names.put name w.modules.size } := by
  intro other j hj
  rw [moduleAt_push]
  simp only [Table.lookup_put] at hj
  split at hj
  · rename_i heq
    cases hj
    simp [heq]
  · obtain ⟨hlt, hname⟩ := h other j hj
    rw [if_neg (by omega)]
    exact ⟨by simp; omega, hname⟩

/-! ## What resolving an import does -/

/-- Whether a module is registered. -/
def Has (w : Workspace) (i : Nat) : Prop := ∃ name, w.names.lookup name = some i

/-- Whether there is a module with a number and, with `live`, it is registered: its name may lead to one that took its place. -/
def Stands (live : Prop) (w : Workspace) (i : Nat) : Prop := i < w.modules.size ∧ (live → w.Has i)

/-- The workspace with a module that was found on disk. -/
def entered (w : Workspace) (name : String) (location : Location) (type : ImportType) : Workspace :=
  { w with
    modules := w.modules.push (found w.disk location type { name := name })
    names := w.names.put name w.modules.size
    paths := (found w.disk location type { name := name }).file.elim w.paths fun path => w.paths.put path w.modules.size }

/-- The name of a part below a module, or of one that stands alone. -/
def nameBelow (w : Workspace) (parent : Option Nat) (part : String) : String :=
    child (parent.map fun p => (w.moduleAt p).name) part

/-- One thing that resolving an import does: under a free name it registers a module that is found on disk, or it remembers a
module that looked for a name. -/
inductive Enters (live : Prop) (w : Workspace) : Workspace → Prop where
  | found {parent : Option Nat} {part : String} {location : Location} {type : ImportType}
    (hfree : w.names.lookup (w.nameBelow parent part) = none) (hparent : ∀ p, parent = some p → w.Stands live p)
    (hdot : '.' ∉ part.toList) (hl : w.locate? part parent = some (location, type)) :
    Enters live w (w.entered (w.nameBelow parent part) location type)
  | missing (name : String) (more : List String) :
    Enters live w { w with missing := w.missing.put name ((w.missing.lookup name).getD [] ++ more) }

theorem moduleAt_entered {location : Location} {type : ImportType} : (w.entered name location type).moduleAt j =
    if j = w.modules.size then found w.disk location type { name := name } else w.moduleAt j :=
  moduleAt_push (w := w) _ []

/-- What is found leaves the name of a module and how far its binding has come. -/
theorem found_spec (disk : Disk) (location : Location) (type : ImportType) (m : ModuleRecord) :
    (found disk location type m).name = m.name ∧ (found disk location type m).progress = m.progress ∧
      (found disk location type m).scope = m.scope ∧ (found disk location type m).results = m.results ∧
      (found disk location type m).analysis = m.analysis := by
  unfold found
  split
  · split <;> exact ⟨rfl, rfl, rfl, rfl, rfl⟩
  all_goals exact ⟨rfl, rfl, rfl, rfl, rfl⟩

/-- A name that is registered leads to its module. -/
theorem enter_known {i : Nat} (hn : w.names.lookup name = some i) : (enter name).run w = .ok i w := by
  show EStateM.Result.ok _ _ = _
  rw [hn]

/-- A name that is free comes to lead to a module of its own. -/
theorem enter_new (hn : w.names.lookup name = none) : (enter name).run w = .ok w.modules.size
    { w with modules := w.modules.push { name := name }, names := w.names.put name w.modules.size } := by
  show EStateM.Result.ok _ _ = _
  rw [hn]

/-- A module that was found comes in under a name that is free. -/
theorem enterFound_gives (hn : w.names.lookup name = none) (location : Location) (type : ImportType) :
    Gives (fun i w' => i = w.modules.size ∧ w' = w.entered name location type) ((enterFound name location type).run w) := by
  have hmodify : (w.modules.push { name := name }).modify w.modules.size (found w.disk location type) =
      w.modules.push (found w.disk location type { name := name }) := by
    refine Array.ext (by simp) fun i hi hi' => ?_
    have hle : i < w.modules.size + 1 := by simpa using hi'
    simp only [Array.getElem_modify, Array.getElem_push]
    split_ifs <;> first | rfl | omega
  have henter := enter_new hn
  refine Gives.bind (V := fun i w₁ => (enter name).run w = .ok i w₁) (by rw [henter]; exact .ok rfl) fun i w₁ h₁ => .get ?_
  rw [henter] at h₁
  cases h₁
  refine Gives.bind (V := fun _ w₂ => w₂ = { w with
    modules := w.modules.push (found w.disk location type { name := name }), names := w.names.put name w.modules.size })
    (.ok (by rw [← hmodify])) ?_
  rintro _ _ rfl
  refine .get ?_
  rw [moduleAt_push, if_pos rfl, entered]
  cases (found w.disk location type { name := name }).file with
  | none => exact .ok ⟨rfl, rfl⟩
  | some path => exact .ok ⟨rfl, rfl⟩

/-- What resolving imports adds to a workspace: modules, with the names and paths that lead to them, and names that were
looked for in vain. The modules that were there and the names that lead to them stay as they are. A path may be redirected: it
comes to lead to a module that was added for its file, even if it led to a registered one before. So `from .__init__ import v`
in a package makes the path of the package lead to a module of its own for the `__init__`. -/
structure Gains (w w' : Workspace) : Prop where
  size : w.modules.size ≤ w'.modules.size
  modules : ∀ i < w.modules.size, w'.moduleAt i = w.moduleAt i
  names : ∃ new, w'.names = w.names ++ new ∧ ∀ p ∈ new, w.modules.size ≤ p.2
  paths : ∀ path, w'.paths.lookup path = w.paths.lookup path ∨
    ∃ i, w.modules.size ≤ i ∧ i < w'.modules.size ∧ w'.paths.lookup path = some i ∧ (w'.moduleAt i).file = some path
  missing : ∀ name askers, w.missing.lookup name = some askers → ∃ more, w'.missing.lookup name = some (askers ++ more)
  rest : w' = { w with modules := w'.modules, names := w'.names, paths := w'.paths, missing := w'.missing }

namespace Gains

theorem refl (w : Workspace) : w.Gains w :=
  ⟨le_rfl, fun _ _ => rfl, ⟨[], by simp⟩, fun _ => .inl rfl, fun _ askers h => ⟨[], by simpa using h⟩, rfl⟩

section

variable (h : w.Gains w')
include h

theorem trans (h' : w'.Gains w'') : w.Gains w'' where
  size := h.size.trans h'.size
  modules i hi := (h'.modules i (hi.trans_le h.size)).trans (h.modules i hi)
  names := by
    obtain ⟨new, hnew, hlarge⟩ := h.names
    obtain ⟨new', hnew', hlarge'⟩ := h'.names
    refine ⟨new ++ new', by rw [hnew', hnew, List.append_assoc], fun p hp => ?_⟩
    exact (List.mem_append.1 hp).elim (hlarge p) fun hp => h.size.trans (hlarge' p hp)
  paths path := by
    rcases h'.paths path with hsame | ⟨i, hle, hlt, hi, hfile⟩
    · rcases h.paths path with hpath | ⟨i, hle, hlt, hi, hfile⟩
      · exact .inl (hsame.trans hpath)
      · exact .inr ⟨i, hle, hlt.trans_le h'.size, hsame.trans hi, by rw [h'.modules i hlt, hfile]⟩
    · exact .inr ⟨i, h.size.trans hle, hlt, hi, hfile⟩
  missing name askers hn := by
    obtain ⟨more, hmore⟩ := h.missing name askers hn
    obtain ⟨more', hmore'⟩ := h'.missing name _ hmore
    exact ⟨more ++ more', by rw [hmore', List.append_assoc]⟩
  rest := by
    rw [h'.rest, h.rest]

theorem lookup (hn : w.names.lookup name = some i) : w'.names.lookup name = some i := by
  obtain ⟨new, hnew, _⟩ := h.names
  rw [hnew, List.lookup_append, hn, Option.some_or]

theorem disk : w'.disk = w.disk := by rw [h.rest]

theorem stands (hi : w.Stands live i) : w'.Stands live i :=
  ⟨hi.1.trans_le h.size, fun hl => (hi.2 hl).imp fun _ => h.lookup⟩

theorem nameBelow (hp : ∀ p, parent = some p → p < w.modules.size) (part : String) :
    w'.nameBelow parent part = w.nameBelow parent part := by
  cases parent with
  | none => rfl
  | some p => simp [Workspace.nameBelow, h.modules p (hp p rfl)]

theorem locate? (hp : ∀ p, parent = some p → p < w.modules.size) :
    w'.locate? part parent = w.locate? part parent := by
  cases parent with
  | none =>
    rw [h.rest]
    rfl
  | some p => simp only [Workspace.locate?, h.modules p (hp p rfl), h.disk]

end

end Gains

theorem Enters.gains (h : Enters live w w') : w.Gains w' := by
  cases h with
  | @found parent part location type hfree _ _ _ =>
    refine ⟨by simp [entered], fun i hi => ?_, ⟨_, Table.put_of_lookup hfree _, by simp⟩, fun path => ?_,
      fun _ askers h => ⟨[], by simpa [entered] using h⟩, rfl⟩
    · rw [moduleAt_entered, if_neg (by omega)]
    · cases hfile : (Workspace.found w.disk location type { name := w.nameBelow parent part }).file with
      | none => exact .inl (by simp [entered, hfile])
      | some file =>
        by_cases heq : path = file
        · refine .inr ⟨w.modules.size, le_rfl, by simp [entered], by simp [entered, hfile, heq, Table.lookup_put], ?_⟩
          rw [moduleAt_entered, if_pos rfl, hfile, heq]
        · exact .inl (by simp [entered, hfile, Table.lookup_put, heq])
  | missing name more =>
    refine ⟨le_rfl, fun _ _ => rfl, ⟨[], by simp⟩, fun _ => .inl rfl, fun other askers h => ?_, rfl⟩
    by_cases heq : other = name
    · subst heq
      exact ⟨more, by simp [Table.lookup_put, h]⟩
    · exact ⟨[], by simpa [Table.lookup_put, heq] using h⟩

theorem Enters.registered (h : Enters live w w') (hr : w.Registered) : w'.Registered := by
  cases h with
  | found hfree _ _ _ =>
    intro other j hj
    rw [moduleAt_entered]
    simp only [entered, Table.lookup_put, Array.size_push] at hj ⊢
    split at hj
    · rename_i heq
      cases hj
      simp [heq, (found_spec _ _ _ _).1]
    · obtain ⟨hlt, hname⟩ := hr other j hj
      rw [if_neg (by omega)]
      exact ⟨by omega, hname⟩
  | missing _ _ => exact hr

/-- What resolving does, one thing after the other. -/
abbrev Enter (live : Prop) : Workspace → Workspace → Prop := Relation.ReflTransGen (Enters live)

theorem gains_of_enter (h : Enter live w w') : w.Gains w' := by
  induction h with
  | refl => exact .refl w
  | tail _ hstep ih => exact ih.trans hstep.gains

theorem registered_of_enter (h : Enter live w w') (hr : w.Registered) : w'.Registered := by
  induction h with
  | refl => exact hr
  | tail _ hstep ih => exact hstep.registered ih

/-! ## Following names -/

/-- Where the parts of a name lead in the registry: the modules on the way, and the first part that leads nowhere, with the module
that it is looked for in. -/
def trail (w : Workspace) : Option Nat → List String → List Nat × Option (Option Nat × String)
  | _, [] => ([], none)
  | start, part :: parts =>
    match w.names.lookup (w.nameBelow start part) with
    | none => ([], some (start, part))
    | some i => ((i :: (w.trail (some i) parts).1), (w.trail (some i) parts).2)

/-- Whether it is remembered that a module looked for a name in vain. -/
def Noted (w : Workspace) (name : String) (caller : Option Nat) : Prop :=
  ∃ askers, w.missing.lookup name = some askers ∧ ((caller.map w.moduleAt).map ModuleRecord.name).getD "-" ∈ askers

/-- A part of a name leads to a registered module, which may be found only now. It leads nowhere if it was looked for in vain
before, or is not found. -/
theorem load_enters (hr : w.Registered) (hp : ∀ p, parent = some p → w.Stands live p)
    (hdot : '.' ∉ part.toList) : Gives (fun found w' => Enter live w w' ∧ w'.missing = w.missing ∧
        found = w'.names.lookup (w.nameBelow parent part) ∧ (∀ i, found = some i → w'.Stands live i) ∧
        (found = none → w' = w ∧ (w.missing.has (w.nameBelow parent part) ∨ w.locate? part parent = none)))
      ((load part (w.nameBelow parent part) parent).run w) := by
  have hstands : ∀ {w' : Workspace} {i}, w'.Registered → w'.names.lookup (w.nameBelow parent part) = some i → w'.Stands live i :=
    fun hr' hi => ⟨(hr' _ _ hi).1, fun _ => ⟨_, hi⟩⟩
  unfold load
  refine .get ?_
  cases hname : w.names.lookup (w.nameBelow parent part) with
  | some i => exact .ok ⟨.refl, rfl, hname.symm, fun j hj => hstands hr (hj ▸ hname), by simp⟩
  | none =>
    dsimp only
    split
    · rename_i hmissing
      exact .ok ⟨.refl, rfl, hname.symm, by simp, fun _ => ⟨rfl, .inl hmissing⟩⟩
    · cases hl : w.locate? part parent with
      | none => exact .ok ⟨.refl, rfl, hname.symm, by simp, fun _ => ⟨rfl, .inr rfl⟩⟩
      | some found =>
        have hstep : Enters live w (w.entered (w.nameBelow parent part) found.1 found.2) := .found hname hp hdot hl
        have hlookup : (w.entered (w.nameBelow parent part) found.1 found.2).names.lookup (w.nameBelow parent part) =
            some w.modules.size := by simp [entered, Table.lookup_put]
        refine Gives.bind (enterFound_gives hname found.1 found.2) ?_
        rintro i w' ⟨rfl, rfl⟩
        exact .ok ⟨.single hstep, rfl, hlookup.symm, fun j hj => hstands (hstep.registered hr) (hj ▸ hlookup), by simp⟩

theorem noteMissing_enters (live : Prop) (name : String) (caller : Option Nat) :
    Gives (fun _ w' => Enter live w w' ∧ w'.names = w.names ∧ w'.Noted name caller) ((noteMissing name caller).run w) := by
  show Gives _ (EStateM.Result.ok () _)
  dsimp only
  split
  · rename_i hasks
    refine .ok ⟨.single (by simpa using (Enters.missing name [] : Enters live w _)), rfl, _, Table.lookup_put_self _ _ _, ?_⟩
    exact List.contains_iff_mem.1 hasks
  · exact .ok ⟨.single (.missing name _), rfl, _, Table.lookup_put_self _ _ _, List.mem_append_right _ (List.mem_singleton.2 rfl)⟩

/-- Following a name comes as far as the registry leads in the end, and remembers where it stops. -/
theorem follow_enters (caller : Nat) {parts : List String} (hdot : ∀ part ∈ parts, '.' ∉ part.toList) :
    ∀ {w : Workspace} {start : Option Nat}, w.Registered → (∀ p, start = some p → w.Stands live p) →
    Gives (fun found w' => Enter live w w' ∧ found = (w'.trail start parts).1 ∧ (∀ i ∈ found, w'.Stands live i) ∧
      ∀ parent part, (w'.trail start parts).2 = some (parent, part) → w'.Noted (w'.nameBelow parent part) (some caller) ∧
        (w.missing.has (w'.nameBelow parent part) ∨ w'.locate? part parent = none)) ((follow caller start parts).run w) := by
  induction parts with
  | nil => exact fun _ _ => .ok ⟨.refl, rfl, by simp, by simp [trail]⟩
  | cons part parts ih =>
    intro w start hr hstart
    have hlt : ∀ p, start = some p → p < w.modules.size := fun p hp => (hstart p hp).1
    refine .get (Gives.bind (load_enters hr hstart (hdot part (by simp))) fun found w₁ h₁ => ?_)
    obtain ⟨hw₁, hsame, hfound, hstands, hnone⟩ := h₁
    cases found with
    | none =>
      obtain ⟨rfl, hvain⟩ := hnone rfl
      refine Gives.bind (noteMissing_enters live _ _) fun _ w₂ h₂ => ?_
      obtain ⟨hw₂, hnames, hnoted⟩ := h₂
      have hgains := gains_of_enter hw₂
      have hbelow := hgains.nameBelow hlt part
      have htrail : w₂.trail start (part :: parts) = ([], some (start, part)) := by rw [trail, hbelow, hnames, ← hfound]
      refine .ok ⟨hw₂, by rw [htrail], by simp, fun parent part' h => ?_⟩
      rw [htrail] at h
      cases h
      rw [hbelow, hgains.locate? hlt]
      exact ⟨hnoted, hvain⟩
    | some i =>
      refine Gives.bind (ih (fun q hq => hdot q (by simp [hq])) (registered_of_enter hw₁ hr) fun p hp => hstands p hp)
        fun more w₂ h₂ => ?_
      obtain ⟨hw₂, hmore, hstands₂, hstop⟩ := h₂
      have hgains := gains_of_enter hw₂
      have htrail : w₂.trail start (part :: parts) = (i :: (w₂.trail (some i) parts).1, (w₂.trail (some i) parts).2) := by
        rw [trail, (gains_of_enter (hw₁.trans hw₂)).nameBelow hlt, hgains.lookup hfound.symm]
      refine .ok ⟨hw₁.trans hw₂, by rw [htrail, hmore], fun j hj => ?_, by rw [htrail]; exact hsame ▸ hstop⟩
      rcases List.mem_cons.1 hj with rfl | hj
      · exact hgains.stands (hstands j rfl)
      · exact hstands₂ j hj

theorem reach_enters (live : Prop) {parts : List String} (hdot : ∀ part ∈ parts, '.' ∉ part.toList) : ∀ {w : Workspace}
    {start : Option Nat}, w.Registered → (∀ p, start = some p → w.Stands live p) →
    Gives (fun _ w' => Enter live w w') ((reach start parts).run w) := by
  induction parts with
  | nil => exact fun _ _ => .ok .refl
  | cons part parts ih =>
    intro w start hr hstart
    refine .get (Gives.bind (load_enters hr hstart (hdot part (by simp))) fun found w₁ h₁ => ?_)
    obtain ⟨hw₁, _, _, hstands, _⟩ := h₁
    cases found with
    | none => exact .ok hw₁
    | some i =>
      refine (ih (fun q hq => hdot q (by simp [hq])) (registered_of_enter hw₁ hr) fun p hp => hstands p hp).imp fun _ _ => ?_
      exact hw₁.trans

/-! ## Submodules -/

/-- Whether a name was looked for: it is registered, or it is known that it is not found. -/
def Sought (w : Workspace) (name : String) : Prop := w.names.has name ∨ w.missing.has name

theorem Gains.sought (h : w.Gains w') (hn : w.Sought name) : w'.Sought name := by
  refine hn.imp (fun hhas => ?_) fun hhas => ?_
  · obtain ⟨i, hi⟩ := Table.has_iff.1 hhas
    exact Table.has_iff.2 ⟨i, h.lookup hi⟩
  · obtain ⟨askers, ha⟩ := Table.has_iff.1 hhas
    obtain ⟨more, hmore⟩ := h.missing _ _ ha
    exact Table.has_iff.2 ⟨_, hmore⟩

theorem dot_not_mem_of_isIdentifier {name : String} (h : isIdentifier name = true) : '.' ∉ name.toList := by
  have hstart : isIdentifierStart '.' = false := by decide +kernel
  have hcontinue : isIdentifierContinue '.' = false := by decide +kernel
  unfold isIdentifier at h
  intro hdot
  cases hcs : name.toList with
  | nil => simp [hcs] at hdot
  | cons c cs =>
    rw [hcs] at h hdot
    simp only [Bool.and_eq_true, List.all_eq_true] at h
    rcases List.mem_cons.1 hdot with rfl | hdot
    · rw [hstart] at h
      cases h.1
    · have hc := h.2 _ hdot
      rw [hcontinue] at hc
      cases hc

theorem dot_not_mem_submodules {m : ModuleRecord} (h : part ∈ w.submodules m) : '.' ∉ part.toList := by
  simp only [submodules, sortedNames, List.mem_mergeSort, List.mem_eraseDups, List.mem_flatMap, List.mem_filterMap] at h
  obtain ⟨directory, _, entry, _, hname⟩ := h
  obtain ⟨_, hfilter⟩ := Option.filter_eq_some_iff.1 hname
  simp only [Bool.and_eq_true] at hfilter
  exact dot_not_mem_of_isIdentifier hfilter.2

/-- All modules on disk below a package are looked for. -/
theorem loadSubmodules_enters (hr : w.Registered) (hi : w.Stands live i) (caller : Option Nat) :
    Gives (fun _ w' => Enter live w w' ∧ ∀ part ∈ w.submodules (w.moduleAt i), w'.Sought (w.nameBelow (some i) part))
      ((loadSubmodules i caller).run w) := by
  refine .get ?_
  have hdot : ∀ part ∈ w.submodules (w.moduleAt i), '.' ∉ part.toList := fun part => dot_not_mem_submodules
  dsimp only
  generalize w.submodules (w.moduleAt i) = parts at hdot
  change Gives _ ((parts.forM fun part => do
    let w₁ ← get
    if (!w₁.names.has (w.nameBelow (some i) part) && !w₁.missing.has (w.nameBelow (some i) part)) = true then
      if (← load part (w.nameBelow (some i) part) (some i)).isNone = true
        then noteMissing (w.nameBelow (some i) part) caller : WorkM Unit).run w)
  generalize hbelow : w.nameBelow (some i) = below
  have hsame : w.nameBelow (some i) = below := hbelow
  clear hbelow
  induction parts generalizing w with
  | nil => exact .ok ⟨.refl, by simp⟩
  | cons part parts ih =>
    refine Gives.bind (V := fun _ w₁ => Enter live w w₁ ∧ w₁.Sought (below part)) (.get ?_) fun _ w₁ h₁ => ?_
    · split
      · rw [← hsame]
        refine Gives.bind (load_enters hr (by rintro _ ⟨⟩; exact hi) (hdot part (by simp))) fun found w₁ h₁ => ?_
        obtain ⟨hw₁, _, hfound, _⟩ := h₁
        cases found with
        | none =>
          refine (noteMissing_enters live _ _).imp fun _ w₂ h₂ => ?_
          obtain ⟨hw₂, _, askers, hmissing, _⟩ := h₂
          exact ⟨hw₁.trans hw₂, .inr (Table.has_iff.2 ⟨askers, hmissing⟩)⟩
        | some j => exact .ok ⟨hw₁, .inl (Table.has_iff.2 ⟨j, hfound.symm⟩)⟩
      · rename_i hknown
        exact .ok ⟨.refl, by simpa [Sought, Classical.or_iff_not_imp_left] using hknown⟩
    · obtain ⟨hw₁, hsought⟩ := h₁
      have hgains := gains_of_enter hw₁
      refine (ih (registered_of_enter hw₁ hr) (hgains.stands hi) (fun q hq => hdot q (by simp [hq])) ?_).imp fun _ w₂ h₂ => ?_
      · funext part
        rw [hgains.nameBelow (by rintro _ ⟨⟩; exact hi.1), hsame]
      · obtain ⟨hw₂, hall⟩ := h₂
        refine ⟨hw₁.trans hw₂, fun q hq => ?_⟩
        rcases List.mem_cons.1 hq with rfl | hq
        · exact (gains_of_enter hw₂).sought hsought
        · exact hall q hq

/-- The submodules that come with a package. -/
def broughtBy (w : Workspace) (i : Nat) : List ImplicitImport :=
  if (w.moduleAt i).isPackage then w.children (w.moduleAt i).name else []

/-- Whether the modules on disk below a package were looked for. -/
def Opened (w : Workspace) (i : Nat) : Prop := (w.moduleAt i).isPackage → (w.moduleAt i).isFromDisk →
  ∀ part ∈ w.submodules (w.moduleAt i), w.Sought (w.nameBelow (some i) part)

theorem implicitImports_enters (hr : w.Registered) (hi : i < w.modules.size → w.Stands live i) (caller : Option Nat) :
    Gives (fun imports w' => Enter live w w' ∧ imports = w'.broughtBy i ∧ w'.Opened i) ((implicitImports i caller).run w) := by
  refine .get ?_
  dsimp only
  split
  · rename_i hpackage
    simp only [Bool.not_eq_true'] at hpackage
    exact .ok ⟨.refl, by simp [broughtBy, hpackage], fun h => by simp [hpackage] at h⟩
  · rename_i hpackage
    have hlt : i < w.modules.size := by
      by_contra hge
      simp [moduleAt_of_le (Nat.le_of_not_lt hge), ModuleRecord.isPackage] at hpackage
    replace hpackage : (w.moduleAt i).isPackage = true := by simpa using hpackage
    split
    · refine Gives.bind (loadSubmodules_enters hr (hi hlt) caller) fun _ w₁ h₁ => .get ?_
      obtain ⟨hw₁, hsought⟩ := h₁
      have hgains := gains_of_enter hw₁
      have hsame := hgains.modules i hlt
      refine .ok ⟨hw₁, by simp [broughtBy, hsame, hpackage], fun _ _ part hpart => ?_⟩
      rw [hgains.nameBelow (by rintro _ ⟨⟩; exact hlt)]
      refine hsought part ?_
      rwa [submodules, hgains.disk, hsame] at hpart
    · rename_i hdisk
      exact .ok ⟨.refl, by simp [broughtBy, hpackage], fun _ h => absurd h hdisk⟩

theorem describe_enters (hr : w.Registered) (caller : Nat) (unresolved : ImportRecord) (level : Int)
    (wanted : Option (List String)) (parts : Nat) {found : List Nat} (hf : ∀ i ∈ found, w.Stands live i) :
    Gives (fun _ w' => Enter live w w') ((describe caller unresolved level wanted parts found).run w) := by
  unfold describe
  cases hlast : found.getLast? with
  | none => exact .ok .refl
  | some last =>
    dsimp only
    split
    · exact Gives.bind (implicitImports_enters hr (fun _ => hf last (List.mem_of_getLast? hlast)) _) fun _ w₁ h₁ => .ok h₁.1
    · exact .ok .refl

/-! ## Imports and entries -/

theorem dot_not_mem_parts {name part : String} (h : part ∈ DottedName.parts name) : '.' ∉ part.toList := by
  obtain ⟨piece, hpiece, rfl⟩ := List.mem_map.1 h
  simpa using not_mem_of_mem_pieces hpiece

theorem start_has {caller : Nat} {level : Int} (h : w.start caller level = .ok parent) :
    ∀ p, parent = some p → w.Has p := by
  have hancestor : ∀ {name i}, w.ancestor name = .ok i → w.Has i := by
    intro name i hi
    unfold ancestor at hi
    split at hi
    · rename_i hname
      cases hi
      exact ⟨name, hname⟩
    · cases hi
  rintro p rfl
  unfold start at h
  dsimp only at h
  generalize (if (!((w.moduleAt caller).locations.getD []).isEmpty) = true then level - 1 else level) = steps at h
  split at h
  · cases h
  · split at h
    · cases ha : w.ancestor (w.moduleAt caller).name with
      | error fault => rw [ha] at h; cases h
      | ok i =>
        rw [ha] at h
        dsimp only [Except.bind] at h
        split at h
        · cases h
          exact hancestor ha
        · cases h
    · split at h
      · cases h
      · generalize DottedName.ofParts _ = name at h
        cases ha : w.ancestor name with
        | error fault => rw [ha] at h; cases h
        | ok i =>
          rw [ha] at h
          cases h
          exact hancestor ha

theorem resolve_enters (hr : w.Registered) (caller : Nat) (name : String) (level : Option Int)
    (wanted : Option (List String)) : Ends (Enter live w) (fun _ _ => True) ((resolve caller name level wanted).run w) := by
  unfold resolve
  cases level with
  | none => exact .error .refl
  | some level =>
    refine .get ?_
    cases hstart : w.start caller level with
    | error fault =>
      dsimp only
      split
      · exact .ok .refl trivial
      · exact .error .refl
      · rename_i hok
        cases hok
    | ok parent =>
      have hparent : ∀ p, parent = some p → w.Stands live p := fun p hp => by
        obtain ⟨other, hother⟩ := start_has hstart p hp
        exact ⟨(hr other p hother).1, fun _ => ⟨other, hother⟩⟩
      have hdot : ∀ part ∈ (if name.isEmpty = true then [] else DottedName.parts name), '.' ∉ part.toList := fun part hpart => by
        split at hpart
        · simp at hpart
        · exact dot_not_mem_parts hpart
      generalize (if name.isEmpty = true then [] else DottedName.parts name) = parts at hdot
      dsimp only
      split
      · exact (describe_enters hr caller _ _ _ _ fun i hi => hparent i (by simpa using hi)).ends fun _ _ h => ⟨h, trivial⟩
      · refine (Gives.bind (follow_enters caller hdot hr hparent) fun found w₁ h₁ => ?_).ends
          (V := fun _ w' => Enter live w w') fun _ _ h => ⟨h, trivial⟩
        obtain ⟨hw₁, _, hstands, _⟩ := h₁
        exact (describe_enters (registered_of_enter hw₁ hr) caller _ _ _ _ hstands).imp fun _ _ => hw₁.trans

/-- One thing that resolving the imports of a module does, or adding an entry: beside what an import does, the record of
the import or the entry is kept. -/
inductive Resolves (live : Prop) (w : Workspace) : Workspace → Prop where
  | enters {w' : Workspace} : Enters live w w' → Resolves live w w'
  | imports (i : Nat) (more : List (Nat × ImportRecord)) :
    Resolves live w { w with modules := w.modules.modify i fun m => { m with imports := m.imports ++ more } }
  | entries (l : List Nat) : Resolves live w { w with entries := l }

abbrev Resolve (live : Prop) : Workspace → Workspace → Prop := Relation.ReflTransGen (Resolves live)

theorem resolve_of_enter (h : Enter live w w') : Resolve live w w' := by
  induction h with
  | refl => exact .refl
  | tail _ hstep ih => exact ih.tail (.enters hstep)

theorem registered_of_resolve (h : Resolve live w w') (hr : w.Registered) : w'.Registered := by
  induction h with
  | refl => exact hr
  | tail _ hstep ih =>
    cases hstep with
    | enters hstep => exact hstep.registered ih
    | imports i more => exact ih.modify fun _ => rfl
    | entries l => exact ih

theorem resolveAt_resolves (hr : w.Registered) (caller node : Nat) (name : String) (level : Option Int)
    (wanted : Option (List String)) :
    Ends (Resolve live w) (fun _ _ => True) ((resolveAt caller node name level wanted).run w) :=
  (resolve_enters hr caller name level wanted).bind (fun _ => resolve_of_enter) fun _ _ hw₁ _ =>
    .ok ((resolve_of_enter hw₁).tail (.imports caller _)) trivial

theorem Resolve.forM {α : Type} {f : α → WorkM Unit} (hf : ∀ x, ∀ {w : Workspace}, w.Registered →
      Ends (Resolve live w) (fun _ _ => True) ((f x).run w)) (xs : List α) : ∀ {w : Workspace}, w.Registered →
    Ends (Resolve live w) (fun _ _ => True) ((xs.forM f).run w) := by
  induction xs with
  | nil => exact fun _ => .ok .refl trivial
  | cons x xs ih =>
    intro w hr
    refine (hf x hr).bind (fun _ => id) fun _ w₁ hw₁ _ => ?_
    exact (ih (registered_of_resolve hw₁ hr)).imp (fun _ => hw₁.trans) fun _ _ _ => id

theorem resolveAll_resolves (hr : w.Registered) (caller : Nat) (m : Module) :
    Ends (Resolve live w) (fun _ _ => True) ((resolveAll caller m).run w) := by
  refine Resolve.forM (fun node w hr => ?_) _ hr
  unfold resolveNode
  split
  · exact Resolve.forM (fun n w hr => resolveAt_resolves hr _ _ _ _ _) _ hr
  · exact resolveAt_resolves hr _ _ _ _ _
  · exact .ok .refl trivial

theorem addEntry_resolves (hr : w.Registered) (file name : Option String) :
    Ends (Resolve live w) (fun _ _ => True) ((addEntry file name).run w) := by
  refine .get ?_
  cases w.entryName file name with
  | error fault => exact .error .refl
  | ok name =>
    refine ((reach_enters live (fun part => dot_not_mem_parts) hr (by simp)).ends fun _ _ h => ⟨resolve_of_enter h, trivial⟩).bind
      (V := fun _ _ => True) (fun _ => id) fun found w₁ hw₁ _ => ?_
    cases found with
    | none => exact .error hw₁
    | some i => exact .ok (hw₁.tail (.entries _)) trivial

end Workspace

end ScopeFlow
