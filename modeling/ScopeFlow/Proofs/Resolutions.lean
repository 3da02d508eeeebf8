import ScopeFlow.Proofs.Packages

/-!
# Resolving an import once and again

What an import was resolved to can be read off the registry that resolving leaves (`Workspace.findings`): the modules that the
parts of its name lead to, one after the other. Resolving leaves what is registered, and what it has looked for it does not
look for again, so that the same import, resolved again, comes to the same record and changes nothing (`resolution_settles`).
Only paths may come to lead elsewhere (`sampleOnDisk_redirects`).
-/

namespace ScopeFlow.Workspace

open DottedName

variable {w w' : Workspace} {i caller : Nat} {name : String} {level : Int} {top asker : Option Nat} {ps : List String}

/-! ## Steps that change nothing -/

/-- A step gives an answer and changes nothing. -/
def Idle {α : Type} (w : Workspace) (f : WorkM α) (a : α) : Prop := Gives (fun b w' => b = a ∧ w' = w) (f.run w)

theorem Idle.bind {α β : Type} {f : WorkM α} {g : α → WorkM β} {a : α} {b : β} (hf : w.Idle f a) (hg : w.Idle (g a) b) :
    w.Idle (f >>= g) b := by
  refine Gives.bind hf ?_
  rintro _ _ ⟨rfl, rfl⟩
  exact hg

theorem Idle.run {α : Type} {f : WorkM α} {a : α} (h : w.Idle f a) : f.run w = .ok a w := by
  unfold Idle at h
  generalize f.run w = x at h
  cases h with
  | ok h => rw [h.1, h.2]

theorem put_lookup {α : Type} {t : Table α} {value : α} (h : t.lookup name = some value) : t.put name value = t := by
  induction t with
  | nil => cases h
  | cons p t ih =>
    obtain ⟨n, v⟩ := p
    rw [List.lookup_cons] at h
    by_cases hn : name = n
    · simp_all [Table.put]
    · have hb : (name == n) = false := by simpa using hn
      rw [hb] at h
      rw [Table.put, if_neg (Ne.symm hn), ih h]

theorem noteMissing_again (h : w.Noted name asker) : w.Idle (noteMissing name asker) () := by
  obtain ⟨askers, hname, hasker⟩ := h
  refine .ok ⟨rfl, ?_⟩
  dsimp only
  rw [hname, Option.getD_some, if_pos (List.contains_iff_mem.2 hasker), put_lookup hname]

/-- What was looked for is not looked for again. -/
theorem load_again (parent : Option Nat) (part : String) (h : w.Sought name) :
    w.Idle (load part name parent) (w.names.lookup name) := by
  unfold load
  refine .get ?_
  cases hname : w.names.lookup name with
  | some i => exact .ok ⟨rfl, rfl⟩
  | none =>
    have hmissing := h.resolve_left fun hhas => by
      obtain ⟨i, hi⟩ := Table.has_iff.1 hhas
      rw [hname] at hi
      cases hi
    dsimp only
    rw [if_pos hmissing]
    exact .ok ⟨rfl, rfl⟩

/-- Following a name again comes to the same modules, if it is remembered where it stops. -/
theorem follow_again (hnoted : ∀ parent part, (w.trail top ps).2 = some (parent, part) →
      w.Noted (w.nameBelow parent part) (some caller)) : w.Idle (follow caller top ps) (w.trail top ps).1 := by
  induction ps generalizing top with
  | nil => exact .ok ⟨rfl, rfl⟩
  | cons part ps ih =>
    rw [trail] at hnoted ⊢
    refine .get ?_
    cases hname : w.names.lookup (w.nameBelow top part) with
    | none =>
      rw [hname] at hnoted
      have hnote := hnoted top part rfl
      have hload := load_again top part (.inr (Table.has_iff.2 (hnote.imp fun _ h => h.1)))
      rw [hname] at hload
      exact Idle.bind hload (Idle.bind (noteMissing_again hnote) (.ok ⟨rfl, rfl⟩))
    | some i =>
      rw [hname] at hnoted
      have hload := load_again top part (.inl (Table.has_iff.2 ⟨i, hname⟩))
      rw [hname] at hload
      exact Idle.bind hload (Idle.bind (ih hnoted) (.ok ⟨rfl, rfl⟩))

theorem loadSubmodules_again (h : ∀ part ∈ w.submodules (w.moduleAt i), w.Sought (w.nameBelow (some i) part)) :
    w.Idle (loadSubmodules i asker) () := by
  refine .get ?_
  dsimp only
  generalize w.submodules (w.moduleAt i) = parts at h
  induction parts with
  | nil => exact .ok ⟨rfl, rfl⟩
  | cons part parts ih =>
    refine Idle.bind (a := ()) (.get ?_) (ih fun q hq => h q (by simp [hq]))
    have hs : w.Sought (child (some (w.moduleAt i).name) part) := h part (by simp)
    rw [if_neg]
    · exact .ok ⟨rfl, rfl⟩
    · rcases hs with hs | hs <;> simp [hs]

theorem implicitImports_again (h : w.Opened i) : w.Idle (implicitImports i asker) (w.broughtBy i) := by
  refine .get ?_
  by_cases hpackage : (w.moduleAt i).isPackage = true
  · have hbrought : w.broughtBy i = w.children (w.moduleAt i).name := if_pos hpackage
    dsimp only
    rw [hbrought, if_neg (by simp [hpackage])]
    by_cases hdisk : (w.moduleAt i).isFromDisk = true
    · rw [if_pos hdisk]
      exact Idle.bind (loadSubmodules_again (h hpackage hdisk)) (.ok ⟨rfl, rfl⟩)
    · rw [if_neg hdisk]
      exact .ok ⟨rfl, rfl⟩
  · have hbrought : w.broughtBy i = [] := if_neg hpackage
    dsimp only
    rw [hbrought, if_pos (by simpa using hpackage)]
    exact .ok ⟨rfl, rfl⟩

/-! ## What the record says -/

/-- What the record of an import says, by the modules that the parts of its name lead to in the registry. -/
structure Describes (w : Workspace) (found : List Nat) (parts : Nat) (r : ImportRecord) : Prop where
  isFound : r.isFound = true ↔ found.length = max parts 1
  isPartlyResolved : r.isPartlyResolved = true ↔ found ≠ [] ∧ found.length ≠ max parts 1
  paths : r.paths = found.map fun i => (w.moduleAt i).resolvedPath
  filteredImports : r.filteredImports.Sublist r.implicitImports
  implicitImports : ∀ imp ∈ r.implicitImports, ∃ last i, found.getLast? = some last ∧ (w.moduleAt last).isPackage = true ∧
    '.' ∉ imp.name.toList ∧ ((w.moduleAt last).name ++ "." ++ imp.name, i) ∈ w.names ∧ imp.path = (w.moduleAt i).resolvedPath

theorem childOf?_eq_some {parent name part : String} (h : childOf? parent name = some part) :
    name = parent ++ "." ++ part ∧ '.' ∉ part.toList := by
  unfold childOf? at h
  dsimp only at h
  split at h
  · rename_i hprefix
    obtain ⟨rest, hrest⟩ := List.isPrefixOf_iff_prefix.1 hprefix
    have hlength : (parent ++ ".").length = (parent ++ ".").toList.length := String.length_toList.symm
    rw [← hrest, hlength, List.drop_left] at h
    split at h
    · cases h
    · rename_i hdot
      cases h
      refine ⟨String.toList_injective ?_, by simpa using hdot⟩
      rw [String.toList_append, ← hrest, String.toList_ofList]
  · cases h

/-- What comes with a package are registered modules directly below it. -/
theorem mem_broughtBy {imp : ImplicitImport} (h : imp ∈ w.broughtBy i) :
    (w.moduleAt i).isPackage = true ∧ '.' ∉ imp.name.toList ∧
      ∃ j, ((w.moduleAt i).name ++ "." ++ imp.name, j) ∈ w.names ∧ imp.path = (w.moduleAt j).resolvedPath := by
  unfold broughtBy at h
  split at h
  · rename_i hpackage
    obtain ⟨⟨other, j⟩, hmem, himp⟩ := List.mem_filterMap.1 h
    obtain ⟨part, hpart, rfl⟩ := Option.map_eq_some_iff.1 himp
    obtain ⟨rfl, hdot⟩ := childOf?_eq_some hpart
    exact ⟨hpackage, hdot, j, hmem, rfl⟩
  · cases h

theorem wantedImports_sublist (wanted : Option (List String)) (all : List ImplicitImport) :
    (wantedImports wanted all).Sublist all := by
  unfold wantedImports
  split
  · exact List.nil_sublist all
  · split
    · exact List.Sublist.refl all
    · exact List.filter_sublist

/-- A record that nothing is known of. -/
def blankRecord (name : String) (level : Int) : ImportRecord :=
  { name := String.ofList (List.replicate level.toNat '.') ++ name, isRelative := 0 < level }

theorem blankRecord_describes (w : Workspace) (name : String) (level : Int) (n : Nat) :
    w.Describes [] n (blankRecord name level) := by
  refine ⟨?_, by simp [blankRecord], rfl, List.Sublist.refl _, by simp [blankRecord]⟩
  have hmax : 0 ≠ max n 1 := by omega
  simpa [blankRecord] using hmax

theorem describe_settles (hr : w.Registered) (caller : Nat) (text : String) (level : Int)
    (wanted : Option (List String)) (parts : Nat) {found : List Nat} (hf : ∀ i ∈ found, w.Stands True i) :
    Gives (fun r w' => Enter True w w' ∧ w'.Describes found parts r ∧
        w'.Idle (describe caller (blankRecord text level) level wanted parts found) r ∧ (found.length ≠ max parts 1 → w' = w))
      ((describe caller (blankRecord text level) level wanted parts found).run w) := by
  unfold describe
  cases hlast : found.getLast? with
  | none =>
    obtain rfl := List.getLast?_eq_none_iff.1 hlast
    exact .ok ⟨.refl, blankRecord_describes w text level parts, .ok ⟨rfl, rfl⟩, fun _ => rfl⟩
  | some last =>
    have hne : found ≠ [] := by rintro rfl; cases hlast
    dsimp only
    by_cases hall : found.length = max parts 1
    · have hb : (found.length == max parts 1) = true := by simpa using hall
      rw [if_pos hb]
      refine Gives.bind (implicitImports_enters hr (fun _ => hf last (List.mem_of_getLast? hlast)) _) fun imports w₁ h₁ => .get ?_
      obtain ⟨hw₁, rfl, hopened⟩ := h₁
      refine .ok ⟨hw₁, ⟨by simp [hall], by simp [hall], rfl, wantedImports_sublist _ _, fun imp himp => ?_⟩, ?_,
        fun h => absurd hall h⟩
      · obtain ⟨hpackage, hdot, j, hj⟩ := mem_broughtBy himp
        exact ⟨last, j, hlast, hpackage, hdot, hj⟩
      · exact Idle.bind (implicitImports_again hopened) (.get (.ok ⟨rfl, rfl⟩))
    · have hb : ¬ (found.length == max parts 1) = true := by simpa using hall
      rw [if_neg hb]
      exact .ok ⟨.refl, ⟨by simp [hall], by simp [hall, hne], rfl, wantedImports_sublist _ _, by simp⟩,
        .ok ⟨rfl, rfl⟩, fun _ => rfl⟩

/-! ## Where the search starts and ends -/

/-- The parts of the name of an import; a bare relative import has none. -/
def importParts (name : String) : List String := if name.isEmpty then [] else parts name

/-- The modules that an import leads to in the registry. -/
def findings (w : Workspace) (caller : Nat) (name : String) (level : Int) : List Nat :=
  match w.start caller level with
  | .error _ => []
  | .ok top => if (importParts name).isEmpty then top.toList else (w.trail top (importParts name)).1

theorem findings_of_start (hs : w.start caller level = .ok top) :
    w.findings caller name level = if (importParts name).isEmpty then top.toList else (w.trail top (importParts name)).1 := by
  rw [findings, hs]

theorem trail_snd : (w.trail top ps).2 = none ↔ (w.trail top ps).1.length = ps.length := by
  induction ps generalizing top with
  | nil => simp [trail]
  | cons part ps ih =>
    rw [trail]
    split
    · simp
    · simp [ih]

/-- A name that leads to a module goes on to do so. -/
theorem Gains.trail (h : w.Gains w') (hr : w.Registered) (hstart : ∀ p, top = some p → p < w.modules.size)
    (hall : (w.trail top ps).2 = none) : w'.trail top ps = w.trail top ps := by
  induction ps generalizing top with
  | nil => rfl
  | cons part ps ih =>
    rw [Workspace.trail] at hall
    rw [Workspace.trail, Workspace.trail, h.nameBelow hstart]
    cases hname : w.names.lookup (w.nameBelow top part) with
    | none =>
      rw [hname] at hall
      cases hall
    | some i =>
      rw [hname] at hall
      rw [h.lookup hname]
      dsimp only
      rw [ih (by rintro _ ⟨⟩; exact (hr _ i hname).1) hall]

theorem Gains.start (h : w.Gains w') (hlt : caller < w.modules.size) (hs : w.start caller level = .ok top) :
    w'.start caller level = .ok top := by
  have hancestor : ∀ {name i}, w.ancestor name = .ok i → w'.ancestor name = .ok i := by
    intro name i hi
    unfold ancestor at hi ⊢
    cases hname : w.names.lookup name with
    | none =>
      rw [hname] at hi
      cases hi
    | some j =>
      rw [hname] at hi
      rw [h.lookup hname]
      exact hi
  unfold Workspace.start at hs ⊢
  rw [h.modules caller hlt]
  dsimp only at hs ⊢
  generalize (if (!((w.moduleAt caller).locations.getD []).isEmpty) = true then level - 1 else level) = steps at hs ⊢
  by_cases hzero : level = 0
  · rwa [if_pos hzero] at hs ⊢
  · rw [if_neg hzero] at hs ⊢
    by_cases hself : steps = 0
    · rw [if_pos hself] at hs ⊢
      cases ha : w.ancestor (w.moduleAt caller).name with
      | error fault =>
        rw [ha] at hs
        cases hs
      | ok i =>
        rw [ha] at hs
        rw [hancestor ha]
        exact hs
    · rw [if_neg hself] at hs ⊢
      by_cases hdeep : ((parts (w.moduleAt caller).name).length : Int) ≤ steps
      · rw [if_pos hdeep] at hs
        cases hs
      · rw [if_neg hdeep] at hs ⊢
        generalize ofParts _ = name at hs ⊢
        cases ha : w.ancestor name with
        | error fault =>
          rw [ha] at hs
          cases hs
        | ok i =>
          rw [ha] at hs
          rw [hancestor ha]
          exact hs

/-- An import by a registered module starts somewhere, unless it climbs above the top. -/
theorem Closed.start (h : Closed none w) (hcaller : w.names.lookup (w.moduleAt caller).name = some caller) (level : Int) :
    w.start caller level = .error .tooDeep ∨ ∃ start, w.start caller level = .ok start := by
  have hhas : w.names.has (w.moduleAt caller).name := Table.has_iff.2 ⟨caller, hcaller⟩
  rcases lt_trichotomy level 0 with hneg | rfl | hpos
  · -- counting down from the top leaves some part of the name
    have hlength : 0 < (parts (w.moduleAt caller).name).length := List.length_pos_iff.2 (parts_ne_nil _)
    refine .inr ?_
    unfold Workspace.start
    dsimp only
    generalize hsteps : (if (!((w.moduleAt caller).locations.getD []).isEmpty) = true then level - 1 else level) = steps
    have hlt : steps < 0 := by split at hsteps <;> omega
    have hfew : (parts (w.moduleAt caller).name).length - (-steps).toNat < (parts (w.moduleAt caller).name).length := by omega
    obtain ⟨j, hj, _⟩ := h.has_rdrop hhas hfew
    rw [if_neg (by omega), if_neg (by omega), if_neg (by omega), if_neg (by omega)]
    rw [List.rdrop, Nat.sub_sub_eq_min, Nat.min_comm, ← List.take_eq_take_min] at hj
    rw [ancestor, hj]
    exact ⟨some j, rfl⟩
  · exact .inr ⟨none, rfl⟩
  · rw [start_eq hcaller (by omega)]
    split
    · exact .inl rfl
    · rename_i hshallow
      obtain ⟨j, hj, _⟩ := h.has_rdrop hhas (Nat.lt_of_not_le hshallow)
      rw [ancestor, hj]
      exact .inr ⟨some j, rfl⟩

theorem resolve_gives {V : ImportRecord → Workspace → Prop} (hs : w.start caller level = .ok top) {name : String}
    {wanted : Option (List String)} (h : Gives V ((do
      let found ← if (importParts name).isEmpty then pure top.toList else follow caller top (importParts name)
      describe caller (blankRecord name level) level wanted (importParts name).length found : WorkM ImportRecord).run w)) :
    Gives V ((resolve caller name (some level) wanted).run w) := by
  unfold resolve
  refine .get ?_
  rw [hs]
  exact h

/-- What resolving an import comes to, in a workspace that began as `w`. -/
structure Settled (w : Workspace) (caller : Nat) (name : String) (level : Int) (wanted : Option (List String)) (r : ImportRecord)
    (w' : Workspace) : Prop where
  gains : w.Gains w'
  record : w'.Describes (w'.findings caller name level) (importParts name).length r
  /-- A part that leads nowhere is remembered, and it was looked for in vain before or is not on disk. -/
  stops : ∀ top parent part, w'.start caller level = .ok top → (w'.trail top (importParts name)).2 = some (parent, part) →
    w'.Noted (w'.nameBelow parent part) (some caller) ∧ (w.missing.has (w'.nameBelow parent part) ∨ w'.locate? part parent = none)
  again : w'.Idle (resolve caller name (some level) wanted) r

theorem resolve_settles (hr : w.Registered) (hlt : caller < w.modules.size) (htop : w.start caller level = .ok top)
    (name : String) (wanted : Option (List String)) :
    Gives (w.Settled caller name level wanted) ((resolve caller name (some level) wanted).run w) := by
  have hstands : ∀ p, top = some p → w.Stands True p := fun p hp => by
    obtain ⟨other, hother⟩ := start_has htop p hp
    exact ⟨(hr other p hother).1, fun _ => ⟨other, hother⟩⟩
  refine resolve_gives htop ?_
  by_cases hempty : (importParts name).isEmpty = true
  · rw [if_pos hempty]
    refine (describe_settles hr caller name level wanted _ fun i hi => hstands i (by simpa using hi)).imp fun r w' h => ?_
    obtain ⟨hw', hrecord, hagain, _⟩ := h
    have hgains := gains_of_enter hw'
    have htop' := hgains.start hlt htop
    refine ⟨hgains, by rwa [findings_of_start htop', if_pos hempty], fun _ _ _ _ h => ?_, ?_⟩
    · rw [List.isEmpty_iff.1 hempty] at h
      cases h
    · refine resolve_gives htop' ?_
      rw [if_pos hempty]
      exact hagain
  · rw [if_neg hempty]
    have hdot : ∀ part ∈ importParts name, '.' ∉ part.toList := fun part hpart => by
      unfold importParts at hpart
      split at hpart
      · cases hpart
      · exact dot_not_mem_parts hpart
    have hmax : max (importParts name).length 1 = (importParts name).length := by
      have hpos := List.length_pos_iff.2 (by simpa using hempty)
      omega
    refine Gives.bind (follow_enters caller hdot hr hstands) fun found w₁ h₁ => ?_
    obtain ⟨hw₁, rfl, hfound, hstops⟩ := h₁
    refine (describe_settles (registered_of_enter hw₁ hr) caller name level wanted _ hfound).imp fun r w' h => ?_
    obtain ⟨hw', hrecord, hagain, hshort⟩ := h
    have hgains := gains_of_enter (hw₁.trans hw')
    have htop' := hgains.start hlt htop
    -- the way may go on only if it was followed to the end, and then it is the same
    have hstopped : (w₁.trail top (importParts name)).2 ≠ none → w' = w₁ :=
      fun h => hshort fun hlength => h (trail_snd.2 (hlength.trans hmax))
    have htrail : w'.trail top (importParts name) = w₁.trail top (importParts name) := by
      by_cases hall : (w₁.trail top (importParts name)).2 = none
      · exact (gains_of_enter hw').trail (registered_of_enter hw₁ hr)
          (fun p hp => ((gains_of_enter hw₁).stands (hstands p hp)).1) hall
      · rw [hstopped hall]
    have hstops' : ∀ parent part, (w'.trail top (importParts name)).2 = some (parent, part) →
        w'.Noted (w'.nameBelow parent part) (some caller) ∧
          (w.missing.has (w'.nameBelow parent part) ∨ w'.locate? part parent = none) := fun parent part h => by
      have h₁ := htrail ▸ h
      obtain rfl := hstopped (by rw [h₁]; simp)
      exact hstops parent part h₁
    refine ⟨hgains, by rwa [findings_of_start htop', if_neg hempty, htrail], fun start parent part hs => ?_, ?_⟩
    · rw [htop'] at hs
      cases hs
      exact hstops' parent part
    · refine resolve_gives htop' ?_
      rw [if_neg hempty]
      exact Idle.bind (htrail ▸ follow_again fun parent part h => (hstops' parent part h).1) hagain

/-- An import is resolved consistently and once for all. What its record says agrees with where the parts of its name lead in the
registry then. Resolving adds modules and names that were looked for in vain, and leaves registered modules as they are; the
paths of the modules that it adds lead to these from then on. Resolved again, the import comes to the same record and changes
nothing. -/
theorem resolution_settles (h : Reached w) (hcaller : w.names.lookup (w.moduleAt caller).name = some caller) (name : String)
    (level : Int) (wanted : Option (List String)) :
    ∃ r w', (resolve caller name (some level) wanted).run w = .ok r w' ∧ w.Gains w' ∧
      w'.Describes (w'.findings caller name level) (importParts name).length r ∧
      (∀ top parent part, w'.start caller level = .ok top → (w'.trail top (importParts name)).2 = some (parent, part) →
        w'.Noted (w'.nameBelow parent part) (some caller) ∧
          (w.missing.has (w'.nameBelow parent part) ∨ w'.locate? part parent = none)) ∧
      (resolve caller name (some level) wanted).run w' = .ok r w' := by
  have hr := h.closed.registered
  have hlt := (hr _ caller hcaller).1
  have hsettled : Gives (w.Settled caller name level wanted) ((resolve caller name (some level) wanted).run w) := by
    rcases h.closed.start hcaller level with hdeep | ⟨top, htop⟩
    · have hidle : w.Idle (resolve caller name (some level) wanted) (blankRecord name level) := by
        unfold resolve
        refine .get ?_
        rw [hdeep]
        exact .ok ⟨rfl, rfl⟩
      have hfindings : w.findings caller name level = [] := by rw [findings, hdeep]
      refine Gives.imp hidle ?_
      rintro _ _ ⟨rfl, rfl⟩
      refine ⟨.refl _, hfindings ▸ blankRecord_describes _ _ _ _, fun top parent part hs => ?_, hidle⟩
      rw [hdeep] at hs
      cases hs
    · exact resolve_settles hr hlt htop name wanted
  generalize (resolve caller name (some level) wanted).run w = x at hsettled
  cases hsettled with
  | ok h => exact ⟨_, _, rfl, h.gains, h.record, h.stops, h.again.run⟩

/-- A workspace with a package on disk. -/
def sampleOnDisk : Workspace :=
  openedWith (.parsed { body := [] })
    { root := some "/r", disk := (({} : Disk).addFile "/r/a/__init__.py" .other).addFile "/r/a/b.py" .other }

theorem sampleOnDisk_settles : ∃ r w', (resolve 0 "a.c" (some 0) none).run sampleOnDisk = .ok r w' ∧ r.isPartlyResolved = true ∧
    r.paths = ["/r/a/__init__.py"] ∧ w'.findings 0 "a.c" 0 ≠ [] ∧ (resolve 0 "a.c" (some 0) none).run w' = .ok r w' := by
  have hreached : Reached sampleOnDisk := .opened _ rfl rfl
  have hcaller : sampleOnDisk.names.lookup (sampleOnDisk.moduleAt 0).name = some 0 := by decide +kernel
  obtain ⟨r, w', hrun, _, hrecord, _, hagain⟩ := resolution_settles hreached hcaller "a.c" 0 none
  have hknown : ((resolve 0 "a.c" (some 0) none).run' sampleOnDisk).map (fun r => (r.isPartlyResolved, r.paths)) =
      some (true, ["/r/a/__init__.py"]) := by decide +kernel
  rw [EStateM.run', hrun] at hknown
  obtain ⟨hpartly, hpaths⟩ := Prod.mk.inj (Option.some.inj hknown)
  exact ⟨r, w', hrun, hpartly, hpaths, (hrecord.isPartlyResolved.1 hpartly).1, hagain⟩

/-- The path of a package leads to the package until the package imports from its own `__init__`, which is registered then as
a module in the same file. -/
theorem sampleOnDisk_redirects :
    let w := sampleOnDisk.after (resolve 0 "a" (some 0) none)
    let w' := w.after (resolve 1 "__init__" (some 1) (some ["v"]))
    Reached w ∧ w.names.lookup (w.moduleAt 1).name = some 1 ∧ w.paths.lookup "/r/a/__init__.py" = some 1 ∧
      w'.names.lookup "a" = some 1 ∧ (w'.moduleAt 1).file = some "/r/a/__init__.py" ∧
      (w'.atPath? "/r/a/__init__.py").map ModuleRecord.name = some "a.__init__" :=
  ⟨.resolve _ _ _ _ (.opened _ rfl rfl), by decide +kernel⟩

end ScopeFlow.Workspace
