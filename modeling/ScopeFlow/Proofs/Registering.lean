import ScopeFlow.Proofs.Finding

/-!
# Registering modules

Registering a module changes nothing that binding goes by, except in one case: a namespace package that was bound, with nothing to
bind, can be registered in full and then has a file that it was not bound from.
-/

namespace ScopeFlow.Workspace

variable {strict : Prop} {w w' w'' : Workspace} {i : Nat} {name : String}

/-- What registering does to a workspace: names that are new lead to modules that are not bound. -/
structure Adds (strict : Prop) (w w' : Workspace) : Prop where
  registered : w'.Registered
  keeps : w.Keeps strict w'
  names : ∀ name i, w'.names.lookup name = some i → w.names.lookup name = some i ∨ (w'.moduleAt i).progress = .unbound

namespace Adds

theorem refl (h : w.Registered) : Adds strict w w := ⟨h, .refl w, fun _ _ => .inl⟩

theorem trans (h : Adds strict w w') (h' : Adds strict w' w'') : Adds strict w w'' where
  registered := h'.registered
  keeps := h.keeps.trans h'.keeps
  names name i hi := by
    rcases h'.names name i hi with hi' | hp
    · exact (h.names name i hi').imp id fun hp => (h'.keeps i).progress.trans hp
    · exact .inr hp

theorem bind {α β : Type} {V : α → Workspace → Prop} {W : β → Workspace → Prop} {f : WorkM α} {g : α → WorkM β}
    (hf : Ends (Adds strict w) V (f.run w)) (hg : ∀ a w', Adds strict w w' → V a w' → Ends (Adds strict w') W ((g a).run w')) :
    Ends (Adds strict w) W ((f >>= g).run w) :=
  hf.bind (fun _ => id) fun a w' hw ha => (hg a w' hw ha).imp (fun _ => hw.trans) fun _ _ _ => id

/-- A change of what is known of a module. -/
theorem adjust {f : ModuleRecord → ModuleRecord} (h : w.Registered) (hname : ∀ m, (f m).name = m.name)
    (hkeeps : (w.moduleAt i).Keeps strict (f (w.moduleAt i))) :
    Ends (Adds strict w) (fun _ _ => True) ((Workspace.adjust i f).run w) :=
  .ok ⟨h.modify hname, .modify hkeeps, fun _ _ => .inl⟩ trivial

theorem notePath (h : w.Registered) (i : Nat) (path : String) :
    Ends (Adds strict w) (fun _ _ => True) ((Workspace.notePath i path).run w) :=
  .ok ⟨h, fun _ => .refl _, fun _ _ => .inl⟩ trivial

end Adds

theorem enter_adds (h : w.Registered) (name : String) :
    Ends (Adds strict w) (fun i w' => w'.names.lookup name = some i) ((enter name).run w) := by
  cases hn : w.names.lookup name with
  | some i =>
    rw [enter_known hn]
    exact .ok (.refl h) hn
  | none =>
    rw [enter_new hn]
    refine .ok ⟨h.push name, .push name _, fun other i hi => ?_⟩ (by simp [Table.lookup_put])
    simp only [Table.lookup_put] at hi
    split at hi
    · cases hi
      refine .inr ?_
      rw [moduleAt_push, if_pos rfl]
    · exact .inl hi

/-- The packages above a module come into the registry as namespace packages. -/
theorem enterParents_adds (name : String) (type : ImportType) (h : w.Registered) :
    Ends (Adds strict w) (fun _ _ => True) ((enterParents name type).run w) := by
  unfold enterParents
  generalize DottedName.parents name = parents
  induction parents generalizing w with
  | nil => exact .ok (.refl h) trivial
  | cons parent parents ih =>
    refine Adds.bind (V := fun _ _ => True) ?_ fun _ w₁ hw₁ _ => ih hw₁.registered
    refine .get ?_
    split
    · rename_i hfree
      refine Adds.bind (enter_adds h parent) fun i w₁ hw₁ hi => ?_
      refine Adds.adjust hw₁.registered (fun _ => rfl) (.ofUnbound ?_ rfl rfl rfl id)
      -- the package was not registered before, so that it is a new module
      refine (hw₁.names parent i hi).resolve_left fun hold => ?_
      have hhas : w.names.has parent = true := Table.has_iff.2 ⟨i, hold⟩
      simp [hhas] at hfree
    · exact .ok (.refl h) trivial

theorem place_adds {r : Registration} (h : w.Registered)
    (hfree : strict → ∀ i, w.names.lookup r.name = some i → (w.moduleAt i).progress = .unbound) :
    Ends (Adds strict w) (fun _ _ => True) ((place r).run w) := by
  refine Adds.bind (enterParents_adds r.name r.type h) fun _ w₁ hw₁ _ => ?_
  refine Adds.bind (enter_adds hw₁.registered r.name) fun i w₂ hw₂ hi => ?_
  have hunbound : strict → (w₂.moduleAt i).progress = .unbound := fun hs => by
    rcases (hw₁.trans hw₂).names r.name i hi with hold | hp
    · exact ((hw₁.trans hw₂).keeps i).progress.trans (hfree hs i hold)
    · exact hp
  refine Adds.bind (Adds.adjust hw₂.registered (fun _ => rfl) ⟨rfl, rfl, rfl, id, fun hs hne => absurd (hunbound hs) hne⟩)
    fun _ w₃ hw₃ _ => ?_
  exact Adds.bind (Adds.notePath hw₃.registered i r.path) fun _ w₄ hw₄ _ => .ok (.refl hw₄.registered) trivial

theorem forget_adds (h : w.Registered) (m : ModuleRecord) :
    Ends (Adds strict w) (fun _ w' => w'.names.lookup m.name = none) ((forget m).run w) := by
  have hnames : ∀ other i, (w.names.erase m.name).lookup other = some i → w.names.lookup other = some i := by
    intro other i hi
    by_cases heq : other = m.name
    · rw [heq, Table.lookup_erase_self] at hi
      cases hi
    · rwa [Table.lookup_erase_ne heq] at hi
  exact .ok ⟨fun other i hi => h other i (hnames other i hi), fun _ => .refl _, fun other i hi => .inl (hnames other i hi)⟩
    Table.lookup_erase_self

/-- Registering keeps what binding goes by. With `strict`, the name must not stand for a namespace package that was bound. -/
theorem register_adds {r : Registration} (h : w.Registered) (hfree : strict → ∀ i, w.names.lookup r.name = some i →
      (w.moduleAt i).isNamespace = true → (w.moduleAt i).progress = .unbound) :
    Ends (Adds strict w) (fun _ _ => True) ((register r).run w) := by
  unfold register
  refine .get ?_
  cases hi : w.names.lookup r.name with
  | none => exact place_adds h fun _ j hj => by rw [hi] at hj; cases hj
  | some i =>
    dsimp only
    split
    · rename_i hnamespace
      refine place_adds h fun hs j hj => ?_
      rw [hi] at hj
      cases hj
      exact hfree hs i hi hnamespace
    · split
      · refine Adds.bind (Adds.adjust h (fun _ => rfl) ⟨rfl, rfl, rfl, id, fun _ _ => rfl⟩) fun _ w₁ hw₁ _ => ?_
        exact .ok (.refl hw₁.registered) trivial
      · split
        · refine Adds.bind (forget_adds h (w.moduleAt i)) fun _ w₁ hw₁ hnone => ?_
          rw [(h r.name i hi).2] at hnone
          refine Adds.bind (place_adds hw₁.registered fun _ j hj => by rw [hnone] at hj; cases hj) fun j w₂ hw₂ _ => ?_
          refine Adds.bind (Adds.adjust hw₂.registered (fun _ => rfl) ⟨rfl, rfl, rfl, id, fun _ _ => rfl⟩) fun _ w₃ hw₃ _ => ?_
          exact .ok (.refl hw₃.registered) trivial
        · exact .error (.refl h)

/-- A workspace that is opened has the builtins registered, and nothing is bound. -/
theorem openedWith_adds (builtins : Source) (hw : w.names = []) : Adds strict w (w.openedWith builtins) := by
  have hempty : ∀ name, w.names.lookup name = none := fun name => by rw [hw]; rfl
  have hends : Ends (Adds strict w) (fun _ _ => True) ((register _).run w) :=
    register_adds (r := { name := builtinsName, source := builtins, isStub := true, type := .builtIn })
      (fun name i hi => by rw [hempty] at hi; cases hi) fun _ i hi => by rw [hempty] at hi; cases hi
  unfold openedWith
  generalize (register _).run w = x at hends
  cases hends with
  | ok hadds _ => exact hadds
  | error hadds => exact hadds

end ScopeFlow.Workspace
