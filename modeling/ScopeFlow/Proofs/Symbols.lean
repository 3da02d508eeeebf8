import ScopeFlow.Proofs.Deferral
import ScopeFlow.Proofs.Entering

/-!
# Symbols over a run

Binding a module leads from store to store by primitive changes, and each store on the way is on record, from the one before
binding to the one after it (`State.trace`). What one change leaves alone (`Store.Later`) any later one leaves alone as well,
so it holds between any two stores of the run: symbols are kept with their numbers and declarations, redirections are
honoured, and the builtins are not touched, but for the names that `nonlocal` statements give.
-/

namespace ScopeFlow

open Store

/-- What holds behind every step holds everywhere on a chain but at its beginning. -/
theorem forall_mem_of_isChain {α : Type} {r : α → α → Prop} {p : α → Prop} (hp : ∀ a b, r a b → p b) {a : α} {l : List α}
    (h : List.IsChain r (a :: l)) : ∀ b ∈ l, p b := by
  induction l generalizing a with
  | nil => simp
  | cons b l ih =>
    rw [List.isChain_cons_cons] at h
    exact List.forall_mem_cons.2 ⟨hp a b h.1, ih h.2⟩

/-- What stays as it is from one store to a later one, while a module is bound. -/
structure Store.Later (m : Module) (builtins : Option Nat) (st st' : Store) : Prop where
  grows : st.Grows st'
  /-- A name that a function or class redirects and does not have stays out of it. -/
  honours : ∀ i name, st.type? i = some .function ∨ st.type? i = some .classBody → (st.redirection? i name).isSome →
    st.symbol? i name = none → ¬ m.Gives Node.named name →
    (st.type? i = some .classBody → ¬ m.Gives Node.assignedMembers name) → st'.symbol? i name = none
  names : ∀ b, builtins = some b → ∀ name, (st'.symbol? b name).isSome = (st.symbol? b name).isSome
  builtins : ∀ b, builtins = some b → ∀ name, ¬ m.Gives Node.nonlocals name → st'.symbol? b name = st.symbol? b name

namespace Store.Later

variable {m : Module} {builtins : Option Nat} {st st' st'' : Store}

theorem refl (st : Store) : Later m builtins st st :=
    ⟨.refl st, fun _ _ _ _ hnone _ _ => hnone, fun _ _ _ => rfl, fun _ _ _ _ => rfl⟩

theorem trans (h : Later m builtins st st') (h' : Later m builtins st' st'') : Later m builtins st st'' where
  grows := h.grows.trans h'.grows
  honours := fun i name ht hr hnone hw hm => by
    have htype : st'.type? i = st.type? i := h.grows.type?_eq (ht.elim lt_size_of_type? lt_size_of_type?)
    obtain ⟨r, hr'⟩ := Option.isSome_iff_exists.1 hr
    refine h'.honours i name (by rwa [htype]) ?_ (h.honours i name ht hr hnone hw hm) hw (by rwa [htype])
    rw [h.grows.redirection? hr']
    rfl
  names := fun b hb name => (h'.names b hb name).trans (h.names b hb name)
  builtins := fun b hb name hn => (h'.builtins b hb name hn).trans (h.builtins b hb name hn)

instance : Trans (Later m builtins) (Later m builtins) (Later m builtins) := ⟨trans⟩

end Store.Later

namespace Bind

variable {ω : Type} {u : Setup ω} {m : Module} {w w' : Job} {strict : Bool} {base : Nat} {s s' : State ω} {store : Store}
  {world : ω} {phases : List (Phase ω)} {results : BindResults}

/-- The stores of a run up to a state, in the order in which binding passes them. -/
noncomputable def State.trace (s : State ω) : List Store := s.stores.reverse

/-- A primitive change, of which it is known what it leaves alone, to a store in which look-ups from the scopes of the module
work and the symbols of the module have numbers of their own. -/
def Moves (u : Setup ω) (m : Module) (base : Nat) (st st' : Store) : Prop :=
  st.Edit st' ∧ Later m u.builtins st st' ∧
    ∃ g : Stage, g.base = base ∧ g.builtins = u.builtins ∧ Orderly g st' ∧ g.Numbers st'

/-- What is known of the stores of a run: which one is the first, and how each comes from the one before it. -/
structure Recorded (u : Setup ω) (m : Module) (store : Store) (s : State ω) : Prop where
  first : [store] <:+ s.stores
  moves : s.stores.IsChain fun st' st => Moves u m store.scopes.size st st'

/-- An edit with its reason leaves alone what it has no reason to change. -/
theorem Job.Kin.moves (hkin : (Job.ofModule u m strict base).Kin w) {st st' : Store} (ho : Orderly w.toStage st)
    (hn : w.Numbers st) (h : w.Step st st') : Moves u m base st st' := by
  have hbuiltins : ∀ b, u.builtins = some b → ∀ name, (st'.symbol? b name).isSome = (st.symbol? b name).isSome ∧
      (¬ m.Gives Node.nonlocals name → st'.symbol? b name = st.symbol? b name) := by
    intro b hb name
    have hb' : w.builtins = some b := hkin.builtins.trans hb
    obtain ⟨hlt, _, _⟩ := ho.outermost b hb'
    obtain ⟨sc, hsc⟩ := Option.isSome_iff_exists.1 (scope?_isSome.2 (hlt.trans ho.base_lt))
    obtain ⟨sc', hsc', hsame | ⟨other, f, hother, hadjust⟩⟩ := h.builtins ho hb' hsc
    · simp [Store.symbol?, hsc, hsc', hsame]
    · have hother' : m.Gives Node.nonlocals other := by
        rw [hkin.nonlocals] at hother
        exact hother
      by_cases hname : name = other
      · subst hname
        refine ⟨?_, fun hn => absurd hother' hn⟩
        simp [Store.symbol?, hsc, hsc', hadjust, Scope.symbol?, Table.lookup_adjust_self]
      · simp [Store.symbol?, hsc, hsc', hadjust, Scope.symbol?, Table.lookup_adjust_ne _ f hname]
  refine ⟨h.edit, ⟨h.edit.grows, fun i name ht hr hnone hw hm => ?_, fun b hb name => (hbuiltins b hb name).1,
    fun b hb name => (hbuiltins b hb name).2⟩, w.toStage, hkin.base, hkin.builtins, ho.step h, hn.step ho h⟩
  exact h.honours ho ht hr hnone (by rw [hkin.walruses]; exact hw) (by rw [hkin.members]; exact hm)

/-- What a job puts on record are such changes. -/
theorem Recorded.trail (h : Recorded u m store s) (hkin : (Job.ofModule u m strict store.scopes.size).Kin w) (hs : Holds u w s)
    (htrail : w.Trail s.stores s'.stores) : Recorded u m store s' := by
  have hrecord : ∀ {after : List Store}, w.Trail s.stores after →
      s.stores <:+ after ∧ after.IsChain fun st' st => Moves u m store.scopes.size st st' := by
    intro after htrail
    induction htrail with
    | refl => exact ⟨List.suffix_rfl, h.moves⟩
    | step htrail hstep ih =>
      have hsteps : w.Steps s.store _ := htrail.steps
      have hmoves := hkin.moves (hs.order.steps hsteps) (hs.numbers.steps hs.order hsteps) hstep
      exact ⟨ih.1.trans (List.suffix_cons _ _), List.isChain_cons_cons.2 ⟨hmoves, ih.2⟩⟩
  exact ⟨h.first.trans (hrecord htrail).1, (hrecord htrail).2⟩

/-- A step of a job puts such changes on record, also if it fails. -/
theorem Recorded.runs {α : Type} {low : Nat} {f : BindM ω α} {Q : α → State ω → Prop} (h : Recorded u m store s)
    (hkin : (Job.ofModule u m strict store.scopes.size).Kin w) (hs : Holds u w s) (hf : Runs u w low s f Q) :
    Ends (Recorded u m store) (fun _ t => Holds u w t) (f.run s) := by
  cases hrun : f.run s with
  | ok a t => exact .ok (h.trail hkin hs (hf.1 a t hrun).1.trail) (hf.1 a t hrun).2.1
  | error e t => exact .error (h.trail hkin hs (hf.2 e t hrun).2)

/-- So does binding the bodies that wait. -/
theorem drain_recorded (hu : u.Steady) (hnodup : (Node.numbers m.tree.nodes).Nodup) (bound : Nat) : ∀ {w : Job} {s : State ω},
    Resting u m w s → (Job.ofModule u m strict store.scopes.size).Kin w → Recorded u m store s →
    Ends (Recorded u m store) (fun _ t => ∃ w', Resting u m w' t ∧ (Job.ofModule u m strict store.scopes.size).Kin w')
      ((drain nextTask (replay u) bound).run s) := by
  induction bound with
  | zero => exact fun hr hkin h => .ok h ⟨_, hr, hkin⟩
  | succ bound ih =>
    intro w s hr hkin h
    cases hq : s.queue with
    | nil =>
      have hrun : (drain nextTask (replay u) (bound + 1)).run s = .ok 0 s := bind_ok.2 ⟨none, s, nextTask_nil hq, rfl⟩
      rw [hrun]
      exact .ok h ⟨w, hr, hkin⟩
    | cons task queue =>
      have hkin' : (Job.ofModule u m strict store.scopes.size).Kin (w.turn u task s) :=
        ⟨hkin.base, hkin.builtins, hkin.isStub, hkin.nonlocals, hkin.walruses, hkin.members⟩
      have hnext : Ends (Recorded u m store) (fun next t => next = some task ∧ t = { s with queue := queue })
          ((nextTask : BindM ω (Option Task)).run s) := by
        rw [nextTask_cons hq]
        exact .ok ⟨h.first, h.moves⟩ ⟨rfl, rfl⟩
      refine hnext.bind (fun _ => id) fun next t hrecord heq => ?_
      obtain ⟨rfl, rfl⟩ := heq
      have hreplay : Ends (Recorded u m store) (fun _ t => Resting u m (w.turn u task s) t)
          ((replay u task).run { s with queue := queue }) := by
        obtain ⟨hok, herror⟩ := hr.next hu hnodup hq
        cases hrun : (replay u task).run { s with queue := queue } with
        | ok x t => exact .ok (hrecord.trail hkin' (hr.holds.turn hq) (hok x t hrun).1) (hok x t hrun).2
        | error e t => exact .error (hrecord.trail hkin' (hr.holds.turn hq) (herror e t hrun).2)
      refine hreplay.bind (fun _ => id) fun _ t hrecord hrest => ?_
      exact (ih hrest hkin' hrecord).bind (fun _ => id) fun _ _ hrecord hend => .ok hrecord hend

/-- The first edit opens the scope of the module. -/
theorem moves_openScope (hg : store.Grounded u.builtins) :
    Moves u m store.scopes.size store (store.addScope (emptyModule u.builtins)).2 := by
  have hsame : ∀ i, i < store.scopes.size → ∀ name,
      (store.addScope (emptyModule u.builtins)).2.symbol? i name = store.symbol? i name := fun i hi name => by
    rw [Store.symbol?, scope?_addScope, if_neg hi.ne, Store.symbol?]
  have hnew : ∀ i name, (store.addScope (emptyModule u.builtins)).2.Climbs i store.scopes.size →
      (store.addScope (emptyModule u.builtins)).2.symbol? i name = none := fun i name hi => by
    rw [eq_of_climbs_addScope hg.closed (fun p hp => (hg.builtins p hp).1) hi]
    exact symbol?_emptyModule _ _
  refine ⟨.openScope _ _, ⟨.addScope _, fun i name ht _ hnone _ _ => ?_, fun b hb name => ?_, fun b hb name _ => ?_⟩, _, rfl, rfl,
    orderly_initial hg m false, fun i name sym hb hsym => ?_, fun i j name other sym sym' hb _ hsym _ _ => ?_⟩
  · rw [hsame i (ht.elim lt_size_of_type? lt_size_of_type?)]
    exact hnone
  · rw [hsame b (hg.builtins b hb).1]
  · exact hsame b (hg.builtins b hb).1 name
  · simp [hnew i name hb] at hsym
  · simp [hnew i name hb] at hsym

theorem recorded_entered (hg : store.Grounded u.builtins) (world : ω) : Recorded u m store (State.entered u store world) := by
  have hstores : (State.entered u store world).stores = [(store.addScope (emptyModule u.builtins)).2, store] := by
    simp [State.stores, State.entered, State.initial]
  refine ⟨?_, ?_⟩ <;> rw [hstores]
  · exact List.suffix_cons _ _
  · exact List.isChain_pair.2 (moves_openScope hg)

/-- Every run of binding is made of such changes from its first store on, whether it fails or not. -/
theorem bindModule_recorded (hu : u.Steady) (ho : u.outline = Outline.ofModule m.number) (hg : store.Grounded u.builtins)
    (haside : ∀ path st world, Stage.Aside u.builtins st (u.exports path st world).2.1) {outcome : Except Fault BindResults}
    (h : bindModule u m.number store world = (outcome, s')) : Recorded u m.number store s' := by
  have hstart := recorded_entered (m := m.number) hg world
  have hkin : (Job.ofModule u m.number false store.scopes.size).Kin (Job.ofModule u m.number false store.scopes.size) :=
    ⟨rfl, rfl, rfl, rfl, rfl, rfl⟩
  have hbody : Ends (Recorded u m.number store) (fun scope t => scope = store.scopes.size ∧
      Resting u m.number (Job.ofModule u m.number false store.scopes.size) t)
      ((bindModuleBody u m.number).run (State.initial u store world)) := by
    obtain ⟨hok, herror⟩ := bindModuleBody_rests hu (.lax ho hg haside) world
    have hholds := holds_entered hg m.number false world
    cases hrun : (bindModuleBody u m.number).run (State.initial u store world) with
    | ok scope t => exact .ok (hstart.trail hkin hholds (hok scope t hrun).2.1) ⟨(hok scope t hrun).1, (hok scope t hrun).2.2⟩
    | error e t => exact .error (hstart.trail hkin hholds (herror e t hrun).2)
  have htree : Ends (Recorded u m.number store) (fun _ _ => True) ((bindTree u m.number).run (State.initial u store world)) := by
    refine hbody.bind (fun _ => id) fun scope t hrecord hrest => ?_
    refine Ends.bind (drain_recorded hu (nodup_numbers m) _ hrest.2 hkin hrecord).discard (fun _ => id) fun _ t hrecord hend => ?_
    obtain ⟨_, w', hrest', hkin'⟩ := hend
    have hscope : scope = w'.base := hrest.1.trans hkin'.base.symm
    have hprivates : Upholds u w' 0 t (hidePrivates : BindM ω Unit) := hidePrivates_upholds
    refine (hrecord.runs hkin' hrest'.holds (hprivates t (.refl _) hrest'.holds)).bind (fun _ => id) fun _ t hrecord hholds => ?_
    have hmarks : Upholds u w' 0 t (markListed scope : BindM ω Unit) := hscope ▸ markListed_upholds
    exact (hrecord.runs hkin' hholds (hmarks t (.refl _) hholds)).bind (fun _ => id) fun _ t hrecord _ => .ok hrecord trivial
  unfold bindModule at h
  generalize (bindTree u m.number).run (State.initial u store world) = x at h htree
  cases htree with
  | ok hrecord _ => exact (Prod.mk.inj h).2 ▸ hrecord
  | error hrecord => exact (Prod.mk.inj h).2 ▸ hrecord

/-- What is known of the stores of a run in their order. -/
theorem Recorded.trace (h : Recorded u m store s) : s.trace.head? = some store ∧ s.trace.getLast? = some s.store ∧
    s.trace.IsChain Store.Edit ∧ s.trace.Pairwise (Later m u.builtins) ∧ ∀ st ∈ s.trace.tail, ∃ g : Stage,
      g.base = store.scopes.size ∧ g.builtins = u.builtins ∧ Orderly g st ∧ g.Numbers st := by
  have hchain : s.trace.IsChain (Moves u m store.scopes.size) := List.isChain_reverse.2 h.moves
  have hfirst : [store] <+: s.trace := by simpa [State.trace] using List.reverse_prefix.2 h.first
  obtain ⟨rest, hrest⟩ := hfirst
  refine ⟨by rw [← hrest]; rfl, by simp [State.trace, State.stores], hchain.imp fun _ _ h => h.1,
    List.isChain_iff_pairwise.1 (hchain.imp fun _ _ h => h.2.1), ?_⟩
  rw [← hrest] at hchain ⊢
  exact forall_mem_of_isChain (fun _ _ h => h.2.2) hchain

/-- What holds between any two stores of a run holds between each of them and the last one. -/
theorem State.of_pairwise_trace {r : Store → Store → Prop} (h : s.trace.Pairwise r) (hlast : r s.store s.store) {st : Store}
    (hst : st ∈ s.trace) : r st s.store := by
  have htrace : s.trace = s.past.value.reverse ++ [s.store] := by simp [State.trace, State.stores]
  rw [htrace] at h hst
  rcases List.mem_append.1 hst with hst | hst
  · exact (List.pairwise_append.1 h).2.2 st hst s.store (List.mem_singleton_self _)
  · rw [List.mem_singleton.1 hst]
    exact hlast

/-! ## What a run keeps -/

variable (hu : u.Steady) (ho : u.outline = Outline.ofModule m.number) (hgrounded : store.Grounded u.builtins)
  (haside : ∀ path st world, Stage.Aside u.builtins st (u.exports path st world).2.1) {outcome : Except Fault BindResults}
  (h : bindModule u m.number store world = (outcome, s'))

section

include hu ho hgrounded haside h

/-- Symbols are never lost, replaced or confused. Binding a module, whether it fails or not, leads by primitive changes from
the store that it begins with to the one that it ends with. From each store on the way to each later one, a name of a scope
keeps its symbol with its number, and the declarations of a symbol stay in place while new ones come behind them. In each
store behind the first the symbols of the scopes in the module have different numbers. If binding does not fail, the scopes
that nodes open are in the module in the end, and each number that a flow node mentions is that of a symbol of a scope in the
module or of the builtins. -/
theorem symbols_kept :
    s'.trace.head? = some store ∧ s'.trace.getLast? = some s'.store ∧ s'.trace.IsChain Store.Edit ∧
      s'.trace.Pairwise (fun st st' => ∀ i name sym, st.symbol? i name = some sym → ∃ sym', st'.symbol? i name = some sym' ∧
        sym'.id = sym.id ∧ sym.declarations.map Declaration.origin <+: sym'.declarations.map Declaration.origin) ∧
      (∀ st ∈ s'.trace.tail, ∀ i j name other sym sym', st.Climbs i store.scopes.size → st.Climbs j store.scopes.size →
        st.symbol? i name = some sym → st.symbol? j other = some sym' → sym.id = sym'.id → i = j ∧ name = other) ∧
      ∀ results, outcome = .ok results →
        (∀ node i, s'.scopeAt node = some i → s'.store.Climbs i store.scopes.size) ∧
        ∀ n ∈ s'.graph, ∀ id ∈ n.step.symbols, ∃ i name sym, s'.store.symbol? i name = some sym ∧ sym.id = id ∧
          (s'.store.Climbs i store.scopes.size ∨ u.builtins = some i) := by
  obtain ⟨hfirst, hlast, hedits, hlater, hstages⟩ := (bindModule_recorded hu ho hgrounded haside h).trace
  refine ⟨hfirst, hlast, hedits, hlater.imp fun {st st'} hlater i name sym hsym => ?_,
    fun st hst i j name other sym sym' hi hj => ?_, fun results hresults => ?_⟩
  · obtain ⟨sym', hsym', hretains⟩ := hlater.grows.retains hsym
    exact ⟨sym', hsym', hretains.id, hretains.declarations⟩
  · obtain ⟨g, hbase, _, _, hnumbers⟩ := hstages st hst
    rw [← hbase] at hi hj
    exact hnumbers.distinct i j name other sym sym' hi hj
  · subst hresults
    obtain ⟨first, phases, w', last, hc⟩ := bindModule_course hu (.lax ho hgrounded haside) h
    have hbase : w'.base = store.scopes.size := hc.shifts.kin.base
    refine ⟨fun node i hi => hbase ▸ hc.holds.scopes node i hi, fun n hn id hid => ?_⟩
    obtain ⟨k, hk⟩ := Array.getElem?_of_mem hn
    obtain ⟨i, name, sym, hinside, hsym, hsame⟩ := hc.holds.mentions id ⟨k, n, hk, hid⟩
    exact ⟨i, name, sym, hsym, hsame, hinside.imp (fun hbelow => hbase ▸ hbelow) hc.shifts.kin.builtins.symm.trans⟩

end

/-- The function `f` of the module has one number in all stores in which it has a symbol, and the name that it assigns has
another. -/
theorem sampleNested_symbols :
    let s := (bindModule (Setup.alone sampleNested.number) sampleNested.number {} ()).2
    (s.store.symbol? 0 "f").map Symbol.id = some 10 ∧ (s.store.symbol? 1 "x").isSome ∧ s.trace.head? = some {} ∧
      s.trace.IsChain Store.Edit ∧ (∀ st ∈ s.trace, ∀ sym, st.symbol? 0 "f" = some sym → sym.id = 10) ∧
      ∀ st ∈ s.trace.tail, ∀ sym, st.Climbs 1 0 → st.symbol? 0 "f" = some sym → ∀ sym', st.symbol? 1 "x" = some sym' →
        sym.id ≠ sym'.id := by
  intro s
  have hok : (bindModule (Setup.alone sampleNested.number) sampleNested.number {} ()).1.isOk = true := by decide +kernel
  obtain ⟨results, h⟩ := bindModule_of_isOk hok
  have hid : (s.store.symbol? 0 "f").map Symbol.id = some 10 := by decide +kernel
  obtain ⟨hfirst, hlast, hedits, hkept, hdistinct, _⟩ :=
    symbols_kept (Setup.alone_steady _) rfl grounded_empty (fun _ st _ => aside_self _ st) h
  refine ⟨hid, by decide +kernel, hfirst, hedits, fun st hst sym hsym => ?_, fun st hst sym hin hsym sym' hsym' heq => ?_⟩
  · have hself : ∀ i name sym, s.store.symbol? i name = some sym → ∃ sym', s.store.symbol? i name = some sym' ∧ sym'.id = sym.id ∧
        sym.declarations.map Declaration.origin <+: sym'.declarations.map Declaration.origin := fun i name sym hsym =>
      ⟨sym, hsym, rfl, List.prefix_rfl⟩
    obtain ⟨sym', hsym', hsame, _⟩ := State.of_pairwise_trace hkept hself hst 0 "f" sym hsym
    rw [show s.store.symbol? 0 "f" = some sym' from hsym'] at hid
    exact hsame.symm.trans (Option.some.inj hid)
  · exact absurd (hdistinct st hst 0 1 "f" "x" sym sym' (.refl _ _) hin hsym hsym' heq).1 (by decide)

section

include hu ho hgrounded haside h

/-- The builtins get no names and lose none, and only symbols that a `nonlocal` statement names are changed. -/
theorem builtins_kept {b : Nat} (hb : u.builtins = some b) (name : String) :
    (s'.store.symbol? b name).isSome = (store.symbol? b name).isSome ∧
      (¬ m.number.Gives Node.nonlocals name → s'.store.symbol? b name = store.symbol? b name) := by
  obtain ⟨hfirst, _, _, hlater, _⟩ := (bindModule_recorded hu ho hgrounded haside h).trace
  have hkept : Later m.number u.builtins store s'.store := State.of_pairwise_trace hlater (.refl _) (List.mem_of_mem_head? hfirst)
  exact ⟨hkept.names b hb name, hkept.builtins b hb name⟩

end

/-- Builtins with one name. -/
def sampleBuiltins : Store := { scopes := #[{ type := .builtin, symbols := [("x", { id := 1 })] }], nextSymbolId := 2 }

theorem grounded_sampleBuiltins : sampleBuiltins.Grounded (some 0) := by
  refine ⟨fun i p hp => ?_, fun b hb => ?_⟩
  · cases i <;> simp [Store.parent?, Store.scope?, sampleBuiltins] at hp
  · cases hb
    exact ⟨by decide, rfl, fun name => by simp [Store.redirection?, Store.scope?, Scope.redirection?, sampleBuiltins]⟩

theorem sampleNested_builtins :
    let u := { Setup.alone sampleNested.number with builtins := some 0 }
    (bindModule u sampleNested.number sampleBuiltins ()).2.store.symbol? 0 "x" = some { id := 1 } := by
  intro u
  have hok : (bindModule u sampleNested.number sampleBuiltins ()).1.isOk = true := by decide +kernel
  obtain ⟨results, h⟩ := bindModule_of_isOk hok
  have hnone : ∀ n ∈ sampleNested.number.tree.preorder, "x" ∉ n.nonlocals := by decide +kernel
  refine ((builtins_kept (u := u) (fun _ _ _ => le_refl _) rfl grounded_sampleBuiltins (fun _ st _ => aside_self _ st) h rfl
    "x").2 ?_).trans rfl
  rintro ⟨n, hn, hx⟩
  exact hnone n hn hx

section

include hu ho hgrounded haside h

/-- Redirections are honoured by all ways to bind a name but two. If in a store that binding passes, on the way from the first
one to the last by primitive changes, a function or class redirects a name and does not have it, then the name stays out of it
in all later stores, unless an assignment expression of the module assigns the name or, for a class, a member of that name is
assigned. -/
theorem redirections_honoured :
    s'.trace.head? = some store ∧ s'.trace.getLast? = some s'.store ∧ s'.trace.IsChain Store.Edit ∧
      s'.trace.Pairwise fun st st' => ∀ i name, st.type? i = some .function ∨ st.type? i = some .classBody →
        (st.redirection? i name).isSome → st.symbol? i name = none → ¬ m.number.Gives Node.named name →
        (st.type? i = some .classBody → ¬ m.number.Gives Node.assignedMembers name) → st'.symbol? i name = none := by
  obtain ⟨hfirst, hlast, hedits, hlater, _⟩ := (bindModule_recorded hu ho hgrounded haside h).trace
  exact ⟨hfirst, hlast, hedits, hlater.imp fun h => h.honours⟩

end

/-- A function that assigns a name of the module. -/
def sampleGlobal : Module :=
  { body :=
      [.function {} false "f" (.mk {} [] [] none [] [] none [])
        [.globals {} ["x"], .assign {} [.name {} "x"] (.name {} "f")] [] none] }

theorem sampleGlobal_honours :
    let s := (bindModule (Setup.alone sampleGlobal.number) sampleGlobal.number {} ()).2
    (s.store.redirection? 1 "x").isSome ∧ s.trace.head? = some {} ∧ s.trace.getLast? = some s.store ∧
      s.trace.Pairwise fun st st' => ∀ i, st.type? i = some .function →
        (st.redirection? i "x").isSome → st.symbol? i "x" = none → st'.symbol? i "x" = none := by
  intro s
  have hok : (bindModule (Setup.alone sampleGlobal.number) sampleGlobal.number {} ()).1.isOk = true := by decide +kernel
  obtain ⟨results, h⟩ := bindModule_of_isOk hok
  obtain ⟨hfirst, hlast, _, hhonours⟩ :=
    redirections_honoured (Setup.alone_steady _) rfl grounded_empty (fun _ st _ => aside_self _ st) h
  have hnone : ∀ n ∈ sampleGlobal.number.tree.preorder, "x" ∉ n.named := by decide +kernel
  refine ⟨by decide +kernel, hfirst, hlast, hhonours.imp fun hpair i ht hr hs => hpair i "x" (.inl ht) hr hs ?_ fun hclass => ?_⟩
  · rintro ⟨n, hn, hx⟩
    exact hnone n hn hx
  · rw [ht] at hclass
    cases hclass

/-! ## Members -/

/-- The class around a function, if no other function comes first, is the class around it. -/
theorem enclosingClass_of_stop {o : Outline} {i c : Nat} (h : o.enclosingClass i true = some c) :
    o.enclosingClass i false = some c := by
  unfold Outline.enclosingClass at h ⊢
  generalize o.ancestors i = ancestors at h ⊢
  induction ancestors generalizing i with
  | nil => cases h
  | cons a rest ih =>
    unfold Outline.climb at h ⊢
    cases hn : o.node? a with
    | none =>
      rw [hn] at h
      cases h
    | some n =>
      rw [hn] at h
      dsimp only at h ⊢
      by_cases hclass : (n.isClass && n.holdsInBody i) = true
      · rw [if_pos hclass] at h ⊢
        exact h
      · rw [if_neg hclass] at h ⊢
        by_cases hfunction : (n.isFunction && n.holdsInBody i) = true
        · rw [hfunction] at h
          cases h
        · have hfalse : (n.isFunction && n.holdsInBody i) = false := by simpa using hfunction
          rw [hfalse] at h ⊢
          exact ih h

section

include hu ho hgrounded haside

/-- A declaration by member access in the scope of a class is a member of a bare name in the body of a function, the nearest class
around this function is the class, and the name is the first parameter of the function or the name of the class. Functions may
stand between the function and the class; if none does, the function is a method of the class. -/
theorem members_come_from_methods (h : bindModule u m.number store world = (.ok results, s')) {cls sc : Nat} {name : String}
    {symbol : Symbol} {d : Declaration} (hscope : s'.scopeAt cls = some sc) (hsymbol : s'.store.symbol? sc name = some symbol)
    (hd : d ∈ symbol.declarations) (hmember : d.isMemberOnly = true) :
    ∃ mark k base attr method, u.outline.node? d.site.index = some (.expr (.member mark (.name k base) attr)) ∧
      u.outline.enclosingFunction d.site.index = some method ∧ u.outline.enclosingClass method false = some cls ∧
      (∀ c, u.outline.enclosingClass method true = some c → c = cls) ∧
      (u.outline.firstParameter? method = some base ∨ u.outline.className? cls = some base) := by
  obtain ⟨first, phases, w', last, hc⟩ := bindModule_course hu (.lax ho hgrounded haside) h
  have hhas : s'.store.HasMember sc d.site := ⟨name, symbol, hsymbol, List.mem_map.2 ⟨d, hd, by rw [Symbol.trait, hmember]⟩⟩
  obtain ⟨mark, k, base, attr, className, isInstance, hnode, howner⟩ := hc.holds.homes.members cls sc d.site hscope hhas
  obtain ⟨method, hmethod, hcls, hbase⟩ := Outline.memberOwner?_eq_some howner
  refine ⟨mark, k, base, attr, method, hnode, hmethod, hcls, fun c hstop => ?_, hbase⟩
  exact Option.some.inj ((enclosingClass_of_stop hstop).symm.trans hcls)

end

theorem sampleMember_declared :
    let s := (bindModule (Setup.alone sampleMember.number) sampleMember.number {} ()).2
    s.scopeAt 1 = some 1 ∧ ∃ symbol d, s.store.symbol? 1 "x" = some symbol ∧ d ∈ symbol.declarations ∧ d.isMemberOnly = true ∧
      ∃ method, (Outline.ofModule sampleMember.number).enclosingFunction d.site.index = some method ∧
        (Outline.ofModule sampleMember.number).enclosingClass method false = some 1 := by
  intro s
  have hok : (bindModule (Setup.alone sampleMember.number) sampleMember.number {} ()).1.isOk = true := by decide +kernel
  obtain ⟨results, h⟩ := bindModule_of_isOk hok
  have hscope : s.scopeAt 1 = some 1 := by decide +kernel
  have hmember : ((s.store.symbol? 1 "x").bind fun symbol => symbol.declarations.find? Declaration.isMemberOnly).isSome =
    true := by
    decide +kernel
  obtain ⟨d, hfind⟩ := Option.isSome_iff_exists.1 hmember
  obtain ⟨symbol, hsymbol, hd⟩ := Option.bind_eq_some_iff.1 hfind
  obtain ⟨_, _, _, _, method, _, hmethod, hcls, _⟩ :=
    members_come_from_methods (Setup.alone_steady _) rfl grounded_empty (fun _ st _ => aside_self _ st) h hscope hsymbol
      (List.mem_of_find?_eq_some hd) (List.find?_some hd)
  exact ⟨hscope, symbol, d, hsymbol, List.mem_of_find?_eq_some hd, List.find?_some hd, method, hmethod, hcls⟩

end Bind

end ScopeFlow
