import ScopeFlow.Proofs.Paths
import ScopeFlow.Workspace.Bind

/-!
# Names that modules can come to have

A module that is found on disk is found under a name that goes on from a registered name, or from nothing, part by part along the
path of its file. So the names that modules with a file can come to have are known before any of them is found: they are the
candidates, and there are fewer of them than `Workspace.depthBound`.
-/

namespace ScopeFlow

variable {name : String}

namespace DottedName

/-- A name that goes on by parts. -/
def extend (start : Option String) (parts : List String) : Option String :=
  parts.foldl (fun name part => some (child name part)) start

theorem extend_concat (start : Option String) (parts : List String) (part : String) :
    extend start (parts ++ [part]) = some (child (extend start parts) part) := by
  simp [extend]

end DottedName

namespace Path

/-- Parts whose last one loses the three characters of its ending. -/
def withoutEnding (parts : List String) : List String :=
  parts.dropLast ++ (parts.getLast?.map fun last => String.ofList (last.toList.take (last.length - 3))).toList

/-- The stretches of a path, and those of the path without its ending that reach its end. -/
def stretches (parts : List String) : List (List String) := parts.tails.flatMap List.inits ++ (withoutEnding parts).tails

theorem mem_stretches_of_infix {parts stretch : List String} (h : stretch <:+: parts) : stretch ∈ stretches parts := by
  obtain ⟨tail, hstart, hend⟩ := List.infix_iff_prefix_suffix.1 h
  refine List.mem_append_left _ (List.mem_flatMap.2 ⟨tail, ?_, ?_⟩)
  · exact (List.mem_tails _ _).2 hend
  · exact (List.mem_inits _ _).2 hstart

theorem mem_stretches_of_source {front stretch : List String} (h : stretch <:+ front ++ [name]) :
    stretch ∈ stretches (front ++ [name ++ ".py"]) := by
  have hname : String.ofList ((name ++ ".py").toList.take ((name ++ ".py").length - 3)) = name := by
    simp [← String.length_toList]
  have hwithout : withoutEnding (front ++ [name ++ ".py"]) = front ++ [name] := by
    rw [withoutEnding, List.dropLast_concat, List.getLast?_concat, Option.map_some, hname]
    rfl
  refine List.mem_append_right _ ((List.mem_tails _ _).2 ?_)
  rwa [hwithout]

theorem length_stretches_le (parts : List String) : (stretches parts).length ≤ (parts.length + 2) * (parts.length + 2) := by
  have hinits : (parts.tails.flatMap List.inits).length ≤ (parts.length + 1) * (parts.length + 1) := by
    rw [List.length_flatMap]
    refine (List.sum_le_card_nsmul _ (parts.length + 1) fun n hn => ?_).trans (by simp)
    obtain ⟨tail, htail, rfl⟩ := List.mem_map.1 hn
    have hle := ((List.mem_tails _ _).1 htail).length_le
    simpa using hle
  have hwithout : (withoutEnding parts).length ≤ parts.length := by
    unfold withoutEnding
    cases hlast : parts.getLast? with
    | none => simp
    | some last =>
      have hne : parts ≠ [] := fun hnil => by simp [hnil] at hlast
      have hpos := List.length_pos_iff.2 hne
      simp only [Option.map_some, Option.toList_some, List.length_append, List.length_dropLast, List.length_singleton]
      omega
  rw [stretches, List.length_append, List.length_tails]
  nlinarith

end Path

namespace Workspace

/-- Where a name can go on from: a registered name, or nothing. -/
def origins (w : Workspace) : List (Option String) := none :: w.names.names.map some

/-- The stretches of the paths on disk. -/
def stretches (w : Workspace) : List (List String) := w.disk.files.flatMap fun file => Path.stretches (Path.parts file.1)

/-- The names that modules with a file can come to have. -/
def candidates (w : Workspace) : List String :=
  w.names.names ++ w.origins.flatMap fun start => w.stretches.filterMap (DottedName.extend start)

theorem mem_candidates {w : Workspace} {start : Option String} {parts : List String} {name key : String} (hs : start ∈ w.origins)
    (hn : DottedName.extend start parts = some name) (hk : key ∈ w.disk.files.names)
    (hp : parts ∈ Path.stretches (Path.parts key)) : name ∈ w.candidates := by
  obtain ⟨file, hfile, rfl⟩ := List.mem_map.1 hk
  refine List.mem_append_right _ (List.mem_flatMap.2 ⟨start, hs, List.mem_filterMap.2 ⟨parts, ?_, hn⟩⟩)
  exact List.mem_flatMap.2 ⟨file, hfile, hp⟩

theorem length_candidates_lt (w : Workspace) : w.candidates.length < w.depthBound := by
  have hstretches : w.stretches.length ≤
      w.disk.files.foldr (fun file count => ((Path.parts file.1).length + 2) * ((Path.parts file.1).length + 2) + count) 0 := by
    unfold stretches
    induction w.disk.files with
    | nil => simp
    | cons file files ih =>
      rw [List.flatMap_cons, List.length_append, List.foldr_cons]
      exact Nat.add_le_add (Path.length_stretches_le _) ih
  have hextended : (w.origins.flatMap fun start => w.stretches.filterMap (DottedName.extend start)).length ≤
      (w.names.length + 1) * w.stretches.length := by
    rw [List.length_flatMap]
    refine (List.sum_le_card_nsmul _ w.stretches.length fun n hn => ?_).trans (by simp [origins, Table.names])
    obtain ⟨start, _, rfl⟩ := List.mem_map.1 hn
    exact List.length_filterMap_le _ _
  have hmul := Nat.mul_le_mul_left (w.names.length + 1) hstretches
  have hnames : w.names.names.length = w.names.length := by simp [Table.names]
  rw [candidates, List.length_append, hnames, depthBound]
  omega

/-- Whether the module with a name is there and its binding has begun. -/
def isSettled (w : Workspace) (name : String) : Bool :=
  match w.names.lookup name with
  | some i => (w.moduleAt i).progress != .unbound
  | none => false

theorem isSettled_of_lookup {w : Workspace} {i : Nat} (h : w.names.lookup name = some i) :
    w.isSettled name = ((w.moduleAt i).progress != .unbound) := by simp [isSettled, h]

/-- How many of the candidates of a workspace are not settled in another one. -/
def unsettled (w₀ w : Workspace) : Nat := w₀.candidates.countP fun name => !w.isSettled name

variable {w₀ w w' : Workspace}

theorem unsettled_lt_depthBound (w₀ w : Workspace) : w₀.unsettled w < w₀.depthBound :=
  lt_of_le_of_lt List.countP_le_length w₀.length_candidates_lt

theorem countP_unsettled_le (names : List String) (h : ∀ name, w.isSettled name → w'.isSettled name) :
    (names.countP fun name => !w'.isSettled name) ≤ names.countP fun name => !w.isSettled name := by
  refine List.countP_mono_left fun name _ hname => ?_
  simp only [Bool.not_eq_true'] at hname ⊢
  by_contra hsettled
  rw [h name (by simpa using hsettled)] at hname
  cases hname

theorem unsettled_le (h : ∀ name, w.isSettled name → w'.isSettled name) : w₀.unsettled w' ≤ w₀.unsettled w :=
  countP_unsettled_le _ h

/-- Each candidate whose binding begins makes the number smaller. -/
theorem unsettled_lt (h : ∀ name, w.isSettled name → w'.isSettled name) (hn : name ∈ w₀.candidates)
    (hw : w.isSettled name = false) (hw' : w'.isSettled name = true) : w₀.unsettled w' < w₀.unsettled w := by
  obtain ⟨front, back, hsplit⟩ := List.append_of_mem hn
  have hfront := countP_unsettled_le front h
  have hback := countP_unsettled_le back h
  simp only [unsettled, hsplit, List.countP_append, List.countP_cons, hw, hw']
  simp only [Bool.not_true, Bool.not_false, Bool.false_eq_true, if_true, if_false]
  omega

end Workspace

end ScopeFlow
