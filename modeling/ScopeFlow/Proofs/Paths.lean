import Mathlib
import ScopeFlow.Workspace.Search

/-!
# Paths and the places they lead to

What a path says, apart from whether it is absolute, is its places: its parts without those that say nothing. An entry of a
directory is one place further than the directory (`places_child`), the directory of an entry is the directory
(`places_directory`), and a path under which something is kept on disk has the places of the path that led there (`parts_normal`).

So whatever a search for a module finds lies one place below a directory that was searched, under the name of the module
(`Disk.find?_below`), unless an extension module is named `__init__`: that one is a package that holds itself.
-/

namespace ScopeFlow

/-! ## Pieces -/

section

variable {separator : Char} {cs : List Char} {name : String} {ending : String} {path : String}

theorem pieces_append (front back : List Char) :
    pieces separator (front ++ separator :: back) = pieces separator front ++ pieces separator back := by
  induction front with
  | nil => simp [pieces]
  | cons c front ih =>
    by_cases hc : c = separator
    · simp [pieces, hc, ih]
    · obtain ⟨piece, rest, hpieces⟩ := List.exists_cons_of_ne_nil (pieces_ne_nil separator front)
      simp [pieces, hc, ih, hpieces]

theorem pieces_of_not_mem (h : separator ∉ cs) : pieces separator cs = [cs] := by
  induction cs with
  | nil => rfl
  | cons c cs ih =>
    have hc : c ≠ separator := fun heq => h (by simp [heq])
    simp [pieces, hc, ih fun hmem => h (by simp [hmem])]

theorem not_mem_of_mem_pieces {piece : List Char} (h : piece ∈ pieces separator cs) : separator ∉ piece := by
  induction cs generalizing piece with
  | nil =>
    rw [pieces, List.mem_singleton] at h
    simp [h]
  | cons c cs ih =>
    by_cases hc : c = separator
    · simp only [pieces, hc, if_pos, List.mem_cons] at h
      rcases h with rfl | h
      · simp
      · exact ih h
    · obtain ⟨first, rest, hpieces⟩ := List.exists_cons_of_ne_nil (pieces_ne_nil separator cs)
      simp only [pieces, hc, if_false, hpieces, List.mem_cons] at h
      rcases h with rfl | h
      · have hfirst : separator ∉ first := ih (by simp [hpieces])
        simp [hfirst, Ne.symm hc]
      · exact ih (by simp [hpieces, h])

theorem pieces_joined {texts : List (List Char)} (hne : texts ≠ []) (h : ∀ t ∈ texts, separator ∉ t) :
    pieces separator (joined separator texts) = texts := by
  induction texts with
  | nil => exact absurd rfl hne
  | cons t texts ih =>
    cases texts with
    | nil => simpa [joined] using pieces_of_not_mem (h t (by simp))
    | cons t' texts =>
      have hrest := ih (by simp) fun x hx => h x (by simp [hx])
      rw [show joined separator (t :: t' :: texts) = t ++ separator :: joined separator (t' :: texts) from rfl, pieces_append,
        pieces_of_not_mem (h t (by simp)), hrest]
      rfl

end

theorem joined_eq_intercalate (separator : Char) (texts : List (List Char)) :
    joined separator texts = [separator].intercalate texts := by
  induction texts with
  | nil => rfl
  | cons t texts ih =>
    cases texts with
    | nil => simp [joined, List.intercalate_singleton]
    | cons t' texts => simp [joined, List.intercalate_cons_cons, ih]

theorem pieces_separators {separator : Char} {cs : List Char} (h : ∀ c ∈ cs, c = separator) :
    ∀ piece ∈ pieces separator cs, piece = [] := by
  induction cs with
  | nil => simp [pieces]
  | cons c cs ih =>
    have hc := h c (by simp)
    simpa [pieces, hc] using ih fun c' hc' => h c' (by simp [hc'])

namespace Path

/-! ## Parts that say something -/

/-- Whether a part of a path leads one place further. -/
structure Leads (part : String) : Prop where
  nonempty : part ≠ ""
  notHere : part ≠ "."
  notUp : part ≠ ".."

theorem Leads.of_not_mem {part : String} (hne : part ≠ "") (h : '.' ∉ part.toList) : Leads part :=
  ⟨hne, fun heq => h (by simp [heq]), fun heq => h (by simp [heq])⟩

/-- The places that a path leads through, taken as absolute. -/
def places (path : String) : List String := reduce true [] (splitAt '/' path)

theorem parts_eq_places (h : path.startsWith "/" = true) : parts path = places path := by
  rw [parts, h, places]

/-- What a part does to what was kept: it says nothing, leads back or leads on. -/
theorem reduce_cons (isAbsolute : Bool) (kept : List String) (part : String) (parts : List String) :
    reduce isAbsolute kept (part :: parts) =
      if part == "" || part == "." then reduce isAbsolute kept parts
      else if part == ".." then
        reduce isAbsolute
          (kept.casesOn (if isAbsolute then [] else [".."]) fun last rest => if last == ".." then ".." :: kept else rest) parts
      else reduce isAbsolute (part :: kept) parts := by
  cases kept <;> rw [reduce]

theorem reduce_append (isAbsolute : Bool) (kept front back : List String) :
    reduce isAbsolute kept (front ++ back) = reduce isAbsolute (reduce isAbsolute kept front).reverse back := by
  fun_induction reduce isAbsolute kept front with
  | case1 kept => simp
  | case2 kept part parts hblank ih => rw [List.cons_append, reduce_cons, if_pos hblank, ih]
  | case3 part parts hblank hup ih => rw [List.cons_append, reduce_cons, if_neg hblank, if_pos hup, ih]
  | case4 part parts hblank hup last rest ih => rw [List.cons_append, reduce_cons, if_neg hblank, if_pos hup, ih]
  | case5 kept part parts hblank hup ih => rw [List.cons_append, reduce_cons, if_neg hblank, if_neg hup, ih]

theorem reduce_leads {isAbsolute : Bool} {parts : List String} (h : ∀ p ∈ parts, Leads p) (kept : List String) :
    reduce isAbsolute kept parts = kept.reverse ++ parts := by
  induction parts generalizing kept with
  | nil => simp [reduce]
  | cons p parts ih =>
    have hp := h p (by simp)
    simp [reduce, hp.nonempty, hp.notHere, hp.notUp, ih fun q hq => h q (by simp [hq])]

theorem reduce_blank {isAbsolute : Bool} {parts : List String} (h : ∀ p ∈ parts, p = "") (kept : List String) :
    reduce isAbsolute kept parts = kept.reverse := by
  induction parts generalizing kept with
  | nil => simp [reduce]
  | cons p parts ih =>
    simp [reduce, h p (by simp), ih fun q hq => h q (by simp [hq])]

/-- What an absolute path is reduced to leads on, place by place. -/
theorem leads_of_mem_reduce {parts kept : List String} (hk : ∀ p ∈ kept, Leads p) : ∀ p ∈ reduce true kept parts, Leads p := by
  induction parts generalizing kept with
  | nil => simpa [reduce] using hk
  | cons q parts ih =>
    rw [reduce_cons]
    split
    · exact ih hk
    · rename_i hblank
      simp only [Bool.or_eq_true, beq_iff_eq, not_or] at hblank
      split
      · cases kept with
        | nil => exact ih (by simp)
        | cons last rest =>
          have hlast := (hk last (by simp)).notUp
          simpa [hlast] using ih fun p hp => hk p (by simp [hp])
      · rename_i hup
        refine ih fun p hp => ?_
        rcases List.mem_cons.1 hp with rfl | hp
        · exact ⟨hblank.1, hblank.2, by simpa using hup⟩
        · exact hk p hp

/-- An absolute path is reduced to parts of it. -/
theorem mem_of_mem_reduce {parts kept : List String} : ∀ p ∈ reduce true kept parts, p ∈ kept ∨ p ∈ parts ∨ p = ".." := by
  induction parts generalizing kept with
  | nil =>
    intro p hp
    exact .inl (by simpa [reduce] using hp)
  | cons q parts ih =>
    have hrest : ∀ {kept'}, (∀ p ∈ kept', p ∈ kept ∨ p = q ∨ p = "..") →
        ∀ p ∈ reduce true kept' parts, p ∈ kept ∨ p ∈ q :: parts ∨ p = ".." := by
      intro kept' hkept p hp
      rcases ih p hp with h | h | h
      · rcases hkept p h with h | h | h <;> simp [h]
      · simp [h]
      · simp [h]
    rw [reduce_cons]
    split
    · exact hrest fun p hp => .inl hp
    · split
      · cases kept with
        | nil => exact hrest (by simp)
        | cons last rest =>
          refine hrest fun p hp => ?_
          dsimp only at hp
          split at hp
          · rcases List.mem_cons.1 hp with h | h <;> simp [h]
          · simp [hp]
      · refine hrest fun p hp => ?_
        rcases List.mem_cons.1 hp with h | h <;> simp [h]

theorem leads_of_mem_places {path part : String} (h : part ∈ places path) : Leads part :=
  leads_of_mem_reduce (by simp) part h

theorem separator_not_mem_places {path part : String} (h : part ∈ places path) : '/' ∉ part.toList := by
  rcases mem_of_mem_reduce part h with hkept | hpart | rfl
  · simp at hkept
  · obtain ⟨piece, hpiece, rfl⟩ := List.mem_map.1 hpart
    simpa using not_mem_of_mem_pieces hpiece
  · decide

/-! ## Entries and directories -/

theorem places_append_separators {front slashes : List Char} (h : ∀ c ∈ slashes, c = '/') :
    places (String.ofList (front ++ slashes)) = places (String.ofList front) := by
  cases slashes with
  | nil => simp
  | cons c slashes =>
    obtain rfl := h c (by simp)
    have hblank : ∀ p ∈ (pieces '/' slashes).map String.ofList, p = "" := by
      intro p hp
      obtain ⟨piece, hpiece, rfl⟩ := List.mem_map.1 hp
      rw [pieces_separators (fun c hc => h c (by simp [hc])) piece hpiece]
    simp only [places, splitAt, String.toList_ofList, pieces_append, List.map_append, reduce_append, reduce_blank hblank,
      List.reverse_reverse]

theorem trimSeparators_append (path : List Char) : ∃ slashes, path = trimSeparators path ++ slashes ∧ ∀ c ∈ slashes, c = '/' := by
  refine ⟨(path.reverse.takeWhile fun c => c == '/').reverse, ?_, fun c hc => ?_⟩
  · rw [trimSeparators, ← List.reverse_append, List.takeWhile_append_dropWhile, List.reverse_reverse]
  · simpa using List.mem_takeWhile_imp (List.mem_reverse.1 hc)

theorem places_trimSeparators (path : List Char) :
    places (String.ofList (trimSeparators path)) = places (String.ofList path) := by
  obtain ⟨slashes, hpath, hslashes⟩ := trimSeparators_append path
  conv_rhs => rw [hpath]
  exact (places_append_separators hslashes).symm

theorem toList_child (directory name : String) :
    (child directory name).toList = trimSeparators directory.toList ++ '/' :: name.toList := by
  simp [child]

theorem child_append (directory name ending : String) : child directory name ++ ending = child directory (name ++ ending) := by
  simp [child, String.append_assoc]

/-- An entry of a directory is one place further than the directory. -/
theorem places_child (directory : String) (hn : Leads name) (hs : '/' ∉ name.toList) :
    places (child directory name) = places directory ++ [name] := by
  have hdirectory := places_trimSeparators directory.toList
  simp only [places, splitAt, String.toList_ofList, String.ofList_toList] at hdirectory
  simp only [places, splitAt, toList_child, pieces_append, pieces_of_not_mem hs, List.map_append, List.map_cons, List.map_nil,
    String.ofList_toList, reduce_append, hdirectory]
  rw [reduce_leads (by simpa using hn)]
  simp

theorem splitLast_child (directory : String) (hs : '/' ∉ name.toList) :
    splitLast (child directory name).toList = (trimSeparators directory.toList ++ ['/'], name.toList) := by
  have hname : ∀ c ∈ name.toList.reverse, (c != '/') = true := by
    intro c hc
    rw [List.mem_reverse] at hc
    simpa using fun heq : c = '/' => hs (heq ▸ hc)
  simp only [splitLast, toList_child, List.reverse_append, List.reverse_cons, List.append_assoc, List.singleton_append]
  rw [List.dropWhile_append_of_pos hname, List.takeWhile_append_of_pos hname]
  simp

/-- The directory of an entry is the directory. -/
theorem places_directory (directory : String) (hs : '/' ∉ name.toList) :
    places (Path.directory (child directory name)) = places directory := by
  have htrim := places_trimSeparators directory.toList
  rw [String.ofList_toList] at htrim
  have hhead : places (String.ofList (trimSeparators directory.toList ++ ['/'])) = places directory := by
    rw [places_append_separators (by simp), htrim]
  unfold Path.directory
  rw [splitLast_child directory hs]
  dsimp only
  split
  · exact hhead
  · rw [places_trimSeparators, hhead]

theorem lastPart_child (directory : String) (hs : '/' ∉ name.toList) :
    lastPart (child directory name) = name := by
  rw [lastPart, splitLast_child directory hs, String.ofList_toList]

/-- The shortest path that leads to a place has the places of the path. -/
theorem parts_normal (h : path.startsWith "/" = true) : parts (normal path) = places path := by
  have hnormal : (normal path).toList = [] ++ '/' :: joined '/' ((places path).map String.toList) := by
    simp [normal, h, parts_eq_places h, String.toList_intercalate, joined_eq_intercalate]
  have habsolute : (normal path).startsWith "/" = true := by
    rw [String.startsWith_string_iff, hnormal]
    exact ⟨_, rfl⟩
  rw [parts_eq_places habsolute, places, splitAt, hnormal, pieces_append]
  by_cases hne : places path = []
  · rw [hne]
    rfl
  · have hpieces : pieces '/' (joined '/' ((places path).map String.toList)) = (places path).map String.toList := by
      refine pieces_joined (by simpa using hne) fun t ht => ?_
      obtain ⟨part, hpart, rfl⟩ := List.mem_map.1 ht
      exact separator_not_mem_places hpart
    have hmap : ((places path).map String.toList).map String.ofList = places path := by simp
    rw [hpieces, List.map_append, hmap, reduce_append, reduce_leads fun p hp => leads_of_mem_places hp]
    rfl

end Path

namespace Disk

open ScopeFlow.Path

variable {d : Disk} {name : String}

/-- A disk on which no extension module is named `__init__`. -/
def Plain (d : Disk) : Prop :=
  ∀ key ∈ d.files.names, ∀ ending ∈ extensionSuffixes, (Path.parts key).getLast? ≠ some ("__init__" ++ ending)

instance (d : Disk) : Decidable d.Plain :=
    inferInstanceAs (Decidable (∀ key ∈ d.files.names, ∀ ending ∈ extensionSuffixes, _ ≠ _))

/-- A file on disk is kept under the places of its path. -/
theorem exists_key_of_isFile (h : d.isFile path = true) :
    ∃ key ∈ d.files.names, Path.parts key = places path := by
  unfold isFile read? key? at h
  split at h
  · rename_i habsolute
    obtain ⟨content, hcontent⟩ := Option.isSome_iff_exists.1 h
    refine ⟨normal path, ?_, parts_normal habsolute⟩
    rw [Option.bind_some, List.lookup_eq_some_iff] at hcontent
    obtain ⟨before, after, hfiles, _⟩ := hcontent
    simp [Table.names, hfiles]
  · cases h

theorem moduleFile?_eq_some {base path : String} {kind : FileKind} (h : d.moduleFile? base = some (kind, path)) :
    ∃ ending, (ending, kind) ∈ moduleSuffixes ∧ path = base ++ ending ∧ d.isFile path = true := by
  obtain ⟨⟨ending, kind'⟩, hmem, hfound⟩ := List.exists_of_findSome?_eq_some h
  dsimp only at hfound
  split at hfound
  · rename_i hfile
    cases hfound
    exact ⟨ending, hmem, rfl, hfile⟩
  · cases hfound

/-- What a search in directories finds under a name. -/
inductive Below (d : Disk) (directories : List String) (name : String) : Location → Prop where
  | package {found directory : String} : directory ∈ directories → places found = places directory ++ [name] →
    Below d directories name (.package found)
  | source {path directory : String} : directory ∈ directories → d.isFile path = true →
    places path = places directory ++ [name ++ ".py"] ∨ (∃ more, places path = places directory ++ name :: more) →
    Below d directories name (.file .source path)
  | native {kind : FileKind} {path : String} : kind ≠ .source → Below d directories name (.file kind path)
  | namespacePackage {found : List String} :
    (∀ f ∈ found, ∃ directory ∈ directories, places f = places directory ++ [name]) →
    Below d directories name (.namespacePackage found)

/-- The endings of module files have no separator, and each kind of source has one. -/
theorem ending_spec {kind : FileKind} (h : (ending, kind) ∈ moduleSuffixes) : '/' ∉ ending.toList ∧
    (kind = .source → ending = ".py") ∧ (kind = .compiled → ending = ".pyc") ∧ 2 < ending.length := by
  have hall : ∀ e ∈ moduleSuffixes, '/' ∉ e.1.toList ∧ (e.2 = .source → e.1 = ".py") ∧ (e.2 = .compiled → e.1 = ".pyc") ∧
      2 < e.1.length := by decide
  exact hall _ h

variable {directory : String} {directories : List String} {kind : FileKind} {path : String}

/-- The `__init__` file of a directory makes the directory a package, or it is a module itself. -/
theorem below_init (hmem : directory ∈ directories) (hname : Path.Leads name) (hs : '/' ∉ name.toList)
    (h : d.moduleFile? (child (child directory name) "__init__") = some (kind, path)) :
    Below d directories name (if isPackageFile kind path name then .package (Path.directory path) else .file kind path) := by
  obtain ⟨ending, hending, rfl, hfile⟩ := moduleFile?_eq_some h
  obtain ⟨hslash, hsource, _, _⟩ := ending_spec hending
  have hinit : '/' ∉ ("__init__" ++ ending).toList := by
    rw [String.toList_append, List.mem_append]
    exact fun hmem => hmem.elim (by decide) hslash
  have hbase := places_child directory hname hs
  rw [child_append] at hfile ⊢
  split
  · exact .package hmem ((places_directory _ hinit).trans hbase)
  · by_cases hkind : kind = .source
    · subst hkind
      refine .source hmem hfile (.inr ⟨["__init__.py"], ?_⟩)
      rw [hsource rfl, places_child _ ⟨by decide, by decide, by decide⟩ (by decide), hbase]
      simp
    · exact .native hkind

/-- The name of a file without an ending. -/
theorem splitExtension_append (hdot : '.' ∉ name.toList) (hs : '/' ∉ name.toList) (hne : name ≠ "")
    (he : ending = ".py" ∨ ending = ".pyc") : (splitExtension (name ++ ending)).1 = name := by
  obtain ⟨more, hmore, hdots, hslash⟩ : ∃ more, ending.toList = '.' :: more ∧ '.' ∉ more ∧ '/' ∉ more := by
    rcases he with rfl | rfl
    · exact ⟨['p', 'y'], rfl, by decide, by decide⟩
    · exact ⟨['p', 'y', 'c'], rfl, by decide, by decide⟩
  obtain ⟨c, cs, hcs⟩ := List.exists_cons_of_ne_nil (show name.toList ≠ [] by simpa using hne)
  have hc : (c == '.') = false := by
    simp only [hcs, List.mem_cons, not_or] at hdot
    simpa using Ne.symm hdot.1
  have hplain : ∀ x ∈ (name ++ ending).toList.reverse, (x != '/') = true := by
    intro x hx
    simp only [String.toList_append, hmore, List.mem_reverse, List.mem_append, List.mem_cons] at hx
    rcases hx with hx | rfl | hx
    · simpa using fun heq : x = '/' => hs (heq ▸ hx)
    · rfl
    · simpa using fun heq : x = '/' => hslash (heq ▸ hx)
  have hsplit : splitLast (name ++ ending).toList = ([], (name ++ ending).toList) := by
    rw [splitLast, List.dropWhile_eq_nil_iff.2 hplain, List.takeWhile_eq_self_iff.2 hplain]
    simp
  have hnotDot : ∀ x ∈ more.reverse, (x != '.') = true := by
    intro x hx
    simpa using fun heq : x = '.' => hdots (heq ▸ List.mem_reverse.1 hx)
  have hstem : ((name ++ ending).toList.reverse.dropWhile fun c => c != '.').reverse = name.toList ++ ['.'] := by
    rw [String.toList_append, hmore, List.reverse_append, List.reverse_cons, List.append_assoc,
      List.dropWhile_append_of_pos hnotDot]
    simp
  have hdots' : (name ++ ending).toList.takeWhile (fun c => c == '.') = [] ∧
      (name ++ ending).toList.dropWhile (fun c => c == '.') = (name ++ ending).toList := by
    simp [String.toList_append, hcs, hc]
  unfold splitExtension
  rw [hsplit]
  dsimp only
  rw [hdots'.1, hdots'.2, hstem]
  simp

/-- A file that is not named `__init__` is not the `__init__` of a package. -/
theorem stem_ne_init (hdot : '.' ∉ name.toList) (hs : '/' ∉ name.toList) (he : ending = ".py" ∨ ending = ".pyc") :
    ((splitExtension (name ++ ending)).1 == "__init__" && name != "__init__") = false := by
  by_cases hne : name = ""
  · rcases he with rfl | rfl <;> subst hne <;> decide
  · rw [splitExtension_append hdot hs hne he]
    cases hinit : name == "__init__" <;> simp_all

/-- A module file next to others is no package, unless an extension module is named `__init__`. -/
theorem below_file (hplain : d.Plain) (hmem : directory ∈ directories) (hdot : '.' ∉ name.toList) (hs : '/' ∉ name.toList)
    (h : d.moduleFile? (child directory name) = some (kind, path)) :
    Below d directories name (if isPackageFile kind path name then .package (Path.directory path) else .file kind path) := by
  obtain ⟨ending, hending, rfl, hfile⟩ := moduleFile?_eq_some h
  obtain ⟨hslash, hsource, hcompiled, hlong⟩ := ending_spec hending
  have hentry : '/' ∉ (name ++ ending).toList := by simp [hs, hslash]
  have hlength : 2 < (name ++ ending).length := by
    rw [String.length_append]
    omega
  have hleads : Path.Leads (name ++ ending) := by
    refine ⟨?_, ?_, ?_⟩ <;> intro heq <;> rw [heq] at hlength <;> revert hlength <;> decide
  have hplaces := places_child directory hleads hentry
  have hlast := lastPart_child directory hentry
  rw [child_append] at hfile ⊢
  have hno : isPackageFile kind (child directory (name ++ ending)) name = false := by
    unfold isPackageFile
    rw [hlast]
    cases kind with
    | extension =>
      rw [List.any_eq_false]
      intro e he heq
      obtain ⟨key, hkey, hparts⟩ := exists_key_of_isFile hfile
      refine hplain key hkey e he ?_
      rw [hparts, hplaces, List.getLast?_concat, eq_of_beq heq]
    | source => exact stem_ne_init hdot hs (.inl (hsource rfl))
    | compiled => exact stem_ne_init hdot hs (.inr (hcompiled rfl))
  rw [hno]
  by_cases hkind : kind = .source
  · subst hkind
    rw [hsource rfl] at hfile hplaces ⊢
    exact .source hmem hfile (.inl hplaces)
  · exact .native hkind

/-- What a directory has to offer under a name: an `__init__` in a directory of that name, a file, or the directory. -/
theorem offer_cases {offer : Offer} (h : d.offer directory name = offer) :
    offer = .nothing ∨ '/' ∉ name.toList ∧
      ((∃ kind path, offer = .file kind path ∧
        (name ≠ "" ∧ d.moduleFile? (child (child directory name) "__init__") = some (kind, path) ∨
        d.moduleFile? (child directory name) = some (kind, path))) ∨
      name ≠ "" ∧ offer = .portion (child directory name)) := by
  subst h
  unfold Disk.offer
  split
  · exact .inl rfl
  · rename_i hs
    generalize hinit : (if name.isEmpty = true then none else d.moduleFile? (child (child directory name) "__init__")) = init
    dsimp only
    rw [hinit]
    rcases init with _ | ⟨kind, path⟩
    · cases hfile : d.moduleFile? (child directory name) with
      | some found => exact .inr ⟨by simpa using hs, .inl ⟨found.1, found.2, rfl, .inr rfl⟩⟩
      | none =>
        dsimp only
        split
        · rename_i hdirectory
          simp only [Bool.and_eq_true, Bool.not_eq_true', String.isEmpty_eq_false_iff] at hdirectory
          exact .inr ⟨by simpa using hs, .inr ⟨hdirectory.1, rfl⟩⟩
        · exact .inl rfl
    · split at hinit
      · cases hinit
      · rename_i hne
        exact .inr ⟨by simpa using hs, .inl ⟨kind, path, rfl, .inl ⟨by simpa using hne, hinit⟩⟩⟩

/-- What a search finds lies one place below a directory that was searched, and so do the directories it has passed. -/
theorem findFrom_below (hplain : d.Plain) (hdot : '.' ∉ name.toList) {location : Location} {all : List String} :
    ∀ {directories portions : List String}, directories ⊆ all →
      (∀ p ∈ portions, ∃ directory ∈ all, places p = places directory ++ [name]) →
      d.findFrom name portions directories = some location → Below d all name location := by
  intro directories
  induction directories with
  | nil =>
    intro portions _ hportions h
    rw [findFrom] at h
    split at h
    · cases h
    · cases h
      exact .namespacePackage hportions
  | cons directory directories ih =>
    intro portions hall hportions h
    have hmem : directory ∈ all := hall (by simp)
    have hrest : directories ⊆ all := fun x hx => hall (by simp [hx])
    rw [findFrom] at h
    cases hoffer : d.offer directory name with
    | nothing =>
      rw [hoffer] at h
      exact ih hrest hportions h
    | file kind path =>
      have hbelow :
        Below d all name (if isPackageFile kind path name then .package (Path.directory path) else .file kind path) := by
        rcases offer_cases hoffer with hno | ⟨hs, ⟨_, _, heq, ⟨hne, hinit⟩ | hfile⟩ | ⟨_, heq⟩⟩
        · cases hno
        · cases heq
          exact below_init hmem (.of_not_mem hne hdot) hs hinit
        · cases heq
          exact below_file hplain hmem hdot hs hfile
        · cases heq
      rw [hoffer] at h
      dsimp only at h
      split at h <;> rename_i hpackage <;> cases h
      · rwa [if_pos hpackage] at hbelow
      · rwa [if_neg hpackage] at hbelow
    | portion p =>
      rw [hoffer] at h
      refine ih hrest (fun q hq => ?_) h
      rcases List.mem_append.1 hq with hq | hq
      · exact hportions q hq
      · obtain rfl := List.mem_singleton.1 hq
        rcases offer_cases hoffer with hno | ⟨hs, ⟨_, _, heq, _⟩ | ⟨hne, heq⟩⟩
        · cases hno
        · cases heq
        · cases heq
          exact ⟨directory, hmem, places_child directory (.of_not_mem hne hdot) hs⟩

theorem find?_below (hplain : d.Plain) (hdot : '.' ∉ name.toList) {location : Location}
    (h : d.find? name directories = some location) : Below d directories name location :=
  findFrom_below hplain hdot (List.Subset.refl _) (by simp) h

end Disk

end ScopeFlow
