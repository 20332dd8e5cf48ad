import SchemaHistory.FileTree
import SchemaHistory.Proofs.Named
import SchemaHistory.Proofs.Sessions

/-!
# Files and directories

A path into a directory leads one place further than the path of the directory
(`Path.places_join`), and a tree is walked one name after the other. Something new in a tree stands
in the way of nothing that was found before (`FileTree.keeps_put`), and the directory it is put into
has one name more (`FileTree.entries_put`).

In a tree that is `Rooted` everything stands in a directory that can be found.
-/

namespace SchemaHistory

namespace Path

/-- A name that leads one place on. -/
structure Proper (name : String) : Prop where
  slashless : '/' ∉ name.toList
  ne_empty : name ≠ ""
  ne_dot : name ≠ "."
  ne_dots : name ≠ ".."

variable {directory name stem extension : String} {cs more : List Char}

theorem Proper.stepTo (h : Proper name) {places : List String} :
    stepTo places name = places ++ [name] := by
  unfold Path.stepTo
  rw [if_neg (not_or.mpr ⟨h.ne_empty, h.ne_dot⟩), if_neg h.ne_dots]

/-- The place that the places of an absolute path begin at. -/
def start (path : String) : List String := if path.startsWith "/" then ["/"] else []

/-- A path is cut at its slashes, and each part is one step. -/
theorem places_eq (path : String) :
    places path = ((path.toList.splitOn '/').map String.ofList).foldl stepTo (start path) := rfl

theorem start_eq (path : String) :
    start path = if path.toList.head? = some '/' then ["/"] else [] := by
  have hslash : path.startsWith "/" = true ↔ path.toList.head? = some '/' := by
    rw [String.startsWith_string_iff]
    show ['/'] <+: path.toList ↔ _
    cases path.toList with
    | nil => simp
    | cons c cs => simp [List.cons_prefix_cons, eq_comm]
  unfold start
  simp only [hslash]

/-- The last part of a path is what follows its last slash. -/
theorem splitOn_slash (h : '/' ∉ more) :
    (cs ++ '/' :: more).splitOn '/' = cs.splitOn '/' ++ [more] := by
  rw [List.splitOn_append_cons_self, List.splitOn_eq_singleton h]

theorem start_append (h : directory ≠ "") : start (directory ++ name) = start directory := by
  rw [start_eq, start_eq, String.toList_append, List.head?_append_of_ne_nil]
  simpa using h

theorem endsWith_slash : directory.endsWith "/" = true ↔ ∃ cs, directory.toList = cs ++ ['/'] := by
  rw [← String.endsWith_toSlice, String.Slice.endsWith_string_iff, String.copy_toSlice]
  exact exists_congr fun _ => eq_comm

/-- A path into a directory leads to the place of the name in the directory. -/
theorem places_join (h : Proper name) :
    places (join directory name) = places directory ++ [name] := by
  have habsolute : name.startsWith "/" = false := by
    rw [String.startsWith_string_eq_false_iff]
    rintro ⟨rest, hrest⟩
    exact h.slashless (by rw [← hrest]; exact List.mem_cons_self)
  have hlast : ∀ (xs : List (List Char)) (begun : List String),
      ((xs ++ [name.toList]).map String.ofList).foldl Path.stepTo begun
        = (xs.map String.ofList).foldl Path.stepTo begun ++ [name] := by
    intro xs begun
    rw [List.map_append, List.foldl_append]
    show Path.stepTo _ (String.ofList name.toList) = _
    rw [String.ofList_toList, h.stepTo]
  unfold join
  rw [habsolute, Bool.false_or]
  by_cases hempty : directory = ""
  · rw [hempty, if_pos (by rfl), places_eq, start, habsolute, List.splitOn_eq_singleton h.slashless]
    exact hlast [] []
  · rw [if_neg (by simpa using hempty)]
    by_cases hends : directory.endsWith "/" = true
    · -- the path of the directory ends in a slash, behind which it names nothing
      obtain ⟨cs, hcs⟩ := endsWith_slash.mp hends
      rw [if_pos hends, places_eq, places_eq, start_append hempty, String.toList_append, hcs,
        List.append_assoc, List.singleton_append, splitOn_slash h.slashless,
        splitOn_slash List.not_mem_nil, hlast, List.map_append, List.foldl_append]
      rfl
    · rw [if_neg hends]
      show places (directory ++ "/" ++ name) = _
      rw [String.append_assoc, places_eq, places_eq, start_append hempty, String.toList_append,
        String.toList_append]
      show (((directory.toList ++ '/' :: name.toList).splitOn '/').map _).foldl _ _ = _
      rw [splitOn_slash h.slashless, hlast]

/-- The extension of a file name stands behind its last dot. -/
theorem splitName_append (hstem : stem ≠ "") (hextension : '.' ∉ extension.toList) :
    splitName (stem ++ "." ++ extension) = (stem, some extension) := by
  have hname : (stem ++ "." ++ extension).toList
      = stem.toList ++ '.' :: extension.toList := by
    rw [String.toList_append, String.toList_append, List.append_assoc]
    rfl
  have hafter : ((stem.toList ++ '.' :: extension.toList).reverse.takeWhile (· ≠ '.')).reverse
      = extension.toList := by
    have hall : ∀ c ∈ extension.toList.reverse, decide (c ≠ '.') = true := by
      intro c hc
      rw [decide_eq_true_eq]
      rintro rfl
      exact hextension (List.mem_reverse.mp hc)
    rw [List.reverse_append, List.reverse_cons, List.append_assoc,
      List.takeWhile_append_of_pos hall]
    simp
  have hlength : (stem.toList ++ '.' :: extension.toList).length - extension.toList.length - 1
      = stem.toList.length := by
    simp only [List.length_append, List.length_cons]
    omega
  unfold splitName
  simp only [hname]
  rw [hafter, hlength, List.take_left, if_neg, String.ofList_toList, String.ofList_toList]
  simp [hstem]
  omega

end Path

namespace FileTree

variable {tree tree' : FileTree} {done names more places other : List String} {name path : String}
  {node new found : FileNode}

/-! ### Walking through a tree -/

/-- What is put somewhere is found there, and everything else where it was. -/
theorem at?_put : (tree.put places new).at? other
    = if places = other then some new else tree.at? other := by
  unfold put at?
  rw [List.find?_append]
  by_cases h : places = other
  · have hnone : (tree.nodes.filter (·.1 ≠ places)).find? (·.1 = other) = none := by
      rw [List.find?_eq_none]
      intro entry hentry
      have hne := (List.mem_filter.mp hentry).2
      rw [← h]
      simpa using hne
    rw [hnone, if_pos h, h]
    simp
  · rw [if_neg h, List.find?_filter]
    have hrest : ([(places, new)] : List (List String × FileNode)).find? (·.1 = other) = none := by
      simp [h]
    rw [hrest, Option.or_none]
    congr 2
    funext entry
    by_cases hentry : entry.1 = other
    · simp [hentry, Ne.symm h]
    · simp [hentry]

/-- The name is one that can be looked for. -/
def Fits (name : String) : Prop := name.utf8ByteSize ≤ nameLimit ∧ '\x00' ∉ name.toList

theorem follow_cons_eq_ok : tree.follow done node (name :: names) = .ok found ↔
    node = .directory ∧ Fits name ∧
      ∃ next, tree.at? (done ++ [name]) = some next ∧
        tree.follow (done ++ [name]) next names = .ok found := by
  cases node with
  | file text => simp [follow]
  | directory =>
      rw [follow]
      by_cases hlong : nameLimit < name.utf8ByteSize
      · rw [if_pos hlong]
        simp [Fits, Nat.not_le.mpr hlong]
      · rw [if_neg hlong]
        by_cases hzero : name.toList.contains '\x00' = true
        · rw [if_pos hzero]
          simp [Fits, List.contains_iff_mem.mp hzero]
        · rw [if_neg hzero]
          have hfits : Fits name := ⟨Nat.not_lt.mp hlong, by simpa using hzero⟩
          cases hat : tree.at? (done ++ [name]) with
          | none => simp
          | some next => simp [hfits]

/-- A walk goes on where its first part has ended. -/
theorem follow_append : tree.follow done node (names ++ more)
    = tree.follow done node names >>= fun node => tree.follow (done ++ names) node more := by
  induction names generalizing done node with
  | nil =>
      rw [List.nil_append, List.append_nil]
      cases node <;> rfl
  | cons name rest ih =>
      cases node with
      | file text => rfl
      | directory =>
          rw [List.cons_append, follow, follow]
          split
          · rfl
          split
          · rfl
          split
          · rfl
          · rw [ih, List.append_assoc, List.singleton_append]

/-- Whatever is found in the first tree is found in the second one. -/
def Keeps (tree tree' : FileTree) : Prop :=
  ∀ ⦃done node names found⦄, tree.follow done node names = .ok found →
    tree'.follow done node names = .ok found

theorem Keeps.trans {tree'' : FileTree} (h : tree.Keeps tree') (h' : tree'.Keeps tree'') :
    tree.Keeps tree'' :=
  fun _ _ _ _ hfound => h' (h hfound)

/-- What is found is found also when something new has been put into the tree. -/
theorem keeps_put (hnew : tree.at? places = none) : tree.Keeps (tree.put places new) := by
  intro done node names found h
  induction names generalizing done node with
  | nil => exact h
  | cons name rest ih =>
      obtain ⟨hnode, hfits, next, hat, hrest⟩ := follow_cons_eq_ok.mp h
      refine follow_cons_eq_ok.mpr ⟨hnode, hfits, next, ?_, ih hrest⟩
      rw [at?_put, if_neg]
      · exact hat
      · rintro rfl
        rw [hnew] at hat
        cases hat

/-- A path is there exactly if it leads somewhere. -/
theorem has_iff : tree.has path = true ↔ ∃ node, tree.find path = .ok node := by
  unfold has
  cases tree.find path <;> simp [Except.isOk, Except.toBool]

theorem Keeps.has (h : tree.Keeps tree') (hthere : tree.has path = true) :
    tree'.has path = true := by
  obtain ⟨node, hfind⟩ := has_iff.mp hthere
  exact has_iff.mpr ⟨node, h hfind⟩

/-- A file that is kept reads as before. -/
theorem Keeps.read (h : tree.Keeps tree') {text : String} (hread : tree.read path = .ok text) :
    tree'.read path = .ok text := by
  obtain ⟨found, hfind, hfound⟩ := Except.bind_eq_ok.mp hread
  rw [FileTree.read, FileTree.find, h hfind]
  exact hfound

/-! ### What stands in a directory -/

theorem at?_eq_none_iff : tree.at? places = none ↔ ∀ node, (places, node) ∉ tree.nodes := by
  unfold at?
  rw [Option.map_eq_none_iff, List.find?_eq_none]
  constructor
  · intro h node hmem
    simpa using h _ hmem
  · rintro h ⟨other, node⟩ hmem
    rw [decide_eq_true_eq]
    rintro rfl
    exact h node hmem

/-- The entries of a directory are the nodes one step further. -/
theorem mem_inside : (name, node) ∈ tree.inside places ↔ (places ++ [name], node) ∈ tree.nodes := by
  unfold inside
  rw [List.mem_filterMap]
  constructor
  · rintro ⟨⟨other, node'⟩, hmem, h⟩
    dsimp only at h
    cases hlast : other.getLast? with
    | none =>
        rw [hlast] at h
        cases h
    | some last =>
        rw [hlast] at h
        dsimp only at h
        split at h
        · next hplaces =>
            cases h
            rwa [← hplaces, List.dropLast_append_getLast? _ hlast]
        · cases h
  · intro hmem
    exact ⟨_, hmem, by simp⟩

theorem not_mem_names_inside :
    name ∉ (tree.inside places).names ↔ tree.at? (places ++ [name]) = none := by
  rw [at?_eq_none_iff, Named.names, List.mem_map]
  constructor
  · intro h node hmem
    exact h ⟨(name, node), mem_inside.mpr hmem, rfl⟩
  · rintro h ⟨⟨_, node⟩, hmem, rfl⟩
    exact h node (mem_inside.mp hmem)

theorem nodes_put (hnew : tree.at? places = none) :
    (tree.put places new).nodes = tree.nodes ++ [(places, new)] := by
  have hall : tree.nodes.filter (·.1 ≠ places) = tree.nodes := by
    rw [List.filter_eq_self]
    rintro ⟨other, node⟩ hmem
    rw [decide_eq_true_eq]
    rintro rfl
    exact at?_eq_none_iff.mp hnew node hmem
  show tree.nodes.filter (·.1 ≠ places) ++ _ = _
  rw [hall]

/-- A new node is the last entry of its directory. -/
theorem inside_put (hnew : tree.at? (places ++ [name]) = none) :
    (tree.put (places ++ [name]) new).inside places = tree.inside places ++ [(name, new)] := by
  unfold inside
  rw [nodes_put hnew, List.filterMap_append]
  simp

theorem inside_put_ne (hnew : tree.at? other = none) (h : other.dropLast ≠ places) :
    (tree.put other new).inside places = tree.inside places := by
  unfold inside
  rw [nodes_put hnew, List.filterMap_append]
  cases hlast : other.getLast? with
  | none => simp [hlast]
  | some last => simp [hlast, h]

theorem entries_eq_ok {entries : Named FileNode} : tree.entries path = .ok entries ↔
    tree.find path = .ok .directory ∧
      entries = Named.insertAll (tree.inside (Path.places path)) [] := by
  unfold FileTree.entries
  rw [Except.bind_eq_ok]
  constructor
  · rintro ⟨found, hfind, h⟩
    cases found with
    | file text => cases h
    | directory =>
        cases h
        exact ⟨hfind, rfl⟩
  · rintro ⟨hfind, rfl⟩
    exact ⟨_, hfind, rfl⟩

/-- Where something new is put into a directory, its name is all that comes to those there. -/
theorem entries_put {entries : Named FileNode} (hnew : tree.at? (Path.places path ++ [name]) = none)
    (h : tree.entries path = .ok entries) :
    (tree.put (Path.places path ++ [name]) new).entries path = .ok (entries.insert name new) := by
  obtain ⟨hfind, rfl⟩ := entries_eq_ok.mp h
  refine entries_eq_ok.mpr ⟨keeps_put hnew hfind, ?_⟩
  rw [inside_put hnew, Named.insertAll, Named.insertAll, List.foldl_append]
  rfl

/-! ### Trees in which everything can be found -/

/-- Everything in the tree stands in a directory that can be found. -/
def Rooted (tree : FileTree) : Prop :=
  ∀ entry ∈ tree.nodes, tree.follow [] .directory entry.1.dropLast = .ok .directory

/-- A node put into a directory that can be reached can be reached. -/
theorem Rooted.put (h : tree.Rooted) (hnew : tree.at? (places ++ [name]) = none)
    (hplaces : tree.follow [] .directory places = .ok .directory) :
    (tree.put (places ++ [name]) new).Rooted := by
  intro entry hentry
  rw [nodes_put hnew, List.mem_append, List.mem_singleton] at hentry
  rcases hentry with hentry | rfl
  · exact keeps_put hnew (h entry hentry)
  · rw [List.dropLast_concat]
    exact keeps_put hnew hplaces

theorem follow_directory_singleton : tree.follow done .directory [name] = .ok found ↔
    Fits name ∧ tree.at? (done ++ [name]) = some found := by
  rw [follow_cons_eq_ok]
  constructor
  · rintro ⟨-, hfits, next, hat, h⟩
    cases h
    exact ⟨hfits, hat⟩
  · rintro ⟨hfits, hat⟩
    exact ⟨rfl, hfits, found, hat, rfl⟩

/-- A file that is not found has a name that fits and a place that is free. -/
theorem at?_eq_none_of_notFound (h : tree.follow done .directory [name] = .error .notFound) :
    Fits name ∧ tree.at? (done ++ [name]) = none := by
  rw [follow] at h
  split at h
  · cases h
  · next hlong =>
      split at h
      · cases h
      · next hzero =>
          split at h
          · next hat => exact ⟨⟨Nat.not_lt.mp hlong, by simpa using hzero⟩, hat⟩
          · cases h

theorem follow_concat (hplaces : tree.follow [] .directory places = .ok .directory) :
    tree.follow [] .directory (places ++ [name]) = tree.follow places .directory [name] := by
  rw [follow_append, hplaces]
  rfl

/-- Nothing stands below what is no directory. -/
theorem Rooted.inside_eq_nil (h : tree.Rooted)
    (hnot : tree.follow [] .directory places ≠ .ok .directory) : tree.inside places = [] := by
  rw [List.eq_nil_iff_forall_not_mem]
  rintro ⟨name, node⟩ hmem
  have hplaces := h _ (mem_inside.mp hmem)
  rw [List.dropLast_concat] at hplaces
  exact hnot hplaces

/-! ### Making directories -/

/-- A directory that may have been missing is there now, and that is all that has changed. -/
structure Opened (tree : FileTree) (places : List String) (tree' : FileTree) : Prop where
  rooted : tree'.Rooted
  there : tree'.follow [] .directory places = .ok .directory
  keeps : tree.Keeps tree'
  inside_eq : tree'.inside places = tree.inside places

/-- Directories that are made on the way can be opened, and what was there is kept. -/
theorem opened_of_makeDirectoriesFrom (hrooted : tree.Rooted)
    (hdone : tree.follow [] .directory done = .ok .directory)
    (h : tree.makeDirectoriesFrom done names = .ok tree') : tree.Opened (done ++ names) tree' := by
  induction names generalizing tree done with
  | nil =>
      cases h
      rw [List.append_nil]
      exact ⟨hrooted, hdone, fun _ _ _ _ hfound => hfound, rfl⟩
  | cons name rest ih =>
      have hplaces : done ++ name :: rest = (done ++ [name]) ++ rest := by simp
      rw [makeDirectoriesFrom] at h
      rw [hplaces]
      split at h
      · next hthere => exact ih hrooted ((follow_concat hdone).trans hthere) h
      · cases h
      · next hmissing =>
          obtain ⟨hfits, hnew⟩ := at?_eq_none_of_notFound hmissing
          have hmade : (tree.put (done ++ [name]) .directory).follow [] .directory (done ++ [name])
              = .ok .directory := by
            rw [follow_concat (keeps_put hnew hdone), follow_directory_singleton, at?_put,
              if_pos rfl]
            exact ⟨hfits, rfl⟩
          have hopened := ih (hrooted.put hnew hdone) hmade h
          refine ⟨hopened.rooted, hopened.there, (keeps_put hnew).trans hopened.keeps,
            hopened.inside_eq.trans (inside_put_ne hnew ?_)⟩
          rw [List.dropLast_concat]
          simp
      · cases h

theorem opened_of_makeDirectories (hrooted : tree.Rooted)
    (h : tree.makeDirectories path = .ok tree') : tree.Opened (Path.places path) tree' :=
  opened_of_makeDirectoriesFrom hrooted rfl h

/-! ### Writing and reading -/

/-- A file that is written where nothing was is there now, and its text is read. -/
theorem write_new (hdirectory : tree.follow [] .directory places = .ok .directory)
    (hpath : Path.places path = places ++ [name]) (hnew : tree.at? (places ++ [name]) = none)
    {text : String} (h : tree.write path text = .ok tree') :
    tree' = tree.put (places ++ [name]) (.file (some text)) ∧ tree'.read path = .ok text := by
  have hfind : tree.find path = tree.follow places .directory [name] := by
    rw [find, hpath, follow_concat hdirectory]
  have hfits : Fits name ∧ tree' = tree.put (places ++ [name]) (.file (some text)) := by
    unfold FileTree.write at h
    rw [hfind, hpath] at h
    split at h
    · cases h
    · next hfile =>
        rw [follow_directory_singleton, hnew] at hfile
        cases hfile.2
    · next hmissing =>
        cases h
        exact ⟨(at?_eq_none_of_notFound hmissing).1, rfl⟩
    · cases h
  obtain ⟨hfits, rfl⟩ := hfits
  refine ⟨rfl, ?_⟩
  have hthere : (tree.put (places ++ [name]) (.file (some text))).find path
      = .ok (.file (some text)) := by
    rw [find, hpath, follow_concat (keeps_put hnew hdirectory), follow_directory_singleton, at?_put,
      if_pos rfl]
    exact ⟨hfits, rfl⟩
  rw [FileTree.read, hthere]
  rfl

end FileTree

end SchemaHistory
