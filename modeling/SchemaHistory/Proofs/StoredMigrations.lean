import SchemaHistory.Proofs.Files
import SchemaHistory.Proofs.MigrationNumbers
import Mathlib.Data.List.Perm.Basic

/-!
# Migrations that are written and read again

What a store loads for an app are the migrations in the files of its directory, in ascending order
(`MigrationStore.load_eq_ok`). A migration that comes behind them, and whose text is read as it was
written, is loaded behind them when it has been written (`MigrationStore.load_write`).

In between lies the tree of files. Writing makes the directory if it is missing (`load_opened`) and
puts one file into it, under a name that no file there has yet (`not_listed`); the files that were
there are read as before (`readFile_of_keeps`), and the list of names has one more
(`filesOf_insert`).
-/

namespace SchemaHistory

namespace MigrationStore

variable {store : MigrationStore} {tree tree' : FileTree} {app file path : String}
  {existing read : List Migration} {migration : Migration} {entries : Named FileNode}

/-! ### Loading -/

def filesOf (entries : Named FileNode) : List String :=
  entries.names.filter fun name => (Path.splitName name).2 = some "json"

/-- A file is read as a migration if its text can be read and tells the name of the file and the
app. -/
theorem readFile_eq_ok : store.readFile tree app file = .ok migration ↔
    ∃ text, tree.read (Path.join (store.appDirectory app) file) = .ok text ∧
      Migration.read store.vocabulary text = .ok migration ∧
      migration.name = (Path.splitName file).1 ∧ migration.app = app := by
  unfold readFile
  constructor
  · intro h
    obtain ⟨text, htext, h⟩ := Except.bind_eq_ok.mp h
    obtain ⟨found, hfound, h⟩ := Except.bind_eq_ok.mp h
    by_cases hname : found.name = (Path.splitName file).1
    · rw [if_neg (not_not.mpr hname)] at h
      by_cases happ : found.app = app
      · rw [if_neg (not_not.mpr happ)] at h
        cases h
        exact ⟨text, Except.mapError_eq_ok.mp htext, Except.mapError_eq_ok.mp hfound, hname, happ⟩
      · rw [if_pos happ] at h
        cases h
    · rw [if_pos hname] at h
      cases h
  · rintro ⟨text, htext, hfound, hname, happ⟩
    refine Except.bind_eq_ok.mpr ⟨text, Except.mapError_eq_ok.mpr htext,
      Except.bind_eq_ok.mpr ⟨migration, Except.mapError_eq_ok.mpr hfound, ?_⟩⟩
    rw [if_neg (not_not.mpr hname), if_neg (not_not.mpr happ)]
    rfl

/-- What could be read is read as it was, whatever has come into the tree. -/
theorem readFile_of_keeps (hkeeps : tree.Keeps tree')
    (h : store.readFile tree app file = .ok migration) :
    store.readFile tree' app file = .ok migration := by
  obtain ⟨text, htext, hrest⟩ := readFile_eq_ok.mp h
  exact readFile_eq_ok.mpr ⟨text, hkeeps.read htext, hrest⟩

/-- No number is repeated exactly if they differ from each other and from those seen. -/
theorem repeatedNumber?_eq_none {seen : List String} : repeatedNumber? seen existing = none ↔
    (existing.map (·.number)).Nodup ∧ List.Disjoint (existing.map (·.number)) seen := by
  induction existing generalizing seen with
  | nil => simp [repeatedNumber?]
  | cons migration rest ih =>
      rw [repeatedNumber?, List.map_cons, List.nodup_cons, List.disjoint_cons_left]
      by_cases hseen : migration.number ∈ seen
      · simp [hseen]
      · rw [if_neg (by simpa using hseen), ih, List.disjoint_cons_right]
        tauto

theorem exists_of_mem_files {files : List String}
    (h : List.Forall₂ (fun file migration => store.readFile tree app file = .ok migration)
      files read)
    (hfile : file ∈ files) : ∃ migration ∈ read, store.readFile tree app file = .ok migration := by
  obtain ⟨i, hi, rfl⟩ := List.getElem_of_mem hfile
  exact ⟨_, List.get_mem read ⟨i, h.length_eq ▸ hi⟩, h.get hi (h.length_eq ▸ hi)⟩

/-- What is loaded where the app has a directory. -/
theorem load_eq_ok (hthere : tree.has (store.appDirectory app) = true) :
    store.load tree app = .ok existing ↔ ∃ entries read,
      tree.entries (store.appDirectory app) = .ok entries ∧
      List.Forall₂ (fun file migration => store.readFile tree app file = .ok migration)
        (filesOf entries) read ∧
      existing.Perm read ∧ existing.Pairwise (·.name < ·.name) ∧
        (existing.map (·.number)).Nodup := by
  unfold load
  rw [hthere]
  constructor
  · intro h
    obtain ⟨entries, hentries, h⟩ := Except.bind_eq_ok.mp h
    obtain ⟨read, hread, h⟩ := Except.bind_eq_ok.mp h
    dsimp only at h
    split at h
    · cases h
    · next hnone =>
        cases h
        obtain ⟨hnumbers, -⟩ := repeatedNumber?_eq_none.mp hnone
        refine ⟨entries, read, Except.mapError_eq_ok.mp hentries, Except.mapM_eq_ok.mp hread,
          List.mergeSort_perm _ _, ?_, hnumbers⟩
        -- two migrations of one name would have one number
        refine ((Migration.pairwise_sorted read).and (List.pairwise_map.mp hnumbers)).imp ?_
        rintro a b ⟨hle, hne⟩
        refine lt_of_le_of_ne hle fun heq => hne ?_
        rw [Migration.number, Migration.number, heq]
  · rintro ⟨entries, read, hentries, hread, hperm, hascending, hnumbers⟩
    refine Except.bind_eq_ok.mpr ⟨entries, Except.mapError_eq_ok.mpr hentries,
      Except.bind_eq_ok.mpr ⟨read, Except.mapM_eq_ok.mpr hread, ?_⟩⟩
    rw [Migration.mergeSort_eq hperm hascending]
    dsimp only
    rw [repeatedNumber?_eq_none.mpr ⟨hnumbers, List.disjoint_nil_right _⟩]
    rfl

/-- Without a directory the app has no migrations. -/
theorem load_of_missing (hmissing : tree.has (store.appDirectory app) = false) :
    store.load tree app = .ok [] := by
  unfold load
  rw [hmissing]
  rfl

/-- Migrations are loaded by name. -/
theorem ascending_of_load (h : store.load tree app = .ok existing) :
    existing.Pairwise (·.name < ·.name) := by
  cases hthere : tree.has (store.appDirectory app) with
  | false =>
      rw [load_of_missing hthere] at h
      cases h
      exact List.Pairwise.nil
  | true =>
      obtain ⟨_, _, _, _, _, hascending, _⟩ := (load_eq_ok hthere).mp h
      exact hascending

/-- What is loaded has been read from a document, and belongs to the app. -/
theorem exists_text_of_mem_load (h : store.load tree app = .ok existing)
    (hmem : migration ∈ existing) :
    migration.app = app ∧ ∃ text, Migration.read store.vocabulary text = .ok migration := by
  cases hthere : tree.has (store.appDirectory app) with
  | false =>
      rw [load_of_missing hthere] at h
      cases h
      cases hmem
  | true =>
      obtain ⟨_, read, -, hfiles, hperm, -, -⟩ := (load_eq_ok hthere).mp h
      obtain ⟨file, -, hfile⟩ :=
        Except.exists_of_mem_mapM (Except.mapM_eq_ok.mpr hfiles) (hperm.mem_iff.mp hmem)
      obtain ⟨text, -, hread, -, happ⟩ := readFile_eq_ok.mp hfile
      exact ⟨happ, text, hread⟩

/-! ### Writing -/

theorem update_eq_ok {change : FileTree → Except FileFault FileTree} :
    update change tree = .ok () tree' ↔ change tree = .ok tree' := by
  unfold update
  rw [bind_eq_ok]
  constructor
  · rintro ⟨found, between, hget, h⟩
    cases hget
    cases hchange : change tree with
    | ok changed =>
        rw [hchange] at h
        cases h
        rfl
    | error fault =>
        rw [hchange] at h
        cases h
  · intro h
    refine ⟨tree, tree, rfl, ?_⟩
    rw [h]
    rfl

/-- Writing a migration makes its directory and then its file. -/
theorem write_eq_ok (h : store.write migration tree = .ok path tree') :
    ∃ between, tree.makeDirectories (store.appDirectory migration.app) = .ok between ∧
      between.write (store.filePath migration) migration.text = .ok tree' := by
  obtain ⟨⟨⟩, between, hmade, h⟩ := bind_eq_ok.mp h
  obtain ⟨⟨⟩, written, hwritten, h⟩ := bind_eq_ok.mp h
  cases h
  exact ⟨between, update_eq_ok.mp hmade, update_eq_ok.mp hwritten⟩

/-- Making the directory of an app changes nothing of what is loaded for it. -/
theorem load_opened (hrooted : tree.Rooted)
    (hopened : tree.Opened (Path.places (store.appDirectory app)) tree')
    (hload : store.load tree app = .ok existing) : store.load tree' app = .ok existing := by
  have hfound : tree'.find (store.appDirectory app) = .ok .directory := hopened.there
  have hthere : tree'.has (store.appDirectory app) = true := FileTree.has_iff.mpr ⟨_, hfound⟩
  cases hhad : tree.has (store.appDirectory app) with
  | false =>
      rw [load_of_missing hhad] at hload
      cases hload
      have hempty : tree.inside (Path.places (store.appDirectory app)) = [] := by
        refine hrooted.inside_eq_nil fun hdirectory => ?_
        rw [FileTree.has_iff.mpr ⟨_, hdirectory⟩] at hhad
        cases hhad
      refine (load_eq_ok hthere).mpr ⟨[], [], FileTree.entries_eq_ok.mpr ⟨hfound, ?_⟩, .nil,
        List.Perm.refl _, List.Pairwise.nil, List.nodup_nil⟩
      rw [hopened.inside_eq, hempty]
      rfl
  | true =>
      obtain ⟨entries, read, hentries, hread, hrest⟩ := (load_eq_ok hhad).mp hload
      obtain ⟨-, hlisted⟩ := FileTree.entries_eq_ok.mp hentries
      refine (load_eq_ok hthere).mpr
        ⟨entries, read, FileTree.entries_eq_ok.mpr ⟨hfound, ?_⟩, ?_, hrest⟩
      · rw [hlisted, hopened.inside_eq]
      · exact hread.imp fun file migration hfile => readFile_of_keeps hopened.keeps hfile

def fileName (migration : Migration) : String := migration.name ++ "." ++ "json"

theorem filePath_eq : store.filePath migration
    = Path.join (store.appDirectory migration.app) (fileName migration) := by
  rw [fileName, String.append_assoc]
  rfl

def filePlaces (store : MigrationStore) (app : String) (migration : Migration) : List String :=
  Path.places (store.appDirectory app) ++ [fileName migration]

/-- The name of a numbered migration is the name of one file in that directory. -/
theorem proper_fileName (h : migration.Numbered) : Path.Proper (fileName migration) := by
  obtain ⟨a, b, c, d, label, hname, -, hdigits, hlabel⟩ := h.name_eq
  have htext : (fileName migration).toList
      = [a, b, c, d] ++ '_' :: label ++ ['.', 'j', 's', 'o', 'n'] := by
    rw [fileName, String.toList_append, String.toList_append, hname, List.append_assoc]
    rfl
  have hlong : 2 < (fileName migration).toList.length := by
    rw [htext]
    simp
  refine ⟨?_, ?_, ?_, ?_⟩
  · intro hslash
    rw [htext] at hslash
    rcases List.mem_append.mp hslash with hname | hjson
    · rcases List.mem_append.mp hname with hdigit | hword
      · exact absurd (hdigits _ hdigit) (by decide)
      · rcases List.mem_cons.mp hword with hunderscore | hword
        · exact absurd hunderscore (by decide)
        · exact absurd (hlabel _ hword) (by decide +kernel)
    · exact absurd hjson (by decide)
  all_goals
    intro heq
    rw [heq] at hlong
    exact absurd hlong (by decide)

theorem places_filePath (happ : migration.app = app) (h : migration.Numbered) :
    Path.places (store.filePath migration) = store.filePlaces app migration := by
  rw [filePlaces, filePath_eq, happ, Path.places_join (proper_fileName h)]

theorem splitName_fileName (h : migration.Numbered) :
    Path.splitName (fileName migration) = (migration.name, some "json") := by
  refine Path.splitName_append ?_ (by decide)
  obtain ⟨a, b, c, d, label, hname, -⟩ := h.name_eq
  intro hempty
  rw [hempty] at hname
  cases hname

/-- A migration whose name is none of those loaded has no file. -/
theorem not_listed (hentries : tree.entries (store.appDirectory app) = .ok entries)
    (hfiles : List.Forall₂ (fun file migration => store.readFile tree app file = .ok migration)
      (filesOf entries) read)
    (hnumbered : migration.Numbered) (hfresh : ∀ loaded ∈ read, loaded.name ≠ migration.name) :
    tree.at? (store.filePlaces app migration) = none := by
  obtain ⟨-, hlisted⟩ := FileTree.entries_eq_ok.mp hentries
  refine FileTree.not_mem_names_inside.mp fun hinside => ?_
  have hlist : fileName migration ∈ entries.names := by
    rw [hlisted]
    exact Named.mem_names_insertAll.mpr (.inl hinside)
  have hfile : fileName migration ∈ filesOf entries :=
    List.mem_filter.mpr ⟨hlist, by rw [splitName_fileName hnumbered]; rfl⟩
  obtain ⟨loaded, hloaded, hreadFile⟩ := exists_of_mem_files hfiles hfile
  obtain ⟨-, -, -, hname, -⟩ := readFile_eq_ok.mp hreadFile
  rw [splitName_fileName hnumbered] at hname
  exact hfresh loaded hloaded hname

/-- The file of a migration is one file more. -/
theorem filesOf_insert {node : FileNode} (hnumbered : migration.Numbered)
    (hfresh : fileName migration ∉ entries.names) :
    (filesOf (entries.insert (fileName migration) node)).Perm
      (fileName migration :: filesOf entries) := by
  have hperm := (Named.insert_perm (a := node) (Named.get?_eq_none_iff.mpr hfresh)).map (·.1)
  have hfiles := hperm.filter fun name => (Path.splitName name).2 = some "json"
  rw [List.map_cons, List.filter_cons_of_pos] at hfiles
  · exact hfiles
  · rw [splitName_fileName hnumbered]
    rfl

/-- A migration that comes behind those of its app is loaded behind them when its file is there. -/
theorem load_put {node : FileNode} (hthere : tree.has (store.appDirectory app) = true)
    (hload : store.load tree app = .ok existing) (hnumbered : migration.Numbered)
    (hlast : ∀ earlier ∈ existing,
      earlier.number < migration.number ∧ earlier.name < migration.name)
    (hnew : tree.at? (store.filePlaces app migration) = none)
    (hfile : store.readFile (tree.put (store.filePlaces app migration) node) app
      (fileName migration) = .ok migration) :
    store.load (tree.put (store.filePlaces app migration) node) app
      = .ok (existing ++ [migration]) := by
  obtain ⟨entries, read, hentries, hfiles, hperm, hascending, hnumbers⟩ :=
    (load_eq_ok hthere).mp hload
  have hkeeps : tree.Keeps (tree.put (store.filePlaces app migration) node) :=
    FileTree.keeps_put hnew
  have hfresh : fileName migration ∉ entries.names := by
    obtain ⟨-, hlisted⟩ := FileTree.entries_eq_ok.mp hentries
    rw [hlisted, Named.mem_names_insertAll, not_or]
    exact ⟨FileTree.not_mem_names_inside.mpr hnew, List.not_mem_nil⟩
  have hall : List.Forall₂
      (fun file read =>
        store.readFile (tree.put (store.filePlaces app migration) node) app file = .ok read)
      (fileName migration :: filesOf entries) (migration :: read) :=
    .cons hfile (hfiles.imp fun file earlier hearlier => readFile_of_keeps hkeeps hearlier)
  obtain ⟨loaded, hloaded, hsame⟩ :=
    List.perm_comp_forall₂ (filesOf_insert hnumbered hfresh) hall
  refine (load_eq_ok (hkeeps.has hthere)).mpr
    ⟨_, loaded, FileTree.entries_put hnew hentries, hloaded, ?_, ?_, ?_⟩
  · exact (List.perm_append_singleton _ _).trans ((hperm.cons _).trans hsame.symm)
  · refine List.pairwise_append.mpr ⟨hascending, List.pairwise_singleton _ _, ?_⟩
    intro earlier hearlier other hother
    rw [List.mem_singleton.mp hother]
    exact (hlast earlier hearlier).2
  · rw [List.map_append, List.map_singleton]
    refine hnumbers.append (List.nodup_singleton _) fun number hnumber hown => ?_
    obtain ⟨earlier, hearlier, rfl⟩ := List.mem_map.mp hnumber
    have hlt := (hlast earlier hearlier).1
    rw [List.mem_singleton.mp hown] at hlt
    exact lt_irrefl _ hlt

/-- A migration that comes behind those of its app, and whose text is read as it was written, is
loaded behind them when it has been written. -/
theorem load_write (hrooted : tree.Rooted) (hload : store.load tree app = .ok existing)
    (happ : migration.app = app) (hnumbered : migration.Numbered)
    (hlast : ∀ earlier ∈ existing,
      earlier.number < migration.number ∧ earlier.name < migration.name)
    (hread : Migration.read store.vocabulary migration.text = .ok migration)
    (hwrite : store.write migration tree = .ok path tree') :
    tree'.Rooted ∧ store.load tree' app = .ok (existing ++ [migration]) := by
  obtain ⟨between, hmade, hwritten⟩ := write_eq_ok hwrite
  rw [happ] at hmade
  have hopened := FileTree.opened_of_makeDirectories hrooted hmade
  have hthere : between.has (store.appDirectory app) = true :=
    FileTree.has_iff.mpr ⟨_, hopened.there⟩
  have hbetween := load_opened hrooted hopened hload
  obtain ⟨entries, read, hentries, hfiles, hperm, -⟩ := (load_eq_ok hthere).mp hbetween
  have hnew := not_listed hentries hfiles hnumbered fun loaded hloaded =>
    ne_of_lt (hlast loaded (hperm.mem_iff.mpr hloaded)).2
  obtain ⟨rfl, htext⟩ :=
    FileTree.write_new hopened.there (places_filePath happ hnumbered) hnew hwritten
  refine ⟨hopened.rooted.put hnew hopened.there,
    load_put hthere hbetween hnumbered hlast hnew (readFile_eq_ok.mpr ?_)⟩
  rw [filePath_eq, happ] at htext
  exact ⟨migration.text, htext, hread, by rw [splitName_fileName hnumbered], happ⟩

end MigrationStore

end SchemaHistory
