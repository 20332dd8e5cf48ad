import SchemaHistory.Proofs.MigrationDocuments
import SchemaHistory.Proofs.ReachDeclared
import SchemaHistory.Proofs.StoredMigrations

/-!
# The next migration

`MigrationStore.make` puts what is left to do between the migrations of an app and the models
declared for it into a new migration. Where the keys fit, this leads there: once it has been
written, the migrations that are loaded can be replayed, and nothing is left to do
(`MigrationStore.nothing_left_to_make`). Where they do not, no state comes out of what is written
(`MigrationStore.key_change_is_stuck`).
-/

namespace SchemaHistory

namespace AppSchema

variable {app : String} {existing : List Migration} {migration : Migration} {models : List Model}
  {operations : List Operation} {s t u : AppSchema}

theorem forM_inContext_eq_ok (migration : Migration) :
    operations.forM (fun operation => inContext migration operation.apply) s = .ok () u ↔
      operations.forM Operation.apply s = .ok () u := by
  induction operations generalizing s with
  | nil => rw [forM_nil_eq_ok, forM_nil_eq_ok]
  | cons operation rest ih =>
      rw [forM_cons_eq_ok, forM_cons_eq_ok]
      constructor
      · rintro ⟨v, hstep, hrest⟩
        exact ⟨v, adaptExcept_eq_ok.mp hstep, ih.mp hrest⟩
      · rintro ⟨v, hstep, hrest⟩
        exact ⟨v, adaptExcept_eq_ok.mpr hstep, ih.mpr hrest⟩

/-- A migration of the app leads where its operations do. -/
theorem next_iff_forM (happ : migration.app = s.app) : s.next migration = .ok t ↔
    ∃ u, migration.operations.forM Operation.apply s = .ok () u ∧ t = u.recorded migration := by
  rw [next_eq_ok]
  constructor
  · rintro ⟨-, steps, u, hpath, hmap, rfl⟩
    exact ⟨u, (forM_inContext_eq_ok migration).mp (forM_eq_ok_iff.mpr ⟨steps, hpath, hmap⟩), rfl⟩
  · rintro ⟨u, hall, rfl⟩
    obtain ⟨steps, hpath, hmap⟩ := forM_eq_ok_iff.mp ((forM_inContext_eq_ok migration).mpr hall)
    exact ⟨happ, steps, u, hpath, hmap, rfl⟩

/-- Each recorded model has the field that is declared to be its key, and is declared with the field
that is its key now. -/
def KeysFit (s : AppSchema) (models : List Model) : Prop :=
  ∀ m ∈ models, ∀ prior, s.model? m.name = some prior → prior.KeysFit m

/-- A migration that does what is left to do can be replayed where the keys fit. -/
theorem replay_next_iff (hfields : ∀ earlier ∈ existing, earlier.FieldsDiffer)
    (hreplay : replay app existing = .ok s) (hmodels : ∀ m ∈ models, m.Sound ∧ m.Keyed app)
    (hnames : (models.map (·.name)).Nodup) (happ : migration.app = app)
    (hoperations : migration.operations = s.diff models) :
    replay app (existing ++ [migration]) = .ok t ↔
      s.KeysFit models ∧ t = (s.ledTo models).recorded migration := by
  have happs := app_eq_of_replay hreplay
  have hiff := fun u => forM_diff_iff (t := u) (replay_sound hfields hreplay)
    (replay_keyed hfields hreplay) (happs.symm ▸ hmodels) hnames
  rw [replay_append_singleton]
  constructor
  · rintro ⟨s', hs', hnext⟩
    obtain rfl := Except.ok.inj (hreplay.symm.trans hs')
    obtain ⟨u, hall, rfl⟩ := (next_iff_forM (happ.trans happs.symm)).mp hnext
    rw [hoperations] at hall
    obtain ⟨hfit, rfl⟩ := (hiff u).mp hall
    exact ⟨hfit, rfl⟩
  · rintro ⟨hfit, rfl⟩
    refine ⟨s, hreplay, (next_iff_forM (happ.trans happs.symm)).mpr ⟨_, ?_, rfl⟩⟩
    rw [hoperations]
    exact (hiff _).mpr ⟨hfit, rfl⟩

end AppSchema

namespace MigrationStore

/-! ### The migration that is made -/

variable {store : MigrationStore} {tree tree' : FileTree} {app path : String}
  {existing : List Migration} {migration : Migration} {declarations : List Declaration}
  {models : List Model} {label : Option String} {state : AppSchema}

/-- Declarations are built one by one. -/
theorem buildAll_eq_ok (h : buildAll app declarations = .ok models) :
    List.Forall₂ (fun declaration m => declaration.build app = .ok m) declarations models :=
  Except.mapM_eq_ok.mp (Except.mapError_eq_ok.mp h)

/-- The models of declarations that are sound by themselves and apart from one another. -/
theorem models_of_buildAll (h : buildAll app declarations = .ok models)
    (hfields : ∀ declaration ∈ declarations, declaration.fields.names.Nodup)
    (hnames : (declarations.map (·.name)).Nodup) :
    (∀ m ∈ models, m.Sound ∧ m.Keyed app) ∧ (models.map (·.name)).Nodup := by
  have hall := buildAll_eq_ok h
  have hsame : models.map (·.name) = declarations.map (·.name) := by
    clear h hnames
    induction hall with
    | nil => rfl
    | cons hbuild _ ih =>
        obtain ⟨hfirst, hrest⟩ := List.forall_mem_cons.mp hfields
        rw [List.map_cons, List.map_cons, ih hrest, (Model.build_eq_ok hfirst hbuild).2.2]
  refine ⟨fun m hm => ?_, hsame.symm ▸ hnames⟩
  obtain ⟨declaration, hdeclaration, hbuild⟩ :=
    Except.exists_of_mem_mapM (Except.mapError_eq_ok.mp h) hm
  obtain ⟨hsound, hkeyed, -⟩ := Model.build_eq_ok (hfields _ hdeclaration) hbuild
  exact ⟨hsound, hkeyed⟩

/-- The next migration does what is left to do. -/
theorem makeAfter_eq_some (hreplay : AppSchema.replay app existing = .ok state)
    (hbuild : buildAll app declarations = .ok models)
    (h : makeAfter app existing declarations label = .ok (some migration)) :
    migration.app = app ∧ migration.Numbered ∧ migration.operations = state.diff models ∧
      migration.name = s!"{numberAfter existing}_{label.getD (usualLabel existing)}" := by
  obtain ⟨_, hstate, h⟩ := Except.bind_eq_ok.mp h
  obtain ⟨_, hmodels, h⟩ := Except.bind_eq_ok.mp h
  obtain rfl := Except.ok.inj (hreplay.symm.trans hstate)
  obtain rfl := Except.ok.inj (hbuild.symm.trans hmodels)
  dsimp only at h
  split at h
  · cases h
  · obtain ⟨named, hnamed, h⟩ := Except.bind_eq_ok.mp h
    obtain ⟨happ, hname, hnumbered, -⟩ := Migration.ofName_eq_ok hnamed
    cases h
    exact ⟨happ, hnumbered, rfl, hname⟩

/-- Where the declarations are those of the replayed state no migration is made. -/
theorem makeAfter_of_nothing (hreplay : AppSchema.replay app existing = .ok state)
    (hbuild : buildAll app declarations = .ok models) (hdiff : state.diff models = []) :
    makeAfter app existing declarations label = .ok none := by
  refine Except.bind_eq_ok.mpr ⟨state, hreplay, Except.bind_eq_ok.mpr ⟨models, hbuild, ?_⟩⟩
  rw [hdiff]
  rfl

/-- Making a migration loads the app and goes on from what was loaded. -/
theorem make_eq (hload : store.load tree app = .ok existing) :
    store.make tree app declarations label = makeAfter app existing declarations label := by
  rw [make, hload]
  rfl

/-- Let a migration be made for declared models from the migrations of an app, whose last number is
in the digits 0 to 9, and written as a text that is read again. Then it is loaded behind them. They
can be replayed exactly if the keys fit, and nothing is left to be made then. -/
theorem nothing_left_to_make (hvocabulary : store.vocabulary = .standard) (hrooted : tree.Rooted)
    (hload : store.load tree app = .ok existing)
    (hreplay : AppSchema.replay app existing = .ok state)
    (hbuild : buildAll app declarations = .ok models)
    (hfields : ∀ declaration ∈ declarations, declaration.fields.names.Nodup)
    (hnames : (declarations.map (·.name)).Nodup)
    (hdigits : ∀ last ∈ existing.getLast?, ∀ c ∈ last.number.toList, c.isDigit = true)
    (hmake : store.make tree app declarations label = .ok (some migration))
    (hread : Migration.read .standard migration.text = .ok migration)
    (hwrite : store.write migration tree = .ok path tree') :
    tree'.Rooted ∧ store.load tree' app = .ok (existing ++ [migration]) ∧
      ((∃ state', AppSchema.replay app (existing ++ [migration]) = .ok state') ↔
        state.KeysFit models) ∧
      (state.KeysFit models →
        ∀ label', store.make tree' app declarations label' = .ok none) := by
  have hloaded : ∀ earlier ∈ existing, earlier.Numbered ∧ earlier.FieldsDiffer := by
    intro earlier hearlier
    obtain ⟨-, text, hearlierRead⟩ := exists_text_of_mem_load hload hearlier
    rw [hvocabulary] at hearlierRead
    exact Migration.read_eq_ok hearlierRead
  rw [make_eq hload] at hmake
  obtain ⟨happ, hnumbered, hoperations, hname⟩ := makeAfter_eq_some hreplay hbuild hmake
  have hlast := comes_last (fun earlier hearlier => (hloaded earlier hearlier).1)
    (ascending_of_load hload) hdigits hnumbered hname
  obtain ⟨hrooted', hload'⟩ := load_write hrooted hload happ hnumbered hlast
    (hvocabulary.symm ▸ hread) hwrite
  obtain ⟨hmodels, hmodelNames⟩ := models_of_buildAll hbuild hfields hnames
  have hiff := fun t => AppSchema.replay_next_iff (t := t)
    (fun earlier hearlier => (hloaded earlier hearlier).2) hreplay hmodels hmodelNames happ
    hoperations
  refine ⟨hrooted', hload', ?_, ?_⟩
  · constructor
    · rintro ⟨t, ht⟩
      exact ((hiff t).mp ht).1
    · intro hfit
      exact ⟨_, (hiff _).mpr ⟨hfit, rfl⟩⟩
  · intro hfit label'
    have hdone := AppSchema.diff_ledTo
      (AppSchema.replay_sound (fun earlier hearlier => (hloaded earlier hearlier).2) hreplay)
      (fun m hm => (hmodels m hm).1) hmodelNames
    rw [make_eq hload']
    exact makeAfter_of_nothing ((hiff _).mpr ⟨hfit, rfl⟩) hbuild hdone

/-! ### Notes with titles, and notes with another key -/

def shelf : MigrationStore := { directory := "m" }

/-- A tree that holds the first migration of the notes. -/
def noteTree : FileTree where
  nodes := [(["m"], .directory), (["m", "notes"], .directory),
    (["m", "notes", "0001_initial.json"], .file (some Operation.noteMigration.text))]

theorem rooted_noteTree : noteTree.Rooted := by
  unfold FileTree.Rooted
  decide +kernel

theorem read_noteMigration : Migration.read .standard Operation.noteMigration.text
    = .ok Operation.noteMigration :=
  Migration.read_text_eq (by decide +kernel) (by decide +kernel) (by decide +kernel)

theorem load_noteTree : shelf.load noteTree "notes" = .ok [Operation.noteMigration] := by
  have hdirectory : Path.places (shelf.appDirectory "notes") = ["m", "notes"] := by decide +kernel
  have hfile : Path.places (Path.join (shelf.appDirectory "notes") "0001_initial.json")
      = ["m", "notes", "0001_initial.json"] := by decide +kernel
  have hentries : noteTree.entries (shelf.appDirectory "notes")
      = .ok [("0001_initial.json", .file (some Operation.noteMigration.text))] := by
    refine FileTree.entries_eq_ok.mpr ⟨by decide +kernel, ?_⟩
    rw [hdirectory]
    rfl
  have hread : shelf.readFile noteTree "notes" "0001_initial.json"
      = .ok Operation.noteMigration := by
    refine readFile_eq_ok.mpr
      ⟨Operation.noteMigration.text, ?_, read_noteMigration, by decide +kernel, rfl⟩
    rw [FileTree.read, FileTree.find, hfile]
    rfl
  exact (load_eq_ok (by decide +kernel)).mpr ⟨_, _, hentries, .cons hread .nil, List.Perm.refl _,
    List.pairwise_singleton _ _, List.nodup_singleton _⟩

def titledDeclaration : Declaration where
  name := "Note"
  table := some "note"
  fields := [("title", .ofKind (.char 80))]
  indexes := [("note_title_idx", ["title"])]

def titledMigration : Migration where
  app := "notes"
  name := "0002_auto"
  dependencies := [("notes", "0001_initial")]
  operations := [.removeFields "Note" ["text"], .addFields "Note" [("title", .ofKind (.char 80))],
    .addIndex "Note" "note_title_idx" ["title"]]

theorem read_titledMigration : Migration.read .standard titledMigration.text
    = .ok titledMigration :=
  Migration.read_text_eq (by decide +kernel) (by decide +kernel) (by decide +kernel)

theorem exists_write (h : (match store.write migration tree with
    | .ok _ _ => true
    | .error _ _ => false) = true) : ∃ path tree', store.write migration tree = .ok path tree' := by
  split at h
  · next path tree' hwrite => exact ⟨path, tree', hwrite⟩
  · cases h

/-- The notes get titles instead of texts. The migration for it is written, and that is all. -/
theorem titles_settled : ∃ path tree',
    shelf.write titledMigration noteTree = .ok path tree' ∧
    shelf.load tree' "notes" = .ok [Operation.noteMigration, titledMigration] ∧
    (∃ state, AppSchema.replay "notes" [Operation.noteMigration, titledMigration] = .ok state) ∧
    ∀ label, shelf.make tree' "notes" [titledDeclaration] label = .ok none := by
  obtain ⟨path, tree', hwrite⟩ : ∃ path tree',
      shelf.write titledMigration noteTree = .ok path tree' := exists_write (by decide +kernel)
  have hmake : shelf.make noteTree "notes" [titledDeclaration] none
      = .ok (some titledMigration) := by
    rw [make_eq load_noteTree]
    decide +kernel
  have hbuild : buildAll "notes" [titledDeclaration] = .ok [AppSchema.titledNote] := rfl
  have hfit : Operation.noteState.KeysFit [AppSchema.titledNote] := by
    intro m hm prior hprior
    rw [List.mem_singleton.mp hm] at hprior ⊢
    cases hprior
    exact ⟨by decide, by decide⟩
  have hdigits : ∀ last ∈ [Operation.noteMigration].getLast?,
      ∀ c ∈ last.number.toList, c.isDigit = true := by
    intro last hlast
    cases hlast
    have hall : Operation.noteMigration.number.toList.all Char.isDigit = true := by decide +kernel
    exact List.all_eq_true.mp hall
  obtain ⟨-, hload, hreplay, hsettled⟩ := nothing_left_to_make rfl rooted_noteTree load_noteTree rfl
    hbuild (by decide) (by decide) hdigits hmake read_titledMigration hwrite
  exact ⟨path, tree', hwrite, hload, hreplay.mpr hfit, hsettled hfit⟩

/-- The notes with a code as their key, in place of a counted one. -/
def codeDeclaration : Declaration where
  name := "Note"
  table := some "note"
  fields := [("code", { Field.ofKind .text with primaryKey := true }), ("text", .ofKind .text)]

/-- What is made for them. Operations neither remove a key nor add one. -/
def codeMigration : Migration where
  app := "notes"
  name := "0002_auto"
  dependencies := [("notes", "0001_initial")]
  operations := [.removeFields "Note" ["id"],
    .addFields "Note" [("code", { Field.ofKind .text with primaryKey := true })]]

theorem read_codeMigration : Migration.read .standard codeMigration.text = .ok codeMigration :=
  Migration.read_text_eq (by decide +kernel) (by decide +kernel) (by decide +kernel)

/-- The notes are declared with another key. A migration is made, written and loaded, and from then
on no state comes out of the migrations and nothing can be made. -/
theorem key_change_is_stuck : ∃ path tree',
    shelf.load noteTree "notes" = .ok [Operation.noteMigration] ∧
    AppSchema.replay "notes" [Operation.noteMigration] = .ok Operation.noteState ∧
    (∃ models, buildAll "notes" [codeDeclaration] = .ok models) ∧
    shelf.make noteTree "notes" [codeDeclaration] none = .ok (some codeMigration) ∧
    shelf.write codeMigration noteTree = .ok path tree' ∧
    shelf.load tree' "notes" = .ok [Operation.noteMigration, codeMigration] ∧
    (∀ state, AppSchema.replay "notes" [Operation.noteMigration, codeMigration] ≠ .ok state) ∧
    ∀ label made, shelf.make tree' "notes" [codeDeclaration] label ≠ .ok made := by
  obtain ⟨path, tree', hwrite⟩ : ∃ path tree',
      shelf.write codeMigration noteTree = .ok path tree' := exists_write (by decide +kernel)
  have hmake : shelf.make noteTree "notes" [codeDeclaration] none = .ok (some codeMigration) := by
    rw [make_eq load_noteTree]
    decide +kernel
  have hlast : ∀ earlier ∈ [Operation.noteMigration],
      earlier.number < codeMigration.number ∧ earlier.name < codeMigration.name := by
    intro earlier hearlier
    rw [List.mem_singleton.mp hearlier]
    decide +kernel
  have hnumbered : codeMigration.Numbered := by
    unfold Migration.Numbered
    decide +kernel
  obtain ⟨-, hload⟩ := load_write rooted_noteTree load_noteTree rfl hnumbered hlast
    read_codeMigration hwrite
  have hstuck : ∀ state,
      AppSchema.replay "notes" [Operation.noteMigration, codeMigration] ≠ .ok state := by
    intro state hreplay
    have hnone : (AppSchema.replay "notes" [Operation.noteMigration, codeMigration]).toOption
        = none := by decide +kernel
    rw [hreplay] at hnone
    cases hnone
  refine ⟨path, tree', load_noteTree, rfl, ⟨_, rfl⟩, hmake, hwrite, hload, hstuck, ?_⟩
  intro label made hmade
  rw [make_eq hload] at hmade
  obtain ⟨state, hreplay, -⟩ := Except.bind_eq_ok.mp hmade
  exact hstuck state hreplay

end MigrationStore

end SchemaHistory
