import SchemaHistory.Proofs.Scripts

/-!
# Transactions

A `View` is what can be told of a database while migrations are at work on it: its contents, the
rows of its ledger, what a transaction that is open would give back, and how many have been kept. A
backend is `Reliable` if the view changes as the statements say. Any statement may be refused, and
inside a transaction a refusal may leave anything behind; what is promised then is only that the end
of the transaction takes it back.

Work that leaves the transaction alone is all or nothing when it is done by
`Migrator.inTransaction`: `inTransaction_ok` and `inTransaction_error`.
-/

namespace SchemaHistory

/-- What can be told of a database. -/
structure View (κ : Type) where
  /-- What lies outside of the ledger. -/
  contents : κ
  ledger : List LedgerEntry
  /-- What was there when the open transaction began. -/
  saved : Option (κ × List LedgerEntry) := none
  /-- The number of transactions that have been kept. -/
  commits : Nat := 0

namespace View

variable {κ : Type}

def opened (view : View κ) : View κ := { view with saved := some (view.contents, view.ledger) }

/-- The view after the open transaction is kept. -/
def kept (view : View κ) : View κ := { view with saved := none, commits := view.commits + 1 }

/-- The view after the open transaction is taken back. -/
def reverted (view : View κ) (contents : κ) (ledger : List LedgerEntry) : View κ :=
  { view with contents, ledger, saved := none }

/-- Reverting restores what was there before, if nothing was committed since. -/
theorem reverted_eq {view before : View κ} (hclosed : before.saved = none)
    (hcommits : view.commits = before.commits) :
    view.reverted before.contents before.ledger = before := by
  obtain ⟨contents, ledger, saved, commits⟩ := before
  obtain rfl : saved = none := hclosed
  obtain rfl : view.commits = commits := hcommits
  rfl

end View

namespace Ledger

def ofApp (app : String) : Condition Test := .all [⟨"app", .equal, .text app⟩]

/-- The condition that a row is that of a migration. -/
def ofMigration (app name : String) : Condition Test :=
  .join (ofApp app) .and false (.all [⟨"name", .equal, .text name⟩])

/-- The statement that asks for the rows of an app. -/
def query (app : String) : Statement :=
  .select table ["id", "app", "name", "number", "applied"] (ofApp app) "id"

def entering (app name number : String) (applied : DateTime) : Statement :=
  .insert table
    [("app", .text app), ("name", .text name), ("number", .text number),
      ("applied", .dateTime applied)]

/-- An entry says that a migration is applied. -/
def Records (app name number : String) (entry : LedgerEntry) : Prop :=
  entry.app = app ∧ entry.name = name ∧ entry.number = number

def entryOf (row : Row) : LedgerEntry := ofRow (Row.byField model.fields row)

end Ledger

def LedgerEntry.isFor (app name : String) (entry : LedgerEntry) : Bool :=
  entry.app == app && entry.name == name

/-- The rows of a migration are removed and counted. -/
def Backend.Strikes {σ κ : Type} (backend : Backend σ) (view : σ → View κ)
    (app name : String) : Prop :=
  ∀ s count t, backend.execute (.delete Ledger.table (Ledger.ofMigration app name)) s =
    .ok count t →
    count = (view s).ledger.countP (LedgerEntry.isFor app name) ∧
      view t = { view s with ledger := (view s).ledger.filter fun entry => !entry.isFor app name }

/-- A database that does what it is asked, as far as the view of it shows. `effect` says what a
statement makes of the contents, where they allow it at all. -/
structure Backend.Reliable {σ κ : Type} (backend : Backend σ) (effect : Statement → κ → Option κ)
    (view : σ → View κ) : Prop where
  /-- A change to tables goes to the contents. -/
  change : ∀ statement s count t, statement.IsChange → backend.execute statement s = .ok count t →
    ∃ contents, effect statement (view s).contents = some contents ∧
      view t = { view s with contents }
  /-- The row of a migration is added behind the others. -/
  enter : ∀ app name number s count t,
    backend.execute (Ledger.entering app name number backend.now) s = .ok count t →
    ∃ entry, Ledger.Records app name number entry ∧
      view t = { view s with ledger := (view s).ledger ++ [entry] }
  /-- Rows are removed by their names, at least those with the name of a migration. A name that is
  no such name may also be what is read in a row that holds no text. -/
  strike : ∀ app name, (MigrationName.split? name).isSome → backend.Strikes view app name
  /-- The rows of an app are found. -/
  entries : ∀ app s rows t, backend.query (Ledger.query app) s = .ok rows t →
    rows.map Ledger.entryOf = (view s).ledger.filter (·.app == app) ∧ view t = view s
  /-- A query that is refused has changed nothing. -/
  queryRefused : ∀ statement s e t, backend.query statement s = .error e t → view t = view s
  /-- A statement that is refused leaves the open transaction open. -/
  refused : ∀ statement s e t, (view s).saved.isSome → backend.execute statement s = .error e t →
    (view t).saved = (view s).saved ∧ (view t).commits = (view s).commits
  begin : ∀ s t, (view s).saved = none → backend.begin s = .ok () t → view t = (view s).opened
  beginRefused : ∀ s e t, (view s).saved = none → backend.begin s = .error e t → view t = view s
  commit : ∀ s t, (view s).saved.isSome → backend.commit s = .ok () t → view t = (view s).kept
  /-- A transaction that cannot be kept is taken back. -/
  commitRefused : ∀ s contents ledger e t, (view s).saved = some (contents, ledger) →
    backend.commit s = .error e t → view t = (view s).reverted contents ledger
  rollback : ∀ s contents ledger t, (view s).saved = some (contents, ledger) →
    backend.rollback s = .ok () t → view t = (view s).reverted contents ledger
  /-- Whatever is wrong with taking a transaction back, it is over. -/
  rollbackRefused : ∀ s contents ledger e t, (view s).saved = some (contents, ledger) →
    backend.rollback s = .error e t → view t = (view s).reverted contents ledger

/-- What is seen of a database is the same after the rows of the ledger have been asked for. -/
structure Backend.Unmoved {σ ω : Type} (backend : Backend σ) (seen : σ → ω) : Prop where
  ok : ∀ app s rows t, backend.query (Ledger.query app) s = .ok rows t → seen t = seen s
  error : ∀ app s e t, backend.query (Ledger.query app) s = .error e t → seen t = seen s

namespace Backend.Reliable

variable {σ κ : Type} {backend : Backend σ} {effect : Statement → κ → Option κ} {view : σ → View κ}
  {s t : σ} {script : List Statement}

theorem unmoved (h : backend.Reliable effect view) : backend.Unmoved view where
  ok app s rows t hquery := (h.entries app s rows t hquery).2
  error app s e t hquery := h.queryRefused (Ledger.query app) s e t hquery

/-- What statements make of contents one after the other. -/
def effects (effect : Statement → κ → Option κ) (script : List Statement) (contents : κ) :
    Option κ :=
  script.foldlM (fun contents statement => effect statement contents) contents

/-- A script that runs has its effect on the contents, and on nothing else in view. -/
theorem view_of_runs (h : backend.Reliable effect view) (hruns : backend.Runs script s t)
    (hchange : ∀ statement ∈ script, statement.IsChange) :
    ∃ contents, effects effect script (view s).contents = some contents ∧
      view t = { view s with contents } := by
  induction hruns with
  | nil s => exact ⟨(view s).contents, rfl, rfl⟩
  | @cons statement rest s t u count hexecute _ ih =>
      obtain ⟨hstatement, hrest⟩ := List.forall_mem_cons.mp hchange
      obtain ⟨between, heffect, hview⟩ := h.change statement s count t hstatement hexecute
      obtain ⟨contents, heffects, hview'⟩ := ih hrest
      refine ⟨contents, ?_, ?_⟩
      · rw [hview] at heffects
        unfold effects at heffects ⊢
        rw [List.foldlM_cons, heffect]
        exact heffects
      · rw [hview', hview]

theorem saved_of_stops (h : backend.Reliable effect view) {e : SchemaError}
    (hstops : backend.Stops script s e t) (hopen : (view s).saved.isSome)
    (hchange : ∀ statement ∈ script, statement.IsChange) :
    (view t).saved = (view s).saved ∧ (view t).commits = (view s).commits := by
  induction hstops with
  | here hexecute => exact h.refused _ _ _ _ hopen hexecute
  | @later statement rest s t u e count hexecute _ ih =>
      obtain ⟨hstatement, hrest⟩ := List.forall_mem_cons.mp hchange
      obtain ⟨between, -, hview⟩ := h.change statement s count t hstatement hexecute
      rw [hview] at ih
      exact ih hopen hrest

end Backend.Reliable

/-! ### The ledger -/

namespace Ledger

variable {σ κ : Type} {backend : Backend σ} {effect : Statement → κ → Option κ} {view : σ → View κ}
  {s t : σ} {app name number : String} {e : MigrationError}

theorem resolve_isText {field text : String} {declared : Field}
    (hdecode : LookupKey.decode field = .ok (field, .equal))
    (hfield : model.field? field = some declared) (hcolumn : declared.column = none) :
    (isText field text).resolve model = .ok (.all [⟨field, .equal, .text text⟩]) := by
  have hlookup : Lookup.resolve model ⟨LookupKey.encode field .equal, .text text⟩
      = .ok ⟨field, .equal, .text text⟩ := by
    unfold Lookup.resolve
    rw [show LookupKey.encode field .equal = field from rfl, hdecode]
    show (model.column field >>= _) = _
    unfold Model.column
    rw [hfield]
    simp only [Field.columnName, hcolumn]
    rfl
  show (do return Condition.all (← [_].mapM _) : Except SchemaError _) = _
  rw [List.mapM_cons, hlookup]
  rfl

/-- The condition for an app is resolved to the comparison with its name. -/
theorem resolve_ofApp :
    (isText "app" app).resolve model = .ok (ofApp app) := resolve_isText rfl rfl rfl

theorem resolve_ofMigration : ((isText "app" app).both (isText "name" name)).resolve model
    = .ok (ofMigration app name) := by
  have hname : (isText "name" name).resolve model = .ok (.all [⟨"name", .equal, .text name⟩]) :=
    resolve_isText rfl rfl rfl
  show ((isText "app" app).resolve model >>= fun _ => (isText "name" name).resolve model >>= _) = _
  rw [resolve_ofApp, hname]
  rfl

/-- Selecting entries asks one query and reads its rows. -/
theorem select_eq : backend.select model (isText "app" app) =
    (backend.query (query app) >>= fun rows => pure (rows.map (Row.byField model.fields))) := by
  unfold Backend.select
  rw [resolve_ofApp]
  rfl

/-- Deleting one asks for one statement. -/
theorem delete_eq : backend.delete model ((isText "app" app).both (isText "name" name))
    = backend.execute (.delete table (ofMigration app name)) := by
  unfold Backend.delete
  rw [resolve_ofMigration]
  rfl

/-- Reading the ledger is one query. -/
theorem entries_eq : entries backend app s = match backend.query (query app) s with
    | .ok rows t => .ok (rows.map entryOf) t
    | .error e t => .error (.ledger e) t := by
  unfold entries action
  rw [select_eq]
  show EStateM.bind (EStateM.adaptExcept _ (EStateM.bind _ _)) _ s = _
  unfold EStateM.bind EStateM.adaptExcept
  dsimp only
  cases backend.query (query app) s with
  | ok rows t =>
      show EStateM.Result.ok (List.map ofRow (rows.map _)) t = _
      rw [List.map_map]
      rfl
  | error e t => rfl

/-- The entries that are read are those in view. -/
theorem entries_ok (h : backend.Reliable effect view) {records : List LedgerEntry}
    (hok : entries backend app s = .ok records t) :
    records = (view s).ledger.filter (·.app == app) ∧ view t = view s := by
  rw [entries_eq] at hok
  cases hquery : backend.query (query app) s with
  | ok rows u =>
      rw [hquery] at hok
      cases hok
      obtain ⟨hfound, hview⟩ := h.entries app s rows t hquery
      exact ⟨hfound, hview⟩
  | error e u =>
      rw [hquery] at hok
      cases hok

/-- Whether the rows are found or not, what a query leaves is left. -/
theorem seen_of_entries {ω : Type} {seen : σ → ω} (h : backend.Unmoved seen) :
    (∀ records, entries backend app s = .ok records t → seen t = seen s) ∧
      ∀ e, entries backend app s = .error e t → seen t = seen s := by
  rw [entries_eq]
  cases hquery : backend.query (query app) s with
  | ok rows u =>
      constructor
      · intro records hok
        cases hok
        exact h.ok _ _ _ _ hquery
      · intro e herror
        cases herror
  | error cause u =>
      constructor
      · intro records hok
        cases hok
      · intro e herror
        cases herror
        exact h.error _ _ _ _ hquery

/-- An entry that was made is the last one in view. -/
theorem enter_ok (h : backend.Reliable effect view)
    (hok : enter backend app name number s = .ok () t) :
    ∃ entry, Records app name number entry ∧
      view t = { view s with ledger := (view s).ledger ++ [entry] } := by
  obtain ⟨count, u, hinsert, hok⟩ := bind_eq_ok.mp (adaptExcept_eq_ok.mp hok)
  obtain ⟨-, rfl⟩ := pure_eq_ok.mp hok
  exact h.enter app name number s count u hinsert

theorem enter_error (h : backend.Reliable effect view) (hopen : (view s).saved.isSome)
    (herror : enter backend app name number s = .error e t) :
    (view t).saved = (view s).saved ∧ (view t).commits = (view s).commits := by
  obtain ⟨cause, herror, -⟩ := adaptExcept_eq_error.mp herror
  rcases bind_eq_error.mp herror with herror | ⟨count, u, -, herror⟩
  · exact h.refused _ _ _ _ hopen herror
  · exact absurd herror pure_ne_error

/-- An entry that was struck is no longer in view. -/
theorem strike_ok (hstrikes : backend.Strikes view app name)
    (hok : strike backend app name s = .ok () t) :
    view t = { view s with ledger :=
      (view s).ledger.filter fun entry => !entry.isFor app name } := by
  obtain ⟨count, u, hdelete, hok⟩ := bind_eq_ok.mp hok
  have hexecute := adaptExcept_eq_ok.mp hdelete
  rw [delete_eq] at hexecute
  obtain ⟨-, hview⟩ := hstrikes s count u hexecute
  by_cases hcount : count = 0
  · rw [if_pos hcount] at hok
    exact absurd hok throw_ne_ok
  · rw [if_neg hcount] at hok
    obtain ⟨-, rfl⟩ := pure_eq_ok.mp hok
    exact hview

theorem strike_error (h : backend.Reliable effect view) (hstrikes : backend.Strikes view app name)
    (hopen : (view s).saved.isSome)
    (herror : strike backend app name s = .error e t) :
    (view t).saved = (view s).saved ∧ (view t).commits = (view s).commits := by
  rcases bind_eq_error.mp herror with herror | ⟨count, u, hdelete, herror⟩
  · obtain ⟨cause, hexecute, -⟩ := adaptExcept_eq_error.mp herror
    rw [delete_eq] at hexecute
    exact h.refused _ _ _ _ hopen hexecute
  · have hexecute := adaptExcept_eq_ok.mp hdelete
    rw [delete_eq] at hexecute
    obtain ⟨-, hview⟩ := hstrikes s count u hexecute
    by_cases hcount : count = 0
    · rw [if_pos hcount] at herror
      obtain ⟨-, rfl⟩ := throw_eq_error.mp herror
      rw [hview]
      exact ⟨rfl, rfl⟩
    · rw [if_neg hcount] at herror
      exact absurd herror pure_ne_error

end Ledger

/-! ### Runs -/

namespace Run

variable {σ α β ω : Type} {run : Run σ α} {τ τ' : Transcript σ} {a : α} {e : MigrationError}

theorem onDatabase_eq_ok {work : Work σ α} : onDatabase work τ = .ok a τ' ↔
    ∃ t, work τ.database = .ok a t ∧ τ' = { τ with database := t } := by
  unfold onDatabase
  cases work τ.database <;> simp [eq_comm]

theorem onDatabase_eq_error {work : Work σ α} : onDatabase work τ = .error e τ' ↔
    ∃ t, work τ.database = .error e t ∧ τ' = { τ with database := t } := by
  unfold onDatabase
  cases work τ.database <;> simp [eq_comm]

/-- An attempt answers with what the run ends in. -/
theorem attempt_eq_ok {answer : Except MigrationError α} : run.attempt τ = .ok answer τ' ↔
    match answer with
    | .ok a => run τ = .ok a τ'
    | .error e => run τ = .error e τ' := by
  unfold attempt
  cases run τ <;> cases answer <;> simp

theorem attempt_ne_error : run.attempt τ ≠ .error e τ' := by
  unfold attempt
  cases run τ <;> simp

theorem ofExcept_eq_ok {result : Except MigrationError α} :
    (ofExcept result : Run σ α) τ = .ok a τ' ↔ result = .ok a ∧ τ = τ' := by
  cases result <;> simp [ofExcept]

theorem ofExcept_eq_error {result : Except MigrationError α} :
    (ofExcept result : Run σ α) τ = .error e τ' ↔ result = .error e ∧ τ = τ' := by
  cases result <;> simp [ofExcept]

theorem ofExcept_ok_bind (a : α) (next : α → Run σ β) : (ofExcept (.ok a) >>= next) = next a := rfl

/-- A run that leaves what is seen of the database as it is, whether it succeeds or not. -/
structure Looks (view : σ → ω) (run : Run σ α) : Prop where
  ok : ∀ τ a τ', run τ = .ok a τ' → view τ'.database = view τ.database
  error : ∀ τ e τ', run τ = .error e τ' → view τ'.database = view τ.database

variable {view : σ → ω}

theorem Looks.pure (a : α) : Looks view (Pure.pure a : Run σ α) where
  ok _ _ _ h := by rw [(pure_eq_ok.mp h).2]
  error _ _ _ h := absurd h pure_ne_error

theorem Looks.throw (e : MigrationError) : Looks view (MonadExcept.throw e : Run σ α) where
  ok _ _ _ h := absurd h throw_ne_ok
  error _ _ _ h := by rw [(throw_eq_error.mp h).2]

theorem Looks.emit (line : Line) : Looks view (Run.emit line : Run σ Unit) where
  ok _ _ _ h := by cases h; rfl
  error _ _ _ h := nomatch h

theorem Looks.ofExcept (result : Except MigrationError α) :
    Looks view (Run.ofExcept result : Run σ α) := by
  cases result with
  | ok a => exact Looks.pure a
  | error e => exact Looks.throw e

theorem Looks.inContext {migration : Migration} (h : Looks view run) :
    Looks view (Run.inContext migration run) where
  ok _ _ _ hok := h.ok _ _ _ (adaptExcept_eq_ok.mp hok)
  error _ _ _ herror := by
    obtain ⟨e, herror, -⟩ := adaptExcept_eq_error.mp herror
    exact h.error _ _ _ herror

/-- Looking and then looking is looking. -/
theorem Looks.bind {next : α → Run σ β} (hrun : Looks view run) (hnext : ∀ a, Looks view (next a)) :
    Looks view (run >>= next) where
  ok _ _ _ h := by
    obtain ⟨a, τ₁, hfirst, h⟩ := bind_eq_ok.mp h
    rw [(hnext a).ok _ _ _ h, hrun.ok _ _ _ hfirst]
  error _ _ _ h := by
    rcases bind_eq_error.mp h with h | ⟨a, τ₁, hfirst, h⟩
    · exact hrun.error _ _ _ h
    · rw [(hnext a).error _ _ _ h, hrun.ok _ _ _ hfirst]

theorem Looks.forM {xs : List β} {f : β → Run σ Unit} (h : ∀ x, Looks view (f x)) :
    Looks view (xs.forM f) := by
  induction xs with
  | nil => exact Looks.pure ()
  | cons x xs ih => exact (h x).bind fun _ => ih

end Run

/-! ### All or nothing -/

/-- Work that leaves the transaction it is done in as it is. -/
structure Work.Steady {σ κ : Type} (view : σ → View κ) (work : Work σ Unit) : Prop where
  ok : ∀ s t, (view s).saved.isSome → work s = .ok () t →
    (view t).saved = (view s).saved ∧ (view t).commits = (view s).commits
  error : ∀ s e t, (view s).saved.isSome → work s = .error e t →
    (view t).saved = (view s).saved ∧ (view t).commits = (view s).commits

namespace Work.Steady

variable {σ κ : Type} {backend : Backend σ} {effect : Statement → κ → Option κ} {view : σ → View κ}

theorem bind {first rest : Work σ Unit} (hfirst : Steady view first) (hrest : Steady view rest) :
    Steady view (do first; rest) where
  ok s t hopen h := by
    obtain ⟨⟨⟩, u, h₁, h₂⟩ := bind_eq_ok.mp h
    obtain ⟨hsaved, hcommits⟩ := hfirst.ok s u hopen h₁
    obtain ⟨hsaved', hcommits'⟩ := hrest.ok u t (hsaved ▸ hopen) h₂
    exact ⟨hsaved'.trans hsaved, hcommits'.trans hcommits⟩
  error s e t hopen h := by
    rcases bind_eq_error.mp h with h | ⟨⟨⟩, u, h₁, h₂⟩
    · exact hfirst.error s e t hopen h
    · obtain ⟨hsaved, hcommits⟩ := hfirst.ok s u hopen h₁
      obtain ⟨hsaved', hcommits'⟩ := hrest.error u e t (hsaved ▸ hopen) h₂
      exact ⟨hsaved'.trans hsaved, hcommits'.trans hcommits⟩

/-- Scripted work neither begins nor ends a transaction. -/
theorem of_scripted {work : ∀ σ, Backend σ → Work σ Unit} (h : backend.Reliable effect view)
    (hwork : Scripted backend.dialect backend.now MigrationError.schema work) :
    Steady view (work σ backend) where
  ok s t hopen hok := by
    obtain ⟨script, hchange, hruns, -⟩ := hwork.of_ok hok
    obtain ⟨contents, -, hview⟩ := h.view_of_runs hruns hchange
    rw [hview]
    exact ⟨rfl, rfl⟩
  error s e t hopen herror := by
    obtain ⟨script, hchange, hruns | ⟨e', hstops⟩⟩ := hwork.of_error herror
    · obtain ⟨contents, -, hview⟩ := h.view_of_runs hruns hchange
      rw [hview]
      exact ⟨rfl, rfl⟩
    · exact h.saved_of_stops hstops hopen hchange

theorem enter (h : backend.Reliable effect view) (app name number : String) :
    Steady view (Ledger.enter backend app name number) where
  ok s t hopen hok := by
    obtain ⟨entry, -, hview⟩ := Ledger.enter_ok h hok
    rw [hview]
    exact ⟨rfl, rfl⟩
  error s e t hopen herror := Ledger.enter_error h hopen herror

theorem strike (h : backend.Reliable effect view) {app name : String}
    (hstrikes : backend.Strikes view app name) :
    Steady view (Ledger.strike backend app name) where
  ok s t hopen hok := by
    rw [Ledger.strike_ok hstrikes hok]
    exact ⟨rfl, rfl⟩
  error s e t hopen herror := Ledger.strike_error h hstrikes hopen herror

end Work.Steady

namespace Migrator

variable {σ κ : Type} {migrator : Migrator σ} {effect : Statement → κ → Option κ}
  {view : σ → View κ}
  {work : Work σ Unit} {τ τ' : Transcript σ} {e : MigrationError}

/-- Taking the open transaction back gives back what was there when it began, and is always seen as
done. -/
theorem view_of_abort (h : migrator.backend.Reliable effect view) {contents : κ}
    {ledger : List LedgerEntry} (hsaved : (view τ.database).saved = some (contents, ledger))
    (hok : migrator.abort τ = .ok () τ') :
    view τ'.database = (view τ.database).reverted contents ledger := by
  obtain ⟨answer, τ₁, hattempt, hok⟩ := bind_eq_ok.mp hok
  have hanswer := Run.attempt_eq_ok.mp hattempt
  cases answer with
  | ok a =>
      obtain ⟨-, rfl⟩ := pure_eq_ok.mp hok
      obtain ⟨t, hrollback, rfl⟩ := Run.onDatabase_eq_ok.mp hanswer
      exact h.rollback _ contents ledger t hsaved (Session.toWork_eq_ok.mp hrollback)
  | error e =>
      obtain ⟨t, hrollback, rfl⟩ := Run.onDatabase_eq_error.mp hanswer
      obtain ⟨cause, hrefused, -⟩ := adaptExcept_eq_error.mp hrollback
      have hsame : view τ'.database = view t := (Run.Looks.emit _).ok _ _ _ hok
      rw [hsame]
      exact h.rollbackRefused _ contents ledger cause t hsaved hrefused

theorem abort_ne_error : migrator.abort τ ≠ .error e τ' := by
  intro herror
  rcases bind_eq_error.mp herror with herror | ⟨answer, τ₁, -, herror⟩
  · exact Run.attempt_ne_error herror
  · cases answer with
    | ok a => exact pure_ne_error herror
    | error cause => cases herror

/-- Work that is done as one transaction and succeeds is kept. -/
theorem inTransaction_ok (h : migrator.backend.Reliable effect view)
    (hwork : Work.Steady view work) (hclosed : (view τ.database).saved = none)
    (hok : migrator.inTransaction work τ = .ok () τ') :
    ∃ s t, view s = (view τ.database).opened ∧ work s = .ok () t ∧
      view τ'.database = (view t).kept := by
  obtain ⟨⟨⟩, τ₁, hstart, hok⟩ := bind_eq_ok.mp hok
  obtain ⟨s, hbegin, rfl⟩ := Run.onDatabase_eq_ok.mp hstart
  have hopened := h.begin _ s hclosed (Session.toWork_eq_ok.mp hbegin)
  obtain ⟨answer, τ₂, hattempt, hok⟩ := bind_eq_ok.mp hok
  have hanswer := Run.attempt_eq_ok.mp hattempt
  cases answer with
  | error e =>
      obtain ⟨⟨⟩, τ₃, -, hthrow⟩ := bind_eq_ok.mp hok
      exact absurd hthrow throw_ne_ok
  | ok a =>
      obtain ⟨t, hdone, rfl⟩ := Run.onDatabase_eq_ok.mp hanswer
      obtain ⟨u, hcommit, rfl⟩ := Run.onDatabase_eq_ok.mp hok
      have hopen : (view s).saved.isSome := by rw [hopened]; rfl
      have hsaved := (hwork.ok s t hopen hdone).1
      exact ⟨s, t, hopened, hdone,
        h.commit t u (hsaved ▸ hopen) (Session.toWork_eq_ok.mp hcommit)⟩

/-- Work that is done as one transaction and fails leaves nothing behind, wherever it fails. -/
theorem inTransaction_error (h : migrator.backend.Reliable effect view)
    (hwork : Work.Steady view work) (hclosed : (view τ.database).saved = none)
    (herror : migrator.inTransaction work τ = .error e τ') :
    view τ'.database = view τ.database := by
  rcases bind_eq_error.mp herror with hstart | ⟨⟨⟩, τ₁, hstart, herror⟩
  · -- the transaction could not be begun
    obtain ⟨s, hbegin, rfl⟩ := Run.onDatabase_eq_error.mp hstart
    obtain ⟨cause, hrefused, -⟩ := adaptExcept_eq_error.mp hbegin
    exact h.beginRefused _ _ _ hclosed hrefused
  obtain ⟨s, hbegin, rfl⟩ := Run.onDatabase_eq_ok.mp hstart
  have hopened := h.begin _ s hclosed (Session.toWork_eq_ok.mp hbegin)
  have hopen : (view s).saved.isSome := by rw [hopened]; rfl
  have hsaved₀ : (view s).saved = some ((view τ.database).contents, (view τ.database).ledger) := by
    rw [hopened]
    rfl
  have hcommits₀ : (view s).commits = (view τ.database).commits := by
    rw [hopened]
    rfl
  rcases bind_eq_error.mp herror with herror | ⟨answer, τ₂, hattempt, herror⟩
  · exact absurd herror Run.attempt_ne_error
  have hanswer := Run.attempt_eq_ok.mp hattempt
  cases answer with
  | ok a =>
      -- the work was done, but could not be kept
      obtain ⟨t, hdone, rfl⟩ := Run.onDatabase_eq_ok.mp hanswer
      obtain ⟨u, hrefused, rfl⟩ := Run.onDatabase_eq_error.mp herror
      obtain ⟨cause, hrefused, -⟩ := adaptExcept_eq_error.mp hrefused
      obtain ⟨hsaved, hcommits⟩ := hwork.ok s t hopen hdone
      exact (h.commitRefused t _ _ cause u (hsaved.trans hsaved₀) hrefused).trans
        (View.reverted_eq hclosed (hcommits.trans hcommits₀))
  | error cause =>
      -- the work failed and was taken back
      obtain ⟨t, hfailed, rfl⟩ := Run.onDatabase_eq_error.mp hanswer
      obtain ⟨hsaved, hcommits⟩ := hwork.error s cause t hopen hfailed
      rcases bind_eq_error.mp herror with herror | ⟨⟨⟩, τ₃, habort, hthrow⟩
      · exact absurd herror abort_ne_error
      · obtain ⟨-, rfl⟩ := throw_eq_error.mp hthrow
        exact (view_of_abort h (hsaved.trans hsaved₀) habort).trans
          (View.reverted_eq hclosed (hcommits.trans hcommits₀))

end Migrator

end SchemaHistory
