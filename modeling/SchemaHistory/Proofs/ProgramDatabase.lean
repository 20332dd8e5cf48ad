import SchemaHistory.Proofs.DeliveredRows
import SchemaHistory.Proofs.Digits
import SchemaHistory.Proofs.DryPlans
import SchemaHistory.Proofs.SharedLedger
import SchemaHistory.Proofs.TwoMoments

/-!
# The database of the program

The program keeps the rows of the ledger in a `LedgerStore`. This file shows that it is a database
of the kind that the other results ask for, and draws on that for a command of the program:

* `LedgerStore.reliable`: it does what it is asked or refuses it. Rows are found by the app that
  they hold as a text. The name of a migration can be told from whatever else a row may hold in its
  place, so the rows of migrations are removed as they should be, and only those.
* `LedgerStore.dependable`: it numbers its rows by itself and whatever the clock shows, so that with
  a log it is a database on which calls can be compared.
* `Program.rows_after_migrate`: the command `migrate` leaves the rows of a database as they are and
  adds rows for what is left of the plan: for all of it if the command ends well, and else for some
  of the first migrations.
-/

namespace SchemaHistory

/-! ### What a row says -/

namespace Ledger

variable {row : Row} {column : String} {field : Field}

/-- The columns of the ledger are its fields. -/
theorem get?_entryOf (hfield : (column, field) ∈ model.fields) (hcolumn : field.column = none) :
    (Row.byField model.fields row).get? column = some ((row.get? column).getD .null) := by
  rw [Row.get?_byField (by decide) (by decide) hfield, Field.columnName, hcolumn]
  rfl

/-- Reading a row through the fields of the ledger finds its texts. -/
theorem textOf_entryOf (hfield : (column, field) ∈ model.fields) (hcolumn : field.column = none) :
    textOf column (Row.byField model.fields row) = textOf column row := by
  unfold textOf
  rw [get?_entryOf hfield hcolumn]
  cases row.get? column <;> rfl

theorem app_entryOf (row : Row) : (entryOf row).app = textOf "app" row :=
  textOf_entryOf (show ("app", Field.ofKind (.char 50)) ∈ model.fields by decide) rfl

theorem name_entryOf (row : Row) : (entryOf row).name = textOf "name" row :=
  textOf_entryOf (show ("name", Field.ofKind (.char 100)) ∈ model.fields by decide) rfl

end Ledger

/-- The name of a migration has an underscore in it, so it is not what is read in place of a
number. -/
theorem MigrationName.ne_integerText {name : String} (h : (split? name).isSome) (n : Int) :
    name ≠ String.ofList (Json.integerText n) := by
  rintro rfl
  have hno : '_' ∉ Json.integerText n := by
    intro hmem
    rcases List.mem_append.mp hmem with hsign | hdigit
    · split at hsign
      · cases List.mem_singleton.mp hsign
      · cases hsign
    · exact absurd (Text.isDigit_of_mem_digitsOfNumber hdigit) (by decide)
  unfold split? at h
  rw [String.toList_ofList] at h
  split at h
  · next heq => exact hno (heq ▸ by simp)
  · cases h

namespace LedgerStore

/-! ### The rows as entries -/

/-- Whether a row is found by its app. -/
def isListed (row : Row) : Bool :=
  match row.get? "app" with
  | some (.text _) => true
  | _ => false

/-- What the rows say that can be found. -/
def entriesOf (rows : List Row) : List LedgerEntry := (rows.filter isListed).map Ledger.entryOf

/-- What can be told of a store. There is nothing in it but the ledger. -/
def view (store : LedgerStore) : View Unit where
  contents := ()
  ledger := entriesOf store.rows
  saved := if store.journal.inTransaction then some ((), entriesOf store.saved) else none
  commits := store.journal.committed

variable {row : Row} {rows : List Row} {app name : String}

theorem holds_app : holds row "app" (.text app) =
    (isListed row && (Ledger.entryOf row).app == app) := by
  rw [Ledger.app_entryOf]
  unfold holds isListed Ledger.textOf
  cases row.get? "app" with
  | none => rfl
  | some value => cases value <;> simp [Value.same]

/-- Where the name of a migration is read, it stands as a text. -/
theorem holds_name (hname : (MigrationName.split? name).isSome) :
    holds row "name" (.text name) = ((Ledger.entryOf row).name == name) := by
  have hnotEmpty : ("" == name) = false := by
    refine beq_eq_false_iff_ne.mpr ?_
    rintro rfl
    cases hname
  have hnotNumber (n : Int) : (String.ofList (Json.integerText n) == name) = false :=
    beq_eq_false_iff_ne.mpr (MigrationName.ne_integerText hname n).symm
  rw [Ledger.name_entryOf]
  unfold holds Ledger.textOf
  cases row.get? "name" with
  | none => exact hnotEmpty.symm
  | some value => cases value <;> simp [Value.same, hnotEmpty, hnotNumber]

/-- A row that is listed is a new last entry. -/
theorem entriesOf_append (row : Row) (hlisted : isListed row = true) :
    entriesOf (rows ++ [row]) = entriesOf rows ++ [Ledger.entryOf row] := by
  unfold entriesOf
  rw [List.filter_append, List.map_append, List.filter_cons_of_pos hlisted]
  rfl

/-- The entries of the rows of an app. -/
theorem entries_of_app : (rows.filter (holds · "app" (.text app))).map Ledger.entryOf
    = (entriesOf rows).filter (·.app == app) := by
  unfold entriesOf
  rw [List.filter_map, List.filter_filter]
  simp only [holds_app, Function.comp_def, Bool.and_comm]

section Removed

variable (hname : (MigrationName.split? name).isSome)

include hname

/-- The rows that a deletion takes away are those of that migration, among those that are listed. -/
theorem isRemoved_eq : (holds row "app" (.text app) && holds row "name" (.text name))
    = (isListed row && (Ledger.entryOf row).isFor app name) := by
  rw [holds_app, holds_name hname, Bool.and_assoc]
  rfl

theorem countP_removed :
    rows.countP (fun row => holds row "app" (.text app) && holds row "name" (.text name))
      = (entriesOf rows).countP (LedgerEntry.isFor app name) := by
  unfold entriesOf
  rw [List.countP_map, List.countP_filter]
  simp only [isRemoved_eq hname, Function.comp_def, Bool.and_comm]

/-- The entries that are left are the others. -/
theorem entriesOf_kept : entriesOf (rows.filter fun row =>
      !(holds row "app" (.text app) && holds row "name" (.text name)))
    = (entriesOf rows).filter fun entry => !entry.isFor app name := by
  unfold entriesOf
  rw [List.filter_map, List.filter_filter, List.filter_filter]
  refine congrArg _ (List.filter_congr fun row _ => ?_)
  rw [isRemoved_eq hname]
  cases isListed row <;> simp

end Removed

/-! ### What it does -/

variable {dialect : Dialect} {now : DateTime} {statement : Statement} {store store' : LedgerStore}
  {count : Nat} {e : SchemaError}

def written (store : LedgerStore) (statements : Array Statement) (answers : List (List Row)) :
    LedgerStore :=
  { store with journal := { store.journal with statements, answers } }

/-- A statement is written down, or it is refused and nothing has happened. -/
theorem record_cases (dialect : Dialect) (statement : Statement) (journal : Journal) :
    (∃ statements, Journal.record dialect statement journal = .ok () { journal with statements }) ∨
      ∃ e, Journal.record dialect statement journal = .error e journal := by
  obtain ⟨statements, answers, part, inTransaction, committed, rolledBack⟩ := journal
  cases part with
  | none => exact Or.inl ⟨_, rfl⟩
  | some part =>
      unfold Journal.record
      by_cases h : isPartOf part.toList (statement.text dialect).toList = true
      · refine Or.inr ⟨Journal.refusal part (statement.text dialect), ?_⟩
        show (ite _ _ _ : Session Journal Unit) _ = _
        rw [if_pos h]
        rfl
      · refine Or.inl ⟨statements.push statement, ?_⟩
        show (ite _ _ _ : Session Journal Unit) _ = _
        rw [if_neg h]
        rfl

theorem record_ok (h : onJournal (Journal.record dialect statement) store = .ok () store') :
    ∃ statements, store' = store.written statements store.journal.answers := by
  unfold onJournal at h
  rcases record_cases dialect statement store.journal with ⟨statements, heq⟩ | ⟨e, heq⟩
  · rw [heq] at h
    cases h
    exact ⟨statements, rfl⟩
  · rw [heq] at h
    cases h

theorem record_error (h : onJournal (Journal.record dialect statement) store = .error e store') :
    store' = store := by
  unfold onJournal at h
  rcases record_cases dialect statement store.journal with ⟨statements, heq⟩ | ⟨e, heq⟩
  · rw [heq] at h
    cases h
  · rw [heq] at h
    cases h
    rfl

section Execute

variable (h : execute dialect statement store = .ok count store')

include h

theorem execute_added (hadds : adds statement = true) :
    ∃ statements, store' =
      addRow statement.arguments (store.written statements store.journal.answers) := by
  obtain ⟨⟨⟩, between, hrecord, h⟩ := bind_eq_ok.mp h
  obtain ⟨statements, rfl⟩ := record_ok hrecord
  rw [if_pos hadds] at h
  cases h
  exact ⟨statements, rfl⟩

theorem execute_removed (hadds : adds statement = false) (hremoves : removes statement = true) :
    ∃ statements, (count, store')
      = removeRows statement.arguments (store.written statements store.journal.answers) := by
  obtain ⟨⟨⟩, between, hrecord, h⟩ := bind_eq_ok.mp h
  obtain ⟨statements, rfl⟩ := record_ok hrecord
  rw [if_neg (by rw [hadds]; simp), if_pos hremoves] at h
  cases h
  exact ⟨statements, rfl⟩

/-- A statement about other tables is only written down. -/
theorem execute_elsewhere (hadds : adds statement = false) (hremoves : removes statement = false) :
    store'.view = store.view ∧ store'.nextId = store.nextId := by
  obtain ⟨⟨⟩, between, hrecord, h⟩ := bind_eq_ok.mp h
  obtain ⟨statements, rfl⟩ := record_ok hrecord
  rw [if_neg (by rw [hadds]; simp), if_neg (by rw [hremoves]; simp)] at h
  split at h
  · cases h
    exact ⟨rfl, rfl⟩
  · cases h
    exact ⟨rfl, rfl⟩

end Execute

/-- A statement that is refused leaves everything as it was. -/
theorem execute_refused (h : execute dialect statement store = .error e store') :
    store' = store := by
  rcases bind_eq_error.mp h with hrecord | ⟨⟨⟩, between, -, h⟩
  · exact record_error hrecord
  · split at h
    · cases h
    · split at h
      · cases h
      · split at h <;> cases h

theorem next_result (h : onJournal Journal.nextResult store = .ok rows store') :
    ∃ answers, store' = store.written store.journal.statements answers := by
  cases h
  exact ⟨_, rfl⟩

/-- A query finds the rows of the ledger if it is one for them, and changes nothing that counts. -/
theorem query_found (h : query dialect statement store = .ok rows store') :
    (searches statement = true → rows = findRows statement.arguments store) ∧
      store'.view = store.view ∧ store'.nextId = store.nextId := by
  obtain ⟨⟨⟩, between, hrecord, h⟩ := bind_eq_ok.mp h
  obtain ⟨statements, rfl⟩ := record_ok hrecord
  obtain ⟨result, between', hresult, h⟩ := bind_eq_ok.mp h
  obtain ⟨answers, rfl⟩ := next_result hresult
  by_cases hsearches : searches statement = true
  · rw [if_pos hsearches] at h
    obtain ⟨held, between'', hget, h⟩ := bind_eq_ok.mp h
    cases hget
    split at h
    · cases h
      exact ⟨fun _ => rfl, rfl, rfl⟩
    · cases h
  · rw [if_neg hsearches] at h
    cases h
    exact ⟨fun hfound => absurd hfound hsearches, rfl, rfl⟩

theorem query_refused (h : query dialect statement store = .error e store') :
    store'.view = store.view ∧ store'.nextId = store.nextId := by
  rcases bind_eq_error.mp h with hrecord | ⟨⟨⟩, between, hrecord, h⟩
  · rw [record_error hrecord]
    exact ⟨rfl, rfl⟩
  obtain ⟨statements, rfl⟩ := record_ok hrecord
  rcases bind_eq_error.mp h with hresult | ⟨result, between', hresult, h⟩
  · cases hresult
  obtain ⟨answers, rfl⟩ := next_result hresult
  split at h
  · rcases bind_eq_error.mp h with hget | ⟨held, between'', hget, h⟩
    · cases hget
    cases hget
    split at h
    · cases h
    · cases h
      exact ⟨rfl, rfl⟩
  · cases h

/-! ### Transactions -/

/-- Something is saved exactly while a transaction is open. -/
theorem saved_eq_none_iff : store.view.saved = none ↔ store.journal.inTransaction = false := by
  unfold view
  cases store.journal.inTransaction <;> simp

theorem saved_eq_some_iff {contents : Unit} {ledger : List LedgerEntry} :
    store.view.saved = some (contents, ledger) ↔
      store.journal.inTransaction = true ∧ entriesOf store.saved = ledger := by
  unfold view
  cases store.journal.inTransaction <;> simp

theorem begin_eq (h : store.journal.inTransaction = false) :
    begin store = .ok () { store with
      journal := { store.journal with inTransaction := true }
      saved := store.rows } := by
  obtain ⟨⟨statements, answers, part, inTransaction, committed, rolledBack⟩, _⟩ := store
  obtain rfl : inTransaction = false := h
  rfl

theorem commit_eq (h : store.journal.inTransaction = true) : onJournal Journal.commit store = .ok ()
    { store with journal := { store.journal with
        inTransaction := false, committed := store.journal.committed + 1 } } := by
  obtain ⟨⟨statements, answers, part, inTransaction, committed, rolledBack⟩, _⟩ := store
  obtain rfl : inTransaction = true := h
  rfl

theorem rollback_eq (h : store.journal.inTransaction = true) : rollback store = .ok ()
    { store with
      journal := { store.journal with
        inTransaction := false, rolledBack := store.journal.rolledBack + 1 }
      rows := store.saved } := by
  obtain ⟨⟨statements, answers, part, inTransaction, committed, rolledBack⟩, _⟩ := store
  obtain rfl : inTransaction = true := h
  rfl

/-! ### Reliability -/

/-- The store does what it is asked, or refuses it. -/
theorem reliable (dialect : Dialect) (now : DateTime) :
    (backend dialect now).Reliable (fun _ contents => some contents) view where
  change statement s count t hchange h := by
    refine ⟨(), rfl, ?_⟩
    cases statement
    case insert | delete | select | raw => exact hchange.elim
    all_goals exact (execute_elsewhere h rfl rfl).1
  enter app name number s count t h := by
    obtain ⟨statements, rfl⟩ := execute_added h rfl
    exact ⟨_, ⟨rfl, rfl, rfl⟩,
      congrArg (fun ledger => { s.view with ledger }) (entriesOf_append _ rfl)⟩
  strike app name hname s count t h := by
    obtain ⟨statements, heq⟩ := execute_removed h rfl rfl
    obtain ⟨rfl, rfl⟩ := Prod.mk.inj heq
    exact ⟨countP_removed hname,
      congrArg (fun ledger => { s.view with ledger }) (entriesOf_kept hname)⟩
  entries app s rows t h := by
    obtain ⟨hfound, hview, -⟩ := query_found h
    rw [hfound rfl]
    exact ⟨entries_of_app, hview⟩
  queryRefused statement s e t h := (query_refused h).1
  refused statement s e t _ h := by
    rw [execute_refused h]
    exact ⟨rfl, rfl⟩
  begin s t hclosed h := by
    cases (begin_eq (saved_eq_none_iff.mp hclosed)).symm.trans h
    rfl
  beginRefused s e t hclosed h := by
    cases (begin_eq (saved_eq_none_iff.mp hclosed)).symm.trans h
  commit s t hopen h := by
    obtain ⟨⟨contents, ledger⟩, hsaved⟩ := Option.isSome_iff_exists.mp hopen
    cases (commit_eq (saved_eq_some_iff.mp hsaved).1).symm.trans h
    rfl
  commitRefused s contents ledger e t hsaved h := by
    cases (commit_eq (saved_eq_some_iff.mp hsaved).1).symm.trans h
  rollback s contents ledger t hsaved h := by
    obtain ⟨hopen, rfl⟩ := saved_eq_some_iff.mp hsaved
    cases (rollback_eq hopen).symm.trans h
    rfl
  rollbackRefused s contents ledger e t hsaved h := by
    cases (rollback_eq (saved_eq_some_iff.mp hsaved).1).symm.trans h

/-! ### Numbers of rows -/

/-- The rows are numbered from one on, and no number is used twice. -/
def numbering : Numbering Nat where
  after
    | .execute statement, next => if adds statement then next + 1 else next
    | _, next => next
  number next := Int64.ofNat next
  timeless request request' h := by
    cases h with
    | refl => rfl
    | execute hstatement => cases hstatement <;> rfl

theorem nextId_of_onJournal {α : Type} {session : Session Journal α} {a : α}
    (h : onJournal session store = .ok a store') : store'.nextId = store.nextId := by
  unfold onJournal at h
  split at h
  · cases h
    rfl
  · cases h

theorem nextId_of_execute (h : execute dialect statement store = .ok count store') :
    store'.nextId = if adds statement then store.nextId + 1 else store.nextId := by
  cases hadds : adds statement with
  | true =>
      obtain ⟨statements, rfl⟩ := execute_added h hadds
      rfl
  | false =>
      cases hremoves : removes statement with
      | true =>
          obtain ⟨statements, heq⟩ := execute_removed h hadds hremoves
          rw [(Prod.mk.inj heq).2]
          rfl
      | false => exact (execute_elsewhere h hadds hremoves).2

theorem numbers (dialect : Dialect) (now : DateTime) :
    (backend dialect now).logging.Numbers (fun s => s.1.view) numbering fun s => s.1.nextId where
  execute statement s count t h := nextId_of_execute (Backend.recordIn_eq_ok.mp h).1
  unmoved := by
    constructor
    · intro app s rows t h
      exact (query_found (Backend.recordIn_eq_ok.mp h).1).2.2
    · intro app s e t h
      exact (query_refused (Backend.recordIn_eq_error.mp h).1).2
  begin s t h := by
    obtain ⟨⟨⟩, between, hbegin, hsave⟩ := bind_eq_ok.mp (Backend.recordIn_eq_ok.mp h).1
    rw [← (EStateM.Result.ok.inj hsave).2]
    exact (nextId_of_onJournal hbegin :)
  commit s t h := nextId_of_onJournal (Backend.recordIn_eq_ok.mp h).1
  rollback s t h := by
    obtain ⟨⟨⟩, between, hrollback, hrestore⟩ := bind_eq_ok.mp (Backend.recordIn_eq_ok.mp h).1
    rw [← (EStateM.Result.ok.inj hrestore).2]
    exact (nextId_of_onJournal hrollback :)
  enter app name number moment s count t h := by
    obtain ⟨statements, heq⟩ := execute_added (Backend.recordIn_eq_ok.mp h).1 rfl
    rw [heq]
    show (entriesOf (s.1.rows ++ [_])).getLast?.map _ = _
    rw [entriesOf_append _ rfl, List.getLast?_concat]
    rfl

/-- With a log the store is dependable. -/
theorem dependable (dialect : Dialect) (now : DateTime) :
    (backend dialect now).logging.Dependable (fun _ contents => some contents) (fun s => s.1.view)
      Prod.snd numbering fun s => s.1.nextId where
  reliable moment := (reliable dialect moment).logging
  logs := Backend.logging_logs _
  numbers := numbers dialect now

end LedgerStore

/-! ### The command `migrate` -/

namespace Program

open LedgerStore Plan

variable {now : DateTime} {migrations ordered : List Migration} {app? target? : Option String}

/-- How migrating on the database of the program may end. There is a plan if it ends well, and rows
for all that is left of the plan are added behind the others. If it fails, rows for some of the
first migrations are, and a missing dependency is not the reason. -/
structure Migrated (migrations : List Migration) (app? target? : Option String)
    (before after : List Row) (failure : Option MigrationError) : Prop where
  rows : ∃ applied, Ledger.Adds applied (entriesOf before) (entriesOf after) ∧
    ∀ plan, IsPlan (.ofList migrations) app? target? plan →
      applied <+: Ledger.unrecorded (entriesOf before) plan ∧
        (failure = none → applied = Ledger.unrecorded (entriesOf before) plan)
  planned : failure = none → ∃ plan, IsPlan (.ofList migrations) app? target? plan
  notMissing : ∀ e ∈ failure, ¬e.IsMissing

section Migrate

variable {store : MigrationStore} {tree : FileTree} {τ τ' : Transcript LedgerStore}
  {e : MigrationError}

theorem view_of_init_ok
    (hok : (Migrator.mk (LedgerStore.backend .sqlite now) false).init τ = .ok () τ') :
    τ'.database.view = τ.database.view := by
  obtain ⟨contents, -, hview⟩ := init_ok (reliable .sqlite now) rfl hok
  rw [hview]

theorem view_of_init_error
    (herror : (Migrator.mk (LedgerStore.backend .sqlite now) false).init τ = .error e τ') :
    τ'.database.view = τ.database.view ∧ ¬e.IsMissing := by
  obtain ⟨t, hcreate, rfl⟩ := Run.onDatabase_eq_error.mp herror
  obtain ⟨cause, hrun, rfl⟩ := adaptExcept_eq_error.mp hcreate
  refine ⟨?_, fun ⟨_, _, _, _, h⟩ => nomatch h⟩
  rcases bind_eq_error.mp hrun with hexecute | ⟨count, u, -, hpure⟩
  · rw [execute_refused hexecute]
  · exact absurd hpure pure_ne_error

/-- Where nothing was changed, the rows are those of the first migrations, namely of none. -/
theorem Migrated.of_unchanged {before after : LedgerStore} (hview : after.view = before.view)
    (hmissing : ¬e.IsMissing) :
    Migrated migrations app? target? before.rows after.rows (some e) where
  rows := ⟨[], ⟨[], .nil, (congrArg View.ledger hview).trans (List.append_nil _).symm⟩,
    fun _ _ => ⟨List.nil_prefix, nofun⟩⟩
  planned := nofun
  notMissing _ hmem := Option.some.inj hmem ▸ hmissing

variable (hread : store.readAll tree = .ok migrations)
  (horder : (DependencyGraph.ofList migrations).order = .ok ordered)
  (hclosed : τ.database.journal.inTransaction = false)

include hread horder hclosed

theorem migrated_of_ok
    (hok : migrate store tree app? target? { backend := LedgerStore.backend .sqlite now } τ
      = .ok () τ') :
    Migrated migrations app? target? τ.database.rows τ'.database.rows none := by
  obtain ⟨⟨⟩, τ₁, hinit, hok⟩ := bind_eq_ok.mp hok
  obtain ⟨⟨⟩, τ₂, hannounce, hok⟩ := bind_eq_ok.mp hok
  obtain ⟨-, rfl⟩ := pure_eq_ok.mp hannounce
  obtain ⟨found, τ₂, hanswer, hok⟩ := bind_eq_ok.mp hok
  obtain ⟨hfound, rfl⟩ := Run.ofExcept_eq_ok.mp hanswer
  obtain rfl := Except.ok.inj (hread.symm.trans hfound)
  have hview := view_of_init_ok hinit
  have hready : τ₁.database.view.saved = none := hview ▸ saved_eq_none_iff.mpr hclosed
  obtain ⟨plan, hplan, hadvanced⟩ := migrate_ok (reliable .sqlite now) rfl hread horder hready hok
  rw [hview] at hadvanced
  refine ⟨⟨_, hadvanced.ledger, fun plan' hplan' => ?_⟩, fun _ => ⟨plan, hplan⟩, nofun⟩
  cases (choose_eq_ok.mpr hplan).symm.trans (choose_eq_ok.mpr hplan')
  exact ⟨List.prefix_rfl, fun _ => rfl⟩

theorem migrated_of_error
    (herror : migrate store tree app? target? { backend := LedgerStore.backend .sqlite now } τ
      = .error e τ') :
    Migrated migrations app? target? τ.database.rows τ'.database.rows (some e) := by
  rcases bind_eq_error.mp herror with hinit | ⟨⟨⟩, τ₁, hinit, herror⟩
  · obtain ⟨hview, hmissing⟩ := view_of_init_error hinit
    exact .of_unchanged hview hmissing
  have hview := view_of_init_ok hinit
  have hready : τ₁.database.view.saved = none := hview ▸ saved_eq_none_iff.mpr hclosed
  rcases bind_eq_error.mp herror with hannounce | ⟨⟨⟩, τ₂, hannounce, herror⟩
  · cases hannounce
  obtain ⟨-, rfl⟩ := pure_eq_ok.mp hannounce
  rcases bind_eq_error.mp herror with hanswer | ⟨found, τ₂, hanswer, herror⟩
  · rw [hread] at hanswer
    cases hanswer
  obtain ⟨hfound, rfl⟩ := Run.ofExcept_eq_ok.mp hanswer
  obtain rfl := Except.ok.inj (hread.symm.trans hfound)
  obtain ⟨hmissing, ⟨plan, applied, left, hplan, hsplit, hadvanced⟩ | ⟨-, hsame⟩⟩ :=
    migrate_error (reliable .sqlite now) rfl hread horder hready herror
  · rw [hview] at hadvanced hsplit
    refine ⟨⟨applied, hadvanced.ledger, fun plan' hplan' => ⟨?_, nofun⟩⟩, nofun,
      fun _ hmem => Option.some.inj hmem ▸ hmissing⟩
    cases (choose_eq_ok.mpr hplan).symm.trans (choose_eq_ok.mpr hplan')
    exact ⟨left, hsplit.symm⟩
  · exact .of_unchanged (hsame.trans hview) hmissing

end Migrate

/-- The program migrates a database in a file. Whatever rows the ledger has, they stay; rows for
what is left of the plan come behind them, all of them if the program ends with code 0. -/
theorem rows_after_migrate {invocation : Invocation} {workspace : Workspace} {path : String}
    {database : LedgerStore} (hcommand : invocation.command = .migrate app? target? false)
    (hpath : databasePath? invocation.database = some path)
    (hopen : openDatabase? workspace (some path) = some database)
    (hclosed : database.journal.inTransaction = false)
    (hread : { directory := invocation.directory : MigrationStore }.readAll workspace.tree
      = .ok migrations)
    (horder : (DependencyGraph.ofList migrations).order = .ok ordered) :
    ∃ kept failure, (carryOut invocation now workspace).2.databases.get? path = some kept ∧
      (carryOut invocation now workspace).1.error = failure.map .migration ∧
      ((carryOut invocation now workspace).1.code = 0 ↔ failure = none) ∧
      Migrated migrations app? target? database.rows kept.rows failure := by
  have hcarried : carryOut invocation now workspace = withDatabase invocation now false []
      (migrate { directory := invocation.directory } workspace.tree app? target?) workspace := by
    unfold carryOut
    rw [hcommand]
  rw [hcarried]
  unfold withDatabase
  rw [hpath]
  dsimp only
  rw [hopen]
  dsimp only
  cases hrun : migrate { directory := invocation.directory } workspace.tree app? target?
    { backend := LedgerStore.backend .sqlite now } ⟨database, [].toArray⟩ with
  | ok _ transcript =>
      exact ⟨_, none, Named.get?_set_self, rfl, by simp, migrated_of_ok hread horder hclosed hrun⟩
  | error e transcript =>
      exact ⟨_, some e, Named.get?_set_self, rfl, by simp,
        migrated_of_error hread horder hclosed hrun⟩

end Program

end SchemaHistory
