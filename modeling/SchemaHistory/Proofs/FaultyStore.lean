import SchemaHistory.Proofs.Transactions

/-!
# A store with faults

A database that keeps the rows of the ledger and, beside them, contents of any kind. It may refuse
any request: `faults` says which, by the number of the request and by the statement, if it is one.
It is `Reliable` whatever the faults are (`Store.reliable`).

A request that is refused may have done something all the same while no transaction is open, so what
a refusal leaves is a parameter of `Store.request`. The examples of later modules are runs of such a
store, with contents and faults of their own.
-/

namespace SchemaHistory

def LedgerEntry.row (entry : LedgerEntry) : Row :=
  [("id", .int entry.id), ("app", .text entry.app), ("name", .text entry.name),
    ("number", .text entry.number),
    ("applied", match entry.applied with
      | some moment => .dateTime moment
      | none => .null)]

/-- Reading a row of the ledger gives the entry that was written. -/
theorem Ledger.entryOf_row (entry : LedgerEntry) : entryOf entry.row = entry := by
  obtain ⟨id, app, name, number, applied⟩ := entry
  cases applied <;> rfl

/-! ### The store and its requests -/

/-- A database that may refuse anything. -/
structure Store (κ : Type) where
  view : View κ
  /-- The number of requests so far. -/
  requests : Nat := 0

namespace Store

variable {κ α : Type} (dialect : Dialect) (now : DateTime) (effect : Statement → κ → Option κ)
  (faults : Nat → Option Statement → Bool)

/-- A request. Where it is refused, for a fault or because the view does not allow it, `otherwise`
says what becomes of the view. -/
def request (statement : Option Statement) (otherwise : View κ → View κ)
    (answer : View κ → Option (α × View κ)) : Session (Store κ) α := fun store =>
  let refused := .error (.refused "store" "refused" ((statement.map (·.text dialect)).getD ""))
    ⟨otherwise store.view, store.requests + 1⟩
  if faults store.requests statement then refused
  else match answer store.view with
    | some (a, view) => .ok a ⟨view, store.requests + 1⟩
    | none => refused

/-- Carries out a statement: on the ledger, if it is about its rows, and else on the contents. -/
def perform (view : View κ) : Statement → Option (Nat × View κ)
  | .insert table values =>
    if table = Ledger.table then
      let entry := { Ledger.ofRow values with id := Int64.ofNat (view.ledger.length + 1) }
      some (1, { view with ledger := view.ledger ++ [entry] })
    else none
  | .delete table condition =>
    if table = Ledger.table then
      let isFound (entry : LedgerEntry) : Bool :=
        condition = Ledger.ofMigration entry.app entry.name
      some (view.ledger.countP isFound, { view with ledger := view.ledger.filter (!isFound ·) })
    else none
  | .select .. | .raw .. => none
  | statement => (effect statement view.contents).map fun contents => (0, { view with contents })

def takenBack (view : View κ) : View κ :=
  match view.saved with
  | some (contents, ledger) => view.reverted contents ledger
  | none => view

/-- What an action on the open transaction makes of the view, if there is one. -/
def ending (next : View κ → View κ) (view : View κ) : Option (Unit × View κ) :=
  view.saved.map fun _ => ((), next view)

def execute (statement : Statement) : Session (Store κ) Nat :=
  request dialect faults (some statement) id (perform effect · statement)

def query (statement : Statement) : Session (Store κ) (List Row) :=
  request dialect faults (some statement) id fun view =>
    some ((view.ledger.filter (statement = Ledger.query ·.app)).map LedgerEntry.row, view)

def begin : Session (Store κ) Unit :=
  request dialect faults none id fun view =>
    if view.saved.isSome then none else some ((), view.opened)

def commit : Session (Store κ) Unit := request dialect faults none takenBack (ending View.kept)

def rollback : Session (Store κ) Unit := request dialect faults none takenBack (ending takenBack)

def backend : Backend (Store κ) where
  dialect
  now
  execute := execute dialect effect faults
  query := query dialect faults
  begin := begin dialect faults
  commit := commit dialect faults
  rollback := rollback dialect faults

/-! ### What a request comes to -/

variable {dialect now effect faults} {statement : Option Statement} {otherwise : View κ → View κ}
  {answer : View κ → Option (α × View κ)} {s t : Store κ} {a : α} {e : SchemaError}

/-- A request that is granted has the answer and the outcome of the store without faults. -/
theorem request_eq_ok (h : request dialect faults statement otherwise answer s = .ok a t) :
    answer s.view = some (a, t.view) := by
  unfold request at h
  simp only at h
  split at h
  · cases h
  · split at h
    · next hanswer =>
        cases h
        exact hanswer
    · cases h

theorem request_eq_error (h : request dialect faults statement otherwise answer s = .error e t) :
    t.view = otherwise s.view := by
  unfold request at h
  simp only at h
  split at h
  · cases h
    rfl
  · split at h
    · cases h
    · cases h
      rfl

theorem execute_eq_ok {statement : Statement} {count : Nat}
    (h : execute dialect effect faults statement s = .ok count t) :
    perform effect s.view statement = some (count, t.view) :=
  request_eq_ok (show request .. = _ from h)

/-- The condition on a row of the ledger tells migrations apart. -/
theorem ofMigration_eq_iff {app name app' name' : String} :
    Ledger.ofMigration app name = Ledger.ofMigration app' name' ↔ app' = app ∧ name' = name := by
  simp [Ledger.ofMigration, Ledger.ofApp, eq_comm]

theorem query_eq_iff {app app' : String} : Ledger.query app = Ledger.query app' ↔ app' = app := by
  simp [Ledger.query, Ledger.ofApp, eq_comm]

/-- A statement that changes the schema or its rows leaves the ledger alone. -/
theorem perform_of_isChange {view view' : View κ} {count : Nat} {statement : Statement}
    (hchange : statement.IsChange) (h : perform effect view statement = some (count, view')) :
    ∃ contents, effect statement view.contents = some contents ∧
      view' = { view with contents } := by
  cases statement
  case insert | delete | select | raw => exact hchange.elim
  all_goals
    obtain ⟨contents, heffect, heq⟩ := Option.map_eq_some_iff.mp h
    cases heq
    exact ⟨contents, heffect, rfl⟩

/-- A transaction that is given up restores what was saved at its start. -/
theorem takenBack_eq {view : View κ} {contents : κ} {ledger : List LedgerEntry}
    (h : view.saved = some (contents, ledger)) :
    takenBack view = view.reverted contents ledger := by
  unfold takenBack
  rw [h]

/-- The store does what it is asked, or refuses it. -/
theorem reliable (dialect : Dialect) (now : DateTime) (effect : Statement → κ → Option κ)
    (faults : Nat → Option Statement → Bool) :
    (backend dialect now effect faults).Reliable effect Store.view where
  change statement s count t hchange h :=
    perform_of_isChange hchange (execute_eq_ok h)
  enter app name number s count t h := by
    have hperform :
        perform effect s.view (Ledger.entering app name number now) = _ := execute_eq_ok h
    exact ⟨_, ⟨rfl, rfl, rfl⟩, (Prod.mk.inj (Option.some.inj hperform)).2.symm⟩
  strike app name _ s count t h := by
    have hperform :
        perform effect s.view (.delete Ledger.table (Ledger.ofMigration app name)) = _ :=
      execute_eq_ok h
    obtain ⟨hcount, hview⟩ := Prod.mk.inj (Option.some.inj hperform)
    -- the condition of the statement picks the entries that are those of the migration
    have hfound : (fun entry : LedgerEntry => decide (Ledger.ofMigration app name
        = Ledger.ofMigration entry.app entry.name)) = LedgerEntry.isFor app name := by
      funext entry
      simp [ofMigration_eq_iff, LedgerEntry.isFor, beq_eq_decide]
    rw [hfound] at hcount hview
    exact ⟨hcount.symm, hview.symm⟩
  entries app s rows t h := by
    have hfound := request_eq_ok (show query .. = _ from h)
    obtain ⟨hrows, hview⟩ := Prod.mk.inj (Option.some.inj hfound)
    refine ⟨?_, hview.symm⟩
    rw [← hrows, List.map_map]
    simp only [query_eq_iff]
    refine (List.map_congr_left fun entry _ => Ledger.entryOf_row entry).trans ?_
    exact (List.map_id _).trans rfl
  queryRefused statement s e t h := request_eq_error (show query .. = _ from h)
  refused statement s e t _ h := by
    rw [request_eq_error (show execute .. = _ from h)]
    exact ⟨rfl, rfl⟩
  begin s t hclosed h := by
    have hview := request_eq_ok (show begin .. = _ from h)
    rw [if_neg (by rw [hclosed]; simp)] at hview
    exact (Prod.mk.inj (Option.some.inj hview)).2.symm
  beginRefused s e t _ h := request_eq_error (show begin .. = _ from h)
  commit s t _ h := by
    obtain ⟨saved, -, heq⟩ := Option.map_eq_some_iff.mp (request_eq_ok (show commit .. = _ from h))
    exact (Prod.mk.inj heq).2.symm
  commitRefused s contents ledger e t hsaved h := by
    rw [request_eq_error (show commit .. = _ from h), takenBack_eq hsaved]
  rollback s contents ledger t hsaved h := by
    obtain ⟨saved, -, heq⟩ :=
      Option.map_eq_some_iff.mp (request_eq_ok (show rollback .. = _ from h))
    rw [← (Prod.mk.inj heq).2, takenBack_eq hsaved]
  rollbackRefused s contents ledger e t hsaved h := by
    rw [request_eq_error (show rollback .. = _ from h), takenBack_eq hsaved]

end Store

end SchemaHistory
