import SchemaHistory.Proofs.FaultyStore
import SchemaHistory.Proofs.TwoMoments

/-!
# The store is dependable

A store numbers the rows of its ledger by how many there are. Which rows there are can be told from
what it has been asked for, without the moments: it is enough to keep the apps and names
(`Store.keys`).

`keysOf_perform` is the step, for one statement, and `Store.dependable` says it of the store with
its faults: after the same requests, granted and refused alike, two stores have rows of the same
migrations and give out the same numbers. Calls at two moments are compared on a store of this kind.
-/

namespace SchemaHistory

namespace Store

/-! ### Rows by their keys -/

variable {κ : Type}

/-- Which migrations have rows, now and when the open transaction began. -/
abbrev Keys := List (String × String) × Option (List (String × String))

def keyOf (row : Row) : String × String := (Ledger.textOf "app" row, Ledger.textOf "name" row)

def keysOf (ledger : List LedgerEntry) : List (String × String) :=
  ledger.map fun entry => (entry.app, entry.name)

/-- The rows of a store, as far as they count. -/
def keys (store : Store κ) : Keys :=
  (keysOf store.view.ledger, store.view.saved.map fun kept => keysOf kept.2)

def rowsAfter : Statement → List (String × String) → List (String × String)
  | .insert table values, rows => if table = Ledger.table then rows ++ [keyOf values] else rows
  | .delete table condition, rows =>
    if table = Ledger.table then
      rows.filter fun key => !decide (condition = Ledger.ofMigration key.1 key.2)
    else rows
  | _, rows => rows

def after : Request → Keys → Keys
  | .execute statement, keys => (rowsAfter statement keys.1, keys.2)
  | .query _, keys => keys
  | .begin, keys => (keys.1, some keys.1)
  | .commit, keys => (keys.1, none)
  | .rollback, keys => (keys.2.getD keys.1, none)

/-! ### The same rows at two moments -/

section Alike

variable {clocks : DateTime → DateTime → Prop} {values values' : Row}

/-- A moment is no text. -/
theorem textOf_alike (h : values.Alike clocks values') (column : String) :
    Ledger.textOf column values = Ledger.textOf column values' := by
  unfold Ledger.textOf
  have hget := h.get? column
  generalize Named.get? column values = value? at hget
  generalize Named.get? column values' = value?' at hget
  cases hget with
  | none => rfl
  | some hvalue =>
      rcases hvalue with rfl | ⟨a, b, -, rfl, rfl⟩
      · rfl
      · rfl

/-- Statements that differ in moments do the same to the rows. -/
theorem rowsAfter_alike {statement statement' : Statement} (h : statement.Alike clocks statement')
    (rows : List (String × String)) : rowsAfter statement rows = rowsAfter statement' rows := by
  cases h with
  | refl => rfl
  | insert table hvalues =>
      unfold rowsAfter keyOf
      dsimp only
      rw [textOf_alike hvalues, textOf_alike hvalues]
  | update => rfl

end Alike

/-- The rows are numbered from one on. -/
def numbering : Numbering Keys where
  after := after
  number keys := Int64.ofNat (keys.1.length + 1)
  timeless request request' h := by
    cases h with
    | refl => rfl
    | execute hstatement =>
        funext keys
        unfold after
        dsimp only
        rw [rowsAfter_alike hstatement]

/-- A statement changes the rows as can be told from it alone. -/
theorem keysOf_perform {effect : Statement → κ → Option κ} {view view' : View κ}
    {statement : Statement} {count : Nat}
    (h : perform effect view statement = some (count, view')) :
    keysOf view'.ledger = rowsAfter statement (keysOf view.ledger) ∧ view'.saved = view.saved := by
  cases statement
  case insert table values =>
    unfold perform at h
    dsimp only at h
    split at h
    · next htable =>
        cases h
        unfold rowsAfter keysOf
        dsimp only
        rw [if_pos htable, List.map_append]
        exact ⟨rfl, rfl⟩
    · cases h
  case delete table condition =>
    unfold perform at h
    dsimp only at h
    split at h
    · next htable =>
        cases h
        unfold rowsAfter keysOf
        dsimp only
        rw [if_pos htable, List.filter_map]
        exact ⟨rfl, rfl⟩
    · cases h
  case select => cases h
  case raw => cases h
  all_goals
    obtain ⟨contents, -, heq⟩ := Option.map_eq_some_iff.mp h
    cases heq
    exact ⟨rfl, rfl⟩

variable {dialect : Dialect} {now : DateTime} {effect : Statement → κ → Option κ}
  {faults : Nat → Option Statement → Bool}

/-- The numbers follow from how many rows there are. -/
theorem numbers : (backend dialect now effect faults).logging.Numbers (fun s => s.1.view) numbering
    (fun s => keys s.1) where
  execute statement s rows t hok := by
    obtain ⟨hkeys, hsaved⟩ := keysOf_perform (execute_eq_ok (Backend.recordIn_eq_ok.mp hok).1)
    show (keysOf t.1.view.ledger, t.1.view.saved.map _) = (_, _)
    rw [hkeys, hsaved]
    rfl
  unmoved := by
    constructor
    · intro app s rows t hok
      have hfound := request_eq_ok (show query .. = _ from (Backend.recordIn_eq_ok.mp hok).1)
      show (keysOf t.1.view.ledger, t.1.view.saved.map _) = _
      rw [← (Prod.mk.inj (Option.some.inj hfound)).2]
      rfl
    · intro app s e t herror
      have hrefused := request_eq_error
        (show query .. = _ from (Backend.recordIn_eq_error.mp herror).1)
      show (keysOf t.1.view.ledger, t.1.view.saved.map _) = _
      rw [hrefused]
      rfl
  begin s t hok := by
    have hbegun := request_eq_ok (show begin .. = _ from (Backend.recordIn_eq_ok.mp hok).1)
    show (keysOf t.1.view.ledger, t.1.view.saved.map _) = _
    split at hbegun
    · cases hbegun
    · rw [← (Prod.mk.inj (Option.some.inj hbegun)).2]
      rfl
  commit s t hok := by
    obtain ⟨saved, -, heq⟩ := Option.map_eq_some_iff.mp
      (request_eq_ok (show commit .. = _ from (Backend.recordIn_eq_ok.mp hok).1))
    show (keysOf t.1.view.ledger, t.1.view.saved.map _) = _
    rw [← (Prod.mk.inj heq).2]
    rfl
  rollback s t hok := by
    obtain ⟨⟨contents, ledger⟩, hsaved, heq⟩ := Option.map_eq_some_iff.mp
      (request_eq_ok (show rollback .. = _ from (Backend.recordIn_eq_ok.mp hok).1))
    show (keysOf t.1.view.ledger, t.1.view.saved.map _) = ((keys s.1).2.getD _, none)
    rw [← (Prod.mk.inj heq).2, takenBack_eq hsaved]
    unfold keys
    rw [hsaved]
    rfl
  enter app name number moment s rows t hok := by
    have hperform : perform effect s.1.view (Ledger.entering app name number moment)
      = some (rows, t.1.view) := execute_eq_ok (Backend.recordIn_eq_ok.mp hok).1
    rw [← (Prod.mk.inj (Option.some.inj hperform)).2]
    dsimp only
    rw [List.getLast?_concat]
    show some (Int64.ofNat _) = some (Int64.ofNat ((keysOf s.1.view.ledger).length + 1))
    rw [keysOf, List.length_map]

/-- With a log the store is dependable. -/
theorem dependable : (backend dialect now effect faults).logging.Dependable effect
    (fun s => s.1.view)
    Prod.snd numbering (fun s => keys s.1) where
  reliable moment := (reliable dialect moment effect faults).logging
  logs := Backend.logging_logs _
  numbers := numbers

end Store

end SchemaHistory
