import SchemaHistory.Proofs.OperationEffects
import SchemaHistory.Proofs.Replay

/-!
# Operations there and back

A database that consists of a catalog only, and what operations do on it: carried out, an operation
makes of the tables and indexes of the state before it exactly those of the state after it, and
undone it gives back those of the state before it, up to the order of columns
(`Operation.tables_follow_state`).

The order can change because a field that was removed comes back as the last column. Nothing is said
of rows here, which a column that was dropped does not get back.
-/

namespace SchemaHistory

/-- The database that has a catalog and no rows. It refuses what the catalog does not allow. -/
def Catalog.backend (dialect : Dialect) (now : DateTime) : Backend Catalog where
  dialect
  now
  execute statement db := match db.execute statement with
    | some db => .ok 0 db
    | none => .error (.refused dialect.name "not in the catalog" (statement.text dialect)) db
  query _ := pure []
  begin := pure ()
  commit := pure ()
  rollback := pure ()

theorem Catalog.carries_backend (dialect : Dialect) (now : DateTime) :
    (Catalog.backend dialect now).Carries id := by
  intro statement s count t h
  unfold Catalog.backend at h
  simp only at h
  split at h
  · next db hdb =>
      cases h
      exact hdb
  · cases h

namespace Operation

/-- Let an operation turn a state that migrations led to, and that a database can hold, into another
one. Where a database with exactly the tables and indexes of the first state carries the operation
out without refusing a statement, it has exactly those of the second. And where a database that has
those of the second, up to the order of columns, undoes it, it has those of the first again, up to
the order of columns, and has touched no other table. -/
theorem tables_follow_state {app : String} {migrations : List Migration} {before after : AppSchema}
    {operation : Operation} (dialect : Dialect) (now : DateTime)
    (hmaps : ∀ migration ∈ migrations, migration.FieldsDiffer) (hmap : operation.FieldsDiffer)
    (hreplay : AppSchema.replay app migrations = .ok before) (hseparate : before.Separate)
    (happly : Change.outcome operation.apply before = .ok ((), after)) :
    (∀ db, operation.forward (Catalog.backend dialect now) ⟨before, after⟩ before.catalog
      = .ok () db →
      after.Separate ∧ db = after.catalog) ∧
    (∀ db db', after.HeldBy db →
      operation.backward (Catalog.backend dialect now) ⟨before, after⟩ db = .ok () db' →
      before.HeldBy db' ∧ operation.Spares ⟨before, after⟩ db db') := by
  have hbefore := AppSchema.replay_sound hmaps hreplay
  have hstep := applies_of_ok hbefore (Change.outcome_eq_ok.mp happly)
  have hafter := hstep.sound hbefore hmap
  have hcarries := Catalog.carries_backend dialect now
  constructor
  · intro db hforward
    have hheld :
        before.Held Eq before.catalog := ⟨hseparate, Catalog.Like.refl Catalog.likeness_eq _⟩
    obtain ⟨hheld', -⟩ :=
      forward_held Catalog.likeness_eq hcarries hbefore hstep hafter hheld hforward
    exact ⟨hheld'.separate, hheld'.like.eq⟩
  · intro db db' hheld hbackward
    exact backward_held hcarries hbefore hstep hafter hheld hbackward

/-! ### A table with a key and a text, and a unique column for it -/

def noteMoment : DateTime where
  date := ⟨2024, 2, 29, by decide, by decide, by decide⟩
  time := .midnight

def noteModel : Model where
  app := "notes"
  name := "Note"
  table := "note"
  key := "id"
  fields := [("id", .ofKind .auto), ("text", .ofKind .text)]
  indexes := []

def noteState : AppSchema where
  app := "notes"
  models := [("Note", noteModel)]
  migrations := ["0001_initial"]

def noteMigration : Migration where
  app := "notes"
  name := "0001_initial"
  operations := [.createModel "Note" (some "note") noteModel.fields]

/-- A column that SQLite can add only by building the table anew. -/
def rankAdded : Operation :=
  .addFields "Note"
    [("rank", { Field.ofKind .integer with unique := true, default := some (.int 0) })]

theorem separate_noteState : noteState.Separate := by
  have hmodel : ∀ name m, noteState.model? name = some m → name = "Note" ∧ m = noteModel := by
    intro name m hm
    obtain ⟨hname, hm⟩ := Prod.mk.inj (List.mem_singleton.mp (Named.mem_of_get? hm))
    exact ⟨hname, hm⟩
  constructor
  · intro name m name' m' hm hm' hne
    exact absurd ((hmodel _ _ hm).1.trans (hmodel _ _ hm').1.symm) hne
  · intro name m hm
    rw [(hmodel _ _ hm).2]
    decide

/-- SQLite adds the column and takes it away again, building the table anew both times. -/
theorem rankAdded_there_and_back : ∃ after db db',
    Change.outcome rankAdded.apply noteState = .ok ((), after) ∧
      rankAdded.forward (Catalog.backend .sqlite noteMoment) ⟨noteState, after⟩ noteState.catalog
        = .ok () db ∧
      db = after.catalog ∧
      rankAdded.backward (Catalog.backend .sqlite noteMoment) ⟨noteState, after⟩ db = .ok () db' ∧
      noteState.HeldBy db' := by
  have hmaps : ∀ migration ∈ [noteMigration], migration.FieldsDiffer := by
    simp [noteMigration, Migration.FieldsDiffer, FieldsDiffer, noteModel, Named.names]
  have hmap : rankAdded.FieldsDiffer := by simp [rankAdded, FieldsDiffer, Named.names]
  have hreplay : AppSchema.replay "notes" [noteMigration] = .ok noteState := rfl
  have hboth := tables_follow_state .sqlite noteMoment hmaps hmap hreplay separate_noteState rfl
  have hforward := hboth.1 _ rfl
  have hheld := hboth.2 _ _ (AppSchema.heldBy_of_eq hforward.1 hforward.2) rfl
  exact ⟨_, _, _, rfl, rfl, hforward.2, rfl, hheld.1⟩

end Operation

end SchemaHistory
