import SchemaHistory.Migration

/-!
# The order of migrations

Migrations of several apps form a graph: a migration comes after the one before it in its app, and
after those that it depends on. `DependencyGraph.order` puts all migrations in an order that
respects this, at every place the first one, by app and name, that may come next.
`DependencyGraph.plan` is the part of that order that an app needs.
-/

namespace SchemaHistory

structure MigrationKey where
  app : String
  name : String
deriving DecidableEq

namespace MigrationKey

/-- Keys are ordered by app, then by name. -/
def before (a b : MigrationKey) : Bool := a.app < b.app || (a.app == b.app && a.name < b.name)

/-- Adds a key to keys that are in order, unless it is among them. -/
def insert (key : MigrationKey) : List MigrationKey → List MigrationKey
  | [] => [key]
  | other :: rest =>
    if key.before other then key :: other :: rest
    else if key = other then other :: rest
    else other :: insert key rest

end MigrationKey

def Migration.key (migration : Migration) : MigrationKey := ⟨migration.app, migration.name⟩

/-- Migrations in the order of their keys, no two with the same key. -/
structure DependencyGraph where
  migrations : List Migration := []

namespace DependencyGraph

/-- Puts a migration in its place. It replaces one with the same key. -/
def place (migration : Migration) : List Migration → List Migration
  | [] => [migration]
  | other :: rest =>
    if migration.key.before other.key then migration :: other :: rest
    else if migration.key = other.key then migration :: rest
    else other :: place migration rest

/-- Adds a migration. It replaces one with the same key. -/
def add (graph : DependencyGraph) (migration : Migration) : DependencyGraph :=
  ⟨place migration graph.migrations⟩

def ofList (migrations : List Migration) : DependencyGraph := migrations.foldl add {}

def get? (graph : DependencyGraph) (key : MigrationKey) : Option Migration :=
  graph.migrations.find? (·.key = key)

def contains (graph : DependencyGraph) (key : MigrationKey) : Bool := (graph.get? key).isSome

def ofApp (graph : DependencyGraph) (app : String) : List Migration :=
  graph.migrations.filter (·.app == app)

def previous? (graph : DependencyGraph) (migration : Migration) : Option MigrationKey :=
  match (graph.migrations.filter (·.key.before migration.key)).getLast? with
  | some other => if other.app = migration.app then some other.key else none
  | none => none

def declared (graph : DependencyGraph) (migration : Migration) (dependency : String × String) :
    Except MigrationError MigrationKey :=
  let key : MigrationKey := ⟨dependency.1, dependency.2⟩
  if graph.contains key then .ok key
  else .error (.missingDependency migration.app migration.name key.app key.name)

/-- What a migration comes after, in order: the migration before it in its app and those that it
depends on. -/
def dependencies (graph : DependencyGraph) (migration : Migration) :
    Except MigrationError (List MigrationKey) := do
  let declared ← migration.dependencies.mapM (graph.declared migration)
  return declared.foldl (fun keys key => key.insert keys) (graph.previous? migration).toList

/-- A migration that has no place yet, and what it comes after. -/
structure Pending where
  migration : Migration
  dependencies : List MigrationKey

/-- Whether everything that a migration comes after is placed. -/
def Pending.isReady (placed : List Migration) (pending : Pending) : Bool :=
  pending.dependencies.all fun key => placed.any (·.key = key)

def firstReady? (placed : List Migration) : List Pending → Option (Migration × List Pending)
  | [] => none
  | first :: rest =>
    if first.isReady placed then some (first.migration, rest)
    else (firstReady? placed rest).map fun (ready, others) => (ready, first :: others)

/-- Placing the first migration that is ready leaves fewer of them pending. -/
theorem length_of_firstReady? {placed : List Migration} :
    ∀ {pending : List Pending} {ready : Migration} {others : List Pending},
      firstReady? placed pending = some (ready, others) → others.length < pending.length
  | first :: rest, ready, others, h => by
    rw [firstReady?] at h
    split at h
    · cases h
      exact Nat.lt_succ_self _
    · obtain ⟨⟨r, os⟩, hr, heq⟩ := Option.map_eq_some_iff.1 h
      cases heq
      exact Nat.succ_lt_succ (length_of_firstReady? hr)

/-- Places the pending migrations after those in `placed`, which are last first. At every step the
first one that is ready gets its place. -/
def arrange (placed : List Migration) (pending : List Pending) :
    Except MigrationError (List Migration) :=
  match _h : firstReady? placed pending with
  | some (ready, others) => arrange (ready :: placed) others
  | none => if pending.isEmpty then .ok placed.reverse else .error .circularDependency
termination_by pending.length
decreasing_by exact length_of_firstReady? _h

def pending (graph : DependencyGraph) : Except MigrationError (List Pending) :=
  graph.migrations.mapM fun migration => do
    return ⟨migration, ← graph.dependencies migration⟩

/-- All migrations in an order in which they can be applied. -/
def order (graph : DependencyGraph) : Except MigrationError (List Migration) := do
  arrange [] (← graph.pending)

/-! ### What an app needs -/

def countUnneeded (needed : List MigrationKey) (migrations : List Migration) : Nat :=
  migrations.countP fun migration => !needed.contains migration.key

/-- Needing one more key leaves no more migrations unneeded than before. -/
theorem countUnneeded_cons_le (key : MigrationKey) (needed : List MigrationKey)
    (migrations : List Migration) :
    countUnneeded (key :: needed) migrations ≤ countUnneeded needed migrations := by
  apply List.countP_mono_left
  intro migration _ h
  simp only [List.contains_cons, Bool.not_or, Bool.and_eq_true] at h
  exact h.2

/-- Needing a new key of the graph leaves fewer migrations unneeded. -/
theorem countUnneeded_cons_lt {graph : DependencyGraph} {key : MigrationKey}
    {needed : List MigrationKey} {migration : Migration} (hget : graph.get? key = some migration)
    (hnew : needed.contains key = false) :
    countUnneeded (key :: needed) graph.migrations < countUnneeded needed graph.migrations := by
  have hkey : migration.key = key := by simpa using List.find?_some hget
  obtain ⟨before, after, hsplit⟩ := List.append_of_mem (List.mem_of_find?_eq_some hget)
  have hb := countUnneeded_cons_le key needed before
  have ha := countUnneeded_cons_le key needed after
  simp only [countUnneeded, List.contains_cons] at ha hb
  simp only [countUnneeded, hsplit, List.countP_append, List.countP_cons, hkey,
    List.contains_cons, beq_self_eq_true, Bool.true_or, Bool.not_true, Bool.false_eq_true,
    ↓reduceIte, hnew, Bool.not_false]
  omega

/-- Everything that the keys in `stack`, last first, and those in `needed` come after. -/
def reach (graph : DependencyGraph) (needed : List MigrationKey) (stack : List MigrationKey) :
    Except MigrationError (List MigrationKey) :=
  match stack with
  | [] => .ok needed
  | key :: rest =>
    if _hn : needed.contains key then graph.reach needed rest
    else
      match _h : graph.get? key with
      | none => graph.reach (key :: needed) rest
      | some migration =>
        match graph.dependencies migration with
        | .error e => .error e
        | .ok dependencies => graph.reach (key :: needed) (dependencies.reverse ++ rest)
termination_by (countUnneeded needed graph.migrations, stack.length)
decreasing_by
  · exact Prod.Lex.right _ (Nat.lt_succ_self _)
  · rcases Nat.lt_or_eq_of_le (countUnneeded_cons_le key needed graph.migrations) with hlt | heq
    · exact Prod.Lex.left _ _ hlt
    · rw [heq]
      exact Prod.Lex.right _ (Nat.lt_succ_self _)
  · exact Prod.Lex.left _ _ (countUnneeded_cons_lt _h (by simpa using _hn))

/-- The migrations of an app and all that they come after, in an order in which they can be
applied. -/
def plan (graph : DependencyGraph) (app : String) : Except MigrationError (List Migration) := do
  let needed ← graph.reach [] ((graph.ofApp app).map Migration.key).reverse
  let ordered ← graph.order
  return ordered.filter fun migration => needed.contains migration.key

end DependencyGraph

end SchemaHistory
