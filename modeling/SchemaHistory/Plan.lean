import SchemaHistory.Migrator
import SchemaHistory.DependencyGraph

/-!
# Migrating several apps

A plan is a list of migrations of any apps in an order in which they can be applied. It is carried
out run by run: as long as one migration after the other belongs to the same app, they are applied
together.
-/

namespace SchemaHistory

structure PlanRun where
  app : String
  /-- The name of the last of them. -/
  last : String
deriving DecidableEq

namespace Plan

def runs : List Migration → List PlanRun
  | [] => []
  | migration :: rest =>
    match runs rest with
    | next :: later =>
      if next.app = migration.app then next :: later
      else ⟨migration.app, migration.name⟩ :: next :: later
    | [] => [⟨migration.app, migration.name⟩]

def isTarget (app target : String) (migration : Migration) : Bool :=
  migration.app == app && (migration.name == target || migration.number == target)

/-- Ends a plan with a target, which must be in it. -/
def cut (app target : String) : List Migration → Except MigrationError (List Migration)
  | [] => .error (.notFound app target)
  | migration :: rest =>
    if isTarget app target migration then .ok [migration]
    else do return migration :: (← cut app target rest)

/-- The migrations to apply: all, or those an app needs, or those it needs up to a target. -/
def choose (graph : DependencyGraph) (app target : Option String) :
    Except MigrationError (List Migration) := do
  match app with
  | none => graph.order
  | some app =>
    if (graph.ofApp app).isEmpty then throw (.unknownApp app)
    let plan ← graph.plan app
    match target with
    | some target => cut app target plan
    | none => return plan

variable {σ : Type} (migrator : Migrator σ)

/-- Carries out the migrations of a graph, run by run. -/
def carryOut (graph : DependencyGraph) (runs : List PlanRun) : Run σ Unit :=
  runs.forM fun run => do
    let _ ← migrator.apply run.app (graph.ofApp run.app) (some run.last)

def migrate (migrations : List Migration) (app target : Option String) : Run σ Unit := do
  let graph := DependencyGraph.ofList migrations
  let plan ← Run.ofExcept (choose graph app target)
  if plan.isEmpty then
    Run.emit (.message .info "No migrations found. Use `makemigrations` first." [])
  else carryOut migrator graph (runs plan)

end Plan

end SchemaHistory
