import SchemaHistory.CommandLine.Arguments

/-!
# Commands

The commands of the program and the reading of a command line. Options that concern every command
come first, then the name of the command, then its own options. What is not given is filled in by
the defaults, which the environment may set.
-/

namespace SchemaHistory

inductive Command where
  /-- Creates the ledger. -/
  | init
  | migrate (app target : Option String) (dryRun : Bool)
  | rollback (app target : String) (dryRun : Bool)
  | showMigrations (app : Option String)
  | makeMigrations (app models : String) (label : Option String) (dryRun : Bool)
  | sqlMigrate (app migration dialect : String) (reverse : Bool)
deriving DecidableEq

structure Invocation where
  database : String
  directory : String
  databaseName : String
  verbose : Bool
  command : Command
deriving DecidableEq

/-- What the options stand for that are not given. -/
structure Defaults where
  database : String := "sqlite:db.sqlite3"
  directory : String := "migrations"
  databaseName : String := "default"

namespace Command

open Arguments

def appRule : OptionRule := ⟨"app", some 'a', true, false⟩

def targetRule : OptionRule := ⟨"to", some 't', true, false⟩

def dryRunRule : OptionRule := ⟨"dry-run", none, false, false⟩

def read? (name : String) (arguments : List String) : Option Command := do
  match name with
  | "init" =>
    let _ ← readAll? [] arguments
    return init
  | "migrate" =>
    let given ← readAll? [appRule, targetRule, dryRunRule] arguments
    guard (!given.has "to" || given.has "app")
    return migrate (given.get? "app") (given.get? "to") (given.has "dry-run")
  | "rollback" =>
    let given ← readAll? [appRule, targetRule, dryRunRule] arguments
    return rollback (← given.get? "app") (← given.get? "to") (given.has "dry-run")
  | "show-migrations" =>
    let given ← readAll? [appRule] arguments
    return showMigrations (given.get? "app")
  | "make-migrations" =>
    let given ← readAll? [appRule, ⟨"models", none, true, true⟩, ⟨"name", some 'n', true, false⟩,
      dryRunRule] arguments
    return makeMigrations (← given.get? "app") (← given.get? "models") (given.get? "name")
      (given.has "dry-run")
  | "sql-migrate" =>
    let given ← readAll? [appRule, ⟨"migration", some 'm', true, false⟩,
      ⟨"reverse", some 'r', false, false⟩, ⟨"dialect", none, true, false⟩] arguments
    return sqlMigrate (← given.get? "app") (← given.get? "migration")
      ((given.get? "dialect").getD "sqlite") (given.has "reverse")
  | _ => none

end Command

namespace Invocation

def rules : List OptionRule := [
  ⟨"database", some 'd', true, false⟩,
  ⟨"migrations-dir", some 'm', true, true⟩,
  ⟨"database-name", none, true, false⟩,
  ⟨"verbose", some 'v', false, false⟩]

def read? (defaults : Defaults) (arguments : List String) : Option Invocation := do
  let (given, rest) ← Arguments.read? rules arguments
  let name :: rest := rest | none
  return {
    database := (given.get? "database").getD defaults.database
    directory := (given.get? "migrations-dir").getD defaults.directory
    databaseName := (given.get? "database-name").getD defaults.databaseName
    verbose := given.has "verbose"
    command := ← Command.read? name rest
  }

end Invocation

end SchemaHistory
