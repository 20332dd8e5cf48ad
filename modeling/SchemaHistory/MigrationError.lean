import SchemaHistory.SchemaError

/-!
# What can be wrong with migrations

Each error names its cause; `MigrationError.message` is its wording. An error that arises while a
migration is at work is put in the context of that migration.
-/

namespace SchemaHistory

inductive StateFault where
  | duplicateModel (model : String)
  | unknownModel (model : String)
  | duplicateField (model field : String)
  | unknownField (model field : String)
  | duplicateIndex (model index : String)
  | unknownIndex (model index : String)
  /-- A migration of another app. -/
  | foreignMigration (migration app : String)
deriving DecidableEq

def StateFault.message : StateFault → String
  | duplicateModel model => s!"duplicate model: {model}"
  | unknownModel model => s!"model not found: {model}"
  | duplicateField model field => s!"{model}: duplicate field: {field}"
  | unknownField model field => s!"{model}: field not found: {field}"
  | duplicateIndex model index => s!"{model}: duplicate index: {index}"
  | unknownIndex model index => s!"{model}: index not found: {index}"
  | foreignMigration migration app => s!"migration {migration} belongs to app '{app}'"

inductive FileFault where
  | notFound
  | notADirectory
  | isADirectory
  | alreadyExists
  /-- The file is not UTF-8. -/
  | invalidText
  | nameTooLong
  /-- A name holds the character that ends names. -/
  | invalidName
deriving DecidableEq

def FileFault.message : FileFault → String
  | notFound => "No such file or directory (os error 2)"
  | notADirectory => "Not a directory (os error 20)"
  | isADirectory => "Is a directory (os error 21)"
  | alreadyExists => "File exists (os error 17)"
  | invalidText => "stream did not contain valid UTF-8"
  | nameTooLong => "File name too long (os error 36)"
  | invalidName => "file name contained an unexpected NUL byte"

inductive MigrationError where
  | schema (cause : SchemaError)
  | inconsistent (app : String) (fault : StateFault)
  /-- The table that records migrations cannot be read or written. -/
  | ledger (cause : SchemaError)
  | invalidOperation (text : String)
  /-- A document is no JSON, or not of the right shape. -/
  | invalidDocument
  | invalidName (name : String)
  | duplicateNumber (app number : String)
  | missingDependency (app name neededApp neededName : String)
  | circularDependency
  | notFound (app name : String)
  | unknownApp (app : String)
  | unknownDialect (dialect : String)
  | file (fault : FileFault)
  | unreadableFile (path : String) (cause : MigrationError)
  | misnamedFile (path name : String)
  | misplacedFile (path app : String)
  | during (app name : String) (cause : MigrationError)
deriving DecidableEq

namespace MigrationError

def fileMessage (path text : String) : String :=
  s!"Failed to parse migration file '{path}': {text}"

def message : MigrationError → String
  | schema cause => cause.message
  | inconsistent app fault => s!"inconsistent state for app '{app}': {fault.message}"
  | ledger cause => s!"migration ledger: {cause.message}"
  | invalidOperation text => s!"invalid operation: {text}"
  | invalidDocument => "invalid payload"
  | invalidName name => s!"invalid migration name '{name}': expected NNNN_label"
  | duplicateNumber app number => s!"duplicate migration number {number} in app '{app}'"
  | missingDependency app name neededApp neededName =>
    s!"Migration '{app}/{name}' depends on '{neededApp}/{neededName}' which doesn't exist"
  | circularDependency => "Circular dependency detected in migrations"
  | notFound app name => s!"Migration not found: {app}/{name}"
  | unknownApp app => s!"no migrations found for app '{app}'"
  | unknownDialect dialect => s!"unknown dialect '{dialect}'"
  | file fault => s!"IO error: {fault.message}"
  | unreadableFile path cause => fileMessage path cause.message
  | misnamedFile path name => fileMessage path s!"file name does not match migration name {name}"
  | misplacedFile path app => fileMessage path s!"migration belongs to app '{app}'"
  | during app name cause => s!"migration {app}/{name}: {cause.message}"

end MigrationError

end SchemaHistory
