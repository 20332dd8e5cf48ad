import SchemaHistory.Main
import SchemaHistory.Proofs.Named
import SchemaHistory.Proofs.Sessions
import SchemaHistory.Proofs.TableChanges
import SchemaHistory.Proofs.Catalog
import SchemaHistory.Proofs.TableEffects
import SchemaHistory.Proofs.SchemaChanges
import SchemaHistory.Proofs.SchemaCatalog
import SchemaHistory.Proofs.OperationEffects
import SchemaHistory.Proofs.Replay
import SchemaHistory.Proofs.Edits
import SchemaHistory.Proofs.DeclaredModels
import SchemaHistory.Proofs.ModelDiff
import SchemaHistory.Proofs.RoundTrip
import SchemaHistory.Proofs.ReachDeclared
import SchemaHistory.Proofs.TableRows
import SchemaHistory.Proofs.InPlaceOrAnew
import SchemaHistory.Proofs.ReadMigrations
import SchemaHistory.Proofs.Scripts
import SchemaHistory.Proofs.MigratorRuns
import SchemaHistory.Proofs.NameOrder
import SchemaHistory.Proofs.MigratorCalls
import SchemaHistory.Proofs.FaultyStore
import SchemaHistory.Proofs.AllOrNothing
import SchemaHistory.Proofs.MigrationEffects
import SchemaHistory.Proofs.Agreement
import SchemaHistory.Proofs.Parts
import SchemaHistory.Proofs.AlikeStates
import SchemaHistory.Proofs.Locality
import SchemaHistory.Proofs.RowEffects
import SchemaHistory.Proofs.CatchingUp
import SchemaHistory.Proofs.LateMigrations
import SchemaHistory.Proofs.PredicateGrammar
import SchemaHistory.Proofs.PredicateText
import SchemaHistory.Proofs.PredicateMeaning
import SchemaHistory.Proofs.Files
import SchemaHistory.Proofs.MigrationNumbers
import SchemaHistory.Proofs.StoredMigrations
import SchemaHistory.Proofs.NextMigration
import SchemaHistory.Proofs.GraphKeys
import SchemaHistory.Proofs.Dependencies
import SchemaHistory.Proofs.DependencyOrder
import SchemaHistory.Proofs.Plans
import SchemaHistory.Proofs.StoreContents
import SchemaHistory.Proofs.Requirements
import SchemaHistory.Proofs.PlanRuns
import SchemaHistory.Proofs.PlanCarriedOut
import SchemaHistory.Proofs.DryRuns
import SchemaHistory.Proofs.DryPlans
import SchemaHistory.Proofs.AllowedStatements
import SchemaHistory.Proofs.AllowedOperations
import SchemaHistory.Proofs.AllowedRuns
import SchemaHistory.Proofs.RunnableDiff
import SchemaHistory.Proofs.Rehearsals
import SchemaHistory.Proofs.Requests
import SchemaHistory.Proofs.MigratorRequests
import SchemaHistory.Proofs.Courses
import SchemaHistory.Proofs.DryRunAgreement
import SchemaHistory.Proofs.SharedLedger
import SchemaHistory.Proofs.RecordedDependencies
import SchemaHistory.Proofs.Rounding
import SchemaHistory.Proofs.NumberText
import SchemaHistory.Proofs.JsonText
import SchemaHistory.Proofs.JsonTree
import SchemaHistory.Proofs.CalendarText
import SchemaHistory.Proofs.FieldDocuments
import SchemaHistory.Proofs.MigrationDocuments
import SchemaHistory.Proofs.SqlText
import SchemaHistory.Proofs.SqlGrammar
import SchemaHistory.Proofs.SchemaText
import SchemaHistory.Proofs.CompiledConditions
import SchemaHistory.Proofs.DataStatements
import SchemaHistory.Proofs.Expressions
import SchemaHistory.Proofs.SchemaDrift
import SchemaHistory.Proofs.NeededMigrations
import SchemaHistory.Proofs.CheckedColumns
import SchemaHistory.Proofs.Attempts
import SchemaHistory.Proofs.UndoneMigrations
import SchemaHistory.Proofs.Clocks
import SchemaHistory.Proofs.SideBySide
import SchemaHistory.Proofs.TwoMoments
import SchemaHistory.Proofs.CallsInParts
import SchemaHistory.Proofs.ComposedCalls
import SchemaHistory.Proofs.DependableStore
import SchemaHistory.Proofs.ComposedTargets
import SchemaHistory.Proofs.OperationParts
import SchemaHistory.Proofs.ReachableStates
import SchemaHistory.Proofs.StepsAndReplay
import SchemaHistory.Proofs.TemporalTexts
import SchemaHistory.Proofs.LookupKeys
import SchemaHistory.Proofs.DeliveredRows
import SchemaHistory.Proofs.TargetCuts
import SchemaHistory.Proofs.FreshNumbers
import SchemaHistory.Proofs.ProgramDatabase
