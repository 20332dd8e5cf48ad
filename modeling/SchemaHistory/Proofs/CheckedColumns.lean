import SchemaHistory.Proofs.AllowedOperations
import SchemaHistory.Proofs.MigratorRequests

/-!
# Columns that are checked in turn

Adding columns, and dropping them in place, checks each field just before its statement is carried
out. Where a field is at fault, the columns of the fields before it have been added or dropped by
then. Only where a table is built anew to drop columns are all fields checked first.
-/

namespace SchemaHistory

namespace Model

/-- What is wrong with a field that is to be added, if anything is. There is no such field, or its
column refuses nulls and there is nothing to fill it with. -/
def additionFault (now : DateTime) (model : Model) (name : String) : Option SchemaError :=
  match model.field? name with
  | none => some (.unknownField model.name name)
  | some field =>
    if field.null || (field.filling now).isSome then none
    else some (.missingDefault model.name name)

/-- What is wrong with a field that is to be dropped, if anything is. -/
def removalFault (model : Model) (name : String) : Option SchemaError :=
  match model.column name with
  | .ok _ => none
  | .error e => some e

def additionOf (inPlace : Bool) (model : Model) (name : String) : Option Statement :=
  (model.field? name).map fun field => Backend.addition inPlace model.table (name, field)

def removalOf (model : Model) (name : String) : Option Statement :=
  (model.field? name).map fun field => .dropColumn model.table (field.columnName name)

end Model

/-- The statements of the names before the first one that is at fault. -/
def statementsBefore (fault : String → Option SchemaError) (statementOf : String → Option Statement)
    (names : List String) : List Statement :=
  (names.takeWhile fun name => (fault name).isNone).filterMap statementOf

section Stopped

variable {σ : Type} (log : σ → List Event) (fault : String → Option SchemaError)
  (statementOf : String → Option Statement) (names : List String) (s : σ) (e : SchemaError) (t : σ)

/-- A change that has failed at the first name that is at fault. The statements of the names before
it have been carried out, so nothing has been only if there are no such names. -/
structure StoppedAt : Prop where
  fault_eq : names.findSome? fault = some e
  log_eq : log t = log s ++
    (statementsBefore fault statementOf names).map fun statement => ⟨.execute statement, true⟩
  untouched_iff : log t = log s ↔ names.head?.bind fault = some e

end Stopped

namespace Backend

variable {σ α β γ : Type} {backend : Backend σ} {log : σ → List Event} {model old new : Model}
  {names : List String} {name : String} {s t u : σ} {e : SchemaError}
  {fault : String → Option SchemaError} {statementOf : String → Option Statement}

/-! ### What fails for a refusal only -/

/-- An action that carries statements out and fails only where one of them is refused. -/
structure FailsByRefusal (backend : Backend σ) (action : Session σ α) : Prop where
  ok : ∀ s a t, action s = .ok a t → ∃ script, backend.Runs script s t
  error : ∀ s e t, action s = .error e t → ∃ script, backend.Stops script s e t

namespace FailsByRefusal

theorem pure (a : α) : backend.FailsByRefusal (Pure.pure a) where
  ok s _ _ h := by
    obtain ⟨-, rfl⟩ := pure_eq_ok.mp h
    exact ⟨[], Runs.nil s⟩
  error _ _ _ h := absurd h pure_ne_error

theorem execute (statement : Statement) : backend.FailsByRefusal (backend.execute statement) where
  ok _ _ _ h := ⟨[statement], Runs.of_execute h⟩
  error _ _ _ h := ⟨[statement], Stops.here h⟩

/-- An action that fails after another has succeeded fails by refusal as well, if the first cannot
fail otherwise. -/
theorem bind {action : Session σ α} {next : α → Session σ β} (h : backend.FailsByRefusal action)
    (hnext : ∀ a, backend.FailsByRefusal (next a)) : backend.FailsByRefusal (action >>= next) where
  ok s b t hok := by
    obtain ⟨a, u, haction, hok⟩ := bind_eq_ok.mp hok
    obtain ⟨first, hfirst⟩ := h.ok s a u haction
    obtain ⟨rest, hrest⟩ := (hnext a).ok u b t hok
    exact ⟨first ++ rest, hfirst.append hrest⟩
  error s e t herror := by
    rcases bind_eq_error.mp herror with herror | ⟨a, u, haction, herror⟩
    · exact h.error s e t herror
    · obtain ⟨first, hfirst⟩ := h.ok s a u haction
      obtain ⟨rest, hrest⟩ := (hnext a).error u e t herror
      exact ⟨first ++ rest, hrest.append_left hfirst⟩

theorem run (statement : Statement) : backend.FailsByRefusal (backend.run statement) :=
  (execute statement).bind fun _ => .pure ()

theorem forM {xs : List γ} {f : γ → Session σ Unit} (h : ∀ x ∈ xs, backend.FailsByRefusal (f x)) :
    backend.FailsByRefusal (xs.forM f) := by
  induction xs with
  | nil => exact .pure ()
  | cons x xs ih =>
      obtain ⟨hx, hxs⟩ := List.forall_mem_cons.mp h
      exact hx.bind fun _ => ih hxs

/-- An index of a sound model is over fields that are there. -/
theorem createIndex (hmodel : model.Sound) {index : String} (hindex : index ∈ model.indexes.names) :
    backend.FailsByRefusal (backend.createIndex model index) := by
  obtain ⟨statement, hstatement⟩ := hmodel.exists_indexStatement hindex
  unfold Backend.createIndex
  rw [hstatement]
  exact (pure statement).bind fun _ => run _

/-- Building a sound model anew can fail only at a statement. -/
theorem renewTable (hmodel : model.Sound) (columns : List String) :
    backend.FailsByRefusal (backend.renewTable model columns) := by
  refine (run _).bind fun _ => (run _).bind fun _ => (run _).bind fun _ => (run _).bind fun _ => ?_
  exact forM fun index hindex => createIndex hmodel hindex

theorem fill (values : Row) : backend.FailsByRefusal (backend.update model values .empty) := by
  unfold Backend.update
  split
  · exact pure 0
  · exact (pure _).bind fun _ => execute _

end FailsByRefusal

/-! ### Names in turn -/

/-- A round for each name, which checks it and then carries out its statement. The rounds end at the
first name that is at fault, unless a statement is refused before. -/
theorem runs_of_rounds {round : β → String → Session σ β} {start : β}
    (hok : ∀ b name s b' t, round b name s = .ok b' t →
      fault name = none ∧ backend.Runs (statementOf name).toList s t)
    (herror : ∀ b name s e t, round b name s = .error e t →
      fault name = some e ∧ s = t ∨ ∃ script, backend.Stops script s e t)
    (h : names.foldlM round start s = .error e t) :
    names.findSome? fault = some e ∧ backend.Runs (statementsBefore fault statementOf names) s t ∨
      ∃ script, backend.Stops script s e t := by
  induction names generalizing start s with
  | nil => exact absurd h pure_ne_error
  | cons name names ih =>
      rw [List.foldlM_cons] at h
      unfold statementsBefore at ih ⊢
      rcases bind_eq_error.mp h with h | ⟨b, u, hround, h⟩
      · rcases herror start name s e t h with ⟨hfault, rfl⟩ | hstops
        · left
          simp only [List.findSome?_cons, List.takeWhile_cons, hfault]
          exact ⟨trivial, Runs.nil s⟩
        · exact Or.inr hstops
      · obtain ⟨hfault, hruns⟩ := hok start name s b u hround
        rcases ih h with ⟨hfirst, hrest⟩ | ⟨script, hstops⟩
        · left
          simp only [List.findSome?_cons, List.takeWhile_cons, hfault]
          refine ⟨hfirst, ?_⟩
          have hboth := hruns.append hrest
          cases hstatement : statementOf name <;> simpa [hstatement] using hboth
        · exact Or.inr ⟨_, hstops.append_left hruns⟩

/-- A loop without an answer is one whose answer never changes. -/
theorem forM_eq_foldlM {f : γ → Session σ Unit} {xs : List γ} :
    xs.forM f = xs.foldlM (fun _ x => f x) () := by
  induction xs with
  | nil => rfl
  | cons x xs ih =>
      show (f x >>= fun _ => xs.forM f) = _
      rw [List.foldlM_cons, ih]

/-! ### Adding columns -/

/-- A field that can be filled passes the check of its column. -/
theorem additionFault_of_canFill {now : DateTime} {field : Field}
    (hfield : model.field? name = some field) (h : CanFill now field) :
    model.additionFault now name = none := by
  unfold Model.additionFault
  rw [hfield]
  rcases h with hnull | ⟨value, hvalue⟩
  · simp [hnull]
  · simp [hvalue]

/-- A column is refused by the check, before any statement, or by the database. -/
theorem addColumn_eq_error {adding : Adding}
    (h : backend.addColumn model adding name s = .error e t) :
    model.additionFault backend.now name = some e ∧ s = t ∨ ∃ script,
      backend.Stops script s e t := by
  unfold addColumn at h
  unfold Model.additionFault
  cases hfield : model.field? name with
  | none =>
      simp only [hfield] at h
      obtain ⟨rfl, rfl⟩ := throw_eq_error.mp h
      exact Or.inl ⟨rfl, rfl⟩
  | some field =>
      have hrest (adding : Adding) (statement : Statement) : backend.FailsByRefusal (do
          backend.run statement
          return adding) :=
        (FailsByRefusal.run statement).bind fun _ => .pure adding
      simp only [hfield] at h
      cases hnull : field.null with
      | true =>
          simp only [hnull] at h
          exact Or.inr ((hrest _ _).error _ _ _ h)
      | false =>
          cases hvalue : field.filling backend.now with
          | none =>
              simp only [hnull, hvalue] at h
              obtain ⟨rfl, rfl⟩ := throw_eq_error.mp h
              exact Or.inl ⟨by simp [hnull, hvalue], rfl⟩
          | some value =>
              simp only [hnull, hvalue] at h
              exact Or.inr ((hrest _ _).error _ _ _ h)

/-- Where adding columns fails by a check, the statements for the columns before have run. -/
theorem runs_of_widenTable_error (hmodel : model.Sound)
    (h : backend.widenTable model names s = .error e t) :
    names.findSome? (model.additionFault backend.now) = some e ∧
        backend.Runs (statementsBefore (model.additionFault backend.now)
          (model.additionOf backend.dialect.capabilities.altersNullability) names) s t ∨
      ∃ script, backend.Stops script s e t := by
  have hend (adding : Adding) :
      let tighten := if adding.rebuild then backend.renewTable model model.columns
        else if backend.dialect.capabilities.altersNullability then
          adding.notNull.forM fun column => backend.run (.setNotNull model.table column)
        else pure ()
      backend.FailsByRefusal (if !adding.fill.isEmpty then
        backend.update model adding.fill .empty >>= fun _ => tighten
      else tighten) := by
    intro tighten
    have htighten : backend.FailsByRefusal tighten := by
      unfold tighten
      split
      · exact .renewTable hmodel _
      · split
        · exact .forM fun _ _ => .run _
        · exact .pure ()
    split
    · exact (FailsByRefusal.fill _).bind fun _ => htighten
    · exact htighten
  rcases bind_eq_error.mp h with h | ⟨adding, u, hadd, h⟩
  · refine runs_of_rounds ?_ (fun _ _ _ _ _ => addColumn_eq_error) h
    intro adding name s after t hadd
    obtain ⟨field, hfield, hfill, -, hruns⟩ := runs_of_addColumn hadd
    refine ⟨additionFault_of_canFill hfield hfill, ?_⟩
    unfold Model.additionOf
    rwa [hfield]
  · obtain ⟨fields, -, -, hruns⟩ := runs_of_addColumns hadd
    obtain ⟨script, hstops⟩ := (hend adding).error u e t h
    exact Or.inr ⟨_, hstops.append_left hruns⟩

/-! ### Dropping columns -/

theorem dropColumn_eq_error (h : backend.dropColumn old name s = .error e t) :
    old.removalFault name = some e ∧ s = t ∨ ∃ script, backend.Stops script s e t := by
  unfold dropColumn at h
  unfold Model.removalFault
  cases hcolumn : old.column name with
  | error e' =>
      rw [hcolumn] at h
      obtain ⟨rfl, rfl⟩ := throw_eq_error.mp h
      exact Or.inl ⟨rfl, rfl⟩
  | ok column =>
      rw [hcolumn] at h
      exact Or.inr ((FailsByRefusal.run _).error _ _ _ h)

theorem removalOf_of_column {column : String} (h : old.column name = .ok column) :
    old.removalFault name = none ∧ old.removalOf name = some (.dropColumn old.table column) := by
  unfold Model.removalFault Model.removalOf
  rw [h]
  unfold Model.column at h
  split at h
  · next field hfield =>
      cases h
      rw [hfield]
      exact ⟨rfl, rfl⟩
  · cases h

theorem findSome?_removalFault (h : names.mapM old.column = .error e) :
    names.findSome? old.removalFault = some e := by
  induction names with
  | nil => cases h
  | cons name names ih =>
      rw [List.mapM_cons] at h
      rw [List.findSome?_cons]
      unfold Model.removalFault at ih ⊢
      cases hcolumn : old.column name with
      | error e' =>
          rw [hcolumn] at h
          cases h
          rfl
      | ok column =>
          rw [hcolumn] at h
          cases hrest : names.mapM old.column with
          | ok columns =>
              rw [hrest] at h
              cases h
          | error e' =>
              rw [hrest] at h
              cases h
              exact ih hrest

/-- Where dropping columns fails by a check, those before are dropped in place, but none if the
table is built anew. -/
theorem runs_of_narrowTable_error (hnew : new.Sound)
    (h : backend.narrowTable old new names s = .error e t) :
    names.findSome? old.removalFault = some e ∧
        (if backend.dialect.capabilities.dropsColumns then
          backend.Runs (statementsBefore old.removalFault old.removalOf names) s t
        else s = t) ∨
      ∃ script, backend.Stops script s e t := by
  unfold narrowTable at h
  split at h
  · next hplace =>
      rw [if_pos hplace]
      rw [forM_eq_foldlM] at h
      refine runs_of_rounds ?_ (fun _ _ _ _ _ => dropColumn_eq_error) h
      intro _ name s _ t hdrop
      obtain ⟨column, hcolumn, hruns⟩ := runs_of_dropColumn hdrop
      obtain ⟨hfault, hremoval⟩ := removalOf_of_column hcolumn
      refine ⟨hfault, ?_⟩
      rwa [hremoval]
  · next hplace =>
      rw [if_neg hplace]
      cases hcolumns : names.mapM old.column with
      | error e' =>
          rw [hcolumns] at h
          obtain ⟨rfl, rfl⟩ := throw_eq_error.mp h
          exact Or.inl ⟨findSome?_removalFault hcolumns, rfl⟩
      | ok columns =>
          rw [hcolumns] at h
          exact Or.inr ((FailsByRefusal.renewTable hnew _).error _ _ _ h)

/-! ### What has been carried out -/

section Log

variable (hlogs : backend.Logs log) (hgranted : Granted log s t)

include hlogs hgranted

/-- Where everything is granted no statement stops. -/
theorem not_stops_of_granted : ¬∃ script, backend.Stops script s e t := by
  rintro ⟨script, hstops⟩
  obtain ⟨done, failed, hlog⟩ := hlogs.of_stops hstops
  rw [List.append_assoc] at hlog
  rw [Granted, eventsBetween_eq hlog] at hgranted
  exact absurd (hgranted ⟨.execute failed, false⟩ (by simp)) Bool.false_ne_true

/-- The first fault cuts the fields into those before it, which are done, and those from it on. -/
theorem stoppedAt_of_runs
    (hstatement : ∀ name, fault name = none → (statementOf name).isSome)
    (h : names.findSome? fault = some e ∧
        backend.Runs (statementsBefore fault statementOf names) s t ∨
      ∃ script, backend.Stops script s e t) :
    StoppedAt log fault statementOf names s e t := by
  obtain ⟨hfault, hruns⟩ := h.resolve_right (not_stops_of_granted hlogs hgranted)
  have hlog := hlogs.of_runs hruns
  refine ⟨hfault, hlog, ?_⟩
  rw [hlog]
  cases names with
  | nil => cases hfault
  | cons name rest =>
      unfold statementsBefore
      rw [List.findSome?_cons] at hfault
      cases hname : fault name with
      | some e' =>
          rw [hname] at hfault
          cases hfault
          simp [hname]
      | none =>
          obtain ⟨statement, hfirst⟩ := Option.isSome_iff_exists.mp (hstatement name hname)
          simp [hname, hfirst]

/-- Columns are checked in turn. Where adding columns fails and no statement was refused, it fails
for the first field that is at fault, after the columns of all fields before it have been added.
Nothing has been carried out exactly if there are no such fields. The same holds for dropping
columns in place, but where the table is to be built anew instead, nothing has been carried out. -/
theorem columns_checked_in_turn :
    (∀ model : Model, model.Sound → backend.widenTable model names s = .error e t →
      StoppedAt log (model.additionFault backend.now)
        (model.additionOf backend.dialect.capabilities.altersNullability) names s e t) ∧
    (∀ old new : Model, new.Sound → backend.narrowTable old new names s = .error e t →
      if backend.dialect.capabilities.dropsColumns then
        StoppedAt log old.removalFault old.removalOf names s e t
      else names.findSome? old.removalFault = some e ∧ log t = log s) := by
  constructor
  · intro model hmodel h
    refine stoppedAt_of_runs hlogs hgranted ?_ (runs_of_widenTable_error hmodel h)
    intro name hnone
    unfold Model.additionFault at hnone
    unfold Model.additionOf
    cases hfield : model.field? name with
    | none => simp [hfield] at hnone
    | some field => rfl
  · intro old new hnew h
    have hcases := runs_of_narrowTable_error hnew h
    cases hplace : backend.dialect.capabilities.dropsColumns with
    | true =>
        rw [hplace] at hcases
        refine stoppedAt_of_runs hlogs hgranted ?_ hcases
        intro name hnone
        unfold Model.removalFault at hnone
        cases hcolumn : old.column name with
        | error e' => simp [hcolumn] at hnone
        | ok column => rw [(removalOf_of_column hcolumn).2]; rfl
    | false =>
        rw [hplace] at hcases
        obtain ⟨hfault, rfl⟩ := hcases.resolve_right (not_stops_of_granted hlogs hgranted)
        exact ⟨hfault, rfl⟩

end Log

/-! ### A rank without a value -/

/-- Notes with a label, and with a rank that refuses nulls and has no default. -/
def rankedNotes : Model :=
  { Operation.noteModel with
    fields := Operation.noteModel.fields ++
      [("label", { Field.ofKind .text with null := true }), ("rank", .ofKind .integer)] }

theorem sound_rankedNotes : rankedNotes.Sound := ⟨by decide, Named.ordered_nil, nofun⟩

/-- A journal with a log, of a database that changes columns in place. -/
def noteClerk : Backend (Journal × List Event) :=
  (Journal.backend .postgres Operation.noteMoment).logging

/-- The journal of the notes before anything is asked for. -/
def emptyJournal : Journal × List Event := ({}, [])

/-- The rank cannot be added, and there is no size to drop. -/
theorem ranks_and_sizes_refused : ∃ added dropped,
    noteClerk.widenTable rankedNotes ["label", "rank"] emptyJournal
        = .error (.missingDefault "Note" "rank") added ∧
      StoppedAt Prod.snd (rankedNotes.additionFault noteClerk.now) (rankedNotes.additionOf true)
        ["label", "rank"] emptyJournal (.missingDefault "Note" "rank") added ∧
      noteClerk.narrowTable rankedNotes rankedNotes ["label", "size"] emptyJournal
        = .error (.unknownField "Note" "size") dropped ∧
      StoppedAt Prod.snd rankedNotes.removalFault rankedNotes.removalOf
        ["label", "size"] emptyJournal (.unknownField "Note" "size") dropped := by
  have hlogs : noteClerk.Logs Prod.snd := logging_logs _
  refine ⟨_, _, rfl, ?_, rfl, ?_⟩
  · exact (columns_checked_in_turn hlogs (by decide)).1 rankedNotes sound_rankedNotes rfl
  · exact (columns_checked_in_turn hlogs (by decide)).2 rankedNotes rankedNotes
      sound_rankedNotes rfl

/-- Though no statement is refused, the label is added before the rank is found to be at fault, and
dropped before it is found that there is no size. -/
theorem label_changed_first : ∃ added dropped,
    (noteClerk.widenTable rankedNotes ["label", "rank"] emptyJournal
        = .error (.missingDefault "Note" "rank") added ∧
      Granted Prod.snd emptyJournal added ∧ added.2 ≠ emptyJournal.2) ∧
    noteClerk.narrowTable rankedNotes rankedNotes ["label", "size"] emptyJournal
        = .error (.unknownField "Note" "size") dropped ∧
      Granted Prod.snd emptyJournal dropped ∧ dropped.2 ≠ emptyJournal.2 :=
  ⟨_, _, ⟨rfl, by decide, by decide⟩, rfl, by decide, by decide⟩

end Backend

end SchemaHistory
