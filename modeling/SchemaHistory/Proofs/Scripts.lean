import SchemaHistory.Migrator
import SchemaHistory.Proofs.TableChanges

/-!
# Scripts

What a migration does to a database does not depend on what the database holds. It is a script, a
list of statements with an answer for the end, and every database that speaks the dialect plays it
until it refuses a statement. `Scripted` says so of an action, given as a function of the backend.
It is closed under the ways in which actions are put together, so the scripts themselves need not be
written down.
-/

namespace SchemaHistory

/-- A statement that changes tables or fills columns, as operations run them. -/
def Statement.IsChange : Statement → Prop
  | .insert .. | .delete .. | .select .. | .raw .. => False
  | _ => True

namespace Backend

variable {σ ε ε' α β : Type} {backend : Backend σ} {wrap : SchemaError → ε}
  {script first rest : List Statement} {s t u : σ}

/-- The statements are carried out one after the other until one of them is refused. -/
inductive Stops (backend : Backend σ) : List Statement → σ → SchemaError → σ → Prop where
  | here {statement : Statement} {rest : List Statement} {s t : σ} {e : SchemaError} :
      backend.execute statement s = .error e t → Stops backend (statement :: rest) s e t
  | later {statement : Statement} {rest : List Statement} {s t u : σ} {e : SchemaError}
    (count : Nat) :
      backend.execute statement s = .ok count t → Stops backend rest t e u →
      Stops backend (statement :: rest) s e u

/-- A script stops where its second part does, once the first has run. -/
theorem Stops.append_left {e : SchemaError} (hfirst : backend.Runs first s t)
    (hrest : backend.Stops rest t e u) : backend.Stops (first ++ rest) s e u := by
  induction hfirst with
  | nil => exact hrest
  | cons count hexecute _ ih => exact Stops.later count hexecute (ih hrest)

theorem Stops.append_right {e : SchemaError} (h : backend.Stops first s e t) :
    backend.Stops (first ++ rest) s e t := by
  induction h with
  | here hexecute => exact Stops.here hexecute
  | later count hexecute _ ih => exact Stops.later count hexecute ih

def answered (answer : Except ε α) (s : σ) : EStateM.Result ε σ α :=
  match answer with
  | .ok a => .ok a s
  | .error e => .error e s

/-- An action plays a script: it carries the statements out and gives the answer, unless the
database refuses one of them. -/
def Plays (backend : Backend σ) (wrap : SchemaError → ε) (script : List Statement)
    (answer : Except ε α) (action : EStateM ε σ α) : Prop :=
  ∀ s, (∃ t, backend.Runs script s t ∧ action s = answered answer t) ∨
    ∃ e t, backend.Stops script s e t ∧ action s = .error (wrap e) t

theorem Plays.of_answer (answer : Except ε α) {action : EStateM ε σ α}
    (h : ∀ s, action s = answered answer s) : backend.Plays wrap [] answer action :=
  fun s => Or.inl ⟨s, Runs.nil s, h s⟩

/-- An action that plays a script, and then one that plays the rest. -/
theorem Plays.bind_ok {action : EStateM ε σ α} {next : α → EStateM ε σ β} {a : α}
    {answer : Except ε β} (hfirst : backend.Plays wrap first (.ok a) action)
    (hrest : backend.Plays wrap rest answer (next a)) :
    backend.Plays wrap (first ++ rest) answer (action >>= next) := by
  intro s
  show (∃ t, _ ∧ EStateM.bind action next s = _) ∨ ∃ e t, _ ∧ EStateM.bind action next s = _
  unfold EStateM.bind
  rcases hfirst s with ⟨t, hruns, haction⟩ | ⟨e, t, hstops, haction⟩
  · rw [haction]
    rcases hrest t with ⟨u, hruns', hnext⟩ | ⟨e, u, hstops', hnext⟩
    · exact Or.inl ⟨u, hruns.append hruns', hnext⟩
    · exact Or.inr ⟨e, u, hstops'.append_left hruns, hnext⟩
  · rw [haction]
    exact Or.inr ⟨e, t, hstops.append_right, rfl⟩

/-- After an action that fails nothing is played. -/
theorem Plays.bind_error {action : EStateM ε σ α} {next : α → EStateM ε σ β} {e : ε}
    (hfirst : backend.Plays wrap first (.error e) action) :
    backend.Plays wrap first (.error e) (action >>= next) := by
  intro s
  show (∃ t, _ ∧ EStateM.bind action next s = _) ∨ ∃ e t, _ ∧ EStateM.bind action next s = _
  unfold EStateM.bind
  rcases hfirst s with ⟨t, hruns, haction⟩ | ⟨e, t, hstops, haction⟩
  · rw [haction]
    exact Or.inl ⟨t, hruns, rfl⟩
  · rw [haction]
    exact Or.inr ⟨e, t, hstops, rfl⟩

theorem Plays.adapt (outer : ε → ε') {action : EStateM ε σ α} {answer : Except ε α}
    (h : backend.Plays wrap script answer action) :
    backend.Plays (fun e => outer (wrap e)) script (answer.mapError outer)
      (action.adaptExcept outer) := by
  intro s
  unfold EStateM.adaptExcept
  rcases h s with ⟨t, hruns, haction⟩ | ⟨e, t, hstops, haction⟩
  · refine Or.inl ⟨t, hruns, ?_⟩
    rw [haction]
    cases answer <;> rfl
  · refine Or.inr ⟨e, t, hstops, ?_⟩
    rw [haction]

def speaking (dialect : Dialect) (now : DateTime) (backend : Backend σ) : Backend σ :=
  { backend with dialect, now }

end Backend

/-- Of two actions one after the other, the second gives the answer, unless the first one fails. -/
theorem bind_eq_answered {ε ρ α β : Type} {x : EStateM ε ρ α} {f : α → EStateM ε ρ β} {s t : ρ}
    {answer : Except ε β} : (x >>= f) s = Backend.answered answer t ↔
      (∃ a u, x s = .ok a u ∧ f a u = Backend.answered answer t) ∨
        ∃ e, answer = .error e ∧ x s = .error e t := by
  cases answer with
  | ok b =>
      rw [Backend.answered, bind_eq_ok]
      simp
  | error e =>
      rw [Backend.answered, bind_eq_error, or_comm]
      simp

/-- One script is played on every database that speaks the dialect at the moment. -/
def Scripted {ε α : Type} (dialect : Dialect) (now : DateTime) (wrap : SchemaError → ε)
    (action : ∀ σ, Backend σ → EStateM ε σ α) : Prop :=
  ∃ script answer, (∀ statement ∈ script, statement.IsChange) ∧
    ∀ (σ : Type) (backend : Backend σ), (backend.speaking dialect now).Plays wrap script answer
      (action σ (backend.speaking dialect now))

namespace Scripted

open Backend

variable {ε ε' α β γ : Type} {dialect : Dialect} {now : DateTime} {wrap : SchemaError → ε}

/-- An action that answers without a statement. -/
theorem answer (answer : Except ε α) {action : ∀ σ, Backend σ → EStateM ε σ α}
    (h : ∀ σ (backend : Backend σ) s,
      action σ (backend.speaking dialect now) s = answered answer s) :
    Scripted dialect now wrap action :=
  ⟨[], answer, by simp, fun σ backend => Plays.of_answer answer (h σ backend)⟩

theorem congr {action action' : ∀ σ, Backend σ → EStateM ε σ α}
    (heq : ∀ σ (backend : Backend σ),
      action σ (backend.speaking dialect now) = action' σ (backend.speaking dialect now))
    (h : Scripted dialect now wrap action') : Scripted dialect now wrap action := by
  obtain ⟨script, result, hchange, hplays⟩ := h
  exact ⟨script, result, hchange, fun σ backend => heq σ backend ▸ hplays σ backend⟩

theorem pure (a : α) : Scripted dialect now wrap fun _ _ => Pure.pure a :=
  answer (.ok a) fun _ _ _ => rfl

theorem throw (e : ε) :
    Scripted dialect now wrap fun σ _ => (MonadExcept.throw e : EStateM ε σ α) :=
  answer (.error e) fun _ _ _ => rfl

/-- One action after the other plays one script after the other. -/
theorem bind {action : ∀ σ, Backend σ → EStateM ε σ α} {next : α → ∀ σ, Backend σ → EStateM ε σ β}
    (haction : Scripted dialect now wrap action)
    (hnext : ∀ a, Scripted dialect now wrap (next a)) :
    Scripted dialect now wrap fun σ backend => action σ backend >>= fun a => next a σ backend := by
  obtain ⟨first, result, hchange, hplays⟩ := haction
  cases result with
  | error e => exact ⟨first, .error e, hchange, fun σ backend => (hplays σ backend).bind_error⟩
  | ok a =>
      -- the answer is the same on every database, and so is what follows it
      obtain ⟨rest, result, hchange', hplays'⟩ := hnext a
      refine ⟨first ++ rest, result, ?_, fun σ backend =>
        (hplays σ backend).bind_ok (hplays' σ backend)⟩
      intro statement hstatement
      rcases List.mem_append.mp hstatement with h | h
      · exact hchange statement h
      · exact hchange' statement h

theorem adapt (outer : ε → ε') {action : ∀ σ, Backend σ → EStateM ε σ α}
    (h : Scripted dialect now wrap action) :
    Scripted dialect now (fun e => outer (wrap e))
      fun σ backend => (action σ backend).adaptExcept outer := by
  obtain ⟨script, result, hchange, hplays⟩ := h
  exact ⟨script, result.mapError outer, hchange, fun σ backend => (hplays σ backend).adapt outer⟩

theorem run {statement : Statement} (h : statement.IsChange) :
    Scripted dialect now id fun _ backend => backend.run statement := by
  refine ⟨[statement], .ok (), by simpa using h, fun σ backend s => ?_⟩
  unfold Backend.run
  show (∃ t, _ ∧ EStateM.bind _ _ s = _) ∨ ∃ e t, _ ∧ EStateM.bind _ _ s = _
  unfold EStateM.bind
  cases hexecute : (backend.speaking dialect now).execute statement s with
  | ok count t => exact Or.inl ⟨t, Runs.of_execute hexecute, rfl⟩
  | error e t => exact Or.inr ⟨e, t, Stops.here hexecute, rfl⟩

theorem forM {xs : List γ} {action : γ → ∀ σ, Backend σ → EStateM ε σ Unit}
    (h : ∀ x ∈ xs, Scripted dialect now wrap (action x)) :
    Scripted dialect now wrap fun σ backend => xs.forM fun x => action x σ backend := by
  induction xs with
  | nil => exact pure ()
  | cons x xs ih =>
      obtain ⟨hx, hxs⟩ := List.forall_mem_cons.mp h
      exact bind hx fun _ => ih hxs

theorem foldlM {xs : List γ} {action : α → γ → ∀ σ, Backend σ → EStateM ε σ α} (start : α)
    (h : ∀ a, ∀ x ∈ xs, Scripted dialect now wrap (action a x)) :
    Scripted dialect now wrap
      fun σ backend => xs.foldlM (fun a x => action a x σ backend) start := by
  induction xs generalizing start with
  | nil => exact pure start
  | cons x xs ih =>
      have hrest : ∀ a, Scripted dialect now wrap
          fun σ backend => xs.foldlM (fun a x => action a x σ backend) a :=
        fun a => ih a fun a x hx => h a x (List.mem_cons_of_mem _ hx)
      simp only [List.foldlM_cons]
      exact bind (h start x List.mem_cons_self) hrest

/-! ### Changes to tables -/

/-- A check on the way, which does not depend on the database. -/
theorem check {result : Except SchemaError α} {next : α → ∀ σ, Backend σ → Session σ β}
    (h : ∀ a, result = .ok a → Scripted dialect now id (next a)) :
    Scripted dialect now id
      fun σ backend => Session.ofExcept result >>= fun a => next a σ backend := by
  cases result with
  | ok a => exact h a rfl
  | error e => exact throw e

theorem createIndex (model : Model) (index : String) :
    Scripted dialect now id fun _ backend => backend.createIndex model index := by
  refine check fun statement hstatement => run ?_
  unfold indexStatement at hstatement
  split at hstatement
  · cases hstatement
  · obtain ⟨covered, -, h⟩ := Except.bind_eq_ok.mp hstatement
    cases h
    trivial

theorem renewTable (model : Model) (columns : List String) :
    Scripted dialect now id fun _ backend => backend.renewTable model columns := by
  refine bind (run trivial) fun _ => ?_
  refine bind (run trivial) fun _ => ?_
  refine bind (run trivial) fun _ => ?_
  refine bind (run trivial) fun _ => ?_
  exact forM fun index _ => createIndex model index

theorem addColumn (model : Model) (adding : Adding) (name : String) :
    Scripted dialect now id fun _ backend => backend.addColumn model adding name := by
  cases hfield : model.field? name with
  | none =>
      refine congr (fun _ _ => ?_) (throw (.unknownField model.name name))
      simp only [Backend.addColumn, hfield]
  | some field =>
      -- only the dialect and the moment are asked for, and those are given
      let inPlace := dialect.capabilities.altersNullability
      have hrun : Scripted dialect now id fun _ backend => do
          backend.run (addition inPlace model.table (name, field))
          return adding.add inPlace now (name, field) := by
        refine bind (run ?_) fun _ => pure _
        trivial
      cases hnull : field.null with
      | true =>
          refine congr (fun _ _ => ?_) hrun
          simp only [Backend.addColumn, hfield, hnull, Adding.add]
          rfl
      | false =>
          cases hvalue : field.filling now with
          | none =>
              refine congr (fun _ _ => ?_) (throw (.missingDefault model.name name))
              simp only [Backend.addColumn, hfield, hnull, speaking, hvalue]
              rfl
          | some value =>
              refine congr (fun _ _ => ?_) hrun
              simp only [Backend.addColumn, hfield, hnull, speaking, hvalue, Adding.add]
              rfl

/-- Filling the rows. How many there were does not matter. -/
theorem fill (model : Model) (values : Row) {next : ∀ σ, Backend σ → Session σ β}
    (hnext : Scripted dialect now id next) :
    Scripted dialect now id
      fun σ backend => backend.update model values .empty >>= fun _ => next σ backend := by
  cases hvalues : updateValues model values with
  | nil =>
      refine congr (fun _ _ => ?_) hnext
      simp only [Backend.update, hvalues]
      rfl
  | cons head tail =>
      have hrun : Scripted dialect now id fun σ backend =>
          backend.run (.update model.table (head :: tail) .empty) >>= fun _ => next σ backend := by
        refine bind (run ?_) fun _ => hnext
        trivial
      refine congr (fun σ backend => ?_) hrun
      funext s
      simp only [Backend.update, hvalues]
      show EStateM.bind ((backend.speaking dialect now).execute _) _ s
        = EStateM.bind (EStateM.bind ((backend.speaking dialect now).execute _) _) _ s
      unfold EStateM.bind
      cases (backend.speaking dialect now).execute
        (.update model.table (head :: tail) .empty) s <;> rfl

/-- Adding columns plays a script that depends on the dialect and the moment only. -/
theorem widenTable (model : Model) (fields : List String) :
    Scripted dialect now id fun _ backend => backend.widenTable model fields := by
  refine bind (foldlM {} fun adding name _ => addColumn model adding name) fun adding => ?_
  have htighten : Scripted dialect now id fun _ backend =>
      if adding.rebuild then backend.renewTable model model.columns
      else if dialect.capabilities.altersNullability then
        adding.notNull.forM fun column => backend.run (.setNotNull model.table column)
      else Pure.pure () := by
    split
    · exact renewTable model model.columns
    · split
      · exact forM fun column _ => run trivial
      · exact pure ()
  cases hfill : adding.fill.isEmpty with
  | true =>
      refine congr (fun _ _ => ?_) htighten
      rfl
  | false =>
      refine congr (fun _ _ => ?_) (fill model adding.fill htighten)
      rfl

theorem narrowTable (old new : Model) (fields : List String) :
    Scripted dialect now id fun _ backend => backend.narrowTable old new fields := by
  cases hplace : dialect.capabilities.dropsColumns with
  | true =>
      have hdrop :
          Scripted dialect now id fun _ backend => fields.forM (backend.dropColumn old) := by
        refine forM fun field _ => check fun column _ => run ?_
        trivial
      refine congr (fun _ _ => ?_) hdrop
      simp only [Backend.narrowTable, speaking, hplace]
      rfl
  | false =>
      have hrenew : Scripted dialect now id fun σ backend =>
          (Session.ofExcept (fields.mapM old.column) : Session σ _) >>= fun _ =>
            backend.renewTable new new.columns :=
        check fun _ _ => renewTable new new.columns
      refine congr (fun _ _ => ?_) hrenew
      simp only [Backend.narrowTable, speaking, hplace]
      rfl

/-! ### Operations -/

theorem toWork {action : ∀ σ, Backend σ → Session σ α} (h : Scripted dialect now id action) :
    Scripted dialect now .schema fun σ backend => (action σ backend).toWork :=
  adapt MigrationError.schema h

/-- The model that an operation asks the state for. -/
theorem require {result : Except MigrationError Model}
    {next : Model → ∀ σ, Backend σ → Work σ Unit}
    (h : ∀ model, Scripted dialect now .schema (next model)) :
    Scripted dialect now .schema
      fun σ backend => Work.ofExcept result >>= fun model => next model σ backend := by
  cases result with
  | ok model => exact h model
  | error e => exact throw e

theorem forward (operation : Operation) (step : AppSchema.Step) :
    Scripted dialect now .schema fun _ backend => operation.forward backend step := by
  cases operation with
  | createModel name table fields =>
      refine require fun model => ?_
      exact toWork (run trivial)
  | deleteModel name =>
      refine require fun model => ?_
      exact toWork (run trivial)
  | addFields model fields =>
      refine require fun model => ?_
      exact toWork (widenTable model _)
  | removeFields model fields =>
      refine require fun old => ?_
      refine require fun new => ?_
      exact toWork (narrowTable old new fields)
  | addIndex model index fields =>
      refine require fun model => ?_
      exact toWork (createIndex model index)
  | removeIndex model index => exact toWork (run trivial)

theorem backward (operation : Operation) (step : AppSchema.Step) :
    Scripted dialect now .schema fun _ backend => operation.backward backend step := by
  cases operation with
  | createModel name table fields =>
      refine require fun model => ?_
      exact toWork (run trivial)
  | deleteModel name =>
      refine require fun model => ?_
      refine toWork (bind (run trivial) fun _ => ?_)
      exact forM fun index _ => createIndex model index
  | addFields model fields =>
      refine require fun old => ?_
      refine require fun new => ?_
      exact toWork (narrowTable old new _)
  | removeFields model fields =>
      refine require fun model => ?_
      exact toWork (widenTable model fields)
  | addIndex model index fields => exact toWork (run trivial)
  | removeIndex model index =>
      refine require fun model => ?_
      exact toWork (createIndex model index)

theorem forwardAll (steps : Migration.Steps) :
    Scripted dialect now .schema fun _ backend => Migration.forwardAll backend steps :=
  forM fun entry _ => forward entry.1 entry.2

theorem backwardAll (steps : Migration.Steps) :
    Scripted dialect now .schema fun _ backend => Migration.backwardAll backend steps :=
  forM fun entry _ => backward entry.1 entry.2

/-! ### What a database has done -/

variable {σ : Type} {backend : Backend σ} {s t : σ}

/-- An action that has succeeded has carried the whole script out, which the recorder records
too. -/
theorem of_ok {action : ∀ σ, Backend σ → EStateM ε σ α}
    (h : Scripted backend.dialect backend.now wrap action) {a : α}
    (hok : action σ backend s = .ok a t) :
    ∃ script, (∀ statement ∈ script, statement.IsChange) ∧ backend.Runs script s t ∧
      (Journal.backend backend.dialect backend.now).Plays wrap script (.ok a)
        (action Journal (Journal.backend backend.dialect backend.now)) := by
  obtain ⟨script, result, hchange, hplays⟩ := h
  rcases hplays σ backend s with ⟨u, hruns, haction⟩ | ⟨e, u, -, haction⟩
  · have heq : answered result u = .ok a t := haction.symm.trans hok
    cases result with
    | error e => cases heq
    | ok b =>
        cases heq
        exact ⟨script, hchange, hruns,
          hplays Journal (Journal.backend backend.dialect backend.now)⟩
  · exact absurd (haction.symm.trans hok) nofun

/-- An action that has failed has carried out a part of its script. -/
theorem of_error {action : ∀ σ, Backend σ → EStateM ε σ α}
    (h : Scripted backend.dialect backend.now wrap action) {e : ε}
    (herror : action σ backend s = .error e t) :
    ∃ script, (∀ statement ∈ script, statement.IsChange) ∧
      (backend.Runs script s t ∨ ∃ e', backend.Stops script s e' t) := by
  obtain ⟨script, result, hchange, hplays⟩ := h
  refine ⟨script, hchange, ?_⟩
  rcases hplays σ backend s with ⟨u, hruns, haction⟩ | ⟨e', u, hstops, haction⟩
  · have heq : answered result u = .error e t := haction.symm.trans herror
    cases result with
    | ok a => cases heq
    | error e' =>
        cases heq
        exact Or.inl hruns
  · have heq : EStateM.Result.error (wrap e') u = .error e t := haction.symm.trans herror
    cases heq
    exact Or.inr ⟨e', hstops⟩

end Scripted

namespace Migration

/-- The statements that the recorder records of some work, if it can be done at all. -/
def recording (dialect : Dialect) (now : DateTime) (work : Backend Journal → Work Journal Unit) :
    Except MigrationError (List Statement) :=
  match work (Journal.backend dialect now) {} with
  | .ok () journal => .ok journal.statements.toList
  | .error e _ => .error e

/-- What is printed of some work is the text of its recording. -/
theorem statementsOf_eq (dialect : Dialect) (now : DateTime)
    (work : Backend Journal → Work Journal Unit) :
    statementsOf dialect now work
      = (recording dialect now work).map (List.map (Statement.text dialect)) := by
  unfold statementsOf recording
  cases work (Journal.backend dialect now) {} <;> rfl

theorem execute_journal {dialect : Dialect} {now : DateTime} {journal : Journal}
    (h : journal.refusedPart = none) (statement : Statement) :
    (Journal.backend dialect now).execute statement journal
      = .ok 0 { journal with statements := journal.statements.push statement } := by
  obtain ⟨statements, answers, part, inTransaction, committed, rolledBack⟩ := journal
  obtain rfl : part = none := h
  rfl

/-- A journal that refuses nothing writes a script down. -/
theorem runs_journal {dialect : Dialect} {now : DateTime} {script : List Statement}
    {journal journal' : Journal} (h : journal.refusedPart = none)
    (hruns : (Journal.backend dialect now).Runs script journal journal') :
    journal'.statements.toList = journal.statements.toList ++ script := by
  induction hruns with
  | nil => simp
  | cons count hexecute _ ih =>
      rw [execute_journal h] at hexecute
      cases hexecute
      rw [ih h]
      simp

theorem not_stops_journal {dialect : Dialect} {now : DateTime} {script : List Statement}
    {journal journal' : Journal} {e : SchemaError} (h : journal.refusedPart = none) :
    ¬(Journal.backend dialect now).Stops script journal e journal' := by
  intro hstops
  induction hstops with
  | here hexecute =>
      rw [execute_journal h] at hexecute
      cases hexecute
  | later count hexecute _ ih =>
      rw [execute_journal h] at hexecute
      cases hexecute
      exact ih h

/-- The recorder carries out whatever is played on it, and holds the script then. -/
theorem exists_played {ε α : Type} {wrap : SchemaError → ε} {dialect : Dialect} {now : DateTime}
    {script : List Statement} {answer : Except ε α} {action : EStateM ε Journal α}
    (h : (Journal.backend dialect now).Plays wrap script answer action) :
    ∃ journal, action {} = Backend.answered answer journal ∧
      journal.statements.toList = script := by
  rcases h {} with ⟨journal, hruns, haction⟩ | ⟨e, journal, hstops, -⟩
  · refine ⟨journal, haction, ?_⟩
    rw [runs_journal rfl hruns]
    rfl
  · exact absurd hstops (not_stops_journal rfl)

/-- The recorder records the script. -/
theorem recording_eq_ok {dialect : Dialect} {now : DateTime} {script : List Statement}
    {work : Backend Journal → Work Journal Unit}
    (h : (Journal.backend dialect now).Plays MigrationError.schema script (.ok ())
      (work (Journal.backend dialect now))) :
    recording dialect now work = .ok script := by
  obtain ⟨journal, hwork, hscript⟩ := exists_played h
  unfold recording
  rw [hwork]
  exact congrArg Except.ok hscript

/-- Work on a database that has succeeded is what the recorder records. -/
theorem recording_of_ok {σ : Type} {backend : Backend σ} {s t : σ}
    {work : ∀ σ, Backend σ → Work σ Unit}
    (hwork : Scripted backend.dialect backend.now MigrationError.schema work)
    (h : work σ backend s = .ok () t) :
    ∃ script, recording backend.dialect backend.now (work Journal) = .ok script ∧
      (∀ statement ∈ script, statement.IsChange) ∧ backend.Runs script s t := by
  obtain ⟨script, hchange, hruns, hplays⟩ := hwork.of_ok h
  exact ⟨script, recording_eq_ok hplays, hchange, hruns⟩

end Migration

end SchemaHistory
