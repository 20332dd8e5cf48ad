import SchemaHistory.Proofs.SharedLedger
import SchemaHistory.Proofs.SideBySide

/-!
# Migrations at two moments

A database is `Dependable` if it does what it is asked whatever the clock shows, and numbers the
rows of its ledger by what it has been asked for. Two states of one are `Abreast` if their ledgers
differ in moments only. A migration that is carried out or undone at two moments goes side by side
with itself, and leaves the databases abreast: `sideBySide_perform` and `sideBySide_revert`.
-/

namespace SchemaHistory

/-- How the rows of the ledger are numbered: by a count that goes by what is asked for, whatever the
clock shows. -/
structure Numbering (ν : Type) where
  after : Request → ν → ν
  number : ν → Int64
  timeless : ∀ request request', request.Alike (fun _ _ => True) request' →
    after request = after request'

/-- A database that numbers the rows of the ledger in this way. -/
structure Backend.Numbers {σ κ ν : Type} (backend : Backend σ) (view : σ → View κ)
    (numbering : Numbering ν) (count : σ → ν) : Prop where
  execute : ∀ statement s rows t, backend.execute statement s = .ok rows t →
    count t = numbering.after (.execute statement) (count s)
  unmoved : backend.Unmoved count
  begin : ∀ s t, backend.begin s = .ok () t → count t = numbering.after .begin (count s)
  commit : ∀ s t, backend.commit s = .ok () t → count t = numbering.after .commit (count s)
  rollback : ∀ s t, backend.rollback s = .ok () t → count t = numbering.after .rollback (count s)
  enter : ∀ app name number moment s rows t,
    backend.execute (Ledger.entering app name number moment) s = .ok rows t →
    (view t).ledger.getLast?.map (·.id) = some (numbering.number (count s))

/-- A database that does what it is asked whatever the clock shows, keeps a log and numbers the rows
of its ledger. -/
structure Backend.Dependable {σ κ ν : Type} (backend : Backend σ)
    (effect : Statement → κ → Option κ) (view : σ → View κ) (log : σ → List Event)
    (numbering : Numbering ν) (count : σ → ν) : Prop where
  reliable : ∀ now, (backend.atMoment now).Reliable effect view
  logs : backend.Logs log
  numbers : backend.Numbers view numbering count

/-- An entry without the moment in it. -/
def LedgerEntry.undated (entry : LedgerEntry) : LedgerEntry := { entry with applied := none }

/-- Two states of a database that differ at most in moments, as far as the ledger shows. -/
structure Abreast {σ κ ν : Type} (view : σ → View κ) (count : σ → ν) (isOpen : Bool) (s s' : σ) :
    Prop where
  ledger : (view s).ledger.map LedgerEntry.undated = (view s').ledger.map LedgerEntry.undated
  saved : (view s).saved.map (fun kept => kept.2.map LedgerEntry.undated)
    = (view s').saved.map fun kept => kept.2.map LedgerEntry.undated
  isOpen : (view s).saved.isSome = isOpen
  count : count s = count s'

/-- What carries migrations out on a database at a moment. -/
abbrev Migrator.atMoment {σ : Type} (backend : Backend σ) (now : DateTime) : Migrator σ where
  backend := backend.atMoment now

section Abreast

variable {σ κ ν : Type} {backend : Backend σ} {effect : Statement → κ → Option κ}
  {view : σ → View κ} {log : σ → List Event} {numbering : Numbering ν} {count : σ → ν}
  {isOpen : Bool} {s s' t t' : σ} {script script' : List Statement} {now now' : DateTime}

/-- Without a transaction there is only the ledger. -/
theorem Abreast.of_closed (hclosed : (view s).saved = none) (hclosed' : (view s').saved = none)
    (hledger : (view s).ledger.map LedgerEntry.undated = (view s').ledger.map LedgerEntry.undated)
    (hcount : count s = count s') : Abreast view count false s s' where
  ledger := hledger
  saved := by rw [hclosed, hclosed']
  isOpen := by rw [hclosed]; rfl
  count := hcount

/-- A database is abreast of itself. -/
theorem Abreast.refl (hclosed : (view s).saved = none) : Abreast view count false s s :=
  .of_closed hclosed hclosed rfl rfl

theorem Abreast.closed (h : Abreast view count false s s') :
    (view s).saved = none ∧ (view s').saved = none := by
  have hfirst : (view s).saved = none := by simpa using h.isOpen
  have hsaved := h.saved
  rw [hfirst] at hsaved
  exact ⟨hfirst, by simpa using hsaved.symm⟩

/-- What an open transaction would give back does not change while it is open. -/
theorem Abreast.edited (h : Abreast view count isOpen s s') (hsaved : (view t).saved =
    (view s).saved)
    (hsaved' : (view t').saved = (view s').saved)
    (hledger : (view t).ledger.map LedgerEntry.undated = (view t').ledger.map LedgerEntry.undated)
    (hcount : count t = count t') : Abreast view count isOpen t t' where
  ledger := hledger
  saved := by
    rw [hsaved, hsaved']
    exact h.saved
  isOpen := by
    rw [hsaved]
    exact h.isOpen
  count := hcount

theorem Abreast.congr (h : Abreast view count isOpen s s') (hview : view t = view s)
    (hcount : count t = count s) (hview' : view t' = view s') (hcount' : count t' = count s') :
    Abreast view count isOpen t t' := by
  refine h.edited (by rw [hview]) (by rw [hview']) ?_ ?_
  · rw [hview, hview']
    exact h.ledger
  · rw [hcount, hcount', h.count]

/-- What an open transaction would give back on either side. -/
theorem Abreast.opened (h : Abreast view count true s s') :
    ∃ contents ledger contents' ledger', (view s).saved = some (contents, ledger) ∧
      (view s').saved = some (contents', ledger') ∧
      ledger.map LedgerEntry.undated = ledger'.map LedgerEntry.undated := by
  obtain ⟨⟨contents, ledger⟩, hkept⟩ := Option.isSome_iff_exists.mp h.isOpen
  have hsaved := h.saved
  rw [hkept] at hsaved
  obtain ⟨⟨contents', ledger'⟩, hkept', heq⟩ := Option.map_eq_some_iff.mp hsaved.symm
  exact ⟨contents, ledger, contents', ledger', hkept, hkept', heq.symm⟩

/-- Requests that differ in moments only count alike. -/
theorem Numbering.after_eq {clocks : DateTime → DateTime → Prop} (numbering : Numbering ν)
    {request request' : Request} (h : request.Alike clocks request') :
    numbering.after request = numbering.after request' :=
  numbering.timeless request request' (h.mono fun _ _ _ => trivial)

/-- Scripts that differ in moments only count alike when they run. -/
theorem Backend.Numbers.count_of_runs (h : backend.Numbers view numbering count)
    {clocks : DateTime → DateTime → Prop}
    (halike : List.Forall₂ (Statement.Alike clocks) script script')
    (hcount : count s = count s') (hruns : backend.Runs script s t)
    (hruns' : backend.Runs script' s' t') : count t = count t' := by
  induction halike generalizing s s' with
  | nil =>
      cases hruns
      cases hruns'
      exact hcount
  | cons hstatement _ ih =>
      cases hruns with
      | cons rows hexecute hrest =>
          cases hruns' with
          | cons rows' hexecute' hrest' =>
              refine ih ?_ hrest hrest'
              rw [h.execute _ _ _ _ hexecute, h.execute _ _ _ _ hexecute', hcount,
                numbering.after_eq (.execute hstatement)]

/-- Moments do not matter to what is recorded. -/
theorem any_undated {ledger ledger' : List LedgerEntry}
    (h : ledger.map LedgerEntry.undated = ledger'.map LedgerEntry.undated) (app name : String) :
    ledger.any (·.isFor app name) = ledger'.any (·.isFor app name) := by
  have hany (ledger : List LedgerEntry) : ledger.any (·.isFor app name)
      = (ledger.map LedgerEntry.undated).any (·.isFor app name) := by
    rw [List.any_map]
    rfl
  rw [hany, h, ← hany]

theorem undated_filter (ledger : List LedgerEntry) (app name : String) :
    (ledger.map LedgerEntry.undated).filter (fun entry => !entry.isFor app name)
      = (ledger.filter fun entry => !entry.isFor app name).map LedgerEntry.undated := by
  rw [List.filter_map]
  rfl

/-- What is recorded is there, whether it is among the things done or not. -/
theorem Migrator.isMet_of_recorded {app : String} {migration : Migration}
    {ledger : List LedgerEntry}
    {done : List String} (happ : migration.app = app)
    (hdone : ∀ name ∈ done, ledger.any (·.isFor app name) = true) (needed : String × String) :
    isMet ledger done migration needed = ledger.any (·.isFor needed.1 needed.2) := by
  unfold isMet
  cases hown : needed.1 == migration.app && done.contains needed.2 with
  | false => rfl
  | true =>
      obtain ⟨hsame, hmem⟩ := Bool.and_eq_true_iff.mp hown
      rw [beq_iff_eq.mp hsame, happ, hdone _ (List.contains_iff_mem.mp hmem)]
      rfl

namespace Backend.Dependable

variable (h : backend.Dependable effect view log numbering count)

include h

theorem logsAt (now : DateTime) : (backend.atMoment now).Logs log where
  execute := h.logs.execute
  query := h.logs.query
  begin := h.logs.begin
  commit := h.logs.commit
  rollback := h.logs.rollback

/-- So does what a migrator works on. -/
theorem logsOf (now : DateTime) : (Migrator.atMoment backend now).backend.Logs log :=
  h.logsAt now

theorem unmovedAt (now : DateTime) : (backend.atMoment now).Unmoved count where
  ok := h.numbers.unmoved.ok
  error := h.numbers.unmoved.error

/-- Scripts that are alike leave the ledgers as they are. -/
theorem sideBySide_script {work work' : ∀ σ, Backend σ → Work σ Unit}
    (hwork : AlikeScripts backend.dialect now now' MigrationError.schema (· = ·) work work')
    (habreast : Abreast view count isOpen s s') :
    SideBySide log (Shown now now') (work σ (backend.atMoment now))
      (work' σ (backend.atMoment now'))
      s s' (Abreast view count isOpen)
      fun _ _ t t' => Abreast view count isOpen t t' ∧ (view t).ledger = (view s).ledger := by
  obtain ⟨script, script', answer, answer', halike, hanswers, hchange, hchange', hplays, hplays'⟩ :=
    hwork
  refine .of_granting (granting_of_plays (h.logsAt now) (hplays σ backend) s)
    (granting_of_plays (h.logsAt now') (hplays' σ backend) s') ?_
  rintro _ _ t _ _ t' ⟨rfl, rfl, hruns⟩ ⟨rfl, rfl, hruns'⟩
  obtain ⟨contents, -, hview⟩ := (h.reliable now).view_of_runs hruns hchange
  obtain ⟨contents', -, hview'⟩ := (h.reliable now').view_of_runs hruns' hchange'
  have hexecute (now : DateTime) : (backend.atMoment now).execute = backend.execute := rfl
  have hend : Abreast view count isOpen t t' := by
    refine habreast.edited (by rw [hview]) (by rw [hview']) ?_ (h.numbers.count_of_runs halike
      habreast.count (hruns.congr (hexecute now)) (hruns'.congr (hexecute now')))
    rw [hview, hview']
    exact habreast.ledger
  refine ⟨List.rel_map (fun _ _ hstatement => .execute hstatement) halike, ?_⟩
  cases hanswers with
  | ok _ =>
      refine ⟨hend, ?_⟩
      rw [hview]
  | error e => exact ⟨rfl, hend⟩

/-! ### Rows of the ledger -/

/-- Where it is granted, recording makes one request with the moment in it. -/
theorem granting_record (now : DateTime) (migration : Migration) (s : σ) :
    Granting log ((Migrator.atMoment backend now).record migration) s fun answer requests t =>
      answer = .ok () ∧ requests = [.execute (Migrator.recordingOf now migration)] ∧
      count t = numbering.after (.execute (Migrator.recordingOf now migration)) (count s) ∧
      ∃ entry, Ledger.Records migration.app migration.name migration.number entry ∧
        entry.id = numbering.number (count s) ∧
        view t = { view s with ledger := (view s).ledger ++ [entry] } := by
  have hlogged := (h.logsAt now).execute (Migrator.recordingOf now migration)
  refine .adapt (Granting.bind (.any_of_isLogged hlogged) (fun _ => .pure _) ?_)
  refine .of_isLogged hlogged fun rows t hexecute => .pure ⟨rfl, rfl, ?_, ?_⟩
  · exact h.numbers.execute _ _ _ _ hexecute
  · obtain ⟨entry, hentry, hview⟩ := (h.reliable now).enter _ _ _ _ _ _ hexecute
    have hnumber := h.numbers.enter _ _ _ _ _ _ _ hexecute
    refine ⟨entry, hentry, ?_, hview⟩
    rw [hview] at hnumber
    simpa using hnumber

/-- The row of a migration is entered with the moment, and otherwise alike. -/
theorem sideBySide_record (migration : Migration) (habreast : Abreast view count isOpen s s') :
    SideBySide log (Shown now now') ((Migrator.atMoment backend now).record migration)
      ((Migrator.atMoment backend now').record migration) s s' (Abreast view count isOpen)
      fun _ _ t t' => Abreast view count isOpen t t' ∧
        Ledger.Gains migration (view s).ledger (view t).ledger := by
  have halike : (Migrator.recordingOf now migration).Alike (Shown now now')
      (Migrator.recordingOf now' migration) := by
    have hsame (value : Value) : value.Alike (Shown now now') value := Or.inl rfl
    refine .insert _ (.cons ⟨rfl, hsame _⟩ (.cons ⟨rfl, hsame _⟩ (.cons ⟨rfl, hsame _⟩
      (.cons ⟨rfl, Or.inr ⟨now, now', ⟨rfl, rfl⟩, rfl, rfl⟩⟩ .nil))))
  refine .of_granting (h.granting_record now migration s) (h.granting_record now' migration s') ?_
  rintro _ _ t _ _ t' ⟨rfl, rfl, hcount, entry, hentry, hid, hview⟩
    ⟨rfl, rfl, hcount', entry', hentry', hid', hview'⟩
  refine ⟨.cons (.execute halike) .nil,
    habreast.edited (by rw [hview]) (by rw [hview']) ?_ ?_, entry,
    hentry, ?_⟩
  · have hsame : entry.undated = entry'.undated := by
      obtain ⟨id, app, name, number, applied⟩ := entry
      obtain ⟨id', app', name', number', applied'⟩ := entry'
      obtain ⟨rfl, rfl, rfl⟩ := hentry
      obtain ⟨rfl, rfl, rfl⟩ := hentry'
      rw [← habreast.count] at hid'
      obtain rfl : id = id' := hid.trans hid'.symm
      rfl
    rw [hview, hview', List.map_append, List.map_append, habreast.ledger]
    simp [hsame]
  · rw [hcount, hcount', habreast.count, numbering.after_eq (.execute halike)]
  · rw [hview]

/-- Where it is granted, striking an entry answers by whether it was there. -/
theorem granting_strike {app name : String} (hstrikes : backend.Strikes view app name)
    (now : DateTime) (s : σ) :
    Granting log (Ledger.strike (backend.atMoment now) app name) s fun answer requests t =>
      answer = (if (view s).ledger.any (·.isFor app name) then .ok ()
        else .error (.notFound app name)) ∧
      requests = [.execute (.delete Ledger.table (Ledger.ofMigration app name))] ∧
      count t = numbering.after (.execute (.delete Ledger.table (Ledger.ofMigration app name)))
        (count s) ∧
      view t = { view s with ledger :=
        (view s).ledger.filter fun entry => !entry.isFor app name } := by
  have hlogged := (h.logsAt now).execute (.delete Ledger.table (Ledger.ofMigration app name))
  unfold Ledger.strike
  rw [Ledger.delete_eq]
  refine Granting.bind (Asks.any_of_isLogged hlogged).adapt (fun removed => ?_) (.adapt ?_)
  · split
    · exact .throw _
    · exact .pure _
  · refine .of_isLogged hlogged fun removed t hexecute => ?_
    obtain ⟨rfl, hview⟩ := hstrikes _ _ _ hexecute
    have hcount := h.numbers.execute _ _ _ _ hexecute
    by_cases hthere : (view s).ledger.any (·.isFor app name) = true
    · have hfound : (view s).ledger.countP (LedgerEntry.isFor app name) ≠ 0 := by
        rw [Nat.ne_zero_iff_zero_lt, List.countP_pos_iff]
        exact List.any_eq_true.mp hthere
      dsimp only [Except.mapError]
      rw [if_neg hfound]
      exact .pure ⟨(if_pos hthere).symm, rfl, hcount, hview⟩
    · have hnone : (view s).ledger.countP (LedgerEntry.isFor app name) = 0 := by
        rw [List.countP_eq_zero]
        simpa using hthere
      dsimp only [Except.mapError]
      rw [if_pos hnone]
      exact .throw ⟨(if_neg hthere).symm, rfl, hcount, hview⟩

/-- The rows of a migration are removed on either side, or there are none on either side. -/
theorem sideBySide_strike {app name : String} (hstrikes : backend.Strikes view app name)
    (habreast : Abreast view count isOpen s s') :
    SideBySide log (Shown now now') (Ledger.strike (backend.atMoment now) app name)
      (Ledger.strike (backend.atMoment now') app name) s s' (Abreast view count isOpen)
      fun _ _ t t' => Abreast view count isOpen t t' ∧
        Ledger.Loses app name (view s).ledger (view t).ledger := by
  refine .of_granting (h.granting_strike hstrikes now s) (h.granting_strike hstrikes now' s') ?_
  rintro _ _ t _ _ t' ⟨rfl, rfl, hcount, hview⟩ ⟨rfl, rfl, hcount', hview'⟩
  have hend : Abreast view count isOpen t t' := by
    refine habreast.edited (by rw [hview]) (by rw [hview']) ?_ ?_
    · rw [hview, hview', ← undated_filter, ← undated_filter, habreast.ledger]
    · rw [hcount, hcount', habreast.count]
  refine ⟨.cons (.refl _) .nil, ?_⟩
  rw [any_undated habreast.ledger]
  split
  · refine ⟨hend, ?_⟩
    rw [hview]
    rfl
  · exact ⟨rfl, hend⟩

/-! ### Transactions -/

omit h in
/-- One request on either side, which is not refused. -/
theorem sideBySide_session {request : Request} {session : Session σ Unit}
    {failed : σ → σ → Prop} {post : Unit → Unit → σ → σ → Prop}
    (hlogged : session.IsLogged log request) (hkind : request.isQuery = false)
    (hpost : ∀ t t', session s = .ok () t → session s' = .ok () t' → post () () t t') :
    SideBySide log (Shown now now') session.toWork session.toWork s s' failed post := by
  have hgranting (s : σ) : Granting log session s fun answer requests t =>
      answer = .ok () ∧ requests = [request] ∧ session s = .ok () t := by
    refine .of_isLogged hlogged fun _ t hok => ⟨rfl, ?_, hok⟩
    rw [hkind]
    rfl
  refine .adapt (.of_granting (hgranting s) (hgranting s') ?_)
  rintro _ _ t _ _ t' ⟨rfl, rfl, hok⟩ ⟨rfl, rfl, hok'⟩
  exact ⟨.cons (.refl _) .nil, hpost t t' hok hok'⟩

/-- Transactions begin side by side. -/
theorem sideBySide_begin {failed : σ → σ → Prop} (habreast : Abreast view count false s s') :
    SideBySide log (Shown now now') (backend.atMoment now).begin.toWork
      (backend.atMoment now').begin.toWork s s' failed
      fun _ _ t t' => Abreast view count true t t' ∧ (view t).ledger = (view s).ledger := by
  refine sideBySide_session h.logs.begin rfl fun t t' hok hok' => ?_
  obtain ⟨hclosed, hclosed'⟩ := habreast.closed
  have hview := (h.reliable now).begin s t hclosed hok
  have hview' := (h.reliable now').begin s' t' hclosed' hok'
  refine ⟨⟨?_, ?_, ?_, ?_⟩, ?_⟩
  · rw [hview, hview']
    exact habreast.ledger
  · rw [hview, hview']
    exact congrArg some habreast.ledger
  · rw [hview]
    rfl
  · rw [h.numbers.begin _ _ hok, h.numbers.begin _ _ hok', habreast.count]
  · rw [hview]
    rfl

theorem sideBySide_commit {failed : σ → σ → Prop} (habreast : Abreast view count true s s') :
    SideBySide log (Shown now now') (backend.atMoment now).commit.toWork
      (backend.atMoment now').commit.toWork s s' failed
      fun _ _ t t' => Abreast view count false t t' ∧ (view t).ledger = (view s).ledger := by
  refine sideBySide_session h.logs.commit rfl fun t t' hok hok' => ?_
  obtain ⟨_, _, _, _, hkept, hkept', -⟩ := habreast.opened
  have hview := (h.reliable now).commit s t (by rw [hkept]; rfl) hok
  have hview' := (h.reliable now').commit s' t' (by rw [hkept']; rfl) hok'
  refine ⟨.of_closed (by rw [hview]; rfl) (by rw [hview']; rfl) ?_ ?_, ?_⟩
  · rw [hview, hview']
    exact habreast.ledger
  · rw [h.numbers.commit _ _ hok, h.numbers.commit _ _ hok', habreast.count]
  · rw [hview]
    rfl

theorem sideBySide_rollback {failed : σ → σ → Prop} (habreast : Abreast view count true s s') :
    SideBySide log (Shown now now') (backend.atMoment now).rollback.toWork
      (backend.atMoment now').rollback.toWork s s' failed
      fun _ _ t t' => Abreast view count false t t' := by
  refine sideBySide_session h.logs.rollback rfl fun t t' hok hok' => ?_
  obtain ⟨contents, ledger, contents', ledger', hkept, hkept', hsame⟩ := habreast.opened
  have hview := (h.reliable now).rollback s contents ledger t hkept hok
  have hview' := (h.reliable now').rollback s' contents' ledger' t' hkept' hok'
  refine .of_closed (by rw [hview]; rfl) (by rw [hview']; rfl) ?_ ?_
  · rw [hview, hview']
    exact hsame
  · rw [h.numbers.rollback _ _ hok, h.numbers.rollback _ _ hok', habreast.count]

variable {τ τ' : Transcript σ}

theorem sideBySide_abort {failed : Transcript σ → Transcript σ → Prop}
    (habreast : Abreast view count true τ.database τ'.database) :
    SideBySide (Run.logOf log) (Shown now now') (Migrator.atMoment backend now).abort
      (Migrator.atMoment backend now').abort τ τ' failed
      fun _ _ τ₁ τ₁' => Abreast view count false τ₁.database τ₁'.database := by
  have hasks (now : DateTime) : Asks (Run.logOf log) (fun _ => True)
      (Run.onDatabase (backend.atMoment now).rollback.toWork) :=
    Run.asks_onDatabase (Asks.any_of_isLogged (h.logsAt now).rollback).adapt
  have hrollback : SideBySide log (Shown now now') (backend.atMoment now).rollback.toWork
      (backend.atMoment now').rollback.toWork τ.database τ'.database (fun _ _ => False)
      fun _ _ t t' => Abreast view count false t t' := h.sideBySide_rollback habreast
  refine Run.sideBySide_attempt (hasks now) (hasks now') (.either .pure fun _ => Run.asks_emit _)
    (.either .pure fun _ => Run.asks_emit _)
    ((Run.sideBySide_onDatabase hrollback).mono (fun _ _ => id) ?_ ?_)
  · intro τ₁ τ₁' hnever
    exact hnever.elim
  · intro _ _ τ₁ τ₁' hdone
    exact .pure hdone

/-- Work that goes side by side does so as one transaction. -/
theorem sideBySide_inTransaction {work work' : Work σ Unit}
    {change : List LedgerEntry → List LedgerEntry → Prop} (hasks : Asks log (fun _ => True) work)
    (hasks' : Asks log (fun _ => True) work')
    (hwork : ∀ s s', Abreast view count true s s' →
      SideBySide log (Shown now now') work work' s s' (Abreast view count true)
        fun _ _ t t' => Abreast view count true t t' ∧ change (view s).ledger (view t).ledger)
    (habreast : Abreast view count false τ.database τ'.database) :
    SideBySide (Run.logOf log) (Shown now now') ((Migrator.atMoment backend now).inTransaction work)
      ((Migrator.atMoment backend now').inTransaction work') τ τ'
      (fun τ₁ τ₁' => Abreast view count false τ₁.database τ₁'.database)
      fun _ _ τ₁ τ₁' => Abreast view count false τ₁.database τ₁'.database ∧
        change (view τ.database).ledger (view τ₁.database).ledger := by
  have hbegins (now : DateTime) : Asks (Run.logOf log) (fun _ => True)
      (Run.onDatabase (backend.atMoment now).begin.toWork) :=
    Run.asks_onDatabase (Asks.any_of_isLogged (h.logsAt now).begin).adapt
  have hends (now : DateTime) (answer : Except MigrationError Unit) :=
    Migrator.asks_ending (P := fun _ => True) (h.logsOf now) (fun _ => trivial) answer
  have hworks := Run.asks_onDatabase hasks
  have hworks' := Run.asks_onDatabase hasks'
  refine .bind (hbegins now) (hbegins now') (fun _ => (Run.asks_attempt hworks).bind (hends now))
    (fun _ => (Run.asks_attempt hworks').bind (hends now'))
    ((Run.sideBySide_onDatabase (h.sideBySide_begin habreast)).imp ?_)
  rintro _ _ τ₁ τ₁' ⟨hopened, hledger⟩
  refine Run.sideBySide_attempt hworks hworks' (hends now) (hends now')
    ((Run.sideBySide_onDatabase (hwork _ _ hopened)).mono (fun _ _ => id) ?_ ?_)
  · intro τ₂ τ₂' hbroken e
    have habort (now : DateTime) : Asks (Run.logOf log) (fun _ => True)
        (Migrator.atMoment backend now).abort := Migrator.asks_abort (h.logsAt now) fun _ => trivial
    exact .bind (habort now) (habort now') (fun _ => .throw e) (fun _ => .throw e)
      ((h.sideBySide_abort hbroken).imp fun _ _ _ _ htaken => .throw e htaken)
  · rintro _ _ τ₂ τ₂' ⟨hdone, hchange⟩
    refine (Run.sideBySide_onDatabase (h.sideBySide_commit hdone)).imp ?_
    rintro _ _ τ₃ τ₃' ⟨hkept, hsame⟩
    refine ⟨hkept, ?_⟩
    rw [hsame, ← hledger]
    exact hchange

/-! ### Without a transaction -/

/-- Operations applied one by one at two moments stay side by side, by induction on the steps. -/
theorem sideBySide_forwardCompleted (steps : Migration.Steps) {failed : σ → σ → Prop}
    (habreast : Abreast view count isOpen s s') :
    SideBySide log (Shown now now') (Migration.forwardCompleted (backend.atMoment now) steps)
      (Migration.forwardCompleted (backend.atMoment now') steps) s s' failed
      fun found found' t t' => found = found' ∧ Abreast view count isOpen t t' ∧
        (found.2 = none → (view t).ledger = (view s).ledger) := by
  have hasks (now : DateTime) (steps : Migration.Steps) : Asks log (fun _ => True)
      (Migration.forwardCompleted (backend.atMoment now) steps) :=
    Migrator.asks_forwardCompleted (h.logsOf now) (fun _ => trivial) steps
  induction steps generalizing s s' with
  | nil => exact .pure ⟨rfl, habreast, fun _ => rfl⟩
  | cons entry rest ih =>
      obtain ⟨operation, step⟩ := entry
      rw [Migration.forwardCompleted_cons, Migration.forwardCompleted_cons]
      have hforward (now : DateTime) : Asks log (fun _ => True)
          (operation.forward (backend.atMoment now) step) :=
        asks_of_scripted (h.logsAt now) (fun _ => trivial) (.forward operation step)
      refine Work.sideBySide_attempt (hforward now) (hforward now')
        (.either (fun _ => (hasks now rest).bind fun _ => .pure _) fun _ => .pure _)
        (.either (fun _ => (hasks now' rest).bind fun _ => .pure _) fun _ => .pure _)
        ((h.sideBySide_script (.forward operation step) habreast).mono (fun _ _ => id) ?_ ?_)
      · intro t t' hfailed e
        refine .pure ⟨rfl, hfailed, fun hnone => ?_⟩
        cases hnone
      · rintro _ _ t t' ⟨hdone, hledger⟩
        refine .bind (hasks now rest) (hasks now' rest) (fun _ => .pure _) (fun _ => .pure _)
          ((ih hdone).imp ?_)
        rintro found _ u u' ⟨rfl, hrest, hsame⟩
        exact .pure ⟨rfl, hrest, fun hnone => (hsame hnone).trans hledger⟩

theorem sideBySide_undoCompleted (migration : Migration) (completed : Migration.Steps)
    {failed : Transcript σ → Transcript σ → Prop}
    (habreast : Abreast view count isOpen τ.database τ'.database) :
    SideBySide (Run.logOf log) (Shown now now')
      ((Migrator.atMoment backend now).undoCompleted migration completed)
      ((Migrator.atMoment backend now').undoCompleted migration completed) τ τ' failed
      fun _ _ τ₁ τ₁' => Abreast view count isOpen τ₁.database τ₁'.database := by
  have hasks (now : DateTime) : Asks (Run.logOf log) (fun _ => True)
      (Run.onDatabase (Migration.backwardAll (backend.atMoment now) completed)) :=
    Run.asks_onDatabase (asks_of_scripted (h.logsAt now) (fun _ => trivial)
      (.backwardAll completed))
  have hundo : SideBySide log (Shown now now')
      (Migration.backwardAll (backend.atMoment now) completed)
      (Migration.backwardAll (backend.atMoment now') completed) τ.database τ'.database _ _ :=
    h.sideBySide_script (.backwardAll completed) habreast
  refine Run.sideBySide_emit (Run.sideBySide_attempt (hasks now) (hasks now')
    (.either .pure fun _ => Run.asks_emit _) (.either .pure fun _ => Run.asks_emit _)
    (SideBySide.mono (Run.sideBySide_onDatabase hundo) (fun _ _ => id) ?_ ?_))
  · intro τ₁ τ₁' hfailed e
    exact Run.sideBySide_message hfailed
  · rintro _ _ τ₁ τ₁' ⟨hdone, -⟩
    exact .pure hdone

theorem sideBySide_applyStepwise (migration : Migration) (steps : Migration.Steps)
    (habreast : Abreast view count isOpen τ.database τ'.database) :
    SideBySide (Run.logOf log) (Shown now now')
      ((Migrator.atMoment backend now).applyStepwise migration steps)
      ((Migrator.atMoment backend now').applyStepwise migration steps) τ τ'
      (fun τ₁ τ₁' => Abreast view count isOpen τ₁.database τ₁'.database)
      fun _ _ τ₁ τ₁' => Abreast view count isOpen τ₁.database τ₁'.database ∧
        Ledger.Gains migration (view τ.database).ledger (view τ₁.database).ledger := by
  have hcompleted (now : DateTime) : Asks (Run.logOf log) (fun _ => True)
      (Run.onDatabase (Migration.forwardCompleted (backend.atMoment now) steps)) :=
    Run.asks_onDatabase (Migrator.asks_forwardCompleted (h.logsOf now) (fun _ => trivial) steps)
  have hundo (now : DateTime) (completed : Migration.Steps) : Asks (Run.logOf log) (fun _ => True)
      ((Migrator.atMoment backend now).undoCompleted migration completed) :=
    Migrator.asks_undoCompleted (h.logsAt now) (fun _ => trivial) completed
  have hrecord (now : DateTime) : Asks (Run.logOf log) (fun _ => True)
      (Run.onDatabase ((Migrator.atMoment backend now).record migration)) :=
    Run.asks_onDatabase (Migrator.asks_record (h.logsAt now) fun _ => trivial)
  refine .bind (hcompleted now) (hcompleted now') (fun found => ?_) (fun found => ?_)
    ((Run.sideBySide_onDatabase (h.sideBySide_forwardCompleted steps habreast)).imp ?_)
  · obtain ⟨completed, failure⟩ := found
    cases failure with
    | some e => exact (hundo now completed).bind fun _ => .throw e
    | none => exact hrecord now
  · obtain ⟨completed, failure⟩ := found
    cases failure with
    | some e => exact (hundo now' completed).bind fun _ => .throw e
    | none => exact hrecord now'
  rintro ⟨completed, failure⟩ _ τ₁ τ₁' ⟨rfl, hdone, hsame⟩
  cases failure with
  | some e =>
      exact .bind (hundo now completed) (hundo now' completed) (fun _ => .throw e)
        (fun _ => .throw e)
        ((h.sideBySide_undoCompleted migration completed hdone).imp fun _ _ _ _ hundone =>
          .throw e hundone)
  | none =>
      rw [← hsame rfl]
      exact Run.sideBySide_onDatabase (h.sideBySide_record migration hdone)

/-! ### One migration -/

/-- A migration is applied at two moments alike, and gets its row on either side. -/
theorem sideBySide_perform (state : AppSchema) (migration : Migration)
    (habreast : Abreast view count false τ.database τ'.database) :
    SideBySide (Run.logOf log) (Shown now now')
      ((Migrator.atMoment backend now).perform state migration)
      ((Migrator.atMoment backend now').perform state migration) τ τ'
      (fun τ₁ τ₁' => Abreast view count false τ₁.database τ₁'.database)
      fun next next' τ₁ τ₁' => next = next' ∧
        Abreast view count false τ₁.database τ₁'.database ∧
        Ledger.Gains migration (view τ.database).ledger (view τ₁.database).ledger := by
  unfold Migrator.perform
  refine Run.sideBySide_emit (Run.sideBySide_ofExcept habreast fun steps _ => ?_)
  have hdone (τ₁ τ₁' : Transcript σ) (hend : Abreast view count false τ₁.database τ₁'.database ∧
      Ledger.Gains migration (view τ.database).ledger (view τ₁.database).ledger) :
      SideBySide (Run.logOf log) (Shown now now') (do
        let state ← Run.ofExcept (state.next migration)
        Run.report .info "Migration applied successfully" migration []
        return state : Run σ AppSchema) (do
        let state ← Run.ofExcept (state.next migration)
        Run.report .info "Migration applied successfully" migration []
        return state : Run σ AppSchema) τ₁ τ₁'
        (fun τ₁ τ₁' => Abreast view count false τ₁.database τ₁'.database)
        fun next next' τ₂ τ₂' => next = next' ∧
          Abreast view count false τ₂.database τ₂'.database ∧
          Ledger.Gains migration (view τ.database).ledger (view τ₂.database).ledger :=
    Run.sideBySide_ofExcept hend.1 fun next _ => Run.sideBySide_emit (.pure ⟨rfl, hend⟩)
  have hnotDry (now : DateTime) : ¬(Migrator.atMoment backend now).dryRun = true := nofun
  dsimp only
  rw [if_neg (hnotDry now), if_neg (hnotDry now')]
  by_cases hmode : backend.dialect.capabilities.transactional = true
  · have hasks (now : DateTime) : Asks log (fun _ => True) (do
        Migration.forwardAll (backend.atMoment now) (migration.withSteps steps)
        (Migrator.atMoment backend now).record migration) :=
      Migrator.asks_apply (h.logsOf now) (fun _ => trivial) (migration.withSteps steps)
    have htransactional (now : DateTime) :
        (backend.atMoment now).dialect.capabilities.transactional = true := hmode
    rw [if_pos (htransactional now), if_pos (htransactional now')]
    refine .bind (Migrator.asks_inTransaction (h.logsOf now) (fun _ => trivial) (hasks now))
      (Migrator.asks_inTransaction (h.logsOf now') (fun _ => trivial) (hasks now'))
      (fun _ => Migrator.asks_next state migration) (fun _ => Migrator.asks_next state migration)
      (SideBySide.imp (h.sideBySide_inTransaction (hasks now) (hasks now') ?_ habreast)
        fun _ _ => hdone)
    intro s s' hopened
    refine .bind (asks_of_scripted (h.logsAt now) (fun _ => trivial) (.forwardAll _))
      (asks_of_scripted (h.logsAt now') (fun _ => trivial) (.forwardAll _))
      (fun _ => Migrator.asks_record (h.logsOf now) fun _ => trivial)
      (fun _ => Migrator.asks_record (h.logsOf now') fun _ => trivial)
      ((h.sideBySide_script (.forwardAll _) hopened).imp ?_)
    rintro _ _ t t' ⟨hscript, hsame⟩
    rw [← hsame]
    exact h.sideBySide_record migration hscript
  · have hstepwise (now : DateTime) :
        ¬(backend.atMoment now).dialect.capabilities.transactional = true := hmode
    rw [if_neg (hstepwise now), if_neg (hstepwise now')]
    exact .bind (Migrator.asks_applyStepwise (h.logsOf now) (fun _ => trivial) _)
      (Migrator.asks_applyStepwise (h.logsOf now') (fun _ => trivial) _)
      (fun _ => Migrator.asks_next state migration) (fun _ => Migrator.asks_next state migration)
      (SideBySide.imp (h.sideBySide_applyStepwise migration _ habreast) fun _ _ => hdone)

/-- A migration is undone at two moments alike, and loses its rows on either side. -/
theorem sideBySide_revert (steps : Migration.Steps)
    (hstrikes : backend.Strikes view migration.app migration.name)
    (habreast : Abreast view count false τ.database τ'.database) :
    SideBySide (Run.logOf log) (Shown now now')
      ((Migrator.atMoment backend now).revert migration steps)
      ((Migrator.atMoment backend now').revert migration steps) τ τ'
      (fun τ₁ τ₁' => Abreast view count false τ₁.database τ₁'.database)
      fun _ _ τ₁ τ₁' => Abreast view count false τ₁.database τ₁'.database ∧
        Ledger.Loses migration.app migration.name (view τ.database).ledger
          (view τ₁.database).ledger := by
  have hasks (now : DateTime) : Asks log (fun _ => True) (do
      Migration.backwardAll (backend.atMoment now) steps
      Ledger.strike (backend.atMoment now) migration.app migration.name) :=
    Migrator.asks_revertWork (h.logsOf now) (fun _ => trivial) steps
  have hwork {isOpen : Bool} (s s' : σ) (habreast : Abreast view count isOpen s s') :
      SideBySide log (Shown now now') (do
        Migration.backwardAll (backend.atMoment now) steps
        Ledger.strike (backend.atMoment now) migration.app migration.name) (do
        Migration.backwardAll (backend.atMoment now') steps
        Ledger.strike (backend.atMoment now') migration.app migration.name) s s'
        (Abreast view count isOpen) fun _ _ t t' => Abreast view count isOpen t t' ∧
          Ledger.Loses migration.app migration.name (view s).ledger (view t).ledger := by
    refine .bind (asks_of_scripted (h.logsAt now) (fun _ => trivial) (.backwardAll _))
      (asks_of_scripted (h.logsAt now') (fun _ => trivial) (.backwardAll _))
      (fun _ => Migrator.asks_strike (h.logsOf now) (fun _ => trivial) _)
      (fun _ => Migrator.asks_strike (h.logsOf now') (fun _ => trivial) _)
      ((h.sideBySide_script (.backwardAll _) habreast).imp ?_)
    rintro _ _ t t' ⟨hscript, hsame⟩
    rw [← hsame]
    exact h.sideBySide_strike hstrikes hscript
  unfold Migrator.revert
  refine Run.sideBySide_emit ?_
  have hnotDry (now : DateTime) : ¬(Migrator.atMoment backend now).dryRun = true := nofun
  dsimp only
  rw [if_neg (hnotDry now), if_neg (hnotDry now')]
  by_cases hmode : backend.dialect.capabilities.transactional = true
  · have htransactional (now : DateTime) :
        (backend.atMoment now).dialect.capabilities.transactional = true := hmode
    rw [if_pos (htransactional now), if_pos (htransactional now')]
    exact .bind (Migrator.asks_inTransaction (h.logsOf now) (fun _ => trivial) (hasks now))
      (Migrator.asks_inTransaction (h.logsOf now') (fun _ => trivial) (hasks now'))
      (fun _ => Run.asks_emit _) (fun _ => Run.asks_emit _)
      (SideBySide.imp (h.sideBySide_inTransaction (hasks now) (hasks now') hwork habreast)
        fun _ _ _ _ hend => Run.sideBySide_message hend)
  · have hstepwise (now : DateTime) :
        ¬(backend.atMoment now).dialect.capabilities.transactional = true := hmode
    rw [if_neg (hstepwise now), if_neg (hstepwise now')]
    exact .bind (Run.asks_onDatabase (hasks now)) (Run.asks_onDatabase (hasks now'))
      (fun _ => Run.asks_emit _) (fun _ => Run.asks_emit _)
      (SideBySide.imp (Run.sideBySide_onDatabase (hwork _ _ habreast))
        fun _ _ _ _ hend => Run.sideBySide_message hend)

/-! ### Looking at the ledger -/

omit h in
/-- Two runs that only look leave the databases abreast. -/
theorem sideBySide_looked {α β : Type} {R : α → β → Prop} {run : Run σ α} {run' : Run σ β}
    {expected : Except MigrationError α} {expected' : Except MigrationError β}
    (hlooks : Run.Looks count run) (hlooks' : Run.Looks count run')
    (hrun : Granting (Run.logOf log) run τ (Migrator.Looked view τ expected))
    (hrun' : Granting (Run.logOf log) run' τ' (Migrator.Looked view τ' expected'))
    (halike : AnswersAlike R expected expected')
    (habreast : Abreast view count isOpen τ.database τ'.database) :
    SideBySide (Run.logOf log) (Shown now now') run run' τ τ'
      (fun τ₁ τ₁' => Abreast view count isOpen τ₁.database τ₁'.database)
      fun a b τ₁ τ₁' => R a b ∧ Abreast view count isOpen τ₁.database τ₁'.database ∧
        view τ₁.database = view τ.database := by
  refine .of_granting (hrun.and hlooks.granting) (hrun'.and hlooks'.granting) ?_
  rintro _ _ τ₁ _ _ τ₁' ⟨⟨rfl, rfl, -, hview⟩, hcount⟩ ⟨⟨rfl, rfl, -, hview'⟩, hcount'⟩
  have hend := habreast.congr hview hcount hview' hcount'
  refine ⟨.nil, ?_⟩
  cases halike with
  | ok hrelated => exact ⟨hrelated, hend, hview⟩
  | error e => exact ⟨rfl, hend⟩

/-- The rows of an app are those of the ledger, on either side. -/
theorem sideBySide_entries (app : String)
    (habreast : Abreast view count isOpen τ.database τ'.database) :
    SideBySide (Run.logOf log) (Shown now now') ((Migrator.atMoment backend now).entries app)
      ((Migrator.atMoment backend now').entries app) τ τ'
      (fun τ₁ τ₁' => Abreast view count isOpen τ₁.database τ₁'.database)
      fun records records' τ₁ τ₁' =>
        (records = (view τ.database).ledger.filter (·.app == app) ∧
          records' = (view τ'.database).ledger.filter (·.app == app)) ∧
        Abreast view count isOpen τ₁.database τ₁'.database ∧ view τ₁.database =
          view τ.database := by
  exact sideBySide_looked (Migrator.looks_entries (h.unmovedAt now))
    (Migrator.looks_entries (h.unmovedAt now'))
    (Migrator.granting_entries (h.reliable now) (h.logsAt now) app)
    (Migrator.granting_entries (h.reliable now') (h.logsAt now') app) (.ok ⟨rfl, rfl⟩) habreast

/-- Of the same app, what the calls have applied themselves is recorded, and so makes no
difference. -/
theorem sideBySide_requireApplied {app : String} {migration : Migration} {done done' : List String}
    (happ : migration.app = app)
    (hdone : ∀ name ∈ done, (view τ.database).ledger.any (·.isFor app name) = true)
    (hdone' : ∀ name ∈ done', (view τ.database).ledger.any (·.isFor app name) = true)
    (habreast : Abreast view count isOpen τ.database τ'.database) :
    SideBySide (Run.logOf log) (Shown now now')
      ((Migrator.atMoment backend now).requireApplied migration done)
      ((Migrator.atMoment backend now').requireApplied migration done') τ τ'
      (fun τ₁ τ₁' => Abreast view count isOpen τ₁.database τ₁'.database)
      fun _ _ τ₁ τ₁' => Abreast view count isOpen τ₁.database τ₁'.database ∧
        view τ₁.database = view τ.database := by
  have hrequired : Migrator.requirement (view τ.database).ledger done migration
      = Migrator.requirement (view τ'.database).ledger done' migration := by
    have hmet : Migrator.isMet (view τ.database).ledger done migration
        = Migrator.isMet (view τ'.database).ledger done' migration := by
      funext needed
      rw [Migrator.isMet_of_recorded happ hdone]
      simp only [any_undated habreast.ledger] at hdone' ⊢
      rw [Migrator.isMet_of_recorded happ hdone']
    unfold Migrator.requirement
    rw [hmet]
  have hexpected : AnswersAlike (fun _ _ => True)
      (Migrator.requirement (view τ.database).ledger done migration)
      (Migrator.requirement (view τ'.database).ledger done' migration) := by
    rw [hrequired]
    cases Migrator.requirement (view τ'.database).ledger done' migration with
    | ok _ => exact .ok trivial
    | error e => exact .error e
  exact SideBySide.imp (sideBySide_looked (Migrator.looks_requireApplied (h.unmovedAt now) done)
    (Migrator.looks_requireApplied (h.unmovedAt now') done')
    (Migrator.granting_requireApplied (h.reliable now) (h.logsAt now) done)
    (Migrator.granting_requireApplied (h.reliable now') (h.logsAt now') done') hexpected habreast)
    fun _ _ _ _ hend => hend.2

end Backend.Dependable

end Abreast

end SchemaHistory
