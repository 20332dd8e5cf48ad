import SchemaHistory.Proofs.DryRuns
import SchemaHistory.Proofs.Agreement

/-!
# What a database is asked for

A log shows what a database is asked for, one event for each request, and whether it is granted. Any
database can be given one (`Backend.logging`). What is asked for in a run on it can be read off, and
so can it be whether anything was refused.

`Granting` says what holds of an action provided that nothing is refused in it. It is closed under
the ways in which actions are put together, as long as each of them only adds to the log (`Asks`).
-/

namespace SchemaHistory

/-- What a database can be asked for. -/
inductive Request where
  | execute (statement : Statement)
  | query (statement : Statement)
  | begin
  | commit
  | rollback
deriving DecidableEq

def Request.isQuery : Request → Bool
  | query _ => true
  | _ => false

/-- A request and whether it was granted. -/
structure Event where
  request : Request
  granted : Bool
deriving DecidableEq

section Log

variable {ε ε' ρ α β γ : Type} (log : ρ → List Event)

/-- A session is one request, as the log shows. -/
structure Session.IsLogged (request : Request) (session : Session ρ α) : Prop where
  ok : ∀ s a t, session s = .ok a t → log t = log s ++ [⟨request, true⟩]
  error : ∀ s e t, session s = .error e t → log t = log s ++ [⟨request, false⟩]

/-- Everything that a database is asked for is in its log. -/
structure Backend.Logs (backend : Backend ρ) : Prop where
  execute : ∀ statement, (backend.execute statement).IsLogged log (.execute statement)
  query : ∀ statement, (backend.query statement).IsLogged log (.query statement)
  begin : backend.begin.IsLogged log .begin
  commit : backend.commit.IsLogged log .commit
  rollback : backend.rollback.IsLogged log .rollback

def eventsBetween (s t : ρ) : List Event := (log t).drop (log s).length

/-- Nothing was refused between two states. -/
def Granted (s t : ρ) : Prop := ∀ event ∈ eventsBetween log s t, event.granted = true

instance (s t : ρ) : Decidable (Granted log s t) :=
  inferInstanceAs (Decidable (∀ event ∈ eventsBetween log s t, event.granted = true))

/-- What was asked for between two states, beside queries. -/
def changesBetween (s t : ρ) : List Request :=
  ((eventsBetween log s t).map (·.request)).filter (!·.isQuery)

/-- The log of one state goes on to that of another, by requests of some kind. -/
def Continues (P : Request → Prop) (s t : ρ) : Prop :=
  ∃ events, log t = log s ++ events ∧ ∀ event ∈ events, P event.request

/-- However an action ends, all that it asks for is of some kind. -/
structure Asks (P : Request → Prop) (action : EStateM ε ρ α) : Prop where
  ok : ∀ s a t, action s = .ok a t → Continues log P s t
  error : ∀ s e t, action s = .error e t → Continues log P s t

/-- What holds of an action from a state on, provided that nothing is refused: of its answer, of
what it asks for beside queries, and of the state in which it ends. -/
def Granting (action : EStateM ε ρ α) (s : ρ) (post : Except ε α → List Request → ρ → Prop) :
    Prop :=
  ∀ answer t, action s = Backend.answered answer t → Granted log s t →
    post answer (changesBetween log s t) t

end Log

section Log

variable {ε ε' ρ α β γ : Type} {log : ρ → List Event} {P : Request → Prop} {s t u : ρ}
  {action : EStateM ε ρ α} {next : α → EStateM ε ρ β}

/-- What was logged between two states is what was added to the log. -/
theorem eventsBetween_eq {events : List Event} (h : log t = log s ++ events) :
    eventsBetween log s t = events := by
  unfold eventsBetween
  rw [h, List.drop_left]

theorem eventsBetween_self : eventsBetween log s s = [] :=
  eventsBetween_eq (List.append_nil _).symm

theorem changesBetween_self : changesBetween log s s = [] := by
  unfold changesBetween
  rw [eventsBetween_self]
  rfl

theorem Continues.refl : Continues log P s s :=
    ⟨[], (List.append_nil _).symm, List.forall_mem_nil _⟩

theorem Continues.trans (hst : Continues log P s t) (htu : Continues log P t u) :
    Continues log P s u := by
  obtain ⟨events, ht, hevents⟩ := hst
  obtain ⟨more, hu, hmore⟩ := htu
  refine ⟨events ++ more, by rw [hu, ht, List.append_assoc], fun event hevent => ?_⟩
  rcases List.mem_append.mp hevent with hevent | hevent
  · exact hevents event hevent
  · exact hmore event hevent

/-- What comes into the log on the way comes in before what comes in later. -/
theorem eventsBetween_trans (hst : Continues log P s t) (htu : Continues log P t u) :
    eventsBetween log s u = eventsBetween log s t ++ eventsBetween log t u := by
  obtain ⟨events, ht, -⟩ := hst
  obtain ⟨more, hu, -⟩ := htu
  rw [eventsBetween_eq ht, eventsBetween_eq hu]
  exact eventsBetween_eq (by rw [hu, ht, List.append_assoc])

/-- All is granted on the way exactly if it is on both parts of it. -/
theorem granted_trans (hst : Continues log P s t) (htu : Continues log P t u) :
    Granted log s u ↔ Granted log s t ∧ Granted log t u := by
  unfold Granted
  rw [eventsBetween_trans hst htu, List.forall_mem_append]

/-- The changes on the way are those of its parts, in turn. -/
theorem changesBetween_trans (hst : Continues log P s t) (htu : Continues log P t u) :
    changesBetween log s u = changesBetween log s t ++ changesBetween log t u := by
  unfold changesBetween
  rw [eventsBetween_trans hst htu, List.map_append, List.filter_append]

/-! ### Kinds of requests -/

namespace Asks

theorem pure (a : α) : Asks log P (Pure.pure a : EStateM ε ρ α) where
  ok _ _ _ h := (pure_eq_ok.mp h).2 ▸ .refl
  error _ _ _ h := absurd h pure_ne_error

theorem throw (e : ε) : Asks log P (MonadExcept.throw e : EStateM ε ρ α) where
  ok _ _ _ h := absurd h throw_ne_ok
  error _ _ _ h := (throw_eq_error.mp h).2 ▸ .refl

/-- An action and then another: what both ask for. -/
theorem bind (h : Asks log P action) (hnext : ∀ a, Asks log P (next a)) :
    Asks log P (action >>= next) where
  ok _ _ _ hok := by
    obtain ⟨a, u, haction, hok⟩ := bind_eq_ok.mp hok
    exact (h.ok _ _ _ haction).trans ((hnext a).ok _ _ _ hok)
  error _ _ _ herror := by
    rcases bind_eq_error.mp herror with herror | ⟨a, u, haction, herror⟩
    · exact h.error _ _ _ herror
    · exact (h.ok _ _ _ haction).trans ((hnext a).error _ _ _ herror)

theorem adapt {wrap : ε → ε'} (h : Asks log P action) :
    Asks log P (action.adaptExcept wrap) where
  ok _ _ _ hok := h.ok _ _ _ (adaptExcept_eq_ok.mp hok)
  error _ _ _ herror := by
    obtain ⟨e, herror, -⟩ := adaptExcept_eq_error.mp herror
    exact h.error _ _ _ herror

theorem forM {xs : List γ} {f : γ → EStateM ε ρ Unit} (h : ∀ x, Asks log P (f x)) :
    Asks log P (xs.forM f) := by
  induction xs with
  | nil => exact .pure ()
  | cons x xs ih => exact (h x).bind fun _ => ih

/-- What goes on from an answer does so from either kind. -/
theorem either {next : Except ε' α → EStateM ε ρ β} (hok : ∀ a, Asks log P (next (.ok a)))
    (herror : ∀ e, Asks log P (next (.error e))) (answer : Except ε' α) :
    Asks log P (next answer) := by
  cases answer with
  | ok a => exact hok a
  | error e => exact herror e

theorem of_isLogged {request : Request} {session : Session ρ α} (h : session.IsLogged log request)
    (hP : P request) : Asks log P session where
  ok _ _ _ hok := ⟨_, h.ok _ _ _ hok, List.forall_mem_singleton.mpr hP⟩
  error _ _ _ herror := ⟨_, h.error _ _ _ herror, List.forall_mem_singleton.mpr hP⟩

theorem any_of_isLogged {request : Request} {session : Session ρ α}
    (h : session.IsLogged log request) : Asks log (fun _ => True) session :=
  .of_isLogged h trivial

end Asks

/-! ### Actions to which nothing is refused -/

namespace Granting

variable {post : Except ε α → List Request → ρ → Prop}

/-- A weaker promise follows from a stronger one. -/
theorem mono {post' : Except ε α → List Request → ρ → Prop} (h : Granting log action s post)
    (himp : ∀ answer requests t, post answer requests t → post' answer requests t) :
    Granting log action s post' :=
  fun answer t haction hgranted => himp _ _ _ (h answer t haction hgranted)

theorem and {post' : Except ε α → List Request → ρ → Prop} (h : Granting log action s post)
    (h' : Granting log action s post') : Granting log action s fun answer requests t =>
      post answer requests t ∧ post' answer requests t :=
  fun answer t haction hgranted => ⟨h answer t haction hgranted, h' answer t haction hgranted⟩

theorem pure {a : α} (h : post (.ok a) [] s) :
    Granting log (Pure.pure a : EStateM ε ρ α) s post := by
  intro answer t hpure _
  cases answer with
  | ok b =>
      obtain ⟨rfl, rfl⟩ := pure_eq_ok.mp hpure
      rw [changesBetween_self]
      exact h
  | error e => exact absurd hpure pure_ne_error

theorem throw {e : ε} (h : post (.error e) [] s) :
    Granting log (MonadExcept.throw e : EStateM ε ρ α) s post := by
  intro answer t hthrow _
  cases answer with
  | ok b => exact absurd hthrow throw_ne_ok
  | error e' =>
      obtain ⟨rfl, rfl⟩ := throw_eq_error.mp hthrow
      rw [changesBetween_self]
      exact h

/-- If nothing is refused in two actions, then nothing is in the first, and nothing in the
second. -/
theorem bind {post : Except ε β → List Request → ρ → Prop} (hasks : Asks log (fun _ => True) action)
    (hnext : ∀ a, Asks log (fun _ => True) (next a))
    (h : Granting log action s fun answer requests t => match answer with
      | .ok a => Granting log (next a) t fun answer more => post answer (requests ++ more)
      | .error e => post (.error e) requests t) :
    Granting log (action >>= next) s post := by
  intro answer t hbind hgranted
  -- an action that succeeds is followed by the other
  have hthen : ∀ {a : α} {u : ρ}, action s = .ok a u → Continues log (fun _ => True) u t →
      next a u = Backend.answered answer t → post answer (changesBetween log s t) t := by
    intro a u haction hrest hanswer
    obtain ⟨hfirst, hsecond⟩ := (granted_trans (hasks.ok _ _ _ haction) hrest).mp hgranted
    rw [changesBetween_trans (hasks.ok _ _ _ haction) hrest]
    exact h (.ok a) u haction hfirst answer t hanswer hsecond
  cases answer with
  | ok b =>
      obtain ⟨a, u, haction, hok⟩ := bind_eq_ok.mp hbind
      exact hthen haction ((hnext a).ok _ _ _ hok) hok
  | error e =>
      rcases bind_eq_error.mp hbind with herror | ⟨a, u, haction, herror⟩
      · exact h (.error e) t herror hgranted
      · exact hthen haction ((hnext a).error _ _ _ herror) herror

theorem adapt {wrap : ε → ε'} {post : Except ε' α → List Request → ρ → Prop}
    (h : Granting log action s fun answer => post (answer.mapError wrap)) :
    Granting log (action.adaptExcept wrap) s post := by
  intro answer t hadapt hgranted
  cases answer with
  | ok a => exact h (.ok a) t (adaptExcept_eq_ok.mp hadapt) hgranted
  | error e =>
      obtain ⟨cause, herror, rfl⟩ := adaptExcept_eq_error.mp hadapt
      exact h (.error cause) t herror hgranted

/-- One request, which is not refused. -/
theorem of_isLogged {request : Request} {session : Session ρ α}
    {post : Except SchemaError α → List Request → ρ → Prop} (h : session.IsLogged log request)
    (hok : ∀ a t, session s = .ok a t →
      post (.ok a) (if request.isQuery then [] else [request]) t) :
    Granting log session s post := by
  intro answer t hsession hgranted
  cases answer with
  | ok a =>
      have hlog := h.ok _ _ _ hsession
      rw [changesBetween, eventsBetween_eq hlog]
      have hpost := hok a t hsession
      cases hquery : request.isQuery <;> simpa [hquery] using hpost
  | error e =>
      rw [Granted, eventsBetween_eq (h.error _ _ _ hsession)] at hgranted
      exact absurd (hgranted _ (List.mem_singleton_self _)) Bool.false_ne_true

end Granting

end Log

/-! ### Runs -/

namespace Run

variable {σ α β : Type} {log : σ → List Event} {P : Request → Prop} {run : Run σ α}
  {work : Work σ α} {τ : Transcript σ}

abbrev logOf (log : σ → List Event) (τ : Transcript σ) : List Event := log τ.database

theorem asks_onDatabase (h : Asks log P work) : Asks (logOf log) P (onDatabase work) where
  ok _ _ _ hok := by
    obtain ⟨t, hwork, rfl⟩ := onDatabase_eq_ok.mp hok
    exact h.ok _ _ _ hwork
  error _ _ _ herror := by
    obtain ⟨t, hwork, rfl⟩ := onDatabase_eq_error.mp herror
    exact h.error _ _ _ hwork

theorem asks_attempt (h : Asks (logOf log) P run) : Asks (logOf log) P run.attempt where
  ok _ answer _ hok := by
    have hanswer := attempt_eq_ok.mp hok
    cases answer with
    | ok a => exact h.ok _ _ _ hanswer
    | error e => exact h.error _ _ _ hanswer
  error _ _ _ herror := absurd herror attempt_ne_error

theorem asks_emit (line : Line) : Asks (logOf log) P (emit line : Run σ Unit) where
  ok _ _ _ h := by
    cases h
    exact .refl
  error _ _ _ h := nomatch h

theorem asks_ofExcept (result : Except MigrationError α) :
    Asks (logOf log) P (ofExcept result : Run σ α) := by
  cases result with
  | ok a => exact .pure a
  | error e => exact .throw e

theorem granting_onDatabase {post : Except MigrationError α → List Request → Transcript σ → Prop}
    (h : Granting log work τ.database fun answer requests database =>
      post answer requests { τ with database }) :
    Granting (logOf log) (onDatabase work) τ post := by
  intro answer τ' hrun hgranted
  cases answer with
  | ok a =>
      obtain ⟨t, hwork, rfl⟩ := onDatabase_eq_ok.mp hrun
      exact h (.ok a) t hwork hgranted
  | error e =>
      obtain ⟨t, hwork, rfl⟩ := onDatabase_eq_error.mp hrun
      exact h (.error e) t hwork hgranted

theorem granting_attempt
    {post : Except MigrationError (Except MigrationError α) → List Request → Transcript σ → Prop}
    (h : Granting (logOf log) run τ fun answer => post (.ok answer)) :
    Granting (logOf log) run.attempt τ post := by
  intro answer τ' hrun hgranted
  cases answer with
  | ok answer =>
      refine h answer τ' ?_ hgranted
      have hanswer := attempt_eq_ok.mp hrun
      cases answer <;> exact hanswer
  | error e => exact absurd hrun attempt_ne_error

/-- An action that leaves the database alone and succeeds, and what follows it. -/
theorem granting_bind_of_ok {next : α → Run σ β} {a : α} {lines : Array Line}
    {post : Except MigrationError β → List Request → Transcript σ → Prop}
    (hrun : run τ = .ok a { τ with lines })
    (h : Granting (logOf log) (next a) { τ with lines } post) :
    Granting (logOf log) (run >>= next) τ post := by
  intro answer τ' hbind
  have hnext : next a { τ with lines } = Backend.answered answer τ' := by
    rw [← hbind]
    show _ = EStateM.bind run next τ
    unfold EStateM.bind
    rw [hrun]
  exact h answer τ' hnext

/-- An action that leaves the database alone and fails. -/
theorem granting_bind_of_error {next : α → Run σ β} {e : MigrationError} {lines : Array Line}
    {post : Except MigrationError β → List Request → Transcript σ → Prop}
    (hrun : run τ = .error e { τ with lines }) (h : post (.error e) [] { τ with lines }) :
    Granting (logOf log) (run >>= next) τ post := by
  intro answer τ' hbind hgranted
  have hend : EStateM.Result.error e { τ with lines } = Backend.answered answer τ' := by
    rw [← hbind]
    show _ = EStateM.bind run next τ
    unfold EStateM.bind
    rw [hrun]
  cases answer with
  | ok b => cases hend
  | error e =>
      cases hend
      have hnothing : changesBetween (logOf log) τ { τ with lines } = [] :=
        changesBetween_self
      rw [hnothing]
      exact h

/-- What is seen of the database is the same after an action that only looks. -/
theorem Looks.granting {ω : Type} {seen : σ → ω} (h : Looks seen run) :
    Granting (logOf log) run τ fun _ _ τ' => seen τ'.database = seen τ.database := by
  intro answer τ' hrun _
  cases answer with
  | ok a => exact h.ok _ _ _ hrun
  | error e => exact h.error _ _ _ hrun

/-- What is written to the console leaves the log as it is. -/
theorem granting_emit_bind {line : Line} {next : Unit → Run σ β}
    {post : Except MigrationError β → List Request → Transcript σ → Prop}
    (h : Granting (logOf log) (next ()) { τ with lines := τ.lines.push line } post) :
    Granting (logOf log) (emit line >>= next) τ post := h

/-- A result that is known goes on with its value or ends with its error. -/
theorem granting_ofExcept_bind {result : Except MigrationError α} {next : α → Run σ β}
    {post : Except MigrationError β → List Request → Transcript σ → Prop}
    (h : match result with
      | .ok a => Granting (logOf log) (next a) τ post
      | .error e => post (.error e) [] τ) :
    Granting (logOf log) (ofExcept result >>= next) τ post := by
  cases result with
  | ok a => exact h
  | error e => exact .throw h

end Run

/-! ### A log for any database -/

namespace Backend

variable {σ α : Type} {backend : Backend σ}

def recordIn (request : Request) (session : Session σ α) : Session (σ × List Event) α :=
  fun (s, events) => match session s with
    | .ok a t => .ok a (t, events ++ [⟨request, true⟩])
    | .error e t => .error e (t, events ++ [⟨request, false⟩])

/-- A database that keeps a log of what it is asked for, and answers as another does. -/
def logging (backend : Backend σ) : Backend (σ × List Event) where
  dialect := backend.dialect
  now := backend.now
  execute statement := recordIn (.execute statement) (backend.execute statement)
  query statement := recordIn (.query statement) (backend.query statement)
  begin := recordIn .begin backend.begin
  commit := recordIn .commit backend.commit
  rollback := recordIn .rollback backend.rollback

theorem recordIn_eq_ok {request : Request} {session : Session σ α} {s t : σ × List Event} {a : α} :
    recordIn request session s = .ok a t ↔
      session s.1 = .ok a t.1 ∧ t.2 = s.2 ++ [⟨request, true⟩] := by
  obtain ⟨s, before⟩ := s
  obtain ⟨t, after⟩ := t
  simp only [recordIn]
  cases session s <;> simp [and_assoc, eq_comm]

theorem recordIn_eq_error {request : Request} {session : Session σ α} {s t : σ × List Event}
    {e : SchemaError} : recordIn request session s = .error e t ↔
      session s.1 = .error e t.1 ∧ t.2 = s.2 ++ [⟨request, false⟩] := by
  obtain ⟨s, before⟩ := s
  obtain ⟨t, after⟩ := t
  simp only [recordIn]
  cases session s <;> simp [and_assoc, eq_comm]

/-- A request that is recorded is logged with its answer. -/
theorem isLogged_recordIn (request : Request) (session : Session σ α) :
    (recordIn request session).IsLogged Prod.snd request where
  ok _ _ _ h := (recordIn_eq_ok.mp h).2
  error _ _ _ h := (recordIn_eq_error.mp h).2

/-- A backend that records its requests has them in its log. -/
theorem logging_logs (backend : Backend σ) : backend.logging.Logs Prod.snd where
  execute _ := isLogged_recordIn _ _
  query _ := isLogged_recordIn _ _
  begin := isLogged_recordIn _ _
  commit := isLogged_recordIn _ _
  rollback := isLogged_recordIn _ _

/-- A log does not change what a database does. -/
theorem Reliable.logging {κ : Type} {effect : Statement → κ → Option κ} {view : σ → View κ}
    (h : backend.Reliable effect view) :
    backend.logging.Reliable effect (fun s => view s.1) where
  change _ _ _ _ hchange hok := h.change _ _ _ _ hchange (recordIn_eq_ok.mp hok).1
  enter _ _ _ _ _ _ hok := h.enter _ _ _ _ _ _ (recordIn_eq_ok.mp hok).1
  strike _ _ hname _ _ _ hok := h.strike _ _ hname _ _ _ (recordIn_eq_ok.mp hok).1
  entries _ _ _ _ hok := h.entries _ _ _ _ (recordIn_eq_ok.mp hok).1
  queryRefused _ _ _ _ herror := h.queryRefused _ _ _ _ (recordIn_eq_error.mp herror).1
  refused _ _ _ _ hopen herror := h.refused _ _ _ _ hopen (recordIn_eq_error.mp herror).1
  begin _ _ hclosed hok := h.begin _ _ hclosed (recordIn_eq_ok.mp hok).1
  beginRefused _ _ _ hclosed herror := h.beginRefused _ _ _ hclosed (recordIn_eq_error.mp herror).1
  commit _ _ hopen hok := h.commit _ _ hopen (recordIn_eq_ok.mp hok).1
  commitRefused _ _ _ _ _ hsaved herror :=
    h.commitRefused _ _ _ _ _ hsaved (recordIn_eq_error.mp herror).1
  rollback _ _ _ _ hsaved hok := h.rollback _ _ _ _ hsaved (recordIn_eq_ok.mp hok).1
  rollbackRefused _ _ _ _ _ hsaved herror :=
    h.rollbackRefused _ _ _ _ _ hsaved (recordIn_eq_error.mp herror).1

end Backend

end SchemaHistory
