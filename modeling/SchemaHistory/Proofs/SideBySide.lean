import SchemaHistory.Proofs.Clocks
import SchemaHistory.Proofs.DryRunAgreement

/-!
# Two runs side by side

Two actions go side by side (`SideBySide`) if they ask for requests that are alike and both succeed
or both fail for one reason. This is closed under the ways in which actions are put together
(`bind`, `Run.sideBySide_attempt`), and on the left something that only reads may come in between
(`bind_left`).

A call that is made again, or in two parts, looks at the ledger more often than one that does all at
once. So what is compared are the requests that change something, while queries on either side are
left out.
-/

namespace SchemaHistory

/-- How two actions have ended: both with answers, or both with one error. -/
def Outcome {ε ρ α β : Type} (failed : ρ → ρ → Prop) (post : α → β → ρ → ρ → Prop) :
    Except ε α → Except ε β → ρ → ρ → Prop
  | .ok a, .ok b, t, t' => post a b t t'
  | .error e, .error e', t, t' => e = e' ∧ failed t t'
  | _, _, _, _ => False

/-- What holds of two actions, each from a state on, provided that nothing is refused in either:
they ask for requests that are alike, and end alike. -/
def SideBySide {ε ρ α β : Type} (log : ρ → List Event) (clocks : DateTime → DateTime → Prop)
    (action : EStateM ε ρ α) (action' : EStateM ε ρ β) (s s' : ρ) (failed : ρ → ρ → Prop)
    (post : α → β → ρ → ρ → Prop) : Prop :=
  Granting log action s fun answer requests t =>
    Granting log action' s' fun answer' requests' t' =>
      List.Forall₂ (Request.Alike clocks) requests requests' ∧
        Outcome failed post answer answer' t t'

section Rules

variable {ε ε' ρ α β γ δ : Type} {failed failed' : ρ → ρ → Prop} {post post' : α → β → ρ → ρ → Prop}

theorem Outcome.mono {answer : Except ε α} {answer' : Except ε β} {t t' : ρ}
    (h : Outcome failed post answer answer' t t') (hfailed : failed t t' → failed' t t')
    (hpost : ∀ a b, post a b t t' → post' a b t t') :
    Outcome failed' post' answer answer' t t' := by
  cases answer <;> cases answer'
  · exact ⟨h.1, hfailed h.2⟩
  · exact h
  · exact h
  · exact hpost _ _ h

/-- Where the answers are the same and nothing else is expected of them, both have ended alike. -/
theorem Outcome.eq {answer answer' : Except ε α} {t t' : ρ}
    (h : Outcome failed (fun a b t t' => a = b ∧ failed t t') answer answer' t t') :
    answer = answer' ∧ failed t t' := by
  cases answer <;> cases answer'
  · exact ⟨congrArg _ h.1, h.2⟩
  · exact h.elim
  · exact h.elim
  · exact ⟨congrArg _ h.1, h.2⟩

/-- Wrapping the errors of both keeps them alike. -/
theorem Outcome.mapError {answer : Except ε α} {answer' : Except ε β} {t t' : ρ}
    (h : Outcome failed post answer answer' t t') (wrap : ε → ε') :
    Outcome failed post (answer.mapError wrap) (answer'.mapError wrap) t t' := by
  cases answer <;> cases answer'
  · exact ⟨congrArg wrap h.1, h.2⟩
  · exact h
  · exact h
  · exact h

variable {log : ρ → List Event} {clocks clocks' : DateTime → DateTime → Prop} {s s' t t' : ρ}
  {action : EStateM ε ρ α} {action' : EStateM ε ρ β}

namespace SideBySide

/-- What two runs promise of each other may be said more loosely. -/
theorem mono (h : SideBySide log clocks action action' s s' failed post)
    (hclocks : ∀ a b, clocks a b → clocks' a b) (hfailed : ∀ t t', failed t t' → failed' t t')
    (hpost : ∀ a b t t', post a b t t' → post' a b t t') :
    SideBySide log clocks' action action' s s' failed' post' :=
  Granting.mono h fun _ _ _ hleft => hleft.mono fun _ _ _ hboth =>
    ⟨hboth.1.imp fun _ _ => Request.Alike.mono hclocks,
      hboth.2.mono (hfailed _ _) fun a b => hpost a b _ _⟩

theorem imp (h : SideBySide log clocks action action' s s' failed post)
    (hpost : ∀ a b t t', post a b t t' → post' a b t t') :
    SideBySide log clocks action action' s s' failed post' :=
  h.mono (fun _ _ => id) (fun _ _ => id) hpost

/-- How the action on the left has ended. -/
theorem and_left (h : SideBySide log clocks action action' s s' failed post) :
    SideBySide log clocks action action' s s' failed fun a b t t' =>
      action s = .ok a t ∧ post a b t t' := by
  intro answer t hrun hgranted
  refine Granting.mono (h answer t hrun hgranted) fun answer' _ t' hboth => ⟨hboth.1, ?_⟩
  obtain ⟨-, hend⟩ := hboth
  cases answer <;> cases answer'
  · exact hend
  · exact hend
  · exact hend
  · exact ⟨hrun, hend⟩

theorem pure {a : α} {b : β} (h : post a b s s') :
    SideBySide log clocks (Pure.pure a : EStateM ε ρ α) (Pure.pure b) s s' failed post :=
  Granting.pure (Granting.pure ⟨.nil, h⟩)

theorem throw (e : ε) (h : failed s s') :
    SideBySide log clocks (MonadExcept.throw e : EStateM ε ρ α)
      (MonadExcept.throw e : EStateM ε ρ β) s s' failed post :=
  Granting.throw (Granting.throw ⟨.nil, rfl, h⟩)

theorem adapt {wrap : ε → ε'} (h : SideBySide log clocks action action' s s' failed post) :
    SideBySide log clocks (action.adaptExcept wrap) (action'.adaptExcept wrap) s s' failed post :=
  Granting.adapt (Granting.mono h fun _ _ _ hleft =>
    .adapt (hleft.mono fun _ _ _ hboth => ⟨hboth.1, hboth.2.mapError wrap⟩))

/-- One after the other, both go on with what they have found. -/
theorem bind {next : α → EStateM ε ρ γ} {next' : β → EStateM ε ρ δ} {post : γ → δ → ρ → ρ → Prop}
    (hasks : Asks log (fun _ => True) action) (hasks' : Asks log (fun _ => True) action')
    (hnext : ∀ a, Asks log (fun _ => True) (next a))
    (hnext' : ∀ b, Asks log (fun _ => True) (next' b))
    (h : SideBySide log clocks action action' s s' failed fun a b t t' =>
      SideBySide log clocks (next a) (next' b) t t' failed post) :
    SideBySide log clocks (action >>= next) (action' >>= next') s s' failed post := by
  refine Granting.bind hasks hnext (Granting.mono h fun answer requests t hleft => ?_)
  cases answer with
  | ok a =>
      intro answer u hrun hgranted
      refine Granting.bind hasks' hnext' (hleft.mono fun answer' requests' t' hboth => ?_)
      obtain ⟨halike, hthen⟩ := hboth
      cases answer' with
      | ok b =>
          refine (hthen answer u hrun hgranted).mono fun _ _ _ hrest => ?_
          exact ⟨List.rel_append halike hrest.1, hrest.2⟩
      | error e => exact hthen.elim
  | error e =>
      refine Granting.bind hasks' hnext' (hleft.mono fun answer' requests' t' hboth => ?_)
      cases answer' with
      | ok b => exact hboth.2.elim
      | error e' => exact hboth

/-- Before the action on the left something is done that asks for nothing but rows. -/
theorem bind_left {look : EStateM ε ρ γ} {next : γ → EStateM ε ρ α}
    (hasks : Asks log (fun _ => True) look) (hnext : ∀ c, Asks log (fun _ => True) (next c))
    (h : Granting log look s fun answer requests t => requests = [] ∧ match answer with
      | .ok c => SideBySide log clocks (next c) action' t s' failed post
      | .error _ => False) :
    SideBySide log clocks (look >>= next) action' s s' failed post := by
  refine Granting.bind hasks hnext (h.mono fun answer requests t hlooked => ?_)
  obtain ⟨rfl, hthen⟩ := hlooked
  cases answer with
  | ok c => exact hthen
  | error e => exact hthen.elim

/-- The actions do what is known of each. -/
theorem of_granting {first : Except ε α → List Request → ρ → Prop}
    {second : Except ε β → List Request → ρ → Prop} (h : Granting log action s first)
    (h' : Granting log action' s' second)
    (himp : ∀ answer requests t answer' requests' t', first answer requests t →
      second answer' requests' t' → List.Forall₂ (Request.Alike clocks) requests requests' ∧
        Outcome failed post answer answer' t t') :
    SideBySide log clocks action action' s s' failed post :=
  h.mono fun _ _ _ hfirst => h'.mono fun _ _ _ hsecond => himp _ _ _ _ _ _ hfirst hsecond

/-- What holds of an action beside itself. -/
theorem granting_self {post : α → α → ρ → ρ → Prop}
    (h : SideBySide log clocks action action s s failed post) :
    Granting log action s fun answer _ t => Outcome failed post answer answer t t :=
  fun answer t hrun hgranted => (h answer t hrun hgranted answer t hrun hgranted).2

end SideBySide

end Rules

/-! ### Runs -/

/-- Both works are brought to their ends, whether they fail or not, and what follows goes on from
there. -/
theorem Work.sideBySide_attempt {σ α β γ δ : Type} {log : σ → List Event}
    {clocks : DateTime → DateTime → Prop} {s s' : σ} {work : Work σ α} {work' : Work σ β}
    {next : Except MigrationError α → Work σ γ} {next' : Except MigrationError β → Work σ δ}
    {failed : σ → σ → Prop} {post : γ → δ → σ → σ → Prop} (hasks : Asks log (fun _ => True) work)
    (hasks' : Asks log (fun _ => True) work')
    (hnext : ∀ answer, Asks log (fun _ => True) (next answer))
    (hnext' : ∀ answer, Asks log (fun _ => True) (next' answer))
    (h : SideBySide log clocks work work' s s'
      (fun t t' => ∀ e, SideBySide log clocks (next (.error e)) (next' (.error e)) t t' failed post)
      fun a b t t' => SideBySide log clocks (next (.ok a)) (next' (.ok b)) t t' failed post) :
    SideBySide log clocks (attempt work >>= next) (attempt work' >>= next') s s' failed post := by
  have hboth : SideBySide log clocks (attempt work) (attempt work') s s' failed _ :=
    granting_attempt (Granting.mono h fun _ _ _ hleft => granting_attempt hleft)
  refine .bind (asks_attempt hasks) (asks_attempt hasks') hnext hnext' (hboth.imp ?_)
  intro answer answer' t t' hend
  cases answer <;> cases answer'
  · obtain ⟨rfl, hfailed⟩ := hend
    exact hfailed _
  · exact hend.elim
  · exact hend.elim
  · exact hend

namespace Run

variable {σ α β γ δ : Type} {log : σ → List Event} {clocks : DateTime → DateTime → Prop}
  {τ τ' : Transcript σ}

/-- Two runs on the database are side by side where their work is. -/
theorem sideBySide_onDatabase {work : Work σ α} {work' : Work σ β} {failed : σ → σ → Prop}
    {post : α → β → σ → σ → Prop}
    (h : SideBySide log clocks work work' τ.database τ'.database failed post) :
    SideBySide (logOf log) clocks (onDatabase work) (onDatabase work') τ τ'
      (fun τ₁ τ₁' => failed τ₁.database τ₁'.database)
      fun a b τ₁ τ₁' => post a b τ₁.database τ₁'.database := by
  refine granting_onDatabase (Granting.mono h fun answer _ _ hleft => granting_onDatabase
    (hleft.mono fun answer' _ _ hboth => ⟨hboth.1, ?_⟩))
  cases answer <;> cases answer' <;> exact hboth.2

variable {run : Run σ α} {run' : Run σ β} {failed : Transcript σ → Transcript σ → Prop}
  {post : α → β → Transcript σ → Transcript σ → Prop}

/-- Both runs are brought to their ends, whether they fail or not, and what follows goes on from
there. -/
theorem sideBySide_attempt {next : Except MigrationError α → Run σ γ}
    {next' : Except MigrationError β → Run σ δ} {post : γ → δ → Transcript σ → Transcript σ → Prop}
    (hasks : Asks (logOf log) (fun _ => True) run) (hasks' : Asks (logOf log) (fun _ => True) run')
    (hnext : ∀ answer, Asks (logOf log) (fun _ => True) (next answer))
    (hnext' : ∀ answer, Asks (logOf log) (fun _ => True) (next' answer))
    (h : SideBySide (logOf log) clocks run run' τ τ'
      (fun τ₁ τ₁' => ∀ e,
        SideBySide (logOf log) clocks (next (.error e)) (next' (.error e)) τ₁ τ₁' failed post)
      fun a b τ₁ τ₁' =>
        SideBySide (logOf log) clocks (next (.ok a)) (next' (.ok b)) τ₁ τ₁' failed post) :
    SideBySide (logOf log) clocks (run.attempt >>= next) (run'.attempt >>= next') τ τ' failed
      post := by
  have hboth : SideBySide (logOf log) clocks run.attempt run'.attempt τ τ' failed _ :=
    granting_attempt (Granting.mono h fun _ _ _ hleft => granting_attempt hleft)
  refine .bind (asks_attempt hasks) (asks_attempt hasks') hnext hnext' (hboth.imp ?_)
  intro answer answer' τ₁ τ₁' hend
  cases answer <;> cases answer'
  · obtain ⟨rfl, hfailed⟩ := hend
    exact hfailed _
  · exact hend.elim
  · exact hend.elim
  · exact hend

/-- On the left something succeeds that leaves the database alone. -/
theorem sideBySide_left {next : γ → Run σ α} {first : Run σ γ} {c : γ} {lines : Array Line}
    (hfirst : first τ = .ok c { τ with lines })
    (h : SideBySide (logOf log) clocks (next c) run' { τ with lines } τ' failed post) :
    SideBySide (logOf log) clocks (first >>= next) run' τ τ' failed post :=
  granting_bind_of_ok hfirst h

/-- On the right something succeeds that leaves the database alone. -/
theorem sideBySide_right {next : γ → Run σ β} {first : Run σ γ} {c : γ} {lines : Array Line}
    (hfirst : first τ' = .ok c { τ' with lines })
    (h : SideBySide (logOf log) clocks run (next c) τ { τ' with lines } failed post) :
    SideBySide (logOf log) clocks run (first >>= next) τ τ' failed post :=
  Granting.mono h fun _ _ _ hleft => granting_bind_of_ok hfirst hleft

/-- On either side something succeeds that leaves the database alone. -/
theorem sideBySide_of_ok {a : α} {b : β} {lines lines' : Array Line}
    (hrun : run τ = .ok a { τ with lines }) (hrun' : run' τ' = .ok b { τ' with lines := lines' })
    (h : post a b { τ with lines } { τ' with lines := lines' }) :
    SideBySide (logOf log) clocks run run' τ τ' failed post := by
  have hboth : SideBySide (logOf log) clocks (run >>= pure) (run' >>= pure) τ τ' failed post :=
    sideBySide_left hrun (sideBySide_right hrun' (.pure h))
  rwa [bind_pure, bind_pure] at hboth

/-- What is written to the console makes no difference. -/
theorem sideBySide_emit {line line' : Line} {next : Unit → Run σ α} {next' : Unit → Run σ β}
    (h : SideBySide (logOf log) clocks (next ()) (next' ())
      { τ with lines := τ.lines.push line } { τ' with lines := τ'.lines.push line' } failed post) :
    SideBySide (logOf log) clocks (emit line >>= next) (emit line' >>= next') τ τ' failed post := by
  refine granting_emit_bind (Granting.mono h fun _ _ _ hleft => granting_emit_bind hleft)

theorem sideBySide_message {line line' : Line}
    {post : Unit → Unit → Transcript σ → Transcript σ → Prop}
    (h : post () () { τ with lines := τ.lines.push line }
      { τ' with lines := τ'.lines.push line' }) :
    SideBySide (logOf log) clocks (emit line) (emit line') τ τ' failed post := by
  have hboth : SideBySide (logOf log) clocks (emit line >>= pure) (emit line' >>= pure) τ τ' failed
      post := sideBySide_emit (.pure h)
  exact hboth

/-- A result that both know is gone on from in both, or ends both. -/
theorem sideBySide_ofExcept {result : Except MigrationError γ} {next : γ → Run σ α}
    {next' : γ → Run σ β} (herror : failed τ τ')
    (hok : ∀ c, result = .ok c →
      SideBySide (logOf log) clocks (next c) (next' c) τ τ' failed post) :
    SideBySide (logOf log) clocks (ofExcept result >>= next) (ofExcept result >>= next') τ τ' failed
      post := by
  cases result with
  | ok c => exact hok c rfl
  | error e => exact .throw e herror

/-- What holds of two runs, each to its end. -/
theorem sideBySide_finish (h : SideBySide (logOf log) clocks run run' τ τ' failed post)
    (hgranted : Granted log τ.database (Migrator.finish run τ).database)
    (hgranted' : Granted log τ'.database (Migrator.finish run' τ').database) :
    List.Forall₂ (Request.Alike clocks)
        (changesBetween log τ.database (Migrator.finish run τ).database)
        (changesBetween log τ'.database (Migrator.finish run' τ').database) ∧
      Outcome failed post (run.answerOf τ) (run'.answerOf τ') (Migrator.finish run τ)
        (Migrator.finish run' τ') :=
  Granting.run (Granting.run h hgranted) hgranted'

end Run

end SchemaHistory
