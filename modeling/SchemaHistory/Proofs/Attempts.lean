import SchemaHistory.Proofs.MigratorRequests

/-!
# What work comes to

A database may refuse any statement, so the work of a migration may end at any of them. What it asks
for up to there does not depend on the database. `Migration.attempt` is what some work asks the
recorder to carry out, and how it ends there, be it with an error.

`Tried` compares it with a run on another database: either all statements were carried out and the
end is the same, or one was refused and those before it are a part of the attempt from its front.
Scripted work is tried in this sense on every backend that keeps a log (`tried_of_scripted`), and
where the log shows no refusal it is carried out as attempted (`carried_of_scripted`).
-/

namespace SchemaHistory

def carriedOut (script : List Statement) : List Event :=
  script.map fun statement => ⟨.execute statement, true⟩

/-- A script was carried out or, where a statement of it was refused, what comes before that one. -/
inductive Tried {σ : Type} (log : σ → List Event) (script : List Statement) (s t : σ) : Prop where
  | whole : log t = log s ++ carriedOut script → Tried log script s t
  | upTo (done : List Statement) (refused : Statement) (rest : List Statement) :
      script = done ++ refused :: rest →
      log t = log s ++ carriedOut done ++ [⟨.execute refused, false⟩] → Tried log script s t

namespace Migration

/-- What some work asks the recorder to carry out, and how it ends there. -/
def attempt (dialect : Dialect) (now : DateTime) (work : Backend Journal → Work Journal Unit) :
    List Statement × Except MigrationError Unit :=
  match work (Journal.backend dialect now) {} with
  | .ok () journal => (journal.statements.toList, .ok ())
  | .error e journal => (journal.statements.toList, .error e)

end Migration

section Scripted

variable {σ : Type} {backend : Backend σ} {log : σ → List Event} {s t : σ}
  {work : ∀ σ, Backend σ → Work σ Unit}

/-- Work that is scripted plays what the recorder records of it. -/
theorem plays_attempt
    (hwork : Scripted backend.dialect backend.now MigrationError.schema work) :
    (∀ statement ∈ (Migration.attempt backend.dialect backend.now (work Journal)).1,
      statement.IsChange) ∧
    backend.Plays MigrationError.schema
      (Migration.attempt backend.dialect backend.now (work Journal)).1
      (Migration.attempt backend.dialect backend.now (work Journal)).2 (work σ backend) := by
  obtain ⟨script, answer, hchange, hplays⟩ := hwork
  have hattempt : Migration.attempt backend.dialect backend.now (work Journal)
      = (script, answer) := by
    obtain ⟨journal, heq, hstatements⟩ :=
      Migration.exists_played (hplays Journal (Journal.backend backend.dialect backend.now))
    unfold Migration.attempt
    rw [show work Journal (Journal.backend backend.dialect backend.now) {} = _ from heq]
    cases answer <;> exact congrArg (·, _) hstatements
  rw [hattempt]
  exact ⟨hchange, hplays σ backend⟩

namespace Backend.Logs

variable (hlogs : backend.Logs log)

include hlogs

/-- Statements that stop at a refused one have been asked for up to that one. -/
theorem tried_of_stops {script : List Statement} {e : SchemaError}
    (hstops : backend.Stops script s e t) : Tried log script s t := by
  induction hstops with
  | @here refused rest s t e hexecute =>
      have hlog := (hlogs.execute refused).error _ _ _ hexecute
      exact .upTo [] refused rest rfl (by simpa [carriedOut] using hlog)
  | @later statement rest s t u e count hexecute _ ih =>
      have hlog := (hlogs.execute statement).ok _ _ _ hexecute
      rcases ih with hrest | ⟨done, refused, rest', rfl, hrest⟩
      · exact .whole (by simp [hrest, hlog, carriedOut])
      · exact .upTo (statement :: done) refused rest' rfl (by simp [hrest, hlog, carriedOut])

/-- However scripted work ends, it has tried what the recorder records of it. -/
theorem tried_of_scripted
    (hwork : Scripted backend.dialect backend.now MigrationError.schema work)
    {answer : Except MigrationError Unit} (h : work σ backend s = Backend.answered answer t) :
    Tried log (Migration.attempt backend.dialect backend.now (work Journal)).1 s t := by
  rcases (plays_attempt hwork).2 s with ⟨u, hruns, heq⟩ | ⟨e, u, hstops, heq⟩
  · obtain rfl : t = u := by
      have hsame := h.symm.trans heq
      revert hsame
      cases answer <;> cases (Migration.attempt backend.dialect backend.now (work Journal)).2 <;>
        intro hsame <;> cases hsame <;> rfl
    exact .whole (hlogs.of_runs hruns)
  · obtain rfl : t = u := by
      have hsame := h.symm.trans heq
      cases answer <;> cases hsame
      rfl
    exact hlogs.tried_of_stops hstops

/-- If it succeeds, all of it has been carried out. -/
theorem carried_of_scripted
    (hwork : Scripted backend.dialect backend.now MigrationError.schema work)
    (h : work σ backend s = .ok () t) :
    (Migration.attempt backend.dialect backend.now (work Journal)).2 = .ok () ∧
      log t = log s
        ++ carriedOut (Migration.attempt backend.dialect backend.now (work Journal)).1 := by
  rcases (plays_attempt hwork).2 s with ⟨u, hruns, heq⟩ | ⟨e, u, -, heq⟩
  · have hsame := h.symm.trans heq
    revert hsame
    cases (Migration.attempt backend.dialect backend.now (work Journal)).2 with
    | error e => nofun
    | ok a =>
        intro hsame
        cases hsame
        exact ⟨rfl, hlogs.of_runs hruns⟩
  · exact absurd (h.symm.trans heq) nofun

end Backend.Logs

end Scripted

end SchemaHistory
