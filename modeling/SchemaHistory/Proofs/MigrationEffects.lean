import SchemaHistory.Proofs.MigratorRuns
import SchemaHistory.Proofs.RoundTrip

/-!
# Migrations there and back

The script of a migration makes of a catalog that holds the state before it one that holds the state
after it, and the reverse script takes the way back. Scripts are lists of statements, so what they
do can be told from a database that has nothing but the catalog, whatever database has carried them
out.
-/

namespace SchemaHistory

variable {dialect : Dialect} {now : DateTime} {script : List Statement} {db db' : Catalog}

/-! ### Scripts on contents -/

/-- A backend whose state is changed by a statement as an effect says. It refuses what the effect
does not allow, and nothing else. -/
structure Backend.Obeys {κ : Type} (backend : Backend κ)
    (effect : Statement → κ → Option κ) : Prop where
  ok : ∀ statement c count d, backend.execute statement c = .ok count d →
    effect statement c = some d
  error : ∀ statement c e d, backend.execute statement c = .error e d → effect statement c = none

namespace Backend.Obeys

variable {κ : Type} {backend : Backend κ} {effect : Statement → κ → Option κ} {c d : κ}

/-- A script that runs has its effect on what the backend holds. -/
theorem effects_of_runs (h : backend.Obeys effect) (hruns : backend.Runs script c d) :
    Reliable.effects effect script c = some d := by
  induction hruns with
  | nil => rfl
  | cons count hexecute _ ih =>
      rw [Reliable.effects, List.foldlM_cons, h.ok _ _ _ _ hexecute]
      exact ih

theorem effects_of_stops (h : backend.Obeys effect) {e : SchemaError}
    (hstops : backend.Stops script c e d) : Reliable.effects effect script c = none := by
  induction hstops with
  | here hexecute =>
      rw [Reliable.effects, List.foldlM_cons, h.error _ _ _ _ hexecute]
      rfl
  | later count hexecute _ ih =>
      rw [Reliable.effects, List.foldlM_cons, h.ok _ _ _ _ hexecute]
      exact ih

end Backend.Obeys

theorem Catalog.obeys_backend (dialect : Dialect) (now : DateTime) :
    (Catalog.backend dialect now).Obeys fun statement db => db.execute statement where
  ok := Catalog.carries_backend dialect now
  error statement db e db' hexecute := by
    unfold Catalog.backend at hexecute
    simp only at hexecute
    split at hexecute
    · cases hexecute
    · next hnone => exact hnone

/-- Where an effect allows all statements that the recorder records of some work, the work succeeds
on contents that obey the effect. -/
theorem Scripted.ok_of_recording {κ : Type} {backend : Backend κ}
    {effect : Statement → κ → Option κ}
    {c d : κ} {work : ∀ σ, Backend σ → Work σ Unit} (hobeys : backend.Obeys effect)
    (hwork : Scripted backend.dialect backend.now MigrationError.schema work)
    (hrecording : Migration.recording backend.dialect backend.now (work Journal) = .ok script)
    (heffects : Backend.Reliable.effects effect script c = some d) :
    work κ backend c = .ok () d := by
  -- the recorder refuses nothing, so what it records is the whole script
  obtain ⟨played, answer, -, hplays⟩ := hwork
  have hrecorded : answer = .ok () ∧ played = script := by
    obtain ⟨journal, haction, hstatements⟩ :=
      Migration.exists_played (hplays Journal (Journal.backend backend.dialect backend.now))
    have hanswer : work Journal (Journal.backend backend.dialect backend.now) {}
        = Backend.answered answer journal := haction
    unfold Migration.recording at hrecording
    rw [hanswer] at hrecording
    cases answer with
    | error e => cases hrecording
    | ok a =>
        cases hrecording
        exact ⟨rfl, hstatements.symm⟩
  obtain ⟨rfl, rfl⟩ := hrecorded
  rcases hplays κ backend c with ⟨t, hruns, haction⟩ | ⟨e, t, hstops, -⟩
  · have hdone := hobeys.effects_of_runs hruns
    rw [heffects] at hdone
    cases hdone
    exact haction
  · rw [hobeys.effects_of_stops hstops] at heffects
    cases heffects

namespace Migration

open Operation

variable {s t u : AppSchema} {migration : Migration} {steps : Steps} {statements : List Statement}

/-! ### Along a path -/

/-- Along a path the tables follow the state, operation by operation. -/
theorem forwardAll_held (hpath : AppSchema.Path s steps u) (hs : s.Sound)
    (hmap : ∀ operation ∈ steps.map (·.1), operation.FieldsDiffer) (hheld : s.HeldBy db)
    (h : forwardAll (Catalog.backend dialect now) steps db = .ok () db') : u.HeldBy db' := by
  induction hpath generalizing db with
  | nil =>
      obtain rfl := forM_nil_eq_ok.mp h
      exact hheld
  | cons happly _ ih =>
      obtain ⟨between, hforward, h⟩ := forM_cons_eq_ok.mp h
      obtain ⟨hoperation, hrest⟩ := List.forall_mem_cons.mp hmap
      have hstep := applies_of_ok hs happly
      have hsound := hstep.sound hs hoperation
      have hbetween :=
        forward_held Catalog.likeness_perm (Catalog.carries_backend dialect now) hs hstep
        hsound hheld hforward
      exact ih hsound hrest hbetween.1 h

/-- Back along it they follow it, too. -/
theorem backwardAll_held (hpath : AppSchema.Path s steps u) (hs : s.Sound)
    (hmap : ∀ operation ∈ steps.map (·.1), operation.FieldsDiffer) (hheld : u.HeldBy db)
    (h : backwardAll (Catalog.backend dialect now) steps db = .ok () db') : s.HeldBy db' := by
  induction hpath generalizing db' with
  | nil =>
      obtain rfl := forM_nil_eq_ok.mp h
      exact hheld
  | cons happly _ ih =>
      -- the first step is undone last, from what undoing the others has left
      unfold backwardAll at h
      rw [List.reverse_cons] at h
      obtain ⟨between, hlater, hfirst⟩ := forM_append_eq_ok.mp h
      obtain ⟨hoperation, hrest⟩ := List.forall_mem_cons.mp hmap
      have hstep := applies_of_ok hs happly
      have hsound := hstep.sound hs hoperation
      obtain ⟨last, hbackward, hnil⟩ := forM_cons_eq_ok.mp hfirst
      obtain rfl := forM_nil_eq_ok.mp hnil
      exact (backward_held (Catalog.carries_backend dialect now) hs hstep hsound
        (ih hsound hrest hheld hlater) hbackward).1

/-! ### A whole migration -/

theorem held_recorded : (s.recorded migration).HeldBy db ↔ s.HeldBy db :=
  ⟨fun h => ⟨⟨h.separate.apart, h.separate.columns⟩, h.like⟩,
    fun h => ⟨⟨h.separate.apart, h.separate.columns⟩, h.like⟩⟩

/-- The script is recorded along the path of the migration. -/
theorem recording_of_script {reverse : Bool}
    (hpath : AppSchema.Path s steps u) (hmap : steps.map (·.1) = migration.operations)
    (hscript : migration.script dialect now s reverse = .ok statements) :
    recording dialect now (fun backend =>
      if reverse then backwardAll backend steps else forwardAll backend steps)
        = .ok statements := by
  obtain ⟨taken, hsteps, hrecording⟩ := Except.bind_eq_ok.mp hscript
  have htaken : taken = steps.map (·.2) := by
    have h := AppSchema.stepsOf_of_path hpath
    rw [hmap] at h
    exact Except.ok.inj (hsteps.symm.trans h)
  have hzip : migration.withSteps taken = steps := (List.zip_of_prod hmap htaken.symm).symm
  rw [hzip] at hrecording
  exact hrecording

/-- Executing the script of a migration takes tables that hold a state to tables that hold the
next. -/
theorem forward_held_of_script (hs : s.Sound) (hfields : migration.FieldsDiffer)
    (happ : migration.app = s.app) (hheld : s.HeldBy db)
    (hscript : migration.script dialect now s false = .ok statements)
    (hexec : db.executeAll statements = some db') :
    ∃ next, s.next migration = .ok next ∧ next.HeldBy db' := by
  obtain ⟨taken, hsteps, -⟩ := Except.bind_eq_ok.mp hscript
  obtain ⟨u, hpath, hmap⟩ := AppSchema.path_of_stepsOf hsteps
  have hrecording := recording_of_script hpath hmap hscript
  have hforward := (Scripted.forwardAll _).ok_of_recording (Catalog.obeys_backend dialect now)
    hrecording hexec
  have hmaps :
      ∀ operation ∈ (migration.operations.zip taken).map (·.1), operation.FieldsDiffer := by
    rw [hmap]
    exact hfields
  exact ⟨_, AppSchema.next_of_path happ hpath hmap,
    held_recorded.mpr (forwardAll_held hpath hs hmaps hheld hforward)⟩

/-- Executing the script of undoing it takes them back. -/
theorem backward_held_of_script (hs : s.Sound) (hfields : migration.FieldsDiffer)
    (hnext : s.next migration = .ok t) (hheld : t.HeldBy db)
    (hscript : migration.script dialect now s true = .ok statements)
    (hexec : db.executeAll statements = some db') : s.HeldBy db' := by
  obtain ⟨-, steps, u, hpath, hmap, rfl⟩ := AppSchema.next_eq_ok.mp hnext
  have hrecording := recording_of_script hpath hmap hscript
  have hbackward := (Scripted.backwardAll _).ok_of_recording
    (Catalog.obeys_backend dialect now) hrecording hexec
  have hmaps : ∀ operation ∈ steps.map (·.1), operation.FieldsDiffer := by
    rw [hmap]
    exact hfields
  exact backwardAll_held hpath hs hmaps (held_recorded.mp hheld) hbackward

end Migration

end SchemaHistory
