import SchemaHistory.Proofs.MigratorRequests

/-!
# Calls in parts

To work through a list of migrations is to work through its first part, and then through the rest
from the state that the first part leads to. If the first part is recorded already, applying it only
writes messages. The migrations above a lower target are those above a higher one and some before
them.
-/

namespace SchemaHistory

/-- What follows an action only matters where the action succeeds. -/
theorem bind_congr_of_ok {ε ρ α β : Type} {x : EStateM ε ρ α} {f g : α → EStateM ε ρ β} {s : ρ}
    (h : ∀ a t, x s = .ok a t → f a t = g a t) : (x >>= f) s = (x >>= g) s := by
  show EStateM.bind x f s = EStateM.bind x g s
  unfold EStateM.bind
  cases hx : x s with
  | ok a t => exact h a t hx
  | error e t => rfl

/-- What a longer condition takes is what a shorter one takes, and then some. -/
theorem takeWhile_eq_append {α : Type} {p q : α → Bool} (himp : ∀ x, p x = true → q x = true)
    (xs : List α) : xs.takeWhile q = xs.takeWhile p ++ (xs.dropWhile p).takeWhile q := by
  have hfirst : ∀ x ∈ xs.takeWhile p, q x = true := fun x hx => himp x (by
    simpa using List.all_eq_true.mp List.all_takeWhile x hx)
  rw [← List.takeWhile_append_of_pos hfirst, List.takeWhile_append_dropWhile]

namespace Migrator

variable {σ : Type} {migrator : Migrator σ} {state next final : AppSchema} {migration : Migration}
  {recorded done : List String} {first second rest : List Migration} {τ τ' : Transcript σ}

/-! ### Applying -/

/-- A list is applied in two parts, the second from the state that the first leads to. -/
theorem applyAll_append : migrator.applyAll recorded state done (first ++ second) = (do
    let names ← migrator.applyAll recorded state done first
    let final ← Run.ofExcept (first.foldlM AppSchema.next state)
    migrator.applyAll recorded final names second) := by
  induction first generalizing state done with
  | nil => rfl
  | cons migration rest ih =>
      funext τ
      rw [List.cons_append, applyAll, applyAll, List.foldlM_cons]
      by_cases hrecorded : recorded.contains migration.name = true
      · rw [if_pos hrecorded, if_pos hrecorded, bind_assoc]
        refine bind_congr_of_ok fun _ τ₁ _ => ?_
        rw [bind_assoc]
        refine bind_congr_of_ok fun next τ₂ hanswer => ?_
        rw [ih, (Run.ofExcept_eq_ok.mp hanswer).1]
        rfl
      · rw [if_neg hrecorded, if_neg hrecorded, bind_assoc]
        refine bind_congr_of_ok fun _ τ₁ _ => ?_
        rw [bind_assoc]
        refine bind_congr_of_ok fun next τ₂ hperform => ?_
        rw [ih, next_of_perform (adaptExcept_eq_ok.mp hperform)]
        rfl

/-- What is recorded is skipped. -/
theorem applyAll_of_recorded
    (hrecorded : ∀ migration ∈ rest, recorded.contains migration.name = true)
    (hfinal : rest.foldlM AppSchema.next state = .ok final) (τ : Transcript σ) :
    ∃ lines, migrator.applyAll recorded state done rest τ = .ok done { τ with lines } := by
  induction rest generalizing state τ with
  | nil => exact ⟨τ.lines, rfl⟩
  | cons migration rest ih =>
      obtain ⟨hhere, hrest⟩ := List.forall_mem_cons.mp hrecorded
      rw [List.foldlM_cons] at hfinal
      obtain ⟨next, hnext, hfinal⟩ := Except.bind_eq_ok.mp hfinal
      rw [applyAll, if_pos hhere, hnext]
      exact ih hrest hfinal _

def concluded (app : String) (names : List String) : Run σ (List String) := do
  if names.isEmpty then Run.emit (.message .info "No migrations to apply" [("app", app)])
  return names

/-- The end of a call writes to the console and does nothing else. -/
theorem concluded_eq (app : String) (names : List String) (τ : Transcript σ) :
    ∃ lines, concluded app names τ = .ok names { τ with lines } := by
  unfold concluded
  dsimp only
  split
  · exact ⟨_, rfl⟩
  · exact ⟨τ.lines, rfl⟩

theorem asks_concluded {log : σ → List Event} {P : Request → Prop} (app : String)
    (names : List String) : Asks (Run.logOf log) P (concluded app names : Run σ (List String)) := by
  unfold concluded
  dsimp only
  split
  · exact (Run.asks_emit _).bind fun _ => .pure names
  · exact .pure names

/-- Applies those migrations of a list that are not recorded. -/
def applyListed (migrator : Migrator σ) (app : String) (listed : List Migration) :
    Run σ (List String) := do
  let recorded ← migrator.entries app
  let applied ← migrator.applyAll (recorded.map (·.name)) { app } [] listed
  concluded app applied

/-- A call of applying works on the migrations within its target. -/
theorem applyWithin_eq (app : String) (target : Option String) (ordered : List Migration) :
    migrator.applyWithin app target ordered
      = migrator.applyListed app (ordered.takeWhile (isWithin (target.map numberOfTarget))) := rfl

/-! ### Undoing -/

section Undoing

variable {target low high : String} {undo : List (Migration × Migration.Steps)}

/-- The list of what to undo in a list that is put together. -/
theorem undoList_append (hok : undoList target state (first ++ second) = .ok undo) :
    ∃ earlier later between, undoList target state first = .ok earlier ∧
      undoList target between second = .ok later ∧ undo = earlier ++ later := by
  induction first generalizing state undo with
  | nil => exact ⟨[], undo, state, rfl, hok, rfl⟩
  | cons migration rest ih =>
      obtain ⟨steps, hsteps, hok⟩ := Except.bind_eq_ok.mp hok
      obtain ⟨next, hnext, hok⟩ := Except.bind_eq_ok.mp hok
      obtain ⟨found, hfound, hok⟩ := Except.bind_eq_ok.mp hok
      obtain ⟨earlier, later, between, hearlier, hlater, rfl⟩ := ih hfound
      cases hok
      refine ⟨_, later, between, Except.bind_eq_ok.mpr ⟨steps, hsteps, Except.bind_eq_ok.mpr
        ⟨next, hnext, Except.bind_eq_ok.mpr ⟨earlier, hearlier, rfl⟩⟩⟩, hlater, ?_⟩
      split
      · rfl
      · rfl

/-- What is above a higher target is some of what is above a lower one. -/
theorem undoList_filter (hle : low ≤ high) : undoList high state rest
    = (undoList low state rest).map (·.filter fun entry => high < entry.1.number) := by
  induction rest generalizing state with
  | nil => rfl
  | cons migration rest ih =>
      rw [undoList, undoList]
      generalize (state.steps migration).mapError _ = steps?
      cases steps? with
      | error e => rfl
      | ok steps =>
          generalize state.next migration = next?
          cases next? with
          | error e => rfl
          | ok next =>
              show (undoList high next rest >>= _) = Except.map _ (undoList low next rest >>= _)
              rw [ih]
              cases undoList low next rest with
              | error e => rfl
              | ok later =>
                  refine congrArg Except.ok ?_
                  dsimp only
                  by_cases habove : high < migration.number
                  · rw [if_pos habove, if_pos (lt_of_le_of_lt hle habove),
                      List.filter_cons_of_pos (by simpa using habove)]
                  · rw [if_neg habove]
                    split
                    · rw [List.filter_cons_of_neg (by simpa using habove)]
                    · rfl

/-- Where the numbers ascend, what is above a lower target is some that is not above the higher one,
and then all that is. -/
theorem undoList_split (hnumbered : ∀ migration ∈ rest, migration.Numbered)
    (hascending : rest.Pairwise (·.name < ·.name)) (hle : low ≤ high)
    (hok : undoList low state rest = .ok undo) :
    ∃ earlier, undoList low state (rest.filter (isWithin (some high))) = .ok earlier ∧
      undo = earlier ++ undo.filter (fun entry => high < entry.1.number) ∧
      (undo.filter fun entry => high < entry.1.number).map (·.1)
        = rest.filter fun migration => high < migration.number := by
  have hsplit : rest = rest.filter (isWithin (some high))
      ++ rest.filter fun migration => high < migration.number := by
    rw [← takeWhile_isWithin hnumbered hascending, ← dropWhile_isWithin hnumbered hascending,
      List.takeWhile_append_dropWhile]
  rw [hsplit] at hok
  obtain ⟨earlier, later, between, hearlier, hlater, rfl⟩ := undoList_append hok
  have hmap := map_undoList hearlier
  have hmap' := map_undoList hlater
  have hnone : earlier.filter (fun entry => high < entry.1.number) = [] := by
    rw [List.filter_eq_nil_iff]
    intro entry hmem
    have hin : entry.1 ∈ earlier.map (·.1) := List.mem_map_of_mem hmem
    rw [hmap] at hin
    have hwithin := (List.mem_filter.mp (List.mem_of_mem_filter hin)).2
    simpa [isWithin] using hwithin
  have hall : later.filter (fun entry => high < entry.1.number) = later := by
    rw [List.filter_eq_self]
    intro entry hmem
    have hin : entry.1 ∈ later.map (·.1) := List.mem_map_of_mem hmem
    rw [hmap'] at hin
    exact (List.mem_filter.mp (List.mem_of_mem_filter hin)).2
  refine ⟨earlier, hearlier, ?_, ?_⟩
  · rw [List.filter_append, hnone, hall, List.nil_append]
  · rw [List.filter_append, hnone, hall, List.nil_append, hmap', List.filter_eq_self]
    intro migration hmem
    have habove : high < migration.number := by simpa using (List.mem_filter.mp hmem).2
    simpa using lt_of_le_of_lt hle habove

/-- A list is undone in two parts. -/
theorem revertAll_append {later : List (Migration × Migration.Steps)} :
    migrator.revertAll (undo ++ later) = (do
      migrator.revertAll undo
      migrator.revertAll later) := by
  induction undo with
  | nil => rfl
  | cons entry rest ih =>
      rw [List.cons_append, revertAll, revertAll, ih, bind_assoc]

/-- Fails unless all rows of an app are those of its migrations. -/
def allKnown (app : String) (ordered : List Migration) (records : List LedgerEntry) :
    Except MigrationError Unit :=
  match records.find? fun record => !ordered.any (·.name == record.name) with
  | some unknown => .error (.notFound app unknown.name)
  | none => .ok ()

/-- All rows are those of known migrations exactly if nothing is refused. -/
theorem allKnown_eq_ok {app : String} {ordered : List Migration} {records : List LedgerEntry} :
    allKnown app ordered records = .ok () ↔
      ∀ record ∈ records, ordered.any (·.name == record.name) = true := by
  unfold allKnown
  cases hfind : records.find? fun record => !ordered.any (·.name == record.name) with
  | none =>
      rw [List.find?_eq_none] at hfind
      refine iff_of_true rfl fun record hmem => ?_
      simpa using hfind record hmem
  | some unknown =>
      refine iff_of_false (fun h => nomatch h) fun hall => ?_
      have hunknown := List.find?_some hfind
      rw [hall unknown (List.mem_of_find?_eq_some hfind)] at hunknown
      cases hunknown

def announced (app target : String) (undo : List (Migration × Migration.Steps)) : Run σ Unit :=
  if undo.isEmpty then
    Run.emit (.message .info "Nothing to roll back" [("app", app), ("target", target)])
  else pure ()

theorem announced_eq (app target : String) (undo : List (Migration × Migration.Steps))
    (τ : Transcript σ) : ∃ lines, announced app target undo τ = .ok () { τ with lines } := by
  unfold announced
  split
  · exact ⟨_, rfl⟩
  · exact ⟨τ.lines, rfl⟩

theorem asks_announced {log : σ → List Event} {P : Request → Prop} (app target : String)
    (undo : List (Migration × Migration.Steps)) :
    Asks (Run.logOf log) P (announced app target undo : Run σ Unit) := by
  unfold announced
  split
  · exact Run.asks_emit _
  · exact .pure ()

def rollbackListed (migrator : Migrator σ) (app : String) (ordered : List Migration)
    (target : String) (records : List LedgerEntry) : Run σ (List String) := do
  Run.ofExcept (allKnown app ordered records)
  let undo ← Run.ofExcept (undoList (numberOfTarget target) { app }
    (ordered.filter fun migration => records.any (·.name == migration.name)))
  announced app (numberOfTarget target) undo
  migrator.revertAll undo.reverse
  return undo.reverse.map (·.1.name)

/-- Rolling back looks into the ledger first and then works on what it has found. -/
theorem rollback_of_sorted {app : String} {migrations ordered : List Migration}
    (hsorted : sorted app migrations = .ok ordered) :
    migrator.rollback app migrations target
      = (migrator.entries app >>= migrator.rollbackListed app ordered target) := by
  rw [rollback_eq_of_sorted hsorted]
  refine congrArg _ (funext fun records => ?_)
  unfold rollbackListed allKnown rollbackWithin
  cases records.find? fun record => !ordered.any (·.name == record.name) with
  | some unknown => rfl
  | none =>
      show (Run.ofExcept _ >>= _) = (Run.ofExcept _ >>= _)
      refine congrArg _ (funext fun undo => ?_)
      unfold announced
      cases undo with
      | nil => rfl
      | cons entry rest => rfl

end Undoing

end Migrator

end SchemaHistory
