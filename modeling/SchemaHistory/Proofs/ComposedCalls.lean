import SchemaHistory.Proofs.CallsInParts
import SchemaHistory.Proofs.RecordedDependencies
import SchemaHistory.Proofs.TwoMoments

/-!
# Two calls in place of one

A call that applies the first part of a list, and then one that applies all of it, go side by side
with a call that applies all of it at once (`sideBySide_applyTwice`); so it is with rolling back
(`sideBySide_rollbackTwice`). The second call knows the first one by the ledger alone: what has been
applied is recorded there, so it is skipped, and what depends on it finds its row.
-/

namespace SchemaHistory

/-- What clocks show in the first of two calls, and in the one in place of both. -/
theorem Shown.first {first second whole a b : DateTime} (h : Shown first whole a b) :
    (a = first ∨ a = second) ∧ b = whole :=
  ⟨Or.inl h.1, h.2⟩

theorem Shown.second {first second whole a b : DateTime} (h : Shown second whole a b) :
    (a = first ∨ a = second) ∧ b = whole :=
  ⟨Or.inr h.1, h.2⟩

/-- One call after the other, with the names that both give. -/
def Run.followedBy {σ : Type} (first second : Run σ (List String)) : Run σ (List String) := do
  let names ← first
  let more ← second
  return names ++ more

namespace Ledger

variable {app : String} {before between after : List LedgerEntry} {done more : List String}

/-- What has gone on twice has gone on by both. -/
theorem GoesOn.trans (h : GoesOn app before done between) (h' : GoesOn app between more after) :
    GoesOn app before (done ++ more) after := by
  intro otherApp name
  rw [h', h, List.contains_append, Bool.and_or_distrib_left, Bool.or_assoc]

/-- What was there before is still there. -/
theorem GoesOn.any (h : GoesOn app before done after) {otherApp name : String}
    (hthere : before.any (·.isFor otherApp name) = true) :
    after.any (·.isFor otherApp name) = true := by
  rw [h, hthere]
  rfl

/-- What has been done is there. -/
theorem GoesOn.any_of_mem (h : GoesOn app before done after) {name : String} (hmem : name ∈ done) :
    after.any (·.isFor app name) = true := by
  rw [h, List.contains_iff_mem.mpr hmem]
  simp

end Ledger

namespace Migrator

/-- The names of those migrations in a list that are not recorded. -/
def unrecorded (recorded : List String) (rest : List Migration) : List String :=
  (rest.filter fun migration => !recorded.contains migration.name).map (·.name)

variable {recorded : List String} {migration : Migration} {rest : List Migration}

theorem unrecorded_cons_of_recorded (h : recorded.contains migration.name = true) :
    unrecorded recorded (migration :: rest) = unrecorded recorded rest := by
  rw [unrecorded, List.filter_cons_of_neg (by rw [h]; decide)]
  rfl

/-- A migration without a row is the first that is left. -/
theorem unrecorded_cons (h : ¬recorded.contains migration.name = true) :
    unrecorded recorded (migration :: rest) = migration.name :: unrecorded recorded rest := by
  rw [unrecorded, List.filter_cons_of_pos (by simpa using h)]
  rfl

theorem mem_unrecorded (hmem : migration ∈ rest) (h : ¬recorded.contains migration.name = true) :
    migration.name ∈ unrecorded recorded rest :=
  List.mem_map_of_mem (List.mem_filter.mpr ⟨hmem, by simpa using h⟩)

theorem name_of_unrecorded {name : String} (hmem : name ∈ unrecorded recorded rest) :
    ∃ migration ∈ rest, migration.name = name := by
  obtain ⟨migration, hfound, heq⟩ := List.mem_map.mp hmem
  exact ⟨migration, List.mem_of_mem_filter hfound, heq⟩

variable {app : String} {migrations ordered part : List Migration}
  {ledger ledger' : List LedgerEntry}

/-- In the end everything in a list is recorded. -/
theorem any_of_goesOn (h : Ledger.GoesOn app ledger
      (unrecorded ((ledger.filter (·.app == app)).map (·.name)) rest) ledger')
    (hmem : migration ∈ rest) : ledger'.any (·.isFor app migration.name) = true := by
  by_cases hthere : ledger.any (·.isFor app migration.name) = true
  · exact h.any hthere
  · rw [← Ledger.contains_name_eq] at hthere
    exact h.any_of_mem (mem_unrecorded hmem hthere)

/-- Of migrations with other names neither more nor fewer are recorded. -/
theorem any_rest_of_goesOn (hdistinct : (part ++ rest).Pairwise fun a b => a.name ≠ b.name)
    (h : Ledger.GoesOn app ledger (unrecorded recorded part) ledger') (hmem : migration ∈ rest) :
    ledger'.any (·.isFor app migration.name) = ledger.any (·.isFor app migration.name) := by
  have hother : migration.name ∉ unrecorded recorded part := by
    intro hnew
    obtain ⟨earlier, hearlier, heq⟩ := name_of_unrecorded hnew
    exact (List.pairwise_append.mp hdistinct).2.2 earlier hearlier migration hmem heq
  rw [h]
  simp [hother]

/-- Whether all rows are known does not depend on the moments in them. -/
theorem allKnown_undated (h : ledger.map LedgerEntry.undated = ledger'.map LedgerEntry.undated) :
    allKnown app ordered (ledger.filter (·.app == app))
      = allKnown app ordered (ledger'.filter (·.app == app)) := by
  have hundated (records : List LedgerEntry) :
      allKnown app ordered (records.map LedgerEntry.undated) = allKnown app ordered records := by
    have hsame : (fun record : LedgerEntry => !ordered.any (·.name == record.name))
        ∘ LedgerEntry.undated = fun record => !ordered.any (·.name == record.name) := rfl
    unfold allKnown
    rw [List.find?_map, hsame]
    cases records.find? fun record => !ordered.any (·.name == record.name) <;> rfl
  have hrows (ledger : List LedgerEntry) :
      (ledger.filter (·.app == app)).map LedgerEntry.undated
        = (ledger.map LedgerEntry.undated).filter (·.app == app) := by
    rw [List.filter_map]
    rfl
  rw [← hundated, hrows, h, ← hrows, hundated]

/-- Rows that are left were known before. -/
theorem allKnown_of_removes {undone : List Migration}
    (h : allKnown app ordered (ledger.filter (·.app == app)) = .ok ())
    (hremoves : Ledger.Removes undone ledger ledger') :
    allKnown app ordered (ledger'.filter (·.app == app)) = .ok () := by
  rw [allKnown_eq_ok] at h ⊢
  rw [hremoves]
  intro record hmem
  obtain ⟨hin, happ⟩ := List.mem_filter.mp hmem
  exact h record (List.mem_filter.mpr ⟨List.mem_of_mem_filter hin, happ⟩)

/-- Which migrations are recorded does not depend on moments. -/
theorem recorded_undated (h : ledger.map LedgerEntry.undated = ledger'.map LedgerEntry.undated) :
    Ledger.recorded ledger app ordered = Ledger.recorded ledger' app ordered := by
  unfold Ledger.recorded
  simp only [any_undated h]

/-- Where those above a target have lost their rows, those within it are left. -/
theorem recorded_of_removes (horder : Migration.InOrder app migrations ordered) {number : String}
    {undone : List Migration} (hundone : ∀ migration, migration ∈ undone ↔
      migration ∈ Ledger.recorded ledger app ordered ∧ number < migration.number)
    (hremoves : Ledger.Removes undone ledger ledger') :
    Ledger.recorded ledger' app ordered
      = (Ledger.recorded ledger app ordered).filter (isWithin (some number)) := by
  unfold Ledger.recorded
  rw [List.filter_filter]
  refine List.filter_congr fun migration hmem => ?_
  rw [Bool.eq_iff_iff, Bool.and_eq_true]
  refine (Ledger.has_of_removes hremoves).trans ?_
  constructor
  · intro hhas
    obtain ⟨hthere, hnone⟩ := hhas
    refine ⟨?_, hthere⟩
    rw [isWithin, Bool.not_eq_true', decide_eq_false_iff_not]
    intro habove
    have hgone : migration ∈ undone :=
      (hundone migration).mpr ⟨List.mem_filter.mpr ⟨hmem, hthere⟩, habove⟩
    exact hnone migration hgone ⟨horder.app_of_mem hmem, rfl⟩
  · intro hboth
    obtain ⟨hwithin, hthere⟩ := hboth
    refine ⟨hthere, fun other hother hsame => ?_⟩
    obtain ⟨hrecorded, habove⟩ := (hundone other).mp hother
    rw [Migration.eq_of_name_eq horder.ascending (List.mem_of_mem_filter hrecorded) hmem hsame.2]
      at habove
    rw [isWithin, Bool.not_eq_true', decide_eq_false_iff_not] at hwithin
    exact hwithin habove

end Migrator

namespace Backend.Dependable

variable {σ κ ν : Type} {backend : Backend σ} {effect : Statement → κ → Option κ}
  {view : σ → View κ} {log : σ → List Event} {numbering : Numbering ν} {count : σ → ν}
  {now now' first second whole : DateTime} {τ τ' : Transcript σ} {app : String}
  {migrations ordered part rest : List Migration}
  (h : backend.Dependable effect view log numbering count)

include h

/-! ### What calls ask for -/

theorem asks_entries (now : DateTime) (app : String) : Asks (Run.logOf log) (fun _ => True)
    ((Migrator.atMoment backend now).entries app) :=
  Migrator.asks_entries (h.logsOf now) (fun _ => trivial) app

theorem asks_applyAll (now : DateTime) (recorded done : List String) (state : AppSchema)
    (rest : List Migration) : Asks (Run.logOf log) (fun _ => True)
      ((Migrator.atMoment backend now).applyAll recorded state done rest) :=
  Migrator.asks_applyAll (h.logsOf now) (fun _ => trivial) (fun _ _ => trivial) rest

theorem asks_applyListed (now : DateTime) (app : String) (listed : List Migration) :
    Asks (Run.logOf log) (fun _ => True) ((Migrator.atMoment backend now).applyListed app listed) :=
  (h.asks_entries now app).bind fun _ =>
    (h.asks_applyAll now _ _ _ _).bind (Migrator.asks_concluded app)

theorem asks_revertAll (now : DateTime) (undo : List (Migration × Migration.Steps)) :
    Asks (Run.logOf log) (fun _ => True) ((Migrator.atMoment backend now).revertAll undo) :=
  Migrator.asks_revertAll (h.logsOf now) (fun _ _ => trivial) undo

theorem asks_rollbackListed (now : DateTime) (target : String) (records : List LedgerEntry) :
    Asks (Run.logOf log) (fun _ => True)
      ((Migrator.atMoment backend now).rollbackListed app ordered target records) :=
  (Run.asks_ofExcept _).bind fun _ => (Run.asks_ofExcept _).bind fun undo =>
    (Migrator.asks_announced _ _ undo).bind fun _ => (h.asks_revertAll now _).bind fun _ => .pure _

/-- Rolling back asks for something only through the log. -/
theorem asks_rollback (now : DateTime) (app : String) (migrations : List Migration)
    (target : String) : Asks (Run.logOf log) (fun _ => True)
      ((Migrator.atMoment backend now).rollback app migrations target) :=
  Migrator.asks_rollbackCall (h.logsOf now) (fun _ => trivial)
    (fun _ _ => trivial) migrations target

/-- What a call finds in the ledger, and that it leaves all as it is. -/
theorem granting_entries (now : DateTime) (app : String) (τ : Transcript σ) :
    Granting (Run.logOf log) ((Migrator.atMoment backend now).entries app) τ
      fun answer requests τ₁ => answer = .ok ((view τ.database).ledger.filter (·.app == app)) ∧
        requests = [] ∧ view τ₁.database = view τ.database ∧
        count τ₁.database = count τ.database := by
  refine ((Migrator.granting_entries (h.reliable now) (h.logsOf now) app).and
    (Migrator.looks_entries (h.unmovedAt now)).granting).mono ?_
  rintro _ _ τ₁ ⟨hlooked, hcount⟩
  exact ⟨hlooked.answer, hlooked.requests, hlooked.view, hcount⟩

/-! ### Applying -/

/-- Two calls that have the same migrations before them apply the same ones. They need not have
applied the same ones themselves, as long as these are recorded. -/
theorem sideBySide_applyAll {state : AppSchema} {recorded recorded' done done' : List String}
    (happs : ∀ migration ∈ rest, migration.app = app)
    (hrecorded : ∀ migration ∈ rest,
      recorded.contains migration.name = recorded'.contains migration.name)
    (hdone : ∀ name ∈ done, (view τ.database).ledger.any (·.isFor app name) = true)
    (hdone' : ∀ name ∈ done', (view τ.database).ledger.any (·.isFor app name) = true)
    (habreast : Abreast view count false τ.database τ'.database) :
    SideBySide (Run.logOf log) (Shown now now')
      ((Migrator.atMoment backend now).applyAll recorded state done rest)
      ((Migrator.atMoment backend now').applyAll recorded' state done' rest) τ τ'
      (fun τ₁ τ₁' => Abreast view count false τ₁.database τ₁'.database)
      fun names names' τ₁ τ₁' =>
        (names = done ++ Migrator.unrecorded recorded rest ∧
          names' = done' ++ Migrator.unrecorded recorded rest) ∧
        Abreast view count false τ₁.database τ₁'.database ∧
        Ledger.GoesOn app (view τ.database).ledger (Migrator.unrecorded recorded rest)
          (view τ₁.database).ledger := by
  induction rest generalizing state done done' τ τ' with
  | nil =>
      refine .pure ⟨⟨?_, ?_⟩, habreast, .refl⟩
      · exact (List.append_nil done).symm
      · exact (List.append_nil done').symm
  | cons migration rest ih =>
      obtain ⟨happ, happs⟩ := List.forall_mem_cons.mp happs
      obtain ⟨hhere, hrecorded⟩ := List.forall_mem_cons.mp hrecorded
      unfold Migrator.applyAll
      by_cases hskipped : recorded.contains migration.name = true
      · rw [if_pos hskipped, if_pos (hhere ▸ hskipped)]
        rw [Migrator.unrecorded_cons_of_recorded hskipped]
        exact Run.sideBySide_emit (Run.sideBySide_ofExcept habreast fun next _ =>
          ih happs hrecorded hdone hdone' habreast)
      · have hskipped' : ¬recorded'.contains migration.name = true := hhere ▸ hskipped
        rw [if_neg hskipped, if_neg hskipped']
        have hrequired (now : DateTime) (done : List String) : Asks (Run.logOf log) (fun _ => True)
            ((Migrator.atMoment backend now).requireApplied migration done) :=
          Migrator.asks_requireApplied (h.logsOf now) (fun _ => trivial) done
        have hperform (now : DateTime) : Asks (Run.logOf log) (fun _ => True)
            (Run.inContext migration ((Migrator.atMoment backend now).perform state migration)) :=
          (Migrator.asks_perform (h.logsOf now) fun _ _ => trivial).adapt
        refine .bind (hrequired now done) (hrequired now' done')
          (fun _ => (hperform now).bind fun _ => h.asks_applyAll now _ _ _ _)
          (fun _ => (hperform now').bind fun _ => h.asks_applyAll now' _ _ _ _)
          (SideBySide.imp (h.sideBySide_requireApplied happ hdone hdone' habreast) ?_)
        intro _ _ τ₁ τ₁' hlooked
        obtain ⟨hready, hview⟩ := hlooked
        rw [← hview] at hdone hdone' ⊢
        refine .bind (hperform now) (hperform now') (fun _ => h.asks_applyAll now _ _ _ _)
          (fun _ => h.asks_applyAll now' _ _ _ _)
          (SideBySide.imp (SideBySide.adapt (h.sideBySide_perform state migration hready)) ?_)
        intro next next' τ₂ τ₂' hperformed
        obtain ⟨rfl, hbetween, hgains⟩ := hperformed
        have hgoes : Ledger.GoesOn app (view τ₁.database).ledger [migration.name]
            (view τ₂.database).ledger := Ledger.GoesOn.refl.gains happ hgains
        -- the row of this migration has come in
        have hthere {done : List String}
            (hdone : ∀ name ∈ done, (view τ₁.database).ledger.any (·.isFor app name) = true) :
            ∀ name ∈ done ++ [migration.name],
              (view τ₂.database).ledger.any (·.isFor app name) = true := by
          intro name hmem
          rcases List.mem_append.mp hmem with hmem | hmem
          · exact hgoes.any (hdone name hmem)
          · exact hgoes.any_of_mem hmem
        refine SideBySide.imp (ih happs hrecorded (hthere hdone) (hthere hdone') hbetween) ?_
        intro names names' τ₃ τ₃' hend
        obtain ⟨⟨hnames, hnames'⟩, hrest, hledger⟩ := hend
        rw [Migrator.unrecorded_cons hskipped]
        refine ⟨⟨?_, ?_⟩, hrest, hgoes.trans hledger⟩
        · rw [hnames, List.append_assoc, List.singleton_append]
        · rw [hnames', List.append_assoc, List.singleton_append]

/-- A call goes on with the rest of a list of which the first part is recorded, as another one does
that has this part behind it. -/
theorem sideBySide_applyRest {recorded done : List String} {final : AppSchema}
    (happs : ∀ migration ∈ rest, migration.app = app)
    (hfinal : part.foldlM AppSchema.next { app } = .ok final)
    (hpart : ∀ migration ∈ part,
      (view τ.database).ledger.any (·.isFor app migration.name) = true)
    (hrest : ∀ migration ∈ rest,
      (view τ.database).ledger.any (·.isFor app migration.name) = recorded.contains migration.name)
    (hdone : ∀ name ∈ done, (view τ.database).ledger.any (·.isFor app name) = true)
    (habreast : Abreast view count false τ.database τ'.database) :
    SideBySide (Run.logOf log) (Shown now now')
      ((Migrator.atMoment backend now).applyListed app (part ++ rest))
      ((Migrator.atMoment backend now').applyAll recorded final done rest
        >>= Migrator.concluded app) τ τ'
      (fun τ₁ τ₁' => Abreast view count false τ₁.database τ₁'.database)
      fun more names τ₁ τ₁' => names = done ++ more ∧
        Abreast view count false τ₁.database τ₁'.database := by
  have hconcluded (names : List String) : Asks (Run.logOf log) (fun _ => True)
      (Migrator.concluded app names : Run σ (List String)) := Migrator.asks_concluded app names
  unfold Migrator.applyListed
  refine SideBySide.bind_left (h.asks_entries now app)
    (fun _ => (h.asks_applyAll now _ _ _ _).bind hconcluded)
    ((h.granting_entries now app τ).mono ?_)
  rintro _ _ τ₁ ⟨rfl, rfl, hview, hcount⟩
  refine ⟨rfl, ?_⟩
  have hready := habreast.congr hview hcount rfl rfl
  rw [← hview] at hpart hrest hdone ⊢
  -- the first part is skipped
  obtain ⟨lines, hskipped⟩ : ∃ lines, (Migrator.atMoment backend now).applyAll
      (((view τ₁.database).ledger.filter (·.app == app)).map (·.name)) { app } [] part τ₁
        = .ok [] { τ₁ with lines } := Migrator.applyAll_of_recorded (fun migration hmem =>
    Ledger.contains_name_eq.trans (hpart migration hmem)) hfinal τ₁
  dsimp only
  rw [Migrator.applyAll_append, bind_assoc, hfinal]
  refine Run.sideBySide_left hskipped (.bind (h.asks_applyAll now _ _ _ _)
    (h.asks_applyAll now' _ _ _ _) hconcluded hconcluded
    (SideBySide.imp (h.sideBySide_applyAll happs (fun migration hmem =>
      Ledger.contains_name_eq.trans (hrest migration hmem)) (List.forall_mem_nil _)
        hdone hready) ?_))
  intro more names τ₂ τ₂' happlied
  obtain ⟨⟨rfl, rfl⟩, hend, -⟩ := happlied
  obtain ⟨lines, hlines⟩ := Migrator.concluded_eq app ([] ++ Migrator.unrecorded _ rest) τ₂
  obtain ⟨lines', hlines'⟩ := Migrator.concluded_eq app (done ++ Migrator.unrecorded _ rest) τ₂'
  exact Run.sideBySide_of_ok hlines hlines' ⟨rfl, hend⟩

/-- Applying up to one target and then up to a higher one goes side by side with applying up to the
higher one at once. -/
theorem sideBySide_applyTwice (happs : ∀ migration ∈ part ++ rest, migration.app = app)
    (hdistinct : (part ++ rest).Pairwise fun a b => a.name ≠ b.name)
    (habreast : Abreast view count false τ.database τ'.database) :
    SideBySide (Run.logOf log) (fun a b => (a = first ∨ a = second) ∧ b = whole)
      (((Migrator.atMoment backend first).applyListed app part).followedBy
        ((Migrator.atMoment backend second).applyListed app (part ++ rest)))
      ((Migrator.atMoment backend whole).applyListed app (part ++ rest)) τ τ'
      (fun τ₁ τ₁' => Abreast view count false τ₁.database τ₁'.database)
      fun names names' τ₁ τ₁' => names = names' ∧
        Abreast view count false τ₁.database τ₁'.database := by
  have hconcluded (names : List String) : Asks (Run.logOf log) (fun _ => True)
      (Migrator.concluded app names : Run σ (List String)) := Migrator.asks_concluded app names
  have hlast (names : List String) : Asks (Run.logOf log) (fun _ => True) (do
      let more ← (Migrator.atMoment backend second).applyListed app (part ++ rest)
      return names ++ more) :=
    (h.asks_applyListed second app _).bind fun _ => .pure _
  unfold Run.followedBy
  rw [Migrator.applyListed, Migrator.applyListed, bind_assoc]
  -- both look into the ledger,
  refine .bind (h.asks_entries first app) (h.asks_entries whole app)
    (fun _ => ((h.asks_applyAll first _ _ _ _).bind hconcluded).bind hlast)
    (fun _ => (h.asks_applyAll whole _ _ _ _).bind hconcluded)
    ((h.sideBySide_entries app habreast).mono (fun _ _ => Shown.first) (fun _ _ => id) ?_)
  intro records records' τ₁ τ₁' hlooked
  obtain ⟨⟨rfl, rfl⟩, hready, hview⟩ := hlooked
  -- apply what is missing of the first part,
  rw [Migrator.applyAll_append, bind_assoc, bind_assoc]
  refine .bind (h.asks_applyAll first _ _ _ _) (h.asks_applyAll whole _ _ _ _)
    (fun _ => (hconcluded _).bind hlast)
    (fun _ => ((Run.asks_ofExcept _).bind fun _ => h.asks_applyAll whole _ _ _ _).bind hconcluded)
    (SideBySide.mono (SideBySide.and_left (h.sideBySide_applyAll
      (fun migration hmem => happs migration (List.mem_append_left _ hmem)) (fun migration _ => ?_)
      (List.forall_mem_nil _) (List.forall_mem_nil _) hready)) (fun _ _ => Shown.first)
      (fun _ _ => id) ?_)
  · rw [Ledger.contains_name_eq, Ledger.contains_name_eq, any_undated habreast.ledger]
  intro names names' τ₂ τ₂' happlied
  obtain ⟨hrun, ⟨rfl, rfl⟩, hbetween, hgoes⟩ := happlied
  rw [List.nil_append] at hrun ⊢
  rw [hview] at hgoes
  obtain ⟨final, hfinal⟩ := Migrator.replay_of_applyAll hrun
  have hrest : ∀ migration ∈ rest, (view τ₂.database).ledger.any (·.isFor app migration.name)
      = (((view τ'.database).ledger.filter (·.app == app)).map (·.name)).contains
        migration.name := by
    intro migration hmem
    rw [Migrator.any_rest_of_goesOn hdistinct hgoes hmem, Ledger.contains_name_eq,
      any_undated habreast.ledger]
  obtain ⟨lines, hlines⟩ := Migrator.concluded_eq app (Migrator.unrecorded
    (((view τ.database).ledger.filter (·.app == app)).map (·.name)) part) τ₂
  refine Run.sideBySide_left hlines ?_
  -- and go on with the rest, one of them in a call of its own
  rw [hfinal, ← bind_pure (_ >>= Migrator.concluded app)]
  refine .bind (h.asks_applyListed second app _)
    (((Run.asks_ofExcept _).bind fun _ => h.asks_applyAll whole _ _ _ _).bind hconcluded)
    (fun _ => .pure _) (fun _ => .pure _) (SideBySide.mono (h.sideBySide_applyRest
      (fun migration hmem => happs migration (List.mem_append_right _ hmem)) hfinal
      (fun _ hmem => Migrator.any_of_goesOn hgoes hmem) hrest
      (fun name hmem => hgoes.any_of_mem hmem) hbetween) (fun _ _ => Shown.second)
        (fun _ _ => id) ?_)
  intro more names τ₃ τ₃' hdone
  exact .pure ⟨hdone.1.symm, hdone.2⟩

/-- After a call that succeeds everything in the list is recorded. -/
theorem granting_applyListed {listed : List Migration}
    (happs : ∀ migration ∈ listed, migration.app = app) (hclosed : (view τ.database).saved = none) :
    Granting (Run.logOf log) ((Migrator.atMoment backend now).applyListed app listed) τ
      fun answer _ τ₁ => ∀ names, answer = .ok names →
        (∃ final, listed.foldlM AppSchema.next { app } = .ok final) ∧
        ∀ migration ∈ listed,
          (view τ₁.database).ledger.any (·.isFor app migration.name) = true := by
  have hconcluded (names : List String) : Asks (Run.logOf log) (fun _ => True)
      (Migrator.concluded app names : Run σ (List String)) := Migrator.asks_concluded app names
  refine Granting.bind (h.asks_entries now app)
    (fun _ => (h.asks_applyAll now _ _ _ _).bind hconcluded)
    ((h.granting_entries now app τ).mono ?_)
  rintro _ _ τ₁ ⟨rfl, rfl, hview, -⟩
  have hself : Abreast view count false τ₁.database τ₁.database := .refl (hview ▸ hclosed)
  refine Granting.bind (h.asks_applyAll now _ _ _ _) hconcluded
    ((h.sideBySide_applyAll happs (fun _ _ => rfl) (List.forall_mem_nil _) (List.forall_mem_nil _)
      hself).and_left.granting_self.mono ?_)
  intro answer requests τ₂ hend
  cases answer with
  | error e =>
      intro names hok
      cases hok
  | ok applied =>
      obtain ⟨hrun, -, -, hgoes⟩ := hend
      rw [hview] at hgoes
      obtain ⟨lines, hlines⟩ := Migrator.concluded_eq app applied τ₂
      dsimp only
      rw [← bind_pure (Migrator.concluded app applied)]
      exact Run.granting_bind_of_ok hlines (.pure fun names _ =>
        ⟨Migrator.replay_of_applyAll hrun, fun _ hmem => Migrator.any_of_goesOn hgoes hmem⟩)

/-! ### Rolling back -/

/-- The same migrations are undone at two moments, and lose their rows on either side. -/
theorem sideBySide_revertAll (undo : List (Migration × Migration.Steps))
    (hstrikes : ∀ entry ∈ undo, backend.Strikes view entry.1.app entry.1.name)
    (habreast : Abreast view count false τ.database τ'.database) :
    SideBySide (Run.logOf log) (Shown now now') ((Migrator.atMoment backend now).revertAll undo)
      ((Migrator.atMoment backend now').revertAll undo) τ τ'
      (fun τ₁ τ₁' => Abreast view count false τ₁.database τ₁'.database)
      fun _ _ τ₁ τ₁' => Abreast view count false τ₁.database τ₁'.database ∧
        Ledger.Removes (undo.map (·.1)) (view τ.database).ledger (view τ₁.database).ledger := by
  induction undo generalizing τ τ' with
  | nil => exact .pure ⟨habreast, .nil⟩
  | cons entry rest ih =>
      obtain ⟨migration, steps⟩ := entry
      obtain ⟨hstrike, hstrikes⟩ := List.forall_mem_cons.mp hstrikes
      have hrevert (now : DateTime) : Asks (Run.logOf log) (fun _ => True)
          (Run.inContext migration ((Migrator.atMoment backend now).revert migration steps)) :=
        (Migrator.asks_revert (h.logsOf now) fun _ _ => trivial).adapt
      refine .bind (hrevert now) (hrevert now') (fun _ => h.asks_revertAll now rest)
        (fun _ => h.asks_revertAll now' rest)
        (SideBySide.imp (SideBySide.adapt (h.sideBySide_revert steps hstrike habreast)) ?_)
      intro _ _ τ₁ τ₁' hreverted
      obtain ⟨hbetween, hloses⟩ := hreverted
      refine SideBySide.imp (ih hstrikes hbetween) ?_
      intro _ _ τ₂ τ₂' hend
      obtain ⟨hrest, hremoves⟩ := hend
      exact ⟨hrest, .cons hloses hremoves⟩

/-- A call undoes the rest of what another one is undoing. -/
theorem sideBySide_rollbackRest {target : String}
    (horder : Migration.InOrder app migrations ordered)
    {earlier : List (Migration × Migration.Steps)}
    (hknown : Migrator.allKnown app ordered
      ((view τ.database).ledger.filter (·.app == app)) = .ok ())
    (hundo : Migrator.undoList (Migrator.numberOfTarget target) { app }
      (Ledger.recorded (view τ.database).ledger app ordered) = .ok earlier)
    (habreast : Abreast view count false τ.database τ'.database) :
    SideBySide (Run.logOf log) (Shown now now')
      ((Migrator.atMoment backend now).rollback app migrations target)
      ((Migrator.atMoment backend now').revertAll earlier.reverse) τ τ'
      (fun τ₁ τ₁' => Abreast view count false τ₁.database τ₁'.database)
      fun names _ τ₁ τ₁' => names = earlier.reverse.map (·.1.name) ∧
        Abreast view count false τ₁.database τ₁'.database := by
  rw [Migrator.rollback_of_sorted horder.sorted_eq]
  refine SideBySide.bind_left (h.asks_entries now app)
    (fun _ => h.asks_rollbackListed now target _) ((h.granting_entries now app τ).mono ?_)
  rintro _ _ τ₁ ⟨rfl, rfl, hview, hcount⟩
  refine ⟨rfl, ?_⟩
  unfold Migrator.rollbackListed
  dsimp only
  rw [hknown, Run.ofExcept_ok_bind, Migrator.recorded_eq, hundo, Run.ofExcept_ok_bind]
  obtain ⟨lines, hlines⟩ := Migrator.announced_eq app (Migrator.numberOfTarget target) earlier τ₁
  have hready := habreast.congr hview hcount rfl rfl
  have hstrikes : ∀ entry ∈ earlier.reverse, backend.Strikes view entry.1.app entry.1.name :=
    fun entry hmem => (h.reliable now).strike _ _
      (Migrator.numbered_of_undoList horder hundo (List.mem_reverse.mp hmem))
  refine Run.sideBySide_left hlines ?_
  rw [← bind_pure ((Migrator.atMoment backend now').revertAll earlier.reverse)]
  refine .bind (h.asks_revertAll now _) (h.asks_revertAll now' _) (fun _ => .pure _)
    (fun _ => .pure _) (SideBySide.imp (h.sideBySide_revertAll _ hstrikes hready) ?_)
  intro _ _ τ₂ τ₂' hend
  exact .pure ⟨rfl, hend.1⟩

/-- Rolling back to one target and then to a lower one goes side by side with rolling back to the
lower one at once. -/
theorem sideBySide_rollbackTwice {low high : String}
    (horder : Migration.InOrder app migrations ordered)
    (hle : Migrator.numberOfTarget low ≤ Migrator.numberOfTarget high)
    (habreast : Abreast view count false τ.database τ'.database) :
    SideBySide (Run.logOf log) (fun a b => (a = first ∨ a = second) ∧ b = whole)
      (((Migrator.atMoment backend first).rollback app migrations high).followedBy
        ((Migrator.atMoment backend second).rollback app migrations low))
      ((Migrator.atMoment backend whole).rollback app migrations low) τ τ'
      (fun τ₁ τ₁' => Abreast view count false τ₁.database τ₁'.database)
      fun names names' τ₁ τ₁' => names = names' ∧
        Abreast view count false τ₁.database τ₁'.database := by
  have hlast (names : List String) : Asks (Run.logOf log) (fun _ => True) (do
      let more ← (Migrator.atMoment backend second).rollback app migrations low
      return names ++ more) :=
    (h.asks_rollback second app migrations low).bind fun _ => .pure _
  unfold Run.followedBy
  rw [Migrator.rollback_of_sorted horder.sorted_eq, bind_assoc]
  nth_rewrite 2 [Migrator.rollback_of_sorted horder.sorted_eq]
  -- both look into the ledger,
  refine .bind (h.asks_entries first app) (h.asks_entries whole app)
    (fun _ => (h.asks_rollbackListed first high _).bind hlast)
    (fun _ => h.asks_rollbackListed whole low _)
    ((h.sideBySide_entries app habreast).mono (fun _ _ => Shown.first) (fun _ _ => id) ?_)
  intro records records' τ₁ τ₁' hlooked
  obtain ⟨⟨rfl, rfl⟩, hready, hview⟩ := hlooked
  unfold Migrator.rollbackListed
  rw [bind_assoc, Migrator.allKnown_undated habreast.ledger]
  refine Run.sideBySide_ofExcept hready fun _ hknown => ?_
  rw [bind_assoc, Migrator.recorded_eq, Migrator.recorded_eq,
    ← Migrator.recorded_undated habreast.ledger, Migrator.undoList_filter hle]
  cases hundo : Migrator.undoList (Migrator.numberOfTarget low) { app }
    (Ledger.recorded (view τ.database).ledger app ordered) with
  | error e => exact .throw e hready
  | ok undo =>
      have hnumbered : ∀ migration ∈ Ledger.recorded (view τ.database).ledger app ordered,
          migration.Numbered :=
        fun migration hmem => horder.numbered_of_mem (List.mem_of_mem_filter hmem)
      obtain ⟨earlier, hearlier, hsplit, hlater⟩ :=
        Migrator.undoList_split hnumbered (horder.ascending.filter _) hle hundo
      have hstrikes : ∀ entry ∈ (undo.filter fun entry =>
          Migrator.numberOfTarget high < entry.1.number).reverse,
          backend.Strikes view entry.1.app entry.1.name := by
        intro entry hmem
        have hundone := List.mem_of_mem_filter (List.mem_reverse.mp hmem)
        exact (h.reliable first).strike _ _ (Migrator.numbered_of_undoList horder hundo hundone)
      dsimp only [Except.map]
      generalize undo.filter (fun entry => Migrator.numberOfTarget high < entry.1.number) = later
        at hsplit hlater hstrikes ⊢
      obtain ⟨lines, hlines⟩ := Migrator.announced_eq app (Migrator.numberOfTarget high) later τ₁
      obtain ⟨lines', hlines'⟩ := Migrator.announced_eq app (Migrator.numberOfTarget low) undo τ₁'
      rw [Run.ofExcept_ok_bind, Run.ofExcept_ok_bind, bind_assoc]
      refine Run.sideBySide_left hlines (Run.sideBySide_right hlines' ?_)
      -- undo what is above the higher target,
      rw [hsplit, List.reverse_append, Migrator.revertAll_append, bind_assoc, bind_assoc]
      refine .bind (h.asks_revertAll first _) (h.asks_revertAll whole _) (fun _ => hlast _)
        (fun _ => (h.asks_revertAll whole _).bind fun _ => .pure _)
        (SideBySide.mono (h.sideBySide_revertAll later.reverse hstrikes hready)
          (fun _ _ => Shown.first) (fun _ _ => id) ?_)
      intro _ _ τ₂ τ₂' hreverted
      obtain ⟨hbetween, hremoves⟩ := hreverted
      rw [hview] at hremoves
      have hundone : ∀ migration, migration ∈ later.reverse.map (·.1) ↔
          migration ∈ Ledger.recorded (view τ.database).ledger app ordered ∧
            Migrator.numberOfTarget high < migration.number := by
        intro migration
        rw [List.map_reverse, List.mem_reverse, hlater, List.mem_filter, decide_eq_true_iff]
      rw [← Migrator.recorded_of_removes horder hundone hremoves] at hearlier
      rw [← Migrator.allKnown_undated habreast.ledger] at hknown
      -- and what is left of it, one of them in a call of its own
      rw [pure_bind]
      refine .bind (h.asks_rollback second app migrations low) (h.asks_revertAll whole _)
        (fun _ => .pure _) (fun _ => .pure _) (SideBySide.mono (h.sideBySide_rollbackRest horder
          (Migrator.allKnown_of_removes hknown hremoves) hearlier hbetween)
          (fun _ _ => Shown.second) (fun _ _ => id) ?_)
      intro more _ τ₃ τ₃' hdone
      obtain ⟨rfl, hend⟩ := hdone
      exact .pure ⟨(List.map_append).symm, hend⟩

end Backend.Dependable

end SchemaHistory
