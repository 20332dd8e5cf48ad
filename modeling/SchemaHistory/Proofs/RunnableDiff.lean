import SchemaHistory.Proofs.AllowedRuns
import Mathlib.Data.List.Pairwise

/-!
# When the operations for declared models can be carried out

`AppSchema.diff` goes through the declared models one after the other and deletes the models that
are not declared any more in the end. Names of tables and indexes are shared by all models, so an
operation may take a name that is given up only later. `AppSchema.Clear` says that this does not
happen, and a database with exactly the recorded tables and indexes goes along with the operations
exactly then (`AppSchema.diff_runs_iff`).
-/

namespace SchemaHistory

namespace AppSchema

open Operation

/-- The names that the operations for declared models take are free when they take them. -/
structure Clear (capabilities : Capabilities) (s : AppSchema) (declared : List Model) : Prop where
  /-- No recorded model has the table of a new one, not even if it is not declared any more. -/
  tables : ∀ m ∈ declared, s.model? m.name = none → ¬s.HasTable m.table
  /-- A recorded model with an index of a declared one has had its turn before. -/
  indexes : ∀ earlier m, earlier ++ [m] <+: declared → ∀ name other, s.model? name = some other →
    name ≠ m.name → name ∉ earlier.map (·.name) →
    List.Disjoint m.indexes.names other.indexes.names
  /-- The column of a field that comes is not the recorded one of a field that stays. -/
  columns : ∀ m ∈ declared, ∀ prior, s.model? m.name = some prior →
    ∀ kept ∈ prior.keptFields m, ∀ added ∈ m.fieldsNotIn prior,
      kept.2.columnName kept.1 ≠ added.2.columnName added.1
  /-- Where a table is built anew, no recorded model and no new one so far has the table that is its
  shadow. -/
  shadows : ∀ earlier m, earlier ++ [m] <+: declared → ∀ prior, s.model? m.name = some prior →
    prior.RenewedFor capabilities m → ¬s.HasTable (Backend.shadowName prior.table) ∧
      ∀ other ∈ earlier, s.model? other.name = none → other.table ≠ Backend.shadowName prior.table

variable {capabilities : Capabilities} {s t u : AppSchema} {m m' other prior x : Model}
  {earlier declared : List Model} {name table : String}

/-! ### What is allowed for declared models -/

/-- The changes for a model may be executed exactly if the tables are clear for it. -/
theorem allows_changesFor_iff (hk : s.Keyed) (hm : m.Sound) (hmk : m.Keyed s.app)
    (hfit : ∀ prior, s.model? m.name = some prior → prior.KeysFit m)
    (hu : u.Sound) (hsep : u.Separate) (happ : u.app = s.app)
    (hsame : u.model? m.name = s.model? m.name) :
    u.Allows capabilities (s.changesFor m) ↔ (u.withModel (s.reached m)).Separate ∧
      ∀ prior, s.model? m.name = some prior → prior.RenewedFor capabilities m →
        ¬u.HasTable (Backend.shadowName prior.table) := by
  rw [← happ] at hmk
  cases hmodel : s.model? m.name with
  | none =>
      have hcreation : s.changesFor m = m.creation := by rw [changesFor, hmodel]
      rw [hcreation, reached_of_none hmodel,
        allows_creation_iff hu hsep (hsame.trans hmodel) hm hmk]
      exact (and_iff_left fun _ hprior => (Option.some_ne_none _ hprior.symm).elim).symm
  | some prior =>
      have hchanges : s.changesFor m = prior.changes m := by rw [changesFor, hmodel]
      have hpk : prior.Keyed u.app := happ ▸ hk _ _ hmodel
      rw [hchanges, reached_of_some hmodel,
        allows_changes_iff hu hsep (hsame.trans hmodel) hpk hm hmk (hfit prior hmodel)]
      simp

/-- The operations for declared models are allowed if those for each of them are, in the state that
the ones for the earlier models have led to. -/
theorem allows_flatMap_iff (hs : s.Sound) (hk : s.Keyed)
    (hdeclared : ∀ m ∈ declared, m.Sound ∧ m.Keyed s.app)
    (hnames : (declared.map (·.name)).Nodup)
    (hfit : ∀ m ∈ declared, ∀ prior, s.model? m.name = some prior → prior.KeysFit m)
    (hu : u.Sound) (hsep : u.Separate) (happ : u.app = s.app)
    (hsame : ∀ m ∈ declared, u.model? m.name = s.model? m.name) :
    u.Allows capabilities (declared.flatMap s.changesFor) ↔
      ∀ earlier m, earlier ++ [m] <+: declared →
        (u.withModels ((earlier ++ [m]).map s.reached)).Separate ∧
          ∀ prior, s.model? m.name = some prior → prior.RenewedFor capabilities m →
            ¬(u.withModels (earlier.map s.reached)).HasTable (Backend.shadowName prior.table) := by
  induction declared generalizing u with
  | nil =>
      rw [List.flatMap_nil]
      refine ⟨fun _ earlier m hpart => ?_, fun _ => .nil u⟩
      simp at hpart
  | cons m rest ih =>
      obtain ⟨⟨hm, hmk⟩, hrest⟩ := List.forall_mem_cons.mp hdeclared
      obtain ⟨hnot, hnames⟩ := List.nodup_cons.mp hnames
      obtain ⟨hfits, hothers⟩ := List.forall_mem_cons.mp hfit
      obtain ⟨hfirst, hlater⟩ := List.forall_mem_cons.mp hsame
      have hforM := (forM_changesFor_iff hs hk hm hmk hu happ hfirst).mpr ⟨hfits, rfl⟩
      have hleft := model?_withReached_of_not_mem hs hnot hlater
      have hfollow := fun hsep' => ih (u := u.withModel (s.reached m)) hrest hnames hothers
        (hu.withModel (hs.reached hm)) hsep' happ hleft
      rw [List.flatMap_cons, allows_append hforM,
        allows_changesFor_iff hk hm hmk hfits hu hsep happ hfirst]
      constructor
      · rintro ⟨⟨hsep', hroom⟩, hall⟩ earlier m' hpart
        cases earlier with
        | nil =>
            obtain ⟨rfl, -⟩ := List.cons_prefix_cons.mp hpart
            exact ⟨hsep', hroom⟩
        | cons first earlier =>
            obtain ⟨rfl, hlater⟩ := List.cons_prefix_cons.mp hpart
            exact (hfollow hsep').mp hall earlier m' hlater
      · intro h
        obtain ⟨hsep', hroom⟩ := h [] m (List.cons_prefix_cons.mpr ⟨rfl, List.nil_prefix⟩)
        refine ⟨⟨hsep', hroom⟩, (hfollow hsep').mpr fun earlier m' hpart => ?_⟩
        exact h (m :: earlier) m' (List.cons_prefix_cons.mpr ⟨rfl, hpart⟩)

/-- Deleting models is allowed. -/
theorem allows_deletes {names : List String} (hsep : u.Separate) (hnames : names.Nodup)
    (hthere : ∀ name ∈ names, ∃ m, u.model? name = some m) :
    u.Allows capabilities (names.map .deleteModel) := by
  induction names generalizing u with
  | nil => exact .nil u
  | cons name rest ih =>
      obtain ⟨hnot, hrest⟩ := List.nodup_cons.mp hnames
      obtain ⟨⟨m, hm⟩, hothers⟩ := List.forall_mem_cons.mp hthere
      have hleft := exists_model_withoutModel hnot hothers
      exact .cons (applyDelete_iff.mpr ⟨m, hm, rfl⟩) hsep.withoutModel (hasRoom_of_not_renews rfl)
        (ih hsep.withoutModel hrest hleft)

/-! ### The names in use at the turn of a model -/

/-- The models in a state in which some declared models have had their turn. -/
theorem model?_withReached_eq_some (hs : s.Sound) (hnames : (earlier.map (·.name)).Nodup) :
    (s.withModels (earlier.map s.reached)).model? name = some x ↔
      (∃ m ∈ earlier, m.name = name ∧ x = s.reached m) ∨
        name ∉ earlier.map (·.name) ∧ s.model? name = some x := by
  have hreached : (earlier.map s.reached).map (·.name) = earlier.map (·.name) := hs.names_reached
  by_cases hname : name ∈ earlier.map (·.name)
  · obtain ⟨m, hm, rfl⟩ := List.mem_map.mp hname
    have hfound := model?_withModels_of_mem (u := s) (hreached ▸ hnames)
      (List.mem_map_of_mem (f := s.reached) hm)
    rw [hs.name_reached] at hfound
    rw [hfound]
    constructor
    · intro h
      exact .inl ⟨m, hm, rfl, (Option.some.inj h).symm⟩
    · rintro (⟨m', hm', heq, rfl⟩ | ⟨hnot, -⟩)
      · rw [List.inj_on_of_nodup_map hnames hm' hm heq]
      · exact absurd hname hnot
  · rw [model?_withModels_of_not_mem (by rwa [hreached])]
    constructor
    · intro h
      exact .inr ⟨hname, h⟩
    · rintro (⟨m, hm, rfl, -⟩ | ⟨-, h⟩)
      · exact absurd (List.mem_map_of_mem hm) hname
      · exact h

/-- A recorded model keeps its table. -/
theorem exists_model?_withReached (hs : s.Sound) (hnames : (earlier.map (·.name)).Nodup)
    (hother : s.model? name = some other) :
    ∃ x, (s.withModels (earlier.map s.reached)).model? name = some x ∧ x.table = other.table := by
  by_cases hname : name ∈ earlier.map (·.name)
  · obtain ⟨m, hm, rfl⟩ := List.mem_map.mp hname
    refine ⟨s.reached m, (model?_withReached_eq_some hs hnames).mpr (.inl ⟨m, hm, rfl, rfl⟩), ?_⟩
    rw [reached_of_some hother]
    rfl
  · exact ⟨other, (model?_withReached_eq_some hs hnames).mpr (.inr ⟨hname, hother⟩), rfl⟩

theorem hasTable_withReached (hs : s.Sound) (hnames : (earlier.map (·.name)).Nodup) :
    (s.withModels (earlier.map s.reached)).HasTable table ↔
      s.HasTable table ∨ ∃ m ∈ earlier, s.model? m.name = none ∧ m.table = table := by
  constructor
  · rintro ⟨name, x, hx, rfl⟩
    rcases (model?_withReached_eq_some hs hnames).mp hx with ⟨m, hm, rfl, rfl⟩ | ⟨-, hx⟩
    · cases hmodel : s.model? m.name with
      | none => exact .inr ⟨m, hm, hmodel, by rw [reached_of_none hmodel]⟩
      | some prior => exact .inl ⟨_, prior, hmodel, by rw [reached_of_some hmodel]; rfl⟩
    · exact .inl ⟨name, x, hx, rfl⟩
  · rintro (⟨name, other, hother, rfl⟩ | ⟨m, hm, hnone, rfl⟩)
    · obtain ⟨x, hx, htable⟩ := exists_model?_withReached hs hnames hother
      exact ⟨name, x, hx, htable⟩
    · exact ⟨m.name, m, (model?_withReached_eq_some hs hnames).mpr
        (.inl ⟨m, hm, rfl, (reached_of_none hnone).symm⟩), rfl⟩

theorem indexes_reached : (s.reached m).indexes = m.indexes := by
  cases hmodel : s.model? m.name with
  | none => rw [reached_of_none hmodel]
  | some prior =>
      rw [reached_of_some hmodel]
      rfl

/-! ### Declared models that are apart -/

/-- Declared models stay apart from each other. -/
theorem Clear.apart_reached (h : s.Clear capabilities declared) (hsep : s.Separate)
    (hapart : declared.Pairwise Model.Apart) (hm : m ∈ declared) (hm' : m' ∈ declared)
    (hne : m.name ≠ m'.name) : (s.reached m).Apart (s.reached m') := by
  have hsymm : Std.Symm Model.Apart := ⟨fun _ _ happ => happ.symm⟩
  have hdeclared : m.Apart m' := hapart.forall hm hm' fun heq => hne (heq ▸ rfl)
  refine ⟨?_, by rw [indexes_reached, indexes_reached]; exact hdeclared.2⟩
  cases hmodel : s.model? m.name with
  | none =>
      rw [reached_of_none hmodel]
      cases hmodel' : s.model? m'.name with
      | none =>
          rw [reached_of_none hmodel']
          exact hdeclared.1
      | some prior' =>
          rw [reached_of_some hmodel']
          exact fun heq => h.tables m hm hmodel ⟨_, prior', hmodel', heq.symm⟩
  | some prior =>
      rw [reached_of_some hmodel]
      cases hmodel' : s.model? m'.name with
      | none =>
          rw [reached_of_none hmodel']
          exact fun heq => h.tables m' hm' hmodel' ⟨_, prior, hmodel, heq⟩
      | some prior' =>
          rw [reached_of_some hmodel']
          exact (hsep.apart _ _ _ _ hmodel hmodel' hne).1

/-- Declared models that have had their turn are apart from the recorded models that have not. -/
theorem Clear.apart_recorded (h : s.Clear capabilities declared) (hsep : s.Separate)
    (hearlier : earlier <+: declared) (hm : m ∈ earlier) (hother : s.model? name = some other)
    (hnot : name ∉ earlier.map (·.name)) : (s.reached m).Apart other := by
  have hne : name ≠ m.name := fun heq => hnot (List.mem_map.mpr ⟨m, hm, heq.symm⟩)
  constructor
  · cases hmodel : s.model? m.name with
    | none =>
        rw [reached_of_none hmodel]
        exact fun heq => h.tables m (hearlier.subset hm) hmodel ⟨name, other, hother, heq.symm⟩
    | some prior =>
        rw [reached_of_some hmodel]
        exact (hsep.apart _ _ _ _ hmodel hother hne.symm).1
  · obtain ⟨before, after, rfl⟩ := List.append_of_mem hm
    have hturn : before ++ [m] <+: declared := by
      refine List.IsPrefix.trans ⟨after, ?_⟩ hearlier
      rw [List.append_assoc]
      rfl
    rw [indexes_reached]
    refine h.indexes before m hturn name other hother hne fun hbefore => hnot ?_
    rw [List.map_append]
    exact List.mem_append_left _ hbefore

/-- What is reached has different columns exactly if no new field takes the column of a kept one. -/
theorem nodup_columns_reached_iff (hsep : s.Separate) (hcolumns : m.columns.Nodup) :
    (s.reached m).columns.Nodup ↔ ∀ prior, s.model? m.name = some prior →
      ∀ kept ∈ prior.keptFields m, ∀ added ∈ m.fieldsNotIn prior,
        kept.2.columnName kept.1 ≠ added.2.columnName added.1 := by
  cases hmodel : s.model? m.name with
  | none =>
      rw [reached_of_none hmodel]
      exact ⟨fun _ _ hprior => (Option.some_ne_none _ hprior.symm).elim, fun _ => hcolumns⟩
  | some prior =>
      rw [reached_of_some hmodel, Model.columns, Model.ledTo, List.map_append, List.nodup_append']
      constructor
      · rintro ⟨-, -, hdisjoint⟩ _ heq kept hkept added hadded hsame
        cases heq
        exact hdisjoint (List.mem_map_of_mem hkept) (List.mem_map.mpr ⟨added, hadded, hsame.symm⟩)
      · intro h
        refine ⟨(hsep.columns _ _ hmodel).sublist (List.filter_sublist.map _),
          hcolumns.sublist (List.filter_sublist.map _), fun column hstays hcomes => ?_⟩
        obtain ⟨kept, hkept, rfl⟩ := List.mem_map.mp hstays
        obtain ⟨added, hadded, hsame⟩ := List.mem_map.mp hcomes
        exact h prior rfl kept hkept added hadded hsame.symm

/-- Where names are free when they are taken, a database can hold the states on the way. -/
theorem Clear.separate (h : s.Clear capabilities declared) (hs : s.Sound) (hsep : s.Separate)
    (hnames : (declared.map (·.name)).Nodup) (hapart : declared.Pairwise Model.Apart)
    (hcolumns : ∀ m ∈ declared, m.columns.Nodup) (hearlier : earlier <+: declared) :
    (s.withModels (earlier.map s.reached)).Separate := by
  have hearly : (earlier.map (·.name)).Nodup := hnames.sublist (hearlier.sublist.map _)
  constructor
  · intro name x name' x' hx hx' hne
    rcases (model?_withReached_eq_some hs hearly).mp hx with ⟨m, hm, rfl, rfl⟩ | ⟨hnot, hx⟩
    · rcases (model?_withReached_eq_some hs hearly).mp hx' with ⟨m', hm', rfl, rfl⟩ | ⟨hnot', hx'⟩
      · exact h.apart_reached hsep hapart (hearlier.subset hm) (hearlier.subset hm') hne
      · exact h.apart_recorded hsep hearlier hm hx' hnot'
    · rcases (model?_withReached_eq_some hs hearly).mp hx' with ⟨m', hm', rfl, rfl⟩ | ⟨-, hx'⟩
      · exact (h.apart_recorded hsep hearlier hm' hx hnot).symm
      · exact hsep.apart _ _ _ _ hx hx' hne
  · intro name x hx
    rcases (model?_withReached_eq_some hs hearly).mp hx with ⟨m, hm, rfl, rfl⟩ | ⟨-, hx⟩
    · have hdeclared := hearlier.subset hm
      exact (nodup_columns_reached_iff hsep (hcolumns m hdeclared)).mpr (h.columns m hdeclared)
    · exact hsep.columns _ _ hx

/-- Where a database can hold the states on the way, and has room for the shadows of tables, names
are free when they are taken. -/
theorem clear_of_separate (hs : s.Sound) (hsep : s.Separate)
    (hnames : (declared.map (·.name)).Nodup)
    (hcolumns : ∀ m ∈ declared, m.columns.Nodup)
    (h : ∀ earlier m, earlier ++ [m] <+: declared →
      (s.withModels ((earlier ++ [m]).map s.reached)).Separate ∧
        ∀ prior, s.model? m.name = some prior → prior.RenewedFor capabilities m →
          ¬(s.withModels (earlier.map s.reached)).HasTable (Backend.shadowName prior.table)) :
    s.Clear capabilities declared := by
  have hdiffer : ∀ earlier m, earlier ++ [m] <+: declared →
      ((earlier ++ [m]).map (·.name)).Nodup := fun _ _ hpart =>
    hnames.sublist (hpart.sublist.map _)
  -- every declared model has its turn, and is there then
  have hturn : ∀ m ∈ declared, ∃ earlier, earlier ++ [m] <+: declared := by
    intro m hm
    obtain ⟨earlier, later, rfl⟩ := List.append_of_mem hm
    exact ⟨earlier, later, by rw [List.append_assoc]; rfl⟩
  have hself : ∀ earlier m, earlier ++ [m] <+: declared →
      (s.withModels ((earlier ++ [m]).map s.reached)).model? m.name = some (s.reached m) :=
    fun earlier m hpart => (model?_withReached_eq_some hs (hdiffer earlier m hpart)).mpr
      (.inl ⟨m, List.mem_append_right _ (List.mem_singleton_self m), rfl, rfl⟩)
  refine ⟨?tables, ?indexes, ?columns, ?shadows⟩
  case tables =>
    rintro m hm hnone ⟨name, other, hother, htable⟩
    obtain ⟨earlier, hpart⟩ := hturn m hm
    have hne : m.name ≠ name := by
      rintro rfl
      rw [hnone] at hother
      cases hother
    obtain ⟨x, hx, hkept⟩ := exists_model?_withReached hs (hdiffer earlier m hpart) hother
    have hapart := (h earlier m hpart).1.apart _ _ _ _ (hself earlier m hpart) hx hne
    rw [reached_of_none hnone] at hapart
    exact hapart.1 (htable.symm.trans hkept.symm)
  case indexes =>
    intro earlier m hpart name other hother hne hnot
    have hother' : (s.withModels ((earlier ++ [m]).map s.reached)).model? name = some other := by
      refine (model?_withReached_eq_some hs (hdiffer earlier m hpart)).mpr (.inr ⟨?_, hother⟩)
      rw [List.map_append, List.mem_append, not_or]
      exact ⟨hnot, fun h => hne (List.mem_singleton.mp h)⟩
    rw [← indexes_reached (s := s)]
    exact ((h earlier m hpart).1.apart _ _ _ _ (hself earlier m hpart) hother' hne.symm).2
  case columns =>
    intro m hm
    obtain ⟨earlier, hpart⟩ := hturn m hm
    exact (nodup_columns_reached_iff hsep (hcolumns m hm)).mp
      ((h earlier m hpart).1.columns _ _ (hself earlier m hpart))
  case shadows =>
    intro earlier m hpart prior hprior hrenewed
    have hearly : (earlier.map (·.name)).Nodup :=
      hnames.sublist ((List.prefix_append _ _).trans hpart |>.sublist.map _)
    have hroom := (h earlier m hpart).2 prior hprior hrenewed
    rw [hasTable_withReached hs hearly, not_or] at hroom
    exact ⟨hroom.1, fun other hother hnone htable => hroom.2 ⟨other, hother, hnone, htable⟩⟩

/-- The tables are clear for all declarations exactly if they are for each after those before it. -/
theorem clear_iff (hs : s.Sound) (hsep : s.Separate) (hnames : (declared.map (·.name)).Nodup)
    (hapart : declared.Pairwise Model.Apart) (hcolumns : ∀ m ∈ declared, m.columns.Nodup) :
    s.Clear capabilities declared ↔ ∀ earlier m, earlier ++ [m] <+: declared →
      (s.withModels ((earlier ++ [m]).map s.reached)).Separate ∧
        ∀ prior, s.model? m.name = some prior → prior.RenewedFor capabilities m →
          ¬(s.withModels (earlier.map s.reached)).HasTable (Backend.shadowName prior.table) := by
  refine ⟨fun h earlier m hpart => ?_, clear_of_separate hs hsep hnames hcolumns⟩
  refine ⟨h.separate hs hsep hnames hapart hcolumns hpart, fun prior hprior hrenewed => ?_⟩
  have hearly : (earlier.map (·.name)).Nodup :=
    hnames.sublist ((List.prefix_append _ _).trans hpart |>.sublist.map _)
  obtain ⟨hrecorded, hnew⟩ := h.shadows earlier m hpart prior hprior hrenewed
  rw [hasTable_withReached hs hearly, not_or]
  exact ⟨hrecorded, fun ⟨other, hother, hnone, htable⟩ => hnew other hother hnone htable⟩

/-! ### All declared models -/

theorem forM_of_path {steps : Migration.Steps} (h : Path s steps u) :
    (steps.map (·.1)).forM apply s = .ok () u := by
  induction h with
  | nil => exact forM_nil_eq_ok.mpr rfl
  | cons happly _ ih => exact forM_cons_eq_ok.mpr ⟨_, happly, ih⟩

/-- Let a state be led to the models declared for it. The database with exactly its tables and
indexes goes along with the operations if the names that they take are free when they take them. -/
theorem allows_diff_iff (hs : s.Sound) (hk : s.Keyed) (hsep : s.Separate)
    (hdeclared : ∀ m ∈ declared, m.Sound ∧ m.Keyed s.app)
    (hnames : (declared.map (·.name)).Nodup) (hapart : declared.Pairwise Model.Apart)
    (hcolumns : ∀ m ∈ declared, m.columns.Nodup)
    (hfit : ∀ m ∈ declared, ∀ prior, s.model? m.name = some prior → prior.KeysFit m) :
    s.Allows capabilities (s.diff declared) ↔ s.Clear capabilities declared := by
  have hforM := (forM_changes_iff hs hk hdeclared hnames hs rfl fun _ _ => rfl).mpr ⟨hfit, rfl⟩
  rw [diff, allows_append hforM, clear_iff hs hsep hnames hapart hcolumns,
    ← allows_flatMap_iff hs hk hdeclared hnames hfit hs hsep rfl fun _ _ => rfl]
  constructor
  · rintro ⟨hchanges, -⟩
    exact hchanges
  · intro hchanges
    exact ⟨hchanges, allows_deletes (hchanges.separate hsep hforM) (hs.ordered.nodup_names.filter _)
      fun _ => hs.exists_of_mem_undeclared⟩

/-- Every operation of the difference can fill its columns, if every new field can. -/
theorem canFill_of_mem_diff {now : DateTime} (hfill : ∀ m ∈ declared, ∀ prior,
      s.model? m.name = some prior → ∀ entry ∈ m.fieldsNotIn prior, Backend.CanFill now entry.2) :
    ∀ operation ∈ s.diff declared, operation.CanFill now := by
  rw [diff, List.forall_mem_append]
  constructor
  · intro operation hoperation
    obtain ⟨m, hm, hoperation⟩ := List.mem_flatMap.mp hoperation
    unfold changesFor at hoperation
    split at hoperation
    · next prior hprior =>
        simp only [Model.changes, List.mem_append, List.mem_map, Prod.exists] at hoperation
        rcases hoperation with ((⟨_, _, _, rfl⟩ | hremove) | hadd) | ⟨_, _, _, rfl⟩
        · trivial
        · split at hremove
          · cases hremove
          · rw [List.mem_singleton.mp hremove]
            trivial
        · split at hadd
          · cases hadd
          · rw [List.mem_singleton.mp hadd]
            exact hfill m hm prior hprior
        · trivial
    · simp only [Model.creation, List.mem_cons, List.mem_map, Prod.exists] at hoperation
      rcases hoperation with rfl | ⟨_, _, _, rfl⟩
      · trivial
      · trivial
  · intro operation hoperation
    obtain ⟨name, -, rfl⟩ := List.mem_map.mp hoperation
    trivial

/-- No operation of the difference has two fields of one name. -/
theorem fieldsDiffer_of_mem_diff (hdeclared : ∀ m ∈ declared, m.Sound) :
    ∀ operation ∈ s.diff declared, operation.FieldsDiffer := by
  rw [diff, List.forall_mem_append]
  constructor
  · intro operation hoperation
    obtain ⟨m, hm, hoperation⟩ := List.mem_flatMap.mp hoperation
    exact fieldsDiffer_of_mem_changesFor (hdeclared m hm) hoperation
  · intro operation hoperation
    obtain ⟨name, -, rfl⟩ := List.mem_map.mp hoperation
    trivial

/-- Let the operations for the models declared for an app lead on from a state that its migrations
led to, and that a database can hold. Let the declared models have names, tables and indexes of
their own, and columns of different names, and let there be something to fill the columns with that
come. Then the database with exactly the tables and indexes of the state carries the operations out
without refusing a statement if the names that they take are free when they take them, and only
then. -/
theorem diff_runs_iff {app : String} {migrations : List Migration} {before : AppSchema}
    {steps : List Step} (dialect : Dialect) (now : DateTime)
    (hfields : ∀ migration ∈ migrations, migration.FieldsDiffer)
    (hreplay : replay app migrations = .ok before) (hseparate : before.Separate)
    (hdeclared : ∀ m ∈ declared, m.DeclaredIn app)
    (hnames : (declared.map (·.name)).Nodup) (hapart : declared.Pairwise Model.Apart)
    (hcolumns : ∀ m ∈ declared, m.columns.Nodup)
    (hsteps : before.stepsOf (before.diff declared) = .ok steps)
    (hfill : ∀ m ∈ declared, ∀ prior, before.model? m.name = some prior →
      ∀ entry ∈ m.fieldsNotIn prior, Backend.CanFill now entry.2) :
    (∃ db, Migration.forwardAll (Catalog.backend dialect now) ((before.diff declared).zip steps)
      before.catalog = .ok () db) ↔ before.Clear dialect.capabilities declared := by
  have hs := replay_sound hfields hreplay
  have hk := replay_keyed hfields hreplay
  have hmodels := Model.sound_keyed_of_declaredIn hreplay hdeclared
  obtain ⟨after, hpath, hmap⟩ := path_of_stepsOf hsteps
  have hforM := forM_of_path hpath
  rw [hmap] at hforM
  have hfit := ((forM_diff_iff hs hk hmodels hnames).mp hforM).1
  have hdiffer := fieldsDiffer_of_mem_diff (s := before) fun m hm => (hmodels m hm).1
  have hcanFill := canFill_of_mem_diff hfill
  rw [← hmap] at hdiffer hcanFill
  rw [Migration.forwardAll_ok_iff hpath hs hseparate hdiffer hcanFill, hmap]
  exact allows_diff_iff hs hk hseparate hmodels hnames hapart hcolumns hfit

/-- A note with a rank of its own in place of its text. -/
def rankedNote : Model where
  app := "notes"
  name := "Note"
  table := "note"
  key := "id"
  fields := [("id", .ofKind .auto),
    ("rank", { Field.ofKind .integer with unique := true, default := some (.int 0) })]
  indexes := [("note_rank_idx", ["rank"])]

/-- SQLite builds the table of notes anew for the ranks, and labels come with them. -/
theorem notes_ranked : ∃ steps db,
    Operation.noteState.stepsOf (Operation.noteState.diff [rankedNote, labelModel]) = .ok steps ∧
      Migration.forwardAll (Catalog.backend .sqlite noteMoment)
        ((Operation.noteState.diff [rankedNote, labelModel]).zip steps)
        Operation.noteState.catalog = .ok () db := by
  have hrecorded : ∀ name m, noteState.model? name = some m → name = "Note" ∧ m = noteModel := by
    intro name m hm
    obtain ⟨hname, hm⟩ := Prod.mk.inj (List.mem_singleton.mp (Named.mem_of_get? hm))
    exact ⟨hname, hm⟩
  have htables : ∀ table, noteState.HasTable table → table = "note" := by
    rintro table ⟨name, m, hm, rfl⟩
    rw [(hrecorded name m hm).2]
    rfl
  have hfields : ∀ migration ∈ [noteMigration], migration.FieldsDiffer := by
    simp [noteMigration, Migration.FieldsDiffer, FieldsDiffer, noteModel, Named.names]
  have hdeclared : ∀ m ∈ [rankedNote, labelModel], m.DeclaredIn "notes" := by
    intro m hm
    rcases List.mem_pair.mp hm with rfl | rfl
    · exact ⟨⟨"Note", some "note", rankedNote.fields, rankedNote.indexes⟩, by decide, rfl⟩
    · exact ⟨⟨"Label", some "label", labelModel.fields, []⟩, by decide, rfl⟩
  have hapart : [rankedNote, labelModel].Pairwise Model.Apart := by
    refine List.pairwise_pair.mpr ⟨by decide, ?_⟩
    simp [labelModel, Named.names]
  have hfill : ∀ m ∈ [rankedNote, labelModel], ∀ prior, noteState.model? m.name = some prior →
      ∀ entry ∈ m.fieldsNotIn prior, Backend.CanFill noteMoment entry.2 := by
    intro m hm prior hprior entry hentry
    rcases List.mem_pair.mp hm with rfl | rfl
    · cases hprior
      rw [List.mem_singleton.mp hentry]
      exact .inr ⟨_, rfl⟩
    · cases hprior
  have hclear : noteState.Clear Dialect.sqlite.capabilities [rankedNote, labelModel] := by
    refine ⟨?_, ?_, ?_, ?_⟩
    · intro m hm hnone htable
      have hnote := htables _ htable
      rcases List.mem_pair.mp hm with rfl | rfl
      · cases hnone
      · exact absurd hnote (by decide)
    · intro earlier m _ name other hother _ _
      rw [(hrecorded name other hother).2]
      exact List.disjoint_nil_right _
    · intro m hm prior hprior
      rcases List.mem_pair.mp hm with rfl | rfl
      · cases hprior
        decide
      · cases hprior
    · intro earlier m hpart prior hprior _
      rw [(hrecorded _ prior hprior).2]
      refine ⟨fun htable => absurd (htables _ htable) (by decide), fun other hother _ => ?_⟩
      have hmem := hpart.subset (List.mem_append_left _ hother)
      rcases List.mem_pair.mp hmem with rfl | rfl
      · decide
      · decide
  obtain ⟨db, h⟩ := (diff_runs_iff .sqlite noteMoment hfields rfl separate_noteState hdeclared
    (by decide) hapart (by decide) rfl hfill).mpr hclear
  exact ⟨_, db, rfl, h⟩

/-- A model that takes the place of the notes, and their table. -/
def memoModel : Model := { noteModel with name := "Memo" }

/-- The table of the notes is created for the memos while the notes still have it, since models are
deleted last. The database refuses it. -/
theorem memos_refused : replay "notes" [noteMigration] = .ok noteState ∧ noteState.Separate ∧
    memoModel.DeclaredIn "notes" ∧ memoModel.columns.Nodup ∧
    ∃ steps, noteState.stepsOf (noteState.diff [memoModel]) = .ok steps ∧
      ¬∃ db, Migration.forwardAll (Catalog.backend .sqlite noteMoment)
        ((noteState.diff [memoModel]).zip steps) noteState.catalog = .ok () db := by
  refine ⟨rfl, separate_noteState,
    ⟨⟨"Memo", some "note", memoModel.fields, []⟩, by decide, rfl⟩, by decide, _, rfl, ?_⟩
  rintro ⟨db, h⟩
  cases h

end AppSchema

end SchemaHistory
