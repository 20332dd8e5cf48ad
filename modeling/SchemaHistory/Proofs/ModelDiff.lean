import SchemaHistory.Proofs.DeclaredModels

/-!
# Leading one model to another

`Model.changes` removes indexes, removes fields, adds fields and adds indexes, in this order, so
that no field is removed while an index is over it and no index is added before its fields. What
stands in the way is a key: operations neither add nor remove one, so they get there if each of the
two models has the field that is the key of the other (`Model.editsAll_changes_iff`). `Model.ledTo`
is where they get.
-/

namespace SchemaHistory

namespace Operation

variable {app model : String} {m : Model} {r : Option Model}

/-! ### Several edits of one kind -/

/-- Indexes that are there are removed one by one. -/
theorem editsAll_removeIndexes {names : List String} (hnames : names.Nodup)
    (hthere : ∀ index ∈ names, index ∈ m.indexes.names) :
    EditsAll app (names.map (.removeIndex model)) (some m)
      (some { m with indexes := m.indexes.filter fun entry => entry.1 ∉ names }) := by
  induction names generalizing m with
  | nil =>
      have hall : (m.indexes.filter fun entry => entry.1 ∉ []) = m.indexes := by simp
      rw [hall]
      exact .nil _
  | cons index rest ih =>
      obtain ⟨hnot, hrest⟩ := List.nodup_cons.mp hnames
      obtain ⟨hindex, hothers⟩ := List.forall_mem_cons.mp hthere
      have hleft : ∀ other ∈ rest, other ∈ (m.indexes.erase index).names := by
        intro other hother
        rw [Named.names_erase, List.mem_filter, decide_eq_true_eq]
        exact ⟨hothers other hother, fun heq => hnot (heq ▸ hother)⟩
      rw [← Named.filter_erase]
      exact .cons (.removeIndex hindex) (ih hrest hleft)

/-- Fields that no index covers are removed exactly if the key is not among them. -/
theorem editsAll_removeFields_iff {names : List String} (hnames : names.Nodup)
    (hthere : ∀ name ∈ names, name ∈ m.fields.names)
    (hindexed : ∀ name ∈ names, m.isIndexed name = false) :
    EditsAll app (if names.isEmpty then [] else [.removeFields model names]) (some m) r ↔
      m.key ∉ names ∧
        r = some { m with fields := m.fields.filter fun entry => entry.1 ∉ names } := by
  cases names with
  | nil =>
      have hall : (m.fields.filter fun entry => entry.1 ∉ []) = m.fields := by simp
      rw [hall]
      constructor
      · intro h
        cases h
        exact ⟨List.not_mem_nil, rfl⟩
      · rintro ⟨-, rfl⟩
        exact .nil _
  | cons name rest =>
      constructor
      · intro h
        obtain ⟨r', hedit, hnil⟩ := editsAll_cons.mp h
        cases hnil
        cases hedit with
        | removeFields _ _ hkey _ => exact ⟨hkey, rfl⟩
      · rintro ⟨hkey, rfl⟩
        exact .cons (.removeFields hnames hthere hkey hindexed) (.nil _)

/-- New fields are added exactly if none of them is a key. -/
theorem editsAll_addFields_iff {fields : Fields} (hnames : fields.names.Nodup)
    (hapart : List.Disjoint m.fields.names fields.names) :
    EditsAll app (if fields.isEmpty then [] else [.addFields model fields]) (some m) r ↔
      (∀ entry ∈ fields, entry.2.isPrimaryKey = false) ∧
        r = some { m with fields := m.fields ++ fields } := by
  cases fields with
  | nil =>
      rw [List.append_nil]
      constructor
      · intro h
        cases h
        exact ⟨by simp, rfl⟩
      · rintro ⟨-, rfl⟩
        exact .nil _
  | cons entry rest =>
      constructor
      · intro h
        obtain ⟨r', hedit, hnil⟩ := editsAll_cons.mp h
        cases hnil
        cases hedit with
        | addFields _ _ hkeys => exact ⟨hkeys, rfl⟩
      · rintro ⟨hkeys, rfl⟩
        exact .cons (.addFields hnames hapart hkeys) (.nil _)

/-- Indexes over fields that are there are added one by one. -/
theorem editsAll_addIndexes {more : Indexes} (hnames : more.names.Nodup)
    (hnew : ∀ index ∈ more.names, m.indexes.get? index = none)
    (hfields : ∀ entry ∈ more, entry.2 ≠ [] ∧ ∀ field ∈ entry.2, field ∈ m.fields.names) :
    EditsAll app (more.map fun (index, fields) => .addIndex model index fields) (some m)
      (some { m with indexes := Named.insertAll more m.indexes }) := by
  induction more generalizing m with
  | nil => exact .nil _
  | cons entry rest ih =>
      obtain ⟨hnot, hrest⟩ := List.nodup_cons.mp hnames
      obtain ⟨hfirst, hlater⟩ := List.forall_mem_cons.mp hnew
      obtain ⟨⟨hempty, hover⟩, hothers⟩ := List.forall_mem_cons.mp hfields
      refine .cons (.addIndex hfirst hempty hover)
        (ih (m := { m with indexes := m.indexes.insert entry.1 entry.2 }) hrest ?_ hothers)
      intro index hindex
      have hne : entry.1 ≠ index := by
        rintro rfl
        exact hnot hindex
      rw [Named.get?_insert_ne hne]
      exact hlater index hindex

end Operation

namespace Model

/-! ### One model -/

/-- Each of two models has the field that is the key of the other. -/
structure KeysFit (prior declared : Model) : Prop where
  kept : prior.key ∈ declared.fields.names
  known : declared.key ∈ prior.fields.names

/-- The fields that both models have, as the first one has them. -/
def keptFields (prior declared : Model) : Fields :=
  prior.fields.filter fun entry => entry.1 ∈ declared.fields.names

/-- The indexes that both models have in the same way. -/
def keptIndexes (prior declared : Model) : Indexes :=
  prior.indexes.filter fun entry => entry.1 ∉ (prior.indexesNotIn declared).names

/-- A recorded model when it was led to a declared one: the fields that both have as they are
recorded, then the declared fields that are new, and the declared indexes. -/
def ledTo (prior declared : Model) : Model :=
  { prior with
    fields := prior.keptFields declared ++ declared.fieldsNotIn prior
    indexes := declared.indexes }

variable {app index name : String} {m prior declared : Model} {r : Option Model}

theorem mem_names_fieldsNotIn {other : Model} :
    name ∈ (m.fieldsNotIn other).names ↔ name ∈ m.fields.names ∧ name ∉ other.fields.names := by
  rw [fieldsNotIn, Named.mem_names_filter fun name => !other.fields.has name,
    Bool.not_eq_true', Named.has_eq_false_iff, Named.get?_eq_none_iff]

/-- The fields that another model lacks, by their names. -/
theorem fieldsNotIn_eq (m other : Model) :
    m.fieldsNotIn other = m.fields.filter fun entry => entry.1 ∉ other.fields.names := by
  apply List.filter_congr
  rintro ⟨name, field⟩ _
  cases h : other.fields.has name with
  | true => simp [h, Named.mem_names_iff.mpr (Named.has_eq_true_iff.mp h)]
  | false => simp [h, Named.get?_eq_none_iff.mp (Named.has_eq_false_iff.mp h)]

theorem Sound.nodup_fieldsNotIn {other : Model} (h : m.Sound) : (m.fieldsNotIn other).names.Nodup :=
  h.fields.sublist (List.filter_sublist.map _)

theorem Sound.nodup_indexesNotIn {other : Model} (h : m.Sound) :
    (m.indexesNotIn other).names.Nodup :=
  h.indexes.nodup_names.sublist (List.filter_sublist.map _)

/-- Fields of both models are kept. -/
theorem mem_names_keptFields :
    name ∈ (prior.keptFields declared).names ↔
      name ∈ prior.fields.names ∧ name ∈ declared.fields.names := by
  rw [keptFields, Named.mem_names_filter fun name => decide (name ∈ declared.fields.names),
    decide_eq_true_eq]

/-- A model that was led to a declared one has the declared fields. -/
theorem mem_names_ledTo :
    name ∈ (prior.ledTo declared).fields.names ↔ name ∈ declared.fields.names := by
  rw [ledTo, Named.names_append, List.mem_append, mem_names_keptFields, mem_names_fieldsNotIn]
  tauto

/-- The model that the changes lead to is sound. -/
theorem Sound.ledTo (hprior : prior.Sound) (hdeclared : declared.Sound) :
    (prior.ledTo declared).Sound where
  fields := by
    rw [Model.ledTo, Named.names_append, List.nodup_append']
    refine ⟨hprior.fields.sublist (List.filter_sublist.map _), hdeclared.nodup_fieldsNotIn, ?_⟩
    intro name hkept hnew
    exact (mem_names_fieldsNotIn.mp hnew).2 (mem_names_keptFields.mp hkept).1
  indexes := hdeclared.indexes
  indexed := fun index covered hget field hfield =>
    mem_names_ledTo.mpr (hdeclared.indexed index covered hget field hfield)

/-- What is kept is what is not removed. -/
theorem filter_fieldsNotIn :
    (prior.fields.filter fun entry => entry.1 ∉ (prior.fieldsNotIn declared).names)
      = prior.keptFields declared := by
  apply List.filter_congr
  intro entry hentry
  have hname : entry.1 ∈ prior.fields.names := List.mem_map_of_mem hentry
  simp [mem_names_fieldsNotIn, hname]

/-- An index differs if the other model has none of its name or one over other fields. -/
theorem Sound.mem_names_indexesNotIn {other : Model} (h : m.Sound) :
    index ∈ (m.indexesNotIn other).names ↔
      index ∈ m.indexes.names ∧ m.indexes.get? index ≠ other.indexes.get? index := by
  rw [Named.mem_names_iff, indexesNotIn, Named.mem_names_iff]
  simp only [Named.get?_filter _ h.indexes.nodup_names, Option.filter_eq_some_iff]
  constructor
  · rintro ⟨fields, hget, hother⟩
    refine ⟨⟨fields, hget⟩, ?_⟩
    rw [hget]
    exact fun heq => of_decide_eq_true hother heq.symm
  · rintro ⟨⟨fields, hget⟩, hother⟩
    rw [hget] at hother
    exact ⟨fields, hget, decide_eq_true fun heq => hother heq.symm⟩

/-- Indexes over the same fields in both models are kept. -/
theorem Sound.get?_keptIndexes (hprior : prior.Sound) {covered : List String} :
    (prior.keptIndexes declared).get? index = some covered ↔
      prior.indexes.get? index = some covered ∧ declared.indexes.get? index = some covered := by
  rw [keptIndexes, Named.get?_filter _ hprior.indexes.nodup_names, Option.filter_eq_some_iff,
    decide_eq_true_eq, hprior.mem_names_indexesNotIn]
  constructor
  · rintro ⟨hget, hkept⟩
    rw [not_and_not_right] at hkept
    exact ⟨hget, hkept (Named.mem_names_iff.mpr ⟨covered, hget⟩) ▸ hget⟩
  · rintro ⟨hget, hdeclared⟩
    exact ⟨hget, fun h => h.2 (hget.trans hdeclared.symm)⟩

theorem Sound.ordered_keptIndexes (hprior : prior.Sound) : (prior.keptIndexes declared).Ordered :=
  hprior.indexes.filter _

/-- The indexes that are kept together with those that are created are the declared ones. -/
theorem insertAll_keptIndexes (hprior : prior.Sound) (hdeclared : declared.Sound) :
    Named.insertAll (declared.indexesNotIn prior) (prior.keptIndexes declared)
      = declared.indexes := by
  refine Named.Ordered.ext hprior.ordered_keptIndexes.insertAll hdeclared.indexes fun index => ?_
  rw [Named.get?_insertAll hdeclared.nodup_indexesNotIn]
  ext covered
  rw [Option.or_eq_some_iff, hprior.get?_keptIndexes, indexesNotIn,
    Named.get?_filter _ hdeclared.indexes.nodup_names]
  simp only [Option.filter_eq_some_iff, Option.filter_eq_none_iff, decide_eq_true_eq]
  constructor
  · rintro (⟨hget, -⟩ | ⟨-, -, hget⟩)
    · exact hget
    · exact hget
  · intro hget
    by_cases h : prior.indexes.get? index = some covered
    · refine Or.inr ⟨fun fields hfields => ?_, h, hget⟩
      obtain rfl := Option.some.inj (hget.symm.trans hfields)
      simpa using h
    · exact Or.inl ⟨hget, h⟩

/-! The changes of a model in four stages. -/

/-- The changes from one model to another: indexes are dropped, fields removed, fields added and
indexes created. -/
theorem changes_eq (prior declared : Model) : prior.changes declared =
    (prior.indexesNotIn declared).names.map (.removeIndex declared.name) ++
    (if (prior.fieldsNotIn declared).names.isEmpty then []
      else [.removeFields declared.name (prior.fieldsNotIn declared).names]) ++
    (if (declared.fieldsNotIn prior).isEmpty then []
      else [.addFields declared.name (declared.fieldsNotIn prior)]) ++
    (declared.indexesNotIn prior).map fun (index, fields) =>
      .addIndex declared.name index fields := by
  simp [changes, Named.names]

/-- Dropping the indexes that differ leaves those that are kept. -/
theorem editsAll_dropIndexes (hprior : prior.Sound) :
    Operation.EditsAll app
      ((prior.indexesNotIn declared).names.map (.removeIndex declared.name)) (some prior)
      (some { prior with indexes := prior.keptIndexes declared }) :=
  Operation.editsAll_removeIndexes hprior.nodup_indexesNotIn fun _ hindex =>
    (hprior.mem_names_indexesNotIn.mp hindex).1

/-- The fields are removed unless the key is one of them. -/
theorem editsAll_dropFields_iff (hprior : prior.Sound) (hpkeyed : prior.Keyed app)
    (hdeclared : declared.Sound) :
    Operation.EditsAll app
      (if (prior.fieldsNotIn declared).names.isEmpty then []
        else [.removeFields declared.name (prior.fieldsNotIn declared).names])
      (some { prior with indexes := prior.keptIndexes declared }) r ↔
      prior.key ∈ declared.fields.names ∧
        r = some { prior with
          fields := prior.keptFields declared, indexes := prior.keptIndexes declared } := by
  have hkey : prior.key ∉ (prior.fieldsNotIn declared).names ↔
      prior.key ∈ declared.fields.names := by
    rw [mem_names_fieldsNotIn, not_and_not_right]
    exact ⟨fun h => h hpkeyed.key_mem, fun h _ => h⟩
  rw [Operation.editsAll_removeFields_iff hprior.nodup_fieldsNotIn, hkey, filter_fieldsNotIn]
  · exact fun name hname => (mem_names_fieldsNotIn.mp hname).1
  · -- an index that is kept is declared as well, so all its fields are declared
    intro name hname
    rw [isIndexed, List.any_eq_false]
    intro entry hentry hover
    have hget := Named.get?_of_mem hprior.ordered_keptIndexes.nodup_names hentry
    exact (mem_names_fieldsNotIn.mp hname).2 (hdeclared.indexed _ _
      (hprior.get?_keptIndexes.mp hget).2 name (List.contains_iff_mem.mp hover))

/-- The new fields are added unless the declared key is one of them. -/
theorem editsAll_addFields_iff (hdeclared : declared.Sound) (hdkeyed : declared.Keyed app) :
    Operation.EditsAll app
      (if (declared.fieldsNotIn prior).isEmpty then []
        else [.addFields declared.name (declared.fieldsNotIn prior)])
      (some { prior with
        fields := prior.keptFields declared, indexes := prior.keptIndexes declared }) r ↔
      declared.key ∈ prior.fields.names ∧
        r = some { prior.ledTo declared with indexes := prior.keptIndexes declared } := by
  have hkey : (∀ entry ∈ declared.fieldsNotIn prior, entry.2.isPrimaryKey = false) ↔
      declared.key ∈ prior.fields.names := by
    constructor
    · intro h
      obtain ⟨field, hfield⟩ := Named.mem_names_iff.mp hdkeyed.key_mem
      have hentry := Named.mem_of_get? hfield
      by_contra hnot
      have hnew : prior.fields.has declared.key = false :=
        Named.has_eq_false_iff.mpr (Named.get?_eq_none_iff.mpr hnot)
      have hkey := h _ (List.mem_filter.mpr ⟨hentry, by simpa using hnew⟩)
      rw [(hdkeyed.isPrimaryKey_iff hdeclared.fields hentry).mpr rfl] at hkey
      cases hkey
    · intro h entry hentry
      rw [← Bool.not_eq_true,
        hdkeyed.isPrimaryKey_iff hdeclared.fields (List.mem_filter.mp hentry).1]
      rintro heq
      exact (mem_names_fieldsNotIn.mp (List.mem_map_of_mem hentry)).2 (heq ▸ h)
  rw [Operation.editsAll_addFields_iff hdeclared.nodup_fieldsNotIn, hkey]
  · rfl
  · intro name hname hnew
    exact (mem_names_fieldsNotIn.mp hnew).2 (mem_names_keptFields.mp hname).1

/-- Creating the indexes that differ gives those that are declared. -/
theorem editsAll_createIndexes (hprior : prior.Sound) (hdeclared : declared.Sound)
    (hdkeyed : declared.Keyed app) :
    Operation.EditsAll app
      ((declared.indexesNotIn prior).map fun (index, fields) =>
        .addIndex declared.name index fields)
      (some { prior.ledTo declared with indexes := prior.keptIndexes declared })
      (some (prior.ledTo declared)) := by
  have hreached : prior.ledTo declared = { prior.ledTo declared with
      indexes := Named.insertAll (declared.indexesNotIn prior) (prior.keptIndexes declared) } := by
    rw [insertAll_keptIndexes hprior hdeclared]
    rfl
  conv => arg 4; rw [hreached]
  refine Operation.editsAll_addIndexes hdeclared.nodup_indexesNotIn ?_ ?_
  · intro index hindex
    rw [Option.eq_none_iff_forall_ne_some]
    intro covered hget
    obtain ⟨hold, hnew⟩ := hprior.get?_keptIndexes.mp hget
    exact (hdeclared.mem_names_indexesNotIn.mp hindex).2 (hnew.trans hold.symm)
  · intro entry hentry
    have hget := Named.get?_of_mem hdeclared.indexes.nodup_names (List.mem_filter.mp hentry).1
    refine ⟨hdkeyed.covering _ _ hget, fun field hfield => ?_⟩
    exact mem_names_ledTo.mpr (hdeclared.indexed _ _ hget field hfield)

/-- The changes lead to the declared model where both models know the key of the other one, and are
refused where they do not. -/
theorem editsAll_changes_iff (hprior : prior.Sound) (hpkeyed : prior.Keyed app)
    (hdeclared : declared.Sound) (hdkeyed : declared.Keyed app) :
    Operation.EditsAll app (prior.changes declared) (some prior) r ↔
      prior.KeysFit declared ∧ r = some (prior.ledTo declared) := by
  rw [changes_eq]
  constructor
  · intro h
    obtain ⟨r₃, h, h₄⟩ := Operation.editsAll_append.mp h
    obtain ⟨r₂, h, h₃⟩ := Operation.editsAll_append.mp h
    obtain ⟨r₁, h₁, h₂⟩ := Operation.editsAll_append.mp h
    obtain rfl := h₁.unique (editsAll_dropIndexes hprior)
    obtain ⟨hkept, rfl⟩ := (editsAll_dropFields_iff hprior hpkeyed hdeclared).mp h₂
    obtain ⟨hknown, rfl⟩ := (editsAll_addFields_iff hdeclared hdkeyed).mp h₃
    exact ⟨⟨hkept, hknown⟩, h₄.unique (editsAll_createIndexes hprior hdeclared hdkeyed)⟩
  · rintro ⟨⟨hkept, hknown⟩, rfl⟩
    have h₂ := (editsAll_dropFields_iff hprior hpkeyed hdeclared).mpr ⟨hkept, rfl⟩
    have h₃ := (editsAll_addFields_iff hdeclared hdkeyed).mpr ⟨hknown, rfl⟩
    have h₁₂ := Operation.editsAll_append.mpr ⟨_, editsAll_dropIndexes hprior, h₂⟩
    have h₁₂₃ := Operation.editsAll_append.mpr ⟨_, h₁₂, h₃⟩
    exact Operation.editsAll_append.mpr
      ⟨_, h₁₂₃, editsAll_createIndexes hprior hdeclared hdkeyed⟩

/-- A model that is created is as it is declared. -/
theorem editsAll_creation_iff (hdeclared : declared.Sound) (hdkeyed : declared.Keyed app) :
    Operation.EditsAll app declared.creation none r ↔ r = some declared := by
  have hcreated : Operation.EditsAll app declared.creation none (some declared) := by
    let bare : Model := { declared with indexes := [] }
    have htable : (if declared.hasUsualTable then none else some declared.table).getD
        (usualTable app declared.name) = declared.table := by
      cases h : declared.hasUsualTable with
      | true =>
          rw [if_pos rfl, ← hdkeyed.app_eq]
          exact (eq_of_beq h).symm
      | false => rfl
    have hbare : ofParts app declared.name declared.table declared.fields [] = .ok bare := by
      unfold ofParts
      rw [hdkeyed.keys, ← hdkeyed.app_eq]
      rfl
    have hall : Named.insertAll declared.indexes bare.indexes = declared.indexes := by
      refine Named.Ordered.ext (Named.Ordered.insertAll Named.ordered_nil) hdeclared.indexes
        fun index => ?_
      rw [Named.get?_insertAll hdeclared.indexes.nodup_names, Named.get?_nil, Option.or_none]
    have hover : ∀ entry ∈ declared.indexes,
        entry.2 ≠ [] ∧ ∀ field ∈ entry.2, field ∈ bare.fields.names := by
      intro entry hentry
      have hget := Named.get?_of_mem hdeclared.indexes.nodup_names hentry
      exact ⟨hdkeyed.covering _ _ hget, hdeclared.indexed _ _ hget⟩
    have hindexes : Operation.EditsAll app
        (declared.indexes.map fun (index, fields) => .addIndex declared.name index fields)
        (some bare) (some { bare with indexes := Named.insertAll declared.indexes bare.indexes }) :=
      Operation.editsAll_addIndexes hdeclared.indexes.nodup_names (fun _ _ => rfl) hover
    rw [hall] at hindexes
    rw [← htable] at hbare
    exact .cons (.createModel hbare) hindexes
  constructor
  · intro h
    exact h.unique hcreated
  · rintro rfl
    exact hcreated

/-! ### Nothing left to do -/

theorem fieldsNotIn_eq_nil {other : Model}
    (h : ∀ name ∈ m.fields.names, name ∈ other.fields.names) : m.fieldsNotIn other = [] := by
  rw [fieldsNotIn, List.filter_eq_nil_iff]
  rintro ⟨name, field⟩ hentry
  have hthere : other.fields.has name = true :=
    Named.has_eq_true_iff.mpr (Named.mem_names_iff.mp (h name (List.mem_map_of_mem hentry)))
  simp [hthere]

theorem Sound.indexesNotIn_eq_nil {other : Model} (h : m.Sound)
    (hsame : m.indexes = other.indexes) :
    m.indexesNotIn other = [] := by
  rw [indexesNotIn, List.filter_eq_nil_iff]
  rintro ⟨index, covered⟩ hentry
  simp [← hsame, Named.get?_of_mem h.indexes.nodup_names hentry]

/-- A model with the declared fields and the declared indexes is left as it is. -/
theorem changes_eq_nil (hdeclared : declared.Sound) (hm : m.Sound)
    (hfields : ∀ name, name ∈ m.fields.names ↔ name ∈ declared.fields.names)
    (hindexes : m.indexes = declared.indexes) : m.changes declared = [] := by
  rw [changes, fieldsNotIn_eq_nil fun name => (hfields name).mp,
    fieldsNotIn_eq_nil fun name => (hfields name).mpr, hm.indexesNotIn_eq_nil hindexes,
    hdeclared.indexesNotIn_eq_nil hindexes.symm]
  rfl

end Model

end SchemaHistory
