import SchemaHistory.Proofs.AllowedOperations
import SchemaHistory.Proofs.ReachDeclared

/-!
# Operations one after the other that a database allows

`AppSchema.Allows` says of states alone that the database with exactly the tables and indexes of a
state goes along with some operations: each of them goes through where the ones before it have led
(`Migration.forwardAll_ok_iff`).

The operations that lead one model to another pass through other models on the way. These have no
table and no index that neither the first nor the last model has, so what decides is where the
operations lead, and whether there is room for the table if they build it anew
(`AppSchema.allows_changes_iff`).
-/

namespace SchemaHistory

namespace AppSchema

open Operation

/-- The operations can be applied one after the other, each leads to a state that a database can
hold, and there is room for every table that is built anew. -/
inductive Allows (capabilities : Capabilities) : AppSchema → List Operation → Prop where
  | nil (s : AppSchema) : Allows capabilities s []
  | cons {operation : Operation} {rest : List Operation} {s t : AppSchema} :
      operation.apply s = .ok () t → t.Separate → operation.HasRoom capabilities s →
      Allows capabilities t rest → Allows capabilities s (operation :: rest)

variable {capabilities : Capabilities} {dialect : Dialect} {now : DateTime}
  {s t u : AppSchema} {operation : Operation} {first rest operations : List Operation}

/-- What one step has to meet, and then the rest from the state it leads to. -/
theorem allows_cons (happly : operation.apply s = .ok () t) :
    s.Allows capabilities (operation :: rest) ↔
      t.Separate ∧ operation.HasRoom capabilities s ∧ t.Allows capabilities rest := by
  constructor
  · intro h
    cases h with
    | cons happly' hseparate hroom hrest =>
        cases happly.symm.trans happly'
        exact ⟨hseparate, hroom, hrest⟩
  · rintro ⟨hseparate, hroom, hrest⟩
    exact .cons happly hseparate hroom hrest

/-- A run is allowed if its first part is, and the rest from where the first part leads to. -/
theorem allows_append (h : first.forM apply s = .ok () t) :
    s.Allows capabilities (first ++ rest) ↔
      s.Allows capabilities first ∧ t.Allows capabilities rest := by
  induction first generalizing s with
  | nil =>
      obtain rfl := forM_nil_eq_ok.mp h
      exact ⟨fun hrest => ⟨.nil s, hrest⟩, And.right⟩
  | cons operation first ih =>
      obtain ⟨between, happly, h⟩ := forM_cons_eq_ok.mp h
      rw [List.cons_append, allows_cons happly, allows_cons happly, ih h, and_assoc, and_assoc]

/-- What is allowed leads to a state that a database can hold. -/
theorem Allows.separate (h : s.Allows capabilities operations) (hs : s.Separate)
    (hforM : operations.forM apply s = .ok () t) : t.Separate := by
  induction h with
  | nil =>
      obtain rfl := forM_nil_eq_ok.mp hforM
      exact hs
  | cons happly hseparate _ _ ih =>
      obtain ⟨between, happly', hforM⟩ := forM_cons_eq_ok.mp hforM
      cases happly.symm.trans happly'
      exact ih hseparate hforM

/-- Where at most one operation comes, it decides. -/
theorem allows_unless_iff {c : Prop} [Decidable c] (hs : s.Separate)
    (h : (if c then [] else [operation]).forM apply s = .ok () t) :
    s.Allows capabilities (if c then [] else [operation]) ↔
      t.Separate ∧ (¬c → operation.HasRoom capabilities s) := by
  split at h
  · next hc =>
      obtain rfl := forM_nil_eq_ok.mp h
      rw [if_pos hc]
      exact ⟨fun _ => ⟨hs, fun hnot => absurd hc hnot⟩, fun _ => .nil s⟩
  · next hc =>
      obtain ⟨between, happly, hnil⟩ := forM_cons_eq_ok.mp h
      obtain rfl := forM_nil_eq_ok.mp hnil
      rw [if_neg hc, allows_cons happly]
      exact ⟨fun ⟨hseparate, hroom, _⟩ => ⟨hseparate, fun _ => hroom⟩,
        fun ⟨hseparate, hroom⟩ => ⟨hseparate, hroom hc, .nil _⟩⟩

end AppSchema

/-! ### Carrying out what is allowed -/

/-- On the catalog of a state an operation that goes well leads to the catalog of the next state. -/
theorem Operation.forward_eq_catalog {operation : Operation} {before after : AppSchema}
    {dialect : Dialect} {now : DateTime} {db : Catalog} (hs : before.Sound)
    (happly : operation.Applies before after) (hafter : after.Sound) (hsep : before.Separate)
    (h : operation.forward (Catalog.backend dialect now)
      ⟨before, after⟩ before.catalog = .ok () db) :
    db = after.catalog :=
  (forward_held Catalog.likeness_eq (Catalog.carries_backend dialect now) hs happly hafter
    ⟨hsep, Catalog.Like.refl Catalog.likeness_eq _⟩ h).1.like.eq

/-- The database that has exactly the tables and indexes of a state goes along with the operations
of a path exactly if they are allowed. -/
theorem Migration.forwardAll_ok_iff {s u : AppSchema} {steps : Steps} {dialect : Dialect}
    {now : DateTime} (hpath : AppSchema.Path s steps u) (hs : s.Sound) (hsep : s.Separate)
    (hfields : ∀ operation ∈ steps.map (·.1), operation.FieldsDiffer)
    (hfill : ∀ operation ∈ steps.map (·.1), operation.CanFill now) :
    (∃ db, forwardAll (Catalog.backend dialect now) steps s.catalog = .ok () db) ↔
      s.Allows dialect.capabilities (steps.map (·.1)) := by
  induction hpath with
  | nil s => exact ⟨fun _ => .nil s, fun _ => ⟨_, forM_nil_eq_ok.mpr rfl⟩⟩
  | @cons operation rest s t u happly _ ih =>
      obtain ⟨hdiffer, hfields⟩ := List.forall_mem_cons.mp hfields
      obtain ⟨hcanFill, hfill⟩ := List.forall_mem_cons.mp hfill
      have hstep := Operation.applies_of_ok hs happly
      have hafter := hstep.sound hs hdiffer
      rw [List.map_cons, AppSchema.allows_cons happly]
      constructor
      · rintro ⟨db, h⟩
        obtain ⟨between, hforward, h⟩ := forM_cons_eq_ok.mp h
        obtain ⟨hseparate, hroom⟩ := (Operation.forward_ok_iff hs hstep hafter hsep hcanFill).mp
          ⟨between, hforward⟩
        obtain rfl := Operation.forward_eq_catalog hs hstep hafter hsep hforward
        exact ⟨hseparate, hroom, (ih hafter hseparate hfields hfill).mp ⟨db, h⟩⟩
      · rintro ⟨hseparate, hroom, hrest⟩
        obtain ⟨between, hforward⟩ := (Operation.forward_ok_iff hs hstep hafter hsep hcanFill).mpr
          ⟨hseparate, hroom⟩
        obtain rfl := Operation.forward_eq_catalog hs hstep hafter hsep hforward
        obtain ⟨db, h⟩ := (ih hafter hseparate hfields hfill).mpr hrest
        exact ⟨db, forM_cons_eq_ok.mpr ⟨_, hforward, h⟩⟩

/-! ### Operations on one model -/

/-- The model has the table and the fields of another one, and no index that this does not have. -/
structure Model.Below (m m' : Model) : Prop where
  name : m.name = m'.name
  table : m.table = m'.table
  fields : m.fields = m'.fields
  indexes : m.indexes.names ⊆ m'.indexes.names

theorem Model.Below.refl (m : Model) : m.Below m := ⟨rfl, rfl, rfl, List.Subset.refl _⟩

theorem Model.Below.trans {m m' m'' : Model} (h : m.Below m') (h' : m'.Below m'') : m.Below m'' :=
  ⟨h.name.trans h'.name, h.table.trans h'.table, h.fields.trans h'.fields,
    fun _ hi => h'.indexes (h.indexes hi)⟩

namespace AppSchema

open Operation Model

variable {capabilities : Capabilities} {app name table : String} {s t u : AppSchema}
  {m m' final prior declared : Model} {operation : Operation} {operations : List Operation}

/-- A model keeps apart from the others if one with the same table and more indexes does. -/
theorem Separate.of_subset (h : (u.withModel m').Separate) (hname : m.name = m'.name)
    (htable : m.table = m'.table) (hindexes : m.indexes.names ⊆ m'.indexes.names)
    (hcolumns : m.columns.Nodup) : (u.withModel m).Separate := by
  have hself : (u.withModel m').model? m.name = some m' := by
    rw [hname]
    exact model?_withModel_self
  have hother : ∀ name other, m.name ≠ name → u.model? name = some other →
      (u.withModel m').model? name = some other := by
    intro name other hne hmodel
    rw [model?_withModel, ← hname, if_neg hne]
    exact hmodel
  have hapart : ∀ name other, m.name ≠ name → u.model? name = some other → m.Apart other := by
    intro name other hne hmodel
    obtain ⟨htables, hdisjoint⟩ := h.apart _ _ _ _ hself (hother _ _ hne hmodel) hne
    exact ⟨htable ▸ htables, fun index hindex => hdisjoint (hindexes hindex)⟩
  constructor
  · intro name₁ m₁ name₂ m₂ h₁ h₂ hne
    rw [model?_withModel] at h₁ h₂
    split at h₁
    · next hname₁ =>
        cases h₁
        rw [if_neg (hname₁ ▸ hne)] at h₂
        exact hapart _ _ (hname₁ ▸ hne) h₂
    · next hname₁ =>
        split at h₂
        · cases h₂
          exact (hapart _ _ hname₁ h₁).symm
        · next hname₂ => exact h.apart _ _ _ _ (hother _ _ hname₁ h₁) (hother _ _ hname₂ h₂) hne
  · intro name₁ m₁ h₁
    rw [model?_withModel] at h₁
    split at h₁
    · cases h₁
      exact hcolumns
    · next hname₁ => exact h.columns _ _ (hother _ _ hname₁ h₁)

theorem Separate.of_below (h : (u.withModel m').Separate) (hbelow : m.Below m') :
    (u.withModel m).Separate := by
  refine h.of_subset hbelow.name hbelow.table hbelow.indexes ?_
  have hcolumns : m.columns = m'.columns := by rw [Model.columns, Model.columns, hbelow.fields]
  rw [hcolumns]
  exact h.columns _ _ model?_withModel_self

/-- A model that keeps its table takes the name of no other one. -/
theorem hasTable_withModel (hm : u.model? m'.name = some m) (htable : m'.table = m.table) :
    (u.withModel m').HasTable table ↔ u.HasTable table := by
  constructor
  · rintro ⟨name, other, hother, rfl⟩
    rw [model?_withModel] at hother
    split at hother
    · cases hother
      exact ⟨_, m, hm, htable.symm⟩
    · exact ⟨name, other, hother, rfl⟩
  · rintro ⟨name, other, hother, rfl⟩
    by_cases hname : m'.name = name
    · subst hname
      rw [hm] at hother
      cases hother
      exact ⟨_, m', model?_withModel_self, htable⟩
    · exact ⟨name, other, by rw [model?_withModel, if_neg hname, hother], rfl⟩

theorem apply_of_edits (hu : u.Sound) (hm : u.model? operation.model = some m)
    (hedit : operation.Edits u.app (some m) (some m')) :
    operation.apply u = .ok () (u.withModel m') :=
  (apply_eq_ok_iff hu).mpr ⟨some m', by rwa [hm], rfl⟩

/-- Removing indexes is allowed. -/
theorem allows_removeIndexes (hu : u.Sound) (hsep : u.Separate) (hm : u.model? name = some m)
    (h : EditsAll u.app operations (some m) (some m'))
    (hremove : ∀ operation ∈ operations, ∃ index, operation = .removeIndex name index) :
    u.Allows capabilities operations := by
  induction operations generalizing u m with
  | nil => exact .nil u
  | cons operation rest ih =>
      obtain rfl := hu.name_eq _ _ hm
      obtain ⟨r, hedit, hrest⟩ := editsAll_cons.mp h
      obtain ⟨⟨index, rfl⟩, hothers⟩ := List.forall_mem_cons.mp hremove
      cases hedit with
      | removeIndex hindex =>
          have hbelow : Below { m with indexes := m.indexes.erase index } m := by
            refine ⟨rfl, rfl, rfl, ?_⟩
            rw [Named.names_erase]
            exact List.filter_sublist.subset
          have hkept : (u.withModel m).Separate := by rwa [hu.withModel_self hm]
          have hchange : m.Changes (.removeIndex m.name index) _ := .removeIndex hindex
          have hsep' := hkept.of_below hbelow
          exact .cons (apply_of_edits hu hm (.removeIndex hindex)) hsep' (hasRoom_of_not_renews rfl)
            (ih (hu.withModel (hchange.sound (hu.model _ _ hm))) hsep' model?_withModel_self hrest
              hothers)

/-- Adding indexes leads to a model that is above the one before. -/
theorem below_of_addIndexes {r : Option Model} (h : EditsAll app operations (some m) r)
    (hadd : ∀ operation ∈ operations, ∃ index fields, operation = .addIndex name index fields) :
    ∃ final, r = some final ∧ m.Below final := by
  induction operations generalizing m with
  | nil =>
      cases h
      exact ⟨m, rfl, Below.refl m⟩
  | cons operation rest ih =>
      obtain ⟨r', hedit, hrest⟩ := editsAll_cons.mp h
      obtain ⟨⟨index, fields, rfl⟩, hothers⟩ := List.forall_mem_cons.mp hadd
      cases hedit with
      | addIndex =>
          obtain ⟨final, rfl, hbelow⟩ := ih hrest hothers
          have hgrown : m.Below { m with indexes := m.indexes.insert index fields } :=
            ⟨rfl, rfl, rfl, fun other hother => Named.mem_names_insert.mpr (.inr hother)⟩
          exact ⟨final, rfl, hgrown.trans hbelow⟩

theorem exists_addIndex_of_mem (name : String) (more : Indexes) :
    ∀ operation ∈ more.map fun (index, fields) => Operation.addIndex name index fields,
      ∃ index fields, operation = .addIndex name index fields := by
  intro operation hoperation
  obtain ⟨⟨index, fields⟩, -, rfl⟩ := List.mem_map.mp hoperation
  exact ⟨index, fields, rfl⟩

theorem model_of_addIndexes
    (hadd : ∀ operation ∈ operations, ∃ index fields, operation = .addIndex name index fields) :
    ∀ operation ∈ operations, operation.model = name ∧ operation.FieldsDiffer := by
  intro operation hoperation
  obtain ⟨index, fields, rfl⟩ := hadd operation hoperation
  exact ⟨rfl, trivial⟩

/-- Adding indexes is allowed where a database can hold all of them in the end. -/
theorem allows_addIndexes (hu : u.Sound) (hm : u.model? name = some m)
    (h : EditsAll u.app operations (some m) (some final))
    (hadd : ∀ operation ∈ operations, ∃ index fields, operation = .addIndex name index fields)
    (hsep : (u.withModel final).Separate) : u.Allows capabilities operations := by
  induction operations generalizing u m with
  | nil => exact .nil u
  | cons operation rest ih =>
      obtain rfl := hu.name_eq _ _ hm
      obtain ⟨r, hedit, hrest⟩ := editsAll_cons.mp h
      obtain ⟨⟨index, fields, rfl⟩, hothers⟩ := List.forall_mem_cons.mp hadd
      cases hedit with
      | addIndex hnone hempty hover =>
          obtain ⟨_, heq, hbelow⟩ := below_of_addIndexes hrest hothers
          cases heq
          have hchange : m.Changes (.addIndex m.name index fields) _ := .addIndex hnone hover
          have hlast : ((u.withModel { m with indexes := m.indexes.insert index fields }).withModel
              final).Separate := by
            rwa [withModel_withModel hbelow.name]
          exact .cons (apply_of_edits hu hm (.addIndex hnone hempty hover)) (hsep.of_below hbelow)
            (hasRoom_of_not_renews rfl) (ih (hu.withModel (hchange.sound (hu.model _ _ hm)))
              model?_withModel_self hrest hothers hlast)

end AppSchema

/-! ### From one model to another -/

namespace Model

open Operation

variable {app : String} {prior declared : Model}

/-- The table of a model is built anew on the way to a declared one: a column goes and the database
drops none, or one comes that is not nullable or unique and the database does not change columns. -/
def RenewedFor (capabilities : Capabilities) (prior declared : Model) : Prop :=
  (capabilities.dropsColumns = false ∧ prior.fieldsNotIn declared ≠ []) ∨
    (capabilities.altersNullability = false ∧
      ∃ entry ∈ declared.fieldsNotIn prior, entry.2.null = false ∨ entry.2.unique = true)

/-- What is left of a model when all is taken away that a declared one does not have. -/
def remains (prior declared : Model) : Model :=
  { prior with fields := prior.keptFields declared, indexes := prior.keptIndexes declared }

def removals (prior declared : Model) : List Operation :=
  (prior.indexesNotIn declared).names.map (.removeIndex declared.name) ++
    if (prior.fieldsNotIn declared).names.isEmpty then []
    else [.removeFields declared.name (prior.fieldsNotIn declared).names]

def additions (prior declared : Model) : List Operation :=
  (if (declared.fieldsNotIn prior).isEmpty then []
    else [.addFields declared.name (declared.fieldsNotIn prior)]) ++
    (declared.indexesNotIn prior).map fun (index, fields) => .addIndex declared.name index fields

/-- What is taken away from a model comes before what is added to it. -/
theorem changes_eq_append :
    prior.changes declared = prior.removals declared ++ prior.additions declared := by
  simp only [changes_eq, removals, additions, List.append_assoc]

/-- The removals take a model to what remains of it beside the declared one. -/
theorem editsAll_removals (hprior : prior.Sound) (hpkeyed : prior.Keyed app)
    (hdeclared : declared.Sound) (hkept : prior.key ∈ declared.fields.names) :
    EditsAll app (prior.removals declared) (some prior) (some (prior.remains declared)) :=
  editsAll_append.mpr ⟨_, editsAll_dropIndexes hprior,
    (editsAll_dropFields_iff hprior hpkeyed hdeclared).mpr ⟨hkept, rfl⟩⟩

end Model

namespace AppSchema

open Operation Model

variable {capabilities : Capabilities} {s t u : AppSchema} {m m' prior declared : Model}
  {name : String} {operations : List Operation} {operation : Operation}

theorem Sound.forM (hs : s.Sound) (hfields : ∀ operation ∈ operations, operation.FieldsDiffer)
    (h : operations.forM apply s = .ok () t) : t.Sound := by
  induction operations generalizing s with
  | nil => exact forM_nil_eq_ok.mp h ▸ hs
  | cons operation rest ih =>
      obtain ⟨between, happly, h⟩ := forM_cons_eq_ok.mp h
      obtain ⟨hfirst, hfields⟩ := List.forall_mem_cons.mp hfields
      exact ih ((applies_of_ok hs happly).sound hs hfirst) hfields h

theorem model_of_removals :
    ∀ operation ∈ prior.removals declared,
      operation.model = declared.name ∧ operation.FieldsDiffer := by
  rw [removals, List.forall_mem_append]
  constructor
  · intro operation hoperation
    obtain ⟨index, -, rfl⟩ := List.mem_map.mp hoperation
    exact ⟨rfl, trivial⟩
  · split
    · simp
    · intro operation hoperation
      rw [List.mem_singleton.mp hoperation]
      exact ⟨rfl, trivial⟩

/-- Whether there is room depends on the table of the one model alone. -/
theorem hasRoom_iff (hm : u.model? operation.model = some m) :
    operation.HasRoom capabilities u ↔ (operation.renews capabilities = true →
      ¬u.HasTable (Backend.shadowName m.table)) := by
  constructor
  · intro h hrenews
    exact h hrenews m hm
  · intro h hrenews found hfound
    cases hm.symm.trans hfound
    exact h hrenews

theorem hasRoom_removeFields_iff {names : List String} (hm : u.model? name = some m) :
    (removeFields name names).HasRoom capabilities u ↔ (capabilities.dropsColumns = false →
      ¬u.HasTable (Backend.shadowName m.table)) := by
  rw [hasRoom_iff hm, renews, Bool.not_eq_true']

theorem hasRoom_addFields_iff {fields : Fields} (hm : u.model? name = some m) :
    (addFields name fields).HasRoom capabilities u ↔ (capabilities.altersNullability = false ∧
      (∃ entry ∈ fields, entry.2.null = false ∨ entry.2.unique = true) →
      ¬u.HasTable (Backend.shadowName m.table)) := by
  have hrenews : (addFields name fields).renews capabilities = true ↔
      capabilities.altersNullability = false ∧
        ∃ entry ∈ fields, entry.2.null = false ∨ entry.2.unique = true := by
    simp only [renews, List.any_eq_true, Bool.and_eq_true, Bool.or_eq_true, Bool.not_eq_true']
    constructor
    · rintro ⟨entry, hentry, hplace, hstrict⟩
      exact ⟨hplace, entry, hentry, hstrict⟩
    · rintro ⟨hplace, entry, hentry, hstrict⟩
      exact ⟨entry, hentry, hplace, hstrict⟩
  rw [hasRoom_iff hm, hrenews]

/-- Operations on one model of a state change this model. -/
theorem forM_of_editsAll (hu : u.Sound) (hm : u.model? name = some m)
    (h : EditsAll u.app operations (some m) (some m'))
    (hmodel : ∀ operation ∈ operations, operation.model = name ∧ operation.FieldsDiffer) :
    operations.forM apply u = .ok () (u.withModel m') :=
  (forM_apply_iff hu (fun operation h => (hmodel operation h).1)
    fun operation h => (hmodel operation h).2).mpr ⟨some m', by rwa [hm], rfl⟩

/-- What is left of a model has its place among the others. -/
theorem Separate.remains (hsep : u.Separate) (hu : u.Sound)
    (hprior : u.model? declared.name = some prior) :
    (u.withModel (prior.remains declared)).Separate := by
  have hkept : (u.withModel prior).Separate := by rwa [hu.withModel_self hprior]
  exact hkept.of_subset rfl rfl (List.filter_sublist.map _).subset
    ((hsep.columns _ _ hprior).sublist (List.filter_sublist.map _))

/-- Taking away what a declared model does not have is allowed if there is room for the table where
it is built anew. -/
theorem allows_removals_iff (hu : u.Sound) (hsep : u.Separate)
    (hprior : u.model? declared.name = some prior) (hpkeyed : prior.Keyed u.app)
    (hdeclared : declared.Sound) (hkept : prior.key ∈ declared.fields.names) :
    u.Allows capabilities (prior.removals declared) ↔
      (capabilities.dropsColumns = false ∧ prior.fieldsNotIn declared ≠ [] →
        ¬u.HasTable (Backend.shadowName prior.table)) := by
  have hname := hu.name_eq _ _ hprior
  have hsound := hu.model _ _ hprior
  set bare : Model := { prior with indexes := prior.keptIndexes declared }
  have hindexes : EditsAll u.app ((prior.indexesNotIn declared).names.map
      (.removeIndex declared.name)) (some prior) (some bare) := editsAll_dropIndexes hsound
  have hforM₁ := forM_of_editsAll hu hprior hindexes (by simp [model, FieldsDiffer])
  have hself : (u.withModel bare).model? declared.name = some bare :=
    hname ▸ model?_withModel_self
  have hfields : EditsAll u.app _ (some bare) (some (prior.remains declared)) :=
    (editsAll_dropFields_iff hsound hpkeyed hdeclared).mpr ⟨hkept, rfl⟩
  have hforM₂ := forM_of_editsAll (hu.forM (by simp [FieldsDiffer]) hforM₁) hself hfields
    (by simp [model, FieldsDiffer])
  have hallows : u.Allows capabilities
      ((prior.indexesNotIn declared).names.map (.removeIndex declared.name)) :=
    allows_removeIndexes hu hsep hprior hindexes (by simp)
  have hsep₁ := hallows.separate hsep hforM₁
  have hlast : (u.withModel bare).withModel (prior.remains declared)
      = u.withModel (prior.remains declared) := withModel_withModel rfl
  rw [hlast] at hforM₂
  have htables : (u.withModel bare).HasTable (Backend.shadowName bare.table) ↔
      u.HasTable (Backend.shadowName prior.table) := hasTable_withModel (hname ▸ hprior :) rfl
  rw [removals, allows_append hforM₁, and_iff_right hallows, allows_unless_iff hsep₁ hforM₂,
    and_iff_right (hsep.remains hu hprior), hasRoom_removeFields_iff hself, htables]
  have hsome : ¬(prior.fieldsNotIn declared).names.isEmpty = true ↔
    prior.fieldsNotIn declared ≠ [] := by
    simp [Named.names]
  rw [hsome, and_comm, and_imp]

/-- Adding what is missing from a model is allowed if a database can hold the state with it, and
there is room for the table where it is built anew. -/
theorem allows_additions_iff (hu : u.Sound) (hsep : u.Separate)
    (hremains : u.model? declared.name = some (prior.remains declared)) (hprior : prior.Sound)
    (hdeclared : declared.Sound) (hdkeyed : declared.Keyed u.app)
    (hknown : declared.key ∈ prior.fields.names) :
    u.Allows capabilities (prior.additions declared) ↔
      (u.withModel (prior.ledTo declared)).Separate ∧ (capabilities.altersNullability = false ∧
        (∃ entry ∈ declared.fieldsNotIn prior, entry.2.null = false ∨ entry.2.unique = true) →
        ¬u.HasTable (Backend.shadowName prior.table)) := by
  have hname : (prior.remains declared).name = declared.name := hu.name_eq _ _ hremains
  set wide : Model := { prior.ledTo declared with indexes := prior.keptIndexes declared }
  have hfields : EditsAll u.app _ (some (prior.remains declared)) (some wide) :=
    (editsAll_addFields_iff hdeclared hdkeyed).mpr ⟨hknown, rfl⟩
  have hdiffer : (declared.fieldsNotIn prior).names.Nodup := hdeclared.nodup_fieldsNotIn
  have hforM₁ := forM_of_editsAll hu hremains hfields (by simp [model, FieldsDiffer, hdiffer])
  have hself : (u.withModel wide).model? declared.name = some wide :=
    hname ▸ model?_withModel_self
  have hindexes : EditsAll u.app _ (some wide) (some (prior.ledTo declared)) :=
    editsAll_createIndexes hprior hdeclared hdkeyed
  have hs₁ := hu.forM (by simp [FieldsDiffer, hdiffer]) hforM₁
  have hadd := exists_addIndex_of_mem declared.name (declared.indexesNotIn prior)
  have hforM₂ := forM_of_editsAll hs₁ hself hindexes (model_of_addIndexes hadd)
  have hlast : (u.withModel wide).withModel (prior.ledTo declared)
      = u.withModel (prior.ledTo declared) := withModel_withModel rfl
  rw [hlast] at hforM₂
  obtain ⟨_, heq, hbelow⟩ := below_of_addIndexes hindexes hadd
  cases heq
  rw [additions, allows_append hforM₁, allows_unless_iff hsep hforM₁,
    hasRoom_addFields_iff hremains]
  constructor
  · rintro ⟨⟨hsep₁, hroom⟩, hallows⟩
    refine ⟨hallows.separate hsep₁ hforM₂, ?_⟩
    rintro ⟨hplace, entry, hentry, hstrict⟩
    exact hroom (fun hempty => List.ne_nil_of_mem hentry (List.isEmpty_iff.mp hempty))
      ⟨hplace, entry, hentry, hstrict⟩
  · rintro ⟨hsep', hroom⟩
    exact ⟨⟨hsep'.of_below hbelow, fun _ => hroom⟩,
      allows_addIndexes hs₁ hself hindexes hadd (by rwa [hlast])⟩

/-- The operations that lead a model to a declared one are allowed if a database can hold the state
they lead to, and there is room for the table where it is built anew. -/
theorem allows_changes_iff (hu : u.Sound) (hsep : u.Separate)
    (hprior : u.model? declared.name = some prior) (hpkeyed : prior.Keyed u.app)
    (hdeclared : declared.Sound) (hdkeyed : declared.Keyed u.app) (hfit : prior.KeysFit declared) :
    u.Allows capabilities (prior.changes declared) ↔
      (u.withModel (prior.ledTo declared)).Separate ∧
        (prior.RenewedFor capabilities declared →
          ¬u.HasTable (Backend.shadowName prior.table)) := by
  have hname := hu.name_eq _ _ hprior
  have hsound := hu.model _ _ hprior
  have hremovals := editsAll_removals hsound hpkeyed hdeclared hfit.kept
  have hforM := forM_of_editsAll hu hprior hremovals model_of_removals
  have hself : (u.withModel (prior.remains declared)).model? declared.name
      = some (prior.remains declared) :=
    hname ▸ model?_withModel_self
  have hleft : (u.withModel (prior.remains declared)).Sound :=
    hu.forM (fun operation h => (model_of_removals operation h).2) hforM
  have htables : (u.withModel (prior.remains declared)).HasTable (Backend.shadowName prior.table) ↔
      u.HasTable (Backend.shadowName prior.table) := hasTable_withModel (hname ▸ hprior :) rfl
  have hlast : (u.withModel (prior.remains declared)).withModel (prior.ledTo declared)
      = u.withModel (prior.ledTo declared) := withModel_withModel rfl
  rw [changes_eq_append, allows_append hforM,
    allows_removals_iff hu hsep hprior hpkeyed hdeclared hfit.kept,
    allows_additions_iff hleft (hsep.remains hu hprior) hself hsound hdeclared hdkeyed hfit.known,
    htables, hlast, RenewedFor, or_imp, and_left_comm]

/-- The operations that create a model are allowed if a database can hold the state with it. -/
theorem allows_creation_iff (hu : u.Sound) (hsep : u.Separate)
    (hnone : u.model? declared.name = none) (hdeclared : declared.Sound)
    (hdkeyed : declared.Keyed u.app) :
    u.Allows capabilities declared.creation ↔ (u.withModel declared).Separate := by
  have hedits : EditsAll u.app declared.creation none (some declared) :=
    (editsAll_creation_iff hdeclared hdkeyed).mpr rfl
  have hchanges : u.changesFor declared = declared.creation := by rw [changesFor, hnone]
  have hforM : declared.creation.forM apply u = .ok () (u.withModel declared) := by
    have hmodel : ∀ operation ∈ declared.creation, operation.model = declared.name :=
      fun operation h => model_of_mem_changesFor (s := u) (hchanges ▸ h)
    refine (forM_apply_iff hu hmodel ?_).mpr ⟨some declared, by rwa [hnone], rfl⟩
    exact fun operation h => fieldsDiffer_of_mem_changesFor (s := u) hdeclared (hchanges ▸ h)
  constructor
  · intro h
    exact h.separate hsep hforM
  · intro hlast
    obtain ⟨r, hcreate, hindexes⟩ := editsAll_cons.mp hedits
    have happly := (apply_eq_ok_iff hu).mpr ⟨r, hnone.symm ▸ hcreate, rfl⟩
    have hsound := (applies_of_ok hu happly).sound hu hdeclared.fields
    cases hcreate with
    | @createModel _ _ _ m hparts =>
        have hadd := exists_addIndex_of_mem declared.name declared.indexes
        obtain ⟨_, heq, hbelow⟩ := below_of_addIndexes hindexes hadd
        cases heq
        have hself : (u.withModel m).model? declared.name = some m :=
          hbelow.name ▸ model?_withModel_self
        refine .cons happly (hlast.of_below hbelow) (hasRoom_of_not_renews rfl)
          (allows_addIndexes hsound hself hindexes hadd ?_)
        rwa [withEntry, withModel_withModel hbelow.name]

end AppSchema

end SchemaHistory
