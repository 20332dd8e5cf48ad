import SchemaHistory.Proofs.FieldDocuments
import SchemaHistory.Proofs.ReadMigrations

/-!
# Migrations in documents

A migration is read from the text that it is written as, if it has a number, no operation brings two
fields of one name, and the columns keep the defaults of their fields (`Migration.read_text_eq`).
All of this holds of whatever migration is read, so that reading, writing and reading again comes to
the same (`Migration.read_text`).
-/

namespace SchemaHistory

namespace Operation

open Json

variable {operation : Operation} {levels : Nat} {json : Json}

/-- The columns keep the defaults of the fields that the operation brings. -/
def KeepsDefaults : Operation → Prop
  | createModel _ _ fields | addFields _ fields => fields.KeepDefaults
  | _ => True

instance : (operation : Operation) → Decidable operation.KeepsDefaults
  | createModel _ _ fields => inferInstanceAs (Decidable fields.KeepDefaults)
  | addFields _ fields => inferInstanceAs (Decidable fields.KeepDefaults)
  | deleteModel _ | removeFields .. | addIndex .. | removeIndex .. =>
    inferInstanceAs (Decidable True)

/-- The reader of the members of operations of the same kind. -/
def reader : Operation → Json → Option Operation
  | createModel .. => createModelOf?
  | deleteModel _ => deleteModelOf?
  | addFields .. => addFieldsOf?
  | removeFields .. => removeFieldsOf?
  | addIndex .. => addIndexOf?
  | removeIndex .. => removeIndexOf?

/-- Each operation is read by the reader of its own name. -/
theorem get?_standard (operation : Operation) :
    Vocabulary.standard.get? operation.name = some operation.reader := by
  simp only [Vocabulary.standard, Vocabulary.learn, Named.get?_insert]
  cases operation <;> simp [name, reader]

/-! ### What is written is read -/

theorem nodup_names_members (operation : Operation) : (Named.names operation.members).Nodup := by
  cases operation with
  | createModel name table fields => cases table <;> simp [members]
  | _ => simp [members]

/-- A list of names is read as it was written. -/
theorem asStrings?_namesJson (names : List String) : asStrings? (namesJson names) = some names :=
  mapM_map_eq_pure fun _ _ => rfl

/-- Of the members of an operation, a record takes what is found by the names. -/
theorem record?_members (operation : Operation) (names : List String) :
    record? names (.object operation.members)
      = some (names.map (Named.get? · operation.members)) :=
  record?_object operation.nodup_names_members names

theorem required_some {α : Type} (read : Json → Option α) (json : Json) :
    required read (some json) = read json := rfl

/-- The members of an operation are read as they were written. -/
theorem reader_members (hnames : operation.FieldsDiffer) (h : operation.KeepsDefaults) :
    operation.reader (.object operation.members) = some operation := by
  have hmembers := operation.record?_members
  cases operation with
  | createModel name table fields =>
      have hfields := Fields.ofJson?_toJson hnames h
      rw [reader, createModelOf?, hmembers]
      cases table <;>
        simp [members, Named.get?_cons, required_some, asString?, hfields, Json.optional]
  | deleteModel name =>
      rw [reader, deleteModelOf?, hmembers]
      rfl
  | addFields model fields =>
      have hfields := Fields.ofJson?_toJson hnames h
      rw [reader, addFieldsOf?, hmembers]
      simp [members, Named.get?_cons, required_some, asString?, hfields]
  | removeFields model names =>
      rw [reader, removeFieldsOf?, hmembers]
      simp [members, Named.get?_cons, required_some, asString?, asStrings?_namesJson]
  | addIndex model index names =>
      rw [reader, addIndexOf?, hmembers]
      simp [members, Named.get?_cons, required_some, asString?, asStrings?_namesJson]
  | removeIndex model index =>
      rw [reader, removeIndexOf?, hmembers]
      rfl

/-- An operation is read from the document that it is written as. -/
theorem readOperation_toJson (hnames : operation.FieldsDiffer) (h : operation.KeepsDefaults) :
    Vocabulary.standard.readOperation operation.toJson = .ok operation := by
  rw [toJson, Vocabulary.readOperation, get?_standard]
  dsimp only
  rw [reader_members hnames h]

theorem legible_names (names : List String) : Legible (levels + 1) (namesJson names) := by
  refine .array fun item hmem => ?_
  obtain ⟨name, -, rfl⟩ := List.mem_map.mp hmem
  exact .scalar trivial

theorem keysDiffer_names (names : List String) : KeysDiffer (namesJson names) := by
  refine .array fun item hmem => ?_
  obtain ⟨name, -, rfl⟩ := List.mem_map.mp hmem
  exact .scalar _

/-- A member of an operation is a text, names or fields. -/
theorem forall_mem_members {P : Json → Prop} (hstring : ∀ s, P (.string s))
    (hnames : ∀ names, P (namesJson names))
    (hfields : ∀ model table fields, operation = createModel model table fields ∨
      operation = addFields model fields → P fields.toJson) :
    ∀ member ∈ operation.members, P member.2 := by
  cases operation with
  | createModel model table fields =>
      have hthese := hfields model table fields (.inl rfl)
      cases table <;> simp [members, hstring, hthese]
  | addFields model fields =>
      have hthese := hfields model none fields (.inr rfl)
      simp [members, hstring, hthese]
  | _ => simp [members, hstring, hnames]

/-- An operation is five arrays and objects deep. -/
theorem legible_toJson (h : operation.KeepsDefaults) : Legible (levels + 5) operation.toJson := by
  refine .object (List.forall_mem_singleton.mpr (.object
    (forall_mem_members (fun s => .scalar trivial) (fun names => ?_) ?_)))
  · exact legible_names names
  · rintro model table fields (rfl | rfl)
    · exact Fields.legible_toJson h
    · exact Fields.legible_toJson h

/-- No key comes twice in that document. -/
theorem keysDiffer_toJson (hnames : operation.FieldsDiffer) (h : operation.KeepsDefaults) :
    KeysDiffer operation.toJson := by
  refine .object (List.pairwise_singleton _ _) (List.forall_mem_singleton.mpr
    (.object operation.nodup_names_members
      (forall_mem_members (fun s => .scalar _) keysDiffer_names ?_)))
  rintro model table fields (rfl | rfl)
  · exact Fields.keysDiffer_toJson hnames h
  · exact Fields.keysDiffer_toJson hnames h

/-! ### What is read -/

theorem legible_of_record? {names : List String} {written : List (Option Json)}
    (hlegible : Legible (levels + 1) json) (h : record? names json = some written) :
    ∀ entry ∈ written, ∀ value, entry = some value → Legible levels value := by
  intro entry hmem value hvalue
  cases hlegible with
  | scalar => cases h
  | unread => cases h
  | array hitems =>
      rw [record?] at h
      split at h
      · cases h
        rw [hvalue] at hmem
        rcases List.mem_append.mp hmem with hmem | hmem
        · obtain ⟨item, hitem, heq⟩ := List.mem_map.mp hmem
          cases heq
          exact hitems _ hitem
        · cases List.eq_of_mem_replicate hmem
      · cases h
  | object hvalues =>
      obtain ⟨name, -, hname⟩ := Option.exists_of_mem_mapM h hmem
      exact Field.legible_of_member? (.object hvalues) hname value hvalue

/-- What is read, if anything is, keeps its defaults. -/
def Keeping (read? : Option Operation) : Prop :=
  ∀ operation, read? = some operation → operation.KeepsDefaults

theorem Keeping.none : Keeping none := nofun

theorem Keeping.some (h : operation.KeepsDefaults) : Keeping (some operation) := by
  intro other heq
  cases heq
  exact h

theorem Keeping.bind {α : Type} {answer? : Option α} {next : α → Option Operation}
    (h : ∀ a, answer? = Option.some a → Keeping (next a)) : Keeping (answer? >>= next) := by
  intro operation hread
  obtain ⟨a, hanswer, hnext⟩ := Option.bind_eq_some_iff.mp hread
  exact h a hanswer operation hnext

/-- Fields that are read from a legible document keep their defaults. -/
theorem keepDefaults_of_required {written : Option Json} {fields : Fields}
    (hlegible : ∀ value, written = Option.some value → Legible (levels + 3) value)
    (h : required Fields.ofJson? written = Option.some fields) : fields.KeepDefaults := by
  obtain ⟨value, hvalue, hread⟩ := Option.bind_eq_some_iff.mp h
  exact Fields.keepDefaults_of_ofJson? (hlegible value hvalue) hread

/-- Whatever the kind, an operation that is read keeps its defaults. -/
theorem keeping_reader (operation : Operation) (hlegible : Legible (levels + 4) json) :
    Keeping (operation.reader json) := by
  cases operation with
  | createModel =>
      refine .bind fun written hwritten => ?_
      have hvalues := legible_of_record? hlegible hwritten
      split
      · exact .bind fun _ _ => .bind fun _ _ => .bind fun fields hfields =>
          .some (keepDefaults_of_required (hvalues _ (by simp)) hfields)
      · exact .none
  | addFields =>
      refine .bind fun written hwritten => ?_
      have hvalues := legible_of_record? hlegible hwritten
      split
      · exact .bind fun _ _ => .bind fun fields hfields =>
          .some (keepDefaults_of_required (hvalues _ (by simp)) hfields)
      · exact .none
  | deleteModel =>
      refine .bind fun written _ => ?_
      split
      · exact .bind fun _ _ => .some trivial
      · exact .none
  | removeFields | removeIndex =>
      refine .bind fun written _ => ?_
      split
      · exact .bind fun _ _ => .bind fun _ _ => .some trivial
      · exact .none
  | addIndex =>
      refine .bind fun written _ => ?_
      split
      · exact .bind fun _ _ => .bind fun _ _ => .bind fun _ _ => .some trivial
      · exact .none

/-- The readers are those of the six operations. -/
theorem exists_reader {name : String} {read : Json → Option Operation}
    (h : Vocabulary.standard.get? name = Option.some read) :
    ∃ operation : Operation, read = operation.reader := by
  simp only [Vocabulary.standard, Vocabulary.learn, Named.get?_insert] at h
  split at h
  · cases h
    exact ⟨removeIndex "" "", rfl⟩
  split at h
  · cases h
    exact ⟨addIndex "" "" [], rfl⟩
  split at h
  · cases h
    exact ⟨removeFields "" [], rfl⟩
  split at h
  · cases h
    exact ⟨addFields "" [], rfl⟩
  split at h
  · cases h
    exact ⟨deleteModel "", rfl⟩
  split at h
  · cases h
    exact ⟨createModel "" Option.none [], rfl⟩
  cases h

/-- An operation that is read keeps its defaults. -/
theorem keepsDefaults_of_readOperation (hlegible : Legible (levels + 5) json)
    (h : Vocabulary.standard.readOperation json = .ok operation) : operation.KeepsDefaults := by
  unfold Vocabulary.readOperation at h
  split at h
  · next name written =>
      split at h
      · next read hget =>
          split at h
          · next found hfound =>
              cases h
              obtain ⟨kind, rfl⟩ := exists_reader hget
              cases hlegible with
              | object hmembers =>
                exact keeping_reader kind (hmembers _ List.mem_cons_self) _ hfound
          · cases h
      · cases h
  · cases h
  · cases h

theorem keepsDefaults_of_readOperations {operations : List Operation}
    (hlegible : Legible (levels + 6) json)
    (h : Vocabulary.standard.readOperations json = .ok operations) :
    ∀ operation ∈ operations, operation.KeepsDefaults := by
  unfold Vocabulary.readOperations at h
  split at h
  · intro operation hmem
    obtain ⟨item, hitem, hread⟩ := Except.exists_of_mem_mapM h hmem
    cases hlegible with
    | array hitems => exact keepsDefaults_of_readOperation (hitems item hitem) hread
  · cases h

end Operation

namespace Migration

open Json

variable {migration : Migration} {levels : Nat}

/-- The columns keep the defaults of the fields that the operations bring. -/
def KeepsDefaults (migration : Migration) : Prop :=
  ∀ operation ∈ migration.operations, operation.KeepsDefaults

instance (migration : Migration) : Decidable migration.KeepsDefaults :=
  inferInstanceAs (Decidable (∀ operation ∈ migration.operations, operation.KeepsDefaults))

/-! ### Whole migrations -/

def operationsJson (migration : Migration) : Json :=
  .array (migration.operations.map Operation.toJson)

/-- The operations of a migration that keeps its defaults are written as a document that can be
read. -/
theorem legible_operationsJson (h : migration.KeepsDefaults) :
    Legible (levels + 6) migration.operationsJson := by
  refine .array fun item hmem => ?_
  obtain ⟨operation, hoperation, rfl⟩ := List.mem_map.mp hmem
  exact Operation.legible_toJson (h operation hoperation)

theorem keysDiffer_operationsJson (hnames : migration.FieldsDiffer) (h : migration.KeepsDefaults) :
    KeysDiffer migration.operationsJson := by
  refine .array fun item hmem => ?_
  obtain ⟨operation, hoperation, rfl⟩ := List.mem_map.mp hmem
  exact Operation.keysDiffer_toJson (hnames operation hoperation) (h operation hoperation)

theorem readOperations_operationsJson (hnames : migration.FieldsDiffer)
    (h : migration.KeepsDefaults) :
    Vocabulary.standard.readOperations migration.operationsJson = .ok migration.operations :=
  mapM_map_eq_pure fun operation hmem =>
    Operation.readOperation_toJson (hnames operation hmem) (h operation hmem)

/-- A migration is seven arrays and objects deep. -/
theorem legible_toJson (h : migration.KeepsDefaults) : Legible (levels + 7) migration.toJson := by
  have hdependencies : Legible (levels + 6) (.array (migration.dependencies.map fun dependency =>
      Json.array [.string dependency.1, .string dependency.2])) := by
    refine .array fun item hmem => ?_
    obtain ⟨dependency, -, rfl⟩ := List.mem_map.mp hmem
    refine .array fun part hpart => ?_
    obtain rfl | rfl := List.mem_pair.mp hpart
    · exact .scalar trivial
    · exact .scalar trivial
  refine .object ?_
  simp only [List.forall_mem_cons]
  exact ⟨.scalar trivial, .scalar trivial, hdependencies, legible_operationsJson h,
    List.forall_mem_nil _⟩

def members (migration : Migration) : List (String × Json) :=
  [("app", .string migration.app), ("name", .string migration.name),
    ("dependencies", .array (migration.dependencies.map fun dependency =>
      Json.array [.string dependency.1, .string dependency.2])),
    ("operations", migration.operationsJson)]

/-- Dependencies are read as they were written. -/
theorem dependenciesOf?_eq (dependencies : List (String × String)) :
    dependenciesOf? (.array (dependencies.map fun dependency =>
      Json.array [.string dependency.1, .string dependency.2])) = some dependencies :=
  mapM_map_eq_pure fun _ _ => rfl

/-- All but the operations is read as it was written; the operations are left as they stand. -/
theorem draft_toJson (hnames : migration.FieldsDiffer) (h : migration.KeepsDefaults) :
    Draft.ofJson? migration.toJson = some ⟨migration.app, migration.name, migration.dependencies,
      migration.operationsJson⟩ := by
  have hwhole := (keysDiffer_operationsJson hnames h).whole?_eq
  have hdependencies := dependenciesOf?_eq migration.dependencies
  have hkeys : (Named.names migration.members).Nodup := by simp [members]
  have hrecord : record? ["app", "name", "dependencies", "operations"] migration.toJson
      = some (["app", "name", "dependencies", "operations"].map
        (Named.get? · migration.members)) := record?_object hkeys _
  rw [Draft.ofJson?, hrecord]
  simp [members, Named.get?_cons, required, asString?, withDefault, hdependencies, hwhole]

/-- A text whose draft, name and operations can be read is a migration. -/
theorem read_eq_of_draft {s : String} {json : Json} {draft : Draft} {operations : List Operation}
    (hread : Json.read? s = some json) (hdraft : Draft.ofJson? json = some draft)
    (hname : (MigrationName.split? draft.name).isSome)
    (hoperations : Vocabulary.standard.readOperations draft.operations = .ok operations) :
    read .standard s = .ok ⟨draft.app, draft.name, draft.dependencies, operations⟩ := by
  obtain ⟨parts, hparts⟩ := Option.isSome_iff_exists.mp hname
  rw [read, hread, Option.bind_some, hdraft]
  refine Except.bind_eq_ok.mpr ⟨parts, ?_, Except.bind_eq_ok.mpr ⟨operations, hoperations, rfl⟩⟩
  rw [MigrationName.decode, hparts]

/-- A migration is read from its text as it was written. -/
theorem read_text_eq (hnumbered : migration.Numbered) (hnames : migration.FieldsDiffer)
    (h : migration.KeepsDefaults) : read .standard migration.text = .ok migration :=
  read_eq_of_draft (Json.read?_pretty_eq (legible_toJson h)) (draft_toJson hnames h) hnumbered
    (readOperations_operationsJson hnames h)

/-- Members that no migration has do not matter, whatever they hold. -/
theorem draft_of_known (members : List (String × Json)) :
    Draft.ofJson? (.object (members.filter (·.1 ∈ ["app", "name", "dependencies", "operations"])))
      = Draft.ofJson? (.object members) := by
  rw [Draft.ofJson?, Draft.ofJson?, record?_filter]

/-- Unknown members have to be well formed all the same. -/
example : read .standard ("\x7b\"name\": \"0001_b\", \"app\": \"a\", \"operations\": [], "
      ++ "\"by\": [1e400, \x7b\"\\ud800\": \"\\udc00\"\x7d]\x7d")
    = .ok { app := "a", name := "0001_b" } ∧
    read .standard ("\x7b\"name\": \"0001_b\", \"app\": \"a\", \"operations\": [], "
      ++ "\"by\": [01]\x7d") = .error .invalidDocument := by decide +kernel

/-- The operations of a draft are as legible as the document. -/
theorem legible_of_draft {json : Json} {draft : Draft} (hlegible : Legible (levels + 1) json)
    (h : Draft.ofJson? json = some draft) : Legible levels draft.operations := by
  obtain ⟨written, hwritten, h⟩ := Option.bind_eq_some_iff.mp h
  have hvalues := Operation.legible_of_record? hlegible hwritten
  split at h
  · obtain ⟨app, -, h⟩ := Option.bind_eq_some_iff.mp h
    obtain ⟨name, -, h⟩ := Option.bind_eq_some_iff.mp h
    obtain ⟨dependencies, -, h⟩ := Option.bind_eq_some_iff.mp h
    obtain ⟨operations, hoperations, h⟩ := Option.bind_eq_some_iff.mp h
    obtain ⟨json, hjson, hwhole⟩ := Option.bind_eq_some_iff.mp hoperations
    cases h
    exact (hvalues _ (by simp) json hjson).whole? hwhole
  · cases h

/-- The columns keep the defaults of whatever migration is read. -/
theorem keepsDefaults_of_read {s : String} (h : read .standard s = .ok migration) :
    migration.KeepsDefaults := by
  unfold read at h
  split at h
  · cases h
  · next draft hdraft =>
      obtain ⟨json, hjson, hdraft⟩ := Option.bind_eq_some_iff.mp hdraft
      obtain ⟨parts, -, h⟩ := Except.bind_eq_ok.mp h
      obtain ⟨operations, hoperations, h⟩ := Except.bind_eq_ok.mp h
      cases h
      exact Operation.keepsDefaults_of_readOperations
        (legible_of_draft (legible_of_read? hjson) hdraft) hoperations

/-- A migration whose name begins with a number, whose operations bring no two fields of one name,
and whose defaults are kept by their columns is read from its text as it was written. Whatever text
a migration is read from, it is read again from its own text. -/
theorem read_text :
    (∀ migration : Migration, migration.Numbered → migration.FieldsDiffer →
      migration.KeepsDefaults → read .standard migration.text = .ok migration) ∧
    ∀ (s : String) (migration : Migration), read .standard s = .ok migration →
      read .standard migration.text = .ok migration := by
  refine ⟨fun migration => read_text_eq, fun s migration h => ?_⟩
  obtain ⟨hnumbered, hnames⟩ := read_eq_ok h
  exact read_text_eq hnumbered hnames (keepsDefaults_of_read h)

/-- All kinds of operations, with names and defaults that documents have to escape or to retype. -/
def diary : Migration where
  app := "dia\"ry"
  name := "0007_every_kind"
  dependencies := [("auth", "0001_initial"), ("", "\\ \n")]
  operations := [
    .createModel "Entry \"one\"" (some "a\tb\x01") [
      ("id", .ofKind .auto),
      ("title", { Field.ofKind (.char 18446744073709551615) with
        null := true, unique := true, column := some "the, title",
        default := some (.text "say \"hi\"\r\n\x1f") }),
      ("day", { Field.ofKind .date with default := (Date.of? (-44) 3 15).map .date }),
      ("hour", { Field.ofKind .time with default := (Time.of? 23 59 60 5000).map .time })],
    .addFields "Entry \"one\"" [
      ("seen", { Field.ofKind (.dateTime false true) with
        index := true, default := some (.text "now") }),
      ("count", { Field.ofKind .integer with default := some (.int (-9223372036854775808)) }),
      ("weight", { Field.ofKind .float with
        default := some (.float (.finite true 4591870180066957722 (by decide))) }),
      ("open", { Field.ofKind .boolean with primaryKey := true, default := some (.bool false) })],
    .removeFields "Entry \"one\"" ["day", ""],
    .addIndex "Entry \"one\"" "by title" ["title", "hour"],
    .removeIndex "Entry \"one\"" "by title",
    .deleteModel "Entry \"one\""]

/-- The text of a migration as it may be written by hand. -/
def note : String := "\x7b\"name\": \"0001_b\", \"app\": \"a\", \"by\": 1, \"operations\": ["
  ++ "\x7b\"AddFields\": [\"M\", \x7b\"d\": "
  ++ "\x7b\"DateField\": \x7b\"default\": \"2024-02-29\"\x7d\x7d\x7d]\x7d]\x7d"

def noted : Migration where
  app := "a"
  name := "0001_b"
  operations := [.addFields "M" [("d", { Field.ofKind .date with
    default := (Date.of? 2024 2 29).map .date })]]

/-- Two texts of one migration, the second with members left out, and what it is written as. -/
theorem diary_and_note : read .standard diary.text = .ok diary ∧
    read .standard note = .ok noted ∧ read .standard noted.text = .ok noted := by
  have hnote : read .standard note = .ok noted := by decide +kernel
  exact ⟨read_text.1 diary (by decide +kernel) (by decide +kernel) (by decide +kernel), hnote,
    read_text.2 note noted hnote⟩

end Migration

end SchemaHistory
