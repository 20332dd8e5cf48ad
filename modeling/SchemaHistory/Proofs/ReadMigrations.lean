import SchemaHistory.Proofs.NameOrder
import SchemaHistory.Proofs.Replay

/-!
# Migrations as they are read

What the proofs on migrations ask of them beforehand holds of every migration that
`Migration.ofName` begins or `Migration.read` reads from a document: the name begins with a number
(`numbered_of_read`), and no operation brings two fields of one name. Documents may repeat the name
of a field; the last one counts.

`Careful` is the second property of a reader that may fail. It is closed under the steps that the
readers of operations are made of, so every word of the vocabulary has it (`careful_standard`).
-/

namespace SchemaHistory

/-- A document may repeat a field, but what is read does not. -/
theorem Fields.nodup_names_of_ofJson? {json : Json} {fields : Fields}
    (h : Fields.ofJson? json = some fields) : fields.names.Nodup := by
  obtain ⟨members, -, h⟩ := Option.bind_eq_some_iff.mp h
  obtain ⟨read, -, h⟩ := Option.bind_eq_some_iff.mp h
  cases h
  have hfold : ∀ (entries : List (String × Field)) (done : Fields), done.names.Nodup →
      (entries.foldl (fun done entry => done.set entry.1 entry.2) done).names.Nodup := by
    intro entries
    induction entries with
    | nil =>
        intro done hdone
        exact hdone
    | cons entry rest ih =>
        intro done hdone
        exact ih _ (Named.nodup_names_set hdone)
  exact hfold read [] List.nodup_nil

namespace Operation

/-! ### Readers that take care -/

/-- What is read, if anything is, does not bring a field twice. -/
def Careful (read? : Option Operation) : Prop :=
  ∀ operation, read? = some operation → operation.FieldsDiffer

theorem Careful.none : Careful none := nofun

theorem Careful.some {operation : Operation} (h : operation.FieldsDiffer) :
    Careful (some operation) := by
  intro other heq
  cases heq
  exact h

theorem Careful.bind {α : Type} {answer? : Option α} {next : α → Option Operation}
    (h : ∀ a, answer? = Option.some a → Careful (next a)) : Careful (answer? >>= next) := by
  intro operation hread
  obtain ⟨a, hanswer, hnext⟩ := Option.bind_eq_some_iff.mp hread
  exact h a hanswer operation hnext

/-- Fields that are read have different names: the last of one name counts. -/
theorem nodup_names_of_required {written : Option Json} {fields : Fields}
    (h : Json.required Fields.ofJson? written = some fields) : fields.names.Nodup := by
  obtain ⟨json, -, hread⟩ := Option.bind_eq_some_iff.mp h
  exact Fields.nodup_names_of_ofJson? hread

theorem careful_createModelOf? (json : Json) : Careful (createModelOf? json) := by
  refine .bind fun members _ => ?_
  split
  · exact .bind fun name _ => .bind fun table _ => .bind fun fields hfields =>
      .some (nodup_names_of_required hfields)
  · exact .none

theorem careful_deleteModelOf? (json : Json) : Careful (deleteModelOf? json) := by
  refine .bind fun members _ => ?_
  split
  · exact .bind fun name _ => .some trivial
  · exact .none

theorem careful_addFieldsOf? (json : Json) : Careful (addFieldsOf? json) := by
  refine .bind fun members _ => ?_
  split
  · exact .bind fun model _ => .bind fun fields hfields =>
      .some (nodup_names_of_required hfields)
  · exact .none

theorem careful_removeFieldsOf? (json : Json) : Careful (removeFieldsOf? json) := by
  refine .bind fun members _ => ?_
  split
  · exact .bind fun model _ => .bind fun names _ => .some trivial
  · exact .none

theorem careful_addIndexOf? (json : Json) : Careful (addIndexOf? json) := by
  refine .bind fun members _ => ?_
  split
  · exact .bind fun model _ => .bind fun index _ => .bind fun fields _ => .some trivial
  · exact .none

theorem careful_removeIndexOf? (json : Json) : Careful (removeIndexOf? json) := by
  refine .bind fun members _ => ?_
  split
  · exact .bind fun model _ => .bind fun index _ => .some trivial
  · exact .none

/-- Every reader of the vocabulary takes care of that. -/
theorem careful_standard {name : String} {read : Json → Option Operation}
    (h : Vocabulary.standard.get? name = some read) (json : Json) : Careful (read json) := by
  -- the word learnt last is looked at first
  simp only [Vocabulary.standard, Vocabulary.learn, Named.get?_insert] at h
  split at h
  · cases h
    exact careful_removeIndexOf? json
  split at h
  · cases h
    exact careful_addIndexOf? json
  split at h
  · cases h
    exact careful_removeFieldsOf? json
  split at h
  · cases h
    exact careful_addFieldsOf? json
  split at h
  · cases h
    exact careful_deleteModelOf? json
  split at h
  · cases h
    exact careful_createModelOf? json
  cases h

/-! ### Operations and migrations -/

/-- An operation that is read has different fields. -/
theorem fieldsDiffer_of_readOperation {json : Json} {operation : Operation}
    (h : Vocabulary.standard.readOperation json = .ok operation) : operation.FieldsDiffer := by
  unfold Vocabulary.readOperation at h
  split at h
  · split at h
    · next read hget =>
        split at h
        · next found hfound =>
            cases h
            exact careful_standard hget _ _ hfound
        · cases h
    · cases h
  · cases h
  · cases h

theorem fieldsDiffer_of_readOperations {json : Json} {operations : List Operation}
    (h : Vocabulary.standard.readOperations json = .ok operations) :
    ∀ operation ∈ operations, operation.FieldsDiffer := by
  unfold Vocabulary.readOperations at h
  split at h
  · intro operation hmem
    obtain ⟨json, -, hread⟩ := Except.exists_of_mem_mapM h hmem
    exact fieldsDiffer_of_readOperation hread
  · cases h

end Operation

namespace Migration

variable {app name : String} {migration : Migration}

theorem isSome_split?_of_decode {parts : String × String}
    (h : MigrationName.decode name = .ok parts) :
    (MigrationName.split? name).isSome := by
  unfold MigrationName.decode at h
  split at h
  · next hsplit =>
      rw [hsplit]
      rfl
  · cases h

theorem ofName_eq_ok (h : ofName app name = .ok migration) :
    migration.app = app ∧ migration.name = name ∧ migration.Numbered ∧ migration.FieldsDiffer := by
  obtain ⟨parts, hparts, h⟩ := Except.bind_eq_ok.mp h
  cases h
  exact ⟨rfl, rfl, isSome_split?_of_decode hparts, nofun⟩

/-- Whatever operations a document may hold, its migration has a number. -/
theorem numbered_of_read {vocabulary : Vocabulary} {s : String}
    (h : read vocabulary s = .ok migration) : migration.Numbered := by
  unfold read at h
  split at h
  · cases h
  · obtain ⟨parts, hparts, h⟩ := Except.bind_eq_ok.mp h
    obtain ⟨operations, -, h⟩ := Except.bind_eq_ok.mp h
    cases h
    exact isSome_split?_of_decode hparts

/-- A migration that is read from a document has a number and brings no field twice. -/
theorem read_eq_ok {s : String} (h : read .standard s = .ok migration) :
    migration.Numbered ∧ migration.FieldsDiffer := by
  unfold read at h
  split at h
  · cases h
  · obtain ⟨parts, hparts, h⟩ := Except.bind_eq_ok.mp h
    obtain ⟨operations, hoperations, h⟩ := Except.bind_eq_ok.mp h
    cases h
    exact ⟨isSome_split?_of_decode hparts, Operation.fieldsDiffer_of_readOperations hoperations⟩

end Migration

end SchemaHistory
