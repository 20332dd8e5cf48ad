import SchemaHistory.Proofs.Edits

/-!
# The parts of a model

A model has a part for each of its fields and each of its indexes, and a shell around them: that it
is there, with its name, its table and its key. An operation changes some parts of its model and
goes by some more; the others it neither reads nor writes. What operations make of a part is what
the last of them that changes it makes of it (`Operation.EditsAll.leaves`). So an operation can be
put in before others, with the same outcome up to the order of fields, if they leave alone what it
changes (`Operation.Leaves.edit`).
-/

namespace SchemaHistory

/-- A part of a model. -/
inductive Part where
  /-- That the model is there, with its name, its table and its key. -/
  | shell
  | field (name : String)
  | index (name : String)
deriving DecidableEq

def Model.bare (m : Model) : Model := { m with fields := [], indexes := [] }

/-- Two entries of a state have the same part. -/
def Part.Same : Part → Option Model → Option Model → Prop
  | shell, r, r' => r.map Model.bare = r'.map Model.bare
  | field name, r, r' => r.bind (·.field? name) = r'.bind (·.field? name)
  | index name, r, r' => r.bind (·.indexes.get? name) = r'.bind (·.indexes.get? name)

namespace Part

variable {part : Part} {r r' r'' : Option Model} {m : Model} {name : String}

theorem Same.refl (r : Option Model) : part.Same r r := by
  cases part <;> rfl

theorem Same.symm (h : part.Same r r') : part.Same r' r := by
  cases part <;> exact Eq.symm h

theorem Same.trans (h : part.Same r r') (h' : part.Same r' r'') : part.Same r r'' := by
  cases part <;> exact Eq.trans h h'

theorem Same.eq_none (h : shell.Same none r) : r = none :=
  Option.map_eq_none_iff.mp (Eq.symm h)

/-- With the shell there is the model, with its own name, table and key. -/
theorem Same.exists_model (h : shell.Same (some m) r) :
    ∃ m', r = some m' ∧ m'.app = m.app ∧ m'.name = m.name ∧ m'.table = m.table ∧
      m'.key = m.key := by
  obtain ⟨m', rfl, hbare⟩ := Option.map_eq_some_iff.mp (Eq.symm h)
  simp only [Model.bare, Model.mk.injEq] at hbare
  obtain ⟨happ, hname, htable, hkey, -⟩ := hbare
  exact ⟨m', rfl, happ, hname, htable, hkey⟩

/-- Models with the same shell have the same name, table and key. -/
theorem Same.of_shell {m' : Model} (h : shell.Same (some m) (some m')) :
    m'.name = m.name ∧ m'.table = m.table ∧ m'.key = m.key := by
  obtain ⟨_, heq, -, hrest⟩ := h.exists_model
  exact Option.some.inj heq ▸ hrest

end Part

namespace Operation

/-- Whether an operation changes a part of its model. -/
def changes : Operation → Part → Bool
  | createModel .., _ | deleteModel _, _ => true
  | addFields _ fields, .field name => fields.names.contains name
  | removeFields _ names, .field name => names.contains name
  | addIndex _ index _, .index name | removeIndex _ index, .index name => index == name
  | _, _ => false

/-- Whether an operation goes by a part of its model, be it that it changes it. -/
def concerns (operation : Operation) (part : Part) : Bool :=
  operation.changes part || match operation, part with
    | _, .shell => true
    | addIndex _ _ fields, .field name => fields.contains name
    | _, _ => false

variable {app name : String} {operation : Operation} {part : Part}
  {r r' r'' a a' b b' : Option Model}
  {operations operations' : List Operation} {m m' : Model}

/-- What an operation changes it also concerns. -/
theorem concerns_of_changes (h : operation.changes part = true) :
    operation.concerns part = true := by
  simp [concerns, h]

theorem concerns_shell : operation.concerns .shell = true := by
  cases operation <;> rfl

/-! ### One operation -/

/-- What an operation does not change stays. -/
theorem Edits.same_of_not_changes (h : operation.Edits app r r')
    (hnot : operation.changes part = false) :
    part.Same r r' := by
  cases h with
  | createModel => cases hnot
  | deleteModel => cases hnot
  | @addFields name m fields hnodup hapart hkeys =>
      cases part with
      | shell => rfl
      | index => rfl
      | field field =>
          have hother : fields.get? field = none :=
            Named.get?_eq_none_iff.mpr (by simpa [Operation.changes] using hnot)
          show m.field? field = (m.fields ++ fields).get? field
          rw [Named.get?_append, hother, Option.or_none, Model.field?]
  | @removeFields name m names =>
      cases part with
      | shell => rfl
      | index => rfl
      | field field =>
          have hother : field ∉ names := by simpa [Operation.changes] using hnot
          show m.field? field = Named.get? field (m.fields.filter fun entry => entry.1 ∉ names)
          rw [Named.get?_filter_names fun field => decide (field ∉ names),
            if_pos (by simpa using hother),
            Model.field?]
  | @addIndex name index m fields =>
      cases part with
      | shell => rfl
      | field => rfl
      | index other =>
          have hother : index ≠ other := by simpa [Operation.changes] using hnot
          exact (Named.get?_insert_ne hother).symm
  | @removeIndex name index m =>
      cases part with
      | shell => rfl
      | field => rfl
      | index other =>
          have hother : index ≠ other := by simpa [Operation.changes] using hnot
          show m.indexes.get? other = (m.indexes.erase index).get? other
          rw [Named.get?_erase, if_neg hother]

/-- What an operation makes of a part that it changes does not depend on what was there. -/
theorem Edits.same_of_changes (h : operation.Edits app a b) (h' : operation.Edits app a' b')
    (hchanges : operation.changes part = true) : part.Same b b' := by
  cases h with
  | createModel hparts =>
      cases h' with
      | createModel hparts' => exact Except.ok.inj (hparts.symm.trans hparts') ▸ .refl _
  | deleteModel =>
      cases h'
      exact .refl _
  | @addFields name m fields _ hapart =>
      cases h' with
      | @addFields _ m' _ _ hapart' =>
          cases part with
          | shell | index => cases hchanges
          | field field =>
              have hmem : field ∈ fields.names := by simpa [Operation.changes] using hchanges
              have hnone := Named.get?_eq_none_iff.mpr fun hin => hapart hin hmem
              have hnone' := Named.get?_eq_none_iff.mpr fun hin => hapart' hin hmem
              show (m.fields ++ fields).get? field = (m'.fields ++ fields).get? field
              rw [Named.get?_append, Named.get?_append, hnone, hnone']
  | @removeFields name m names =>
      cases h' with
      | @removeFields _ m' =>
          cases part with
          | shell | index => cases hchanges
          | field field =>
              have hmem : field ∈ names := by simpa [Operation.changes] using hchanges
              show Named.get? field (m.fields.filter fun entry => entry.1 ∉ names)
                = Named.get? field (m'.fields.filter fun entry => entry.1 ∉ names)
              rw [Named.get?_filter_names fun field => decide (field ∉ names),
                Named.get?_filter_names fun field => decide (field ∉ names)]
              simp [hmem]
  | @addIndex name index m fields =>
      cases h' with
      | @addIndex _ _ m' =>
          cases part with
          | shell | field => cases hchanges
          | index other =>
              obtain rfl : index = other := by simpa [Operation.changes] using hchanges
              exact Named.get?_insert_self.trans Named.get?_insert_self.symm
  | @removeIndex name index m =>
      cases h' with
      | @removeIndex _ _ m' =>
          cases part with
          | shell | field => cases hchanges
          | index other =>
              obtain rfl : index = other := by simpa [Operation.changes] using hchanges
              show (m.indexes.erase index).get? index = (m'.indexes.erase index).get? index
              rw [Named.get?_erase, Named.get?_erase, if_pos rfl, if_pos rfl]

/-- Two edits by one operation keep what the entries have in common. -/
theorem Edits.same (h : operation.Edits app a b) (h' : operation.Edits app r r')
    (hsame : part.Same a r) : part.Same b r' := by
  cases hchanges : operation.changes part with
  | true => exact h.same_of_changes h' hchanges
  | false =>
      exact (h.same_of_not_changes hchanges).symm.trans
        (hsame.trans (h'.same_of_not_changes hchanges))

/-! ### Operations one after the other -/

/-- Operations leave a part of an entry like this one if they begin with another entry: as it was,
if none of them changes it, or as the last of them that changes it makes it. -/
inductive Leaves (app : String) (operations : List Operation) (part : Part) (r r' : Option Model) :
    Prop where
  | asBefore : (∀ operation ∈ operations, operation.changes part = false) → part.Same r r' →
      Leaves app operations part r r'
  | asMade {front back : List Operation} {last : Operation} {a b : Option Model} :
      operations = front ++ last :: back → last.changes part = true →
      (∀ operation ∈ back, operation.changes part = false) → last.Edits app a b → part.Same b r' →
      Leaves app operations part r r'

/-- What operations make of an entry is what they leave. -/
theorem EditsAll.leaves (h : EditsAll app operations r r') : Leaves app operations part r r' := by
  induction h with
  | nil r => exact .asBefore nofun (.refl r)
  | @cons operation rest r between r' hedit _ ih =>
      cases ih with
      | asBefore hnone hsame =>
          cases hchanges : operation.changes part with
          | false =>
              exact .asBefore (List.forall_mem_cons.mpr ⟨hchanges, hnone⟩)
                ((hedit.same_of_not_changes hchanges).trans hsame)
          | true =>
              have hfirst : operation :: rest = [] ++ operation :: rest := rfl
              exact .asMade hfirst hchanges hnone hedit hsame
      | @asMade front back last a b hrest hlast hback hlater hsame =>
          have hwhole : operation :: rest = operation :: front ++ last :: back := by
            rw [hrest, List.cons_append]
          exact .asMade hwhole hlast hback hlater hsame

/-- Once the entry that they begin with has had the first of them, the others leave it the same. -/
theorem Leaves.tail (h : Leaves app (operation :: operations) part r r'')
    (hedit : operation.Edits app r r') : Leaves app operations part r' r'' := by
  cases h with
  | asBefore hnone hsame =>
      obtain ⟨hfirst, hnone⟩ := List.forall_mem_cons.mp hnone
      exact .asBefore hnone ((hedit.same_of_not_changes hfirst).symm.trans hsame)
  | @asMade front back last a b hsplit hlast hback hmade hsame =>
      cases front with
      | nil =>
          obtain ⟨rfl, rfl⟩ := List.cons.inj hsplit
          exact .asBefore hback ((hedit.same_of_changes hmade hlast).trans hsame)
      | cons first front =>
          obtain ⟨rfl, rfl⟩ := List.cons.inj hsplit
          exact .asMade rfl hlast hback hmade hsame

/-- An operation can be put in before the others if they leave alone what it changes. -/
theorem Leaves.edit (h : Leaves app operations part r a) (hedit : operation.Edits app r r')
    (hedit' : operation.Edits app a b)
    (hapart : operation.changes part = true → ∀ other ∈ operations, other.changes part = false) :
    Leaves app operations part r' b := by
  cases h with
  | asBefore hnone hsame => exact .asBefore hnone (hedit.same hedit' hsame)
  | asMade hsplit hlast hback hmade hsame =>
      cases hchanges : operation.changes part with
      | false =>
          exact .asMade hsplit hlast hback hmade (hsame.trans (hedit'.same_of_not_changes hchanges))
      | true =>
          have hnot := hapart hchanges _
            (by rw [hsplit]; exact List.mem_append_right _ List.mem_cons_self)
          rw [hlast] at hnot
          cases hnot

/-- Entries that are alike in a part are left alike in it. -/
theorem Leaves.trans (h : Leaves app operations part r r') (hsame : part.Same r' r'') :
    Leaves app operations part r r'' := by
  cases h with
  | asBefore hnone hfirst => exact .asBefore hnone (hfirst.trans hsame)
  | asMade hsplit hlast hback hmade hfirst =>
    exact .asMade hsplit hlast hback hmade (hfirst.trans hsame)

/-- A part that no operation changes stays the same. -/
theorem Leaves.same (h : Leaves app operations part r r')
    (hnone : ∀ operation ∈ operations, operation.changes part = false) : part.Same r r' := by
  cases h with
  | asBefore _ hsame => exact hsame
  | @asMade front back last _ _ hsplit hlast =>
      have hnot := hnone last (by rw [hsplit]; exact List.mem_append_right _ List.mem_cons_self)
      rw [hlast] at hnot
      cases hnot

/-- An index that the last operation on it has left is the one that it has added. -/
theorem Edits.eq_addIndex {index : String} {covered : List String}
    (h : operation.Edits app r r') (hchanges : operation.changes (.index index) = true)
    (hcovered : r'.bind (·.indexes.get? index) = some covered) :
    operation = .addIndex operation.model index covered := by
  cases h with
  | createModel hparts =>
      obtain ⟨key, -, rfl⟩ := Model.ofParts_eq_ok hparts
      cases hcovered
  | deleteModel => cases hcovered
  | addFields | removeFields => cases hchanges
  | @addIndex name other m fields =>
      obtain rfl : other = index := by simpa [Operation.changes] using hchanges
      have hget : (m.indexes.insert other fields).get? other = some covered := hcovered
      rw [Named.get?_insert_self, Option.some.injEq] at hget
      rw [hget]
      rfl
  | @removeIndex name other m =>
      obtain rfl : other = index := by simpa [Operation.changes] using hchanges
      have hget : (m.indexes.erase other).get? other = some covered := hcovered
      rw [Named.get?_erase, if_pos rfl] at hget
      cases hget

end Operation

end SchemaHistory
