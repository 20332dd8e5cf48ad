import SchemaHistory.Proofs.Lexemes
import SchemaHistory.Proofs.PredicateMeaning
import Mathlib.Data.List.TakeWhile

/-!
# What conditions are compiled to

To compile a condition is to resolve it in a model and to write the result down. Either every lookup
has a test that it denotes, and the text has one placeholder for each, numbered from the left,
behind the column and the operator of its test; or the first lookup that has none says what the
error is (`Condition.compiled`).
-/

namespace SchemaHistory

/-! ### Keys -/

namespace LookupKey

variable {key field : String} {before token : List Char} {comparison : Comparison}

/-- A key ends in an operator: behind its last white space, none of which is at its end, is the
given text. -/
def EndsIn (key : String) (before token : List Char) : Prop :=
  ∃ blank, Text.trimBlanks key.toList = before ++ blank :: token ∧ Text.isBlank blank = true ∧
    ∀ c ∈ token, Text.isBlank c = false

/-- The field that a key names, and the comparison it asks for. -/
inductive Names (key : String) : String → Comparison → Prop where
  | alone (h : ∀ c ∈ Text.trimBlanks key.toList, Text.isBlank c = false) :
    Names key (String.ofList (Text.trimBlanks key.toList)) .equal
  | compared {before token : List Char} {comparison : Comparison} (hends : EndsIn key before token)
    (htoken : Comparison.ofToken? (String.ofList token) = some comparison) :
    Names key (String.ofList (Text.dropTrailingBlanks before)) comparison

/-- A text has no white space in it, or a last one. -/
theorem blank_cases (cs : List Char) : (∀ c ∈ cs, Text.isBlank c = false) ∨
    ∃ before blank token, cs = before ++ blank :: token ∧ Text.isBlank blank = true ∧
      ∀ c ∈ token, Text.isBlank c = false := by
  induction cs with
  | nil => exact .inl nofun
  | cons c cs ih =>
      rcases ih with hnone | ⟨before, blank, token, rfl, hblank, htoken⟩
      · cases hc : Text.isBlank c with
        | true => exact .inr ⟨[], c, cs, rfl, hc, hnone⟩
        | false => exact .inl (List.forall_mem_cons.mpr ⟨hc, hnone⟩)
      · exact .inr ⟨c :: before, blank, token, rfl, hblank, htoken⟩

/-- A key is a single word once it is trimmed, or it ends in a token behind a gap. -/
theorem key_cases (key : String) : (∀ c ∈ Text.trimBlanks key.toList, Text.isBlank c = false) ∨
    ∃ before token, EndsIn key before token := by
  rcases blank_cases (Text.trimBlanks key.toList) with hnone | ⟨before, blank, token, h⟩
  · exact .inl hnone
  · exact .inr ⟨before, token, blank, h⟩

/-- A single word names a field, which is compared for equality. -/
theorem decode_alone (h : ∀ c ∈ Text.trimBlanks key.toList, Text.isBlank c = false) :
    decode key = .ok (String.ofList (Text.trimBlanks key.toList), .equal) := by
  have hbefore : beforeLastWord (Text.trimBlanks key.toList) = [] := by
    unfold beforeLastWord
    rw [List.reverse_eq_nil_iff, List.dropWhile_eq_nil_iff]
    intro c hc
    rw [h c (List.mem_reverse.mp hc)]
    rfl
  unfold decode
  simp only [hbefore]

/-- What is in front of the operator of a key, and what the operator is. -/
theorem EndsIn.words (h : EndsIn key before token) :
    (∃ c rest, beforeLastWord (Text.trimBlanks key.toList) = c :: rest ∧
      Text.dropTrailingBlanks (c :: rest) = Text.dropTrailingBlanks before) ∧
    lastWord (Text.trimBlanks key.toList) = token := by
  obtain ⟨blank, htrimmed, hblank, htoken⟩ := h
  have hreverse : (before ++ blank :: token).reverse
      = token.reverse ++ blank :: before.reverse := by simp
  have hword : ∀ c ∈ token.reverse, (!Text.isBlank c) = true := by
    intro c hc
    rw [htoken c (List.mem_reverse.mp hc)]
    rfl
  have hstops : ¬(!Text.isBlank blank) = true := by simp [hblank]
  have hlast : lastWord (before ++ blank :: token) = token := by
    rw [lastWord, hreverse, List.takeWhile_append_of_pos hword, List.takeWhile_cons, if_neg hstops,
      List.append_nil, List.reverse_reverse]
  have hbefore : beforeLastWord (before ++ blank :: token) = before ++ [blank] := by
    rw [beforeLastWord, hreverse, List.dropWhile_append_of_pos hword, List.dropWhile_cons,
      if_neg hstops, List.reverse_cons, List.reverse_reverse]
  have hdrop : Text.dropTrailingBlanks (before ++ [blank]) = Text.dropTrailingBlanks before := by
    rw [Text.dropTrailingBlanks, List.reverse_append, List.reverse_singleton, List.singleton_append,
      List.dropWhile_cons_of_pos hblank, Text.dropTrailingBlanks]
  rw [htrimmed]
  refine ⟨?_, hlast⟩
  rw [hbefore]
  cases before with
  | nil => exact ⟨blank, [], rfl, hdrop⟩
  | cons c rest => exact ⟨c, rest ++ [blank], rfl, hdrop⟩

/-- A token that is an operator is taken for it. -/
theorem decode_of_token (h : EndsIn key before token)
    (htoken : Comparison.ofToken? (String.ofList token) = some comparison) :
    decode key = .ok (String.ofList (Text.dropTrailingBlanks before), comparison) := by
  obtain ⟨⟨c, rest, hbefore, hdrop⟩, hlast⟩ := h.words
  unfold decode
  simp only [hbefore, hlast, htoken, hdrop]

theorem decode_of_no_token (h : EndsIn key before token)
    (htoken : Comparison.ofToken? (String.ofList token) = none) :
    decode key = .error (.unknownOperator (String.ofList token)) := by
  obtain ⟨⟨c, rest, hbefore, -⟩, hlast⟩ := h.words
  unfold decode
  simp only [hbefore, hlast, htoken]

/-- What is read from a key, as a relation. -/
theorem decode_eq_ok_iff : decode key = .ok (field, comparison) ↔ Names key field comparison := by
  constructor
  · intro h
    rcases key_cases key with hnone | ⟨before, token, hends⟩
    · rw [decode_alone hnone] at h
      cases h
      exact .alone hnone
    · cases htoken : Comparison.ofToken? (String.ofList token) with
      | none =>
          rw [decode_of_no_token hends htoken] at h
          cases h
      | some comparison =>
          rw [decode_of_token hends htoken] at h
          cases h
          exact .compared hends htoken
  · intro h
    cases h with
    | alone hnone => exact decode_alone hnone
    | compared hends htoken => exact decode_of_token hends htoken

theorem decode_eq_error_iff {e : SchemaError} : decode key = .error e ↔
    ∃ before token, EndsIn key before token ∧ Comparison.ofToken? (String.ofList token) = none ∧
      e = .unknownOperator (String.ofList token) := by
  constructor
  · intro h
    rcases key_cases key with hnone | ⟨before, token, hends⟩
    · rw [decode_alone hnone] at h
      cases h
    · cases htoken : Comparison.ofToken? (String.ofList token) with
      | none =>
          rw [decode_of_no_token hends htoken] at h
          cases h
          exact ⟨before, token, hends, htoken, rfl⟩
      | some comparison =>
          rw [decode_of_token hends htoken] at h
          cases h
  · rintro ⟨before, token, hends, htoken, rfl⟩
    exact decode_of_no_token hends htoken

end LookupKey

/-! ### Lookups -/

namespace Lookup

variable {model : Model} {lookup : Lookup} {test : Test} {e : SchemaError}

/-- The test that a lookup denotes in a model: of the column of the field that its key names,
against its value. -/
inductive Denotes (model : Model) (lookup : Lookup) : Test → Prop where
  | intro {name : String} {comparison : Comparison} {field : Field}
    (hnames : LookupKey.Names lookup.key name comparison)
    (hfield : model.field? name = some field) :
    Denotes model lookup ⟨field.columnName name, comparison, lookup.value⟩

/-- The error that a lookup leads to: its key ends in no operator, or it names no field of the
model. -/
inductive Fails (model : Model) (lookup : Lookup) : SchemaError → Prop where
  | operator {before token : List Char} (hends : LookupKey.EndsIn lookup.key before token)
    (htoken : Comparison.ofToken? (String.ofList token) = none) :
    Fails model lookup (.unknownOperator (String.ofList token))
  | field {name : String} {comparison : Comparison}
    (hnames : LookupKey.Names lookup.key name comparison) (hfield : model.field? name = none) :
    Fails model lookup (.unknownField model.name name)

/-- The value is not looked at. -/
theorem Denotes.value_eq (h : lookup.Denotes model test) : test.value = lookup.value := by
  cases h
  rfl

/-- A lookup is resolved to the test that it denotes. -/
theorem resolve_eq_ok_iff : lookup.resolve model = .ok test ↔ lookup.Denotes model test := by
  unfold resolve
  constructor
  · intro h
    obtain ⟨⟨name, comparison⟩, hdecode, hrest⟩ := Except.bind_eq_ok.mp h
    obtain ⟨column, hcolumn, htest⟩ := Except.bind_eq_ok.mp hrest
    cases htest
    unfold Model.column at hcolumn
    cases hfield : model.field? name with
    | none => rw [hfield] at hcolumn; cases hcolumn
    | some field =>
        rw [hfield] at hcolumn
        cases hcolumn
        exact .intro (LookupKey.decode_eq_ok_iff.mp hdecode) hfield
  · rintro ⟨hnames, hfield⟩
    rw [LookupKey.decode_eq_ok_iff.mpr hnames]
    show (model.column _ >>= _) = _
    rw [Model.column, hfield]
    rfl

theorem resolve_eq_error_iff : lookup.resolve model = .error e ↔ lookup.Fails model e := by
  unfold resolve
  constructor
  · intro h
    cases hdecode : LookupKey.decode lookup.key with
    | error e' =>
        rw [hdecode] at h
        cases h
        obtain ⟨before, token, hends, htoken, rfl⟩ := LookupKey.decode_eq_error_iff.mp hdecode
        exact .operator hends htoken
    | ok named =>
        rw [hdecode] at h
        change (model.column named.1 >>= _) = _ at h
        unfold Model.column at h
        cases hfield : model.field? named.1 with
        | some field => rw [hfield] at h; cases h
        | none =>
            rw [hfield] at h
            cases h
            exact .field (LookupKey.decode_eq_ok_iff.mp hdecode) hfield
  · intro h
    cases h with
    | operator hends htoken =>
        rw [LookupKey.decode_eq_error_iff.mpr ⟨_, _, hends, htoken, rfl⟩]
        rfl
    | field hnames hfield =>
        rw [LookupKey.decode_eq_ok_iff.mpr hnames]
        show (model.column _ >>= _) = _
        rw [Model.column, hfield]
        rfl

end Lookup

namespace Condition

variable {model : Model} {condition : Condition Lookup} {resolved : Condition Test}
  {e : SchemaError}

/-! ### Resolving -/

/-- To resolve a condition is to resolve its lookups from left to right. -/
theorem map_tests_resolve (model : Model) (condition : Condition Lookup) :
    (condition.resolve model).map tests = condition.tests.mapM (Lookup.resolve model) := by
  induction condition with
  | empty => rfl
  | all lookups =>
      show (lookups.mapM (Lookup.resolve model) >>= fun tests => pure (all tests)).map tests
        = lookups.mapM (Lookup.resolve model)
      cases lookups.mapM (Lookup.resolve model) <;> rfl
  | not inner ih =>
      show (inner.resolve model >>= fun resolved => pure (not resolved)).map tests
        = inner.tests.mapM (Lookup.resolve model)
      rw [← ih]
      cases inner.resolve model <;> rfl
  | join left connective negated right ih ih' =>
      show (left.resolve model >>= fun l => right.resolve model >>= fun r =>
          pure (join l connective negated r)).map tests
        = (left.tests ++ right.tests).mapM (Lookup.resolve model)
      rw [List.mapM_append, ← ih, ← ih']
      cases left.resolve model <;> cases right.resolve model <;> rfl

/-- Test by test, from left to right. -/
theorem denotes_of_resolve (h : condition.resolve model = .ok resolved) :
    List.Forall₂ (Lookup.Denotes model) condition.tests resolved.tests := by
  have htests := map_tests_resolve model condition
  rw [h] at htests
  exact (Except.mapM_eq_ok.mp htests.symm).imp fun _ _ => Lookup.resolve_eq_ok_iff.mp

theorem arguments_of_denotes {lookups : List Lookup} {tests : List Test}
    (h : List.Forall₂ (Lookup.Denotes model) lookups tests) :
    tests.map (·.value) = lookups.map (·.value) := by
  induction h with
  | nil => rfl
  | cons hdenotes _ ih => rw [List.map_cons, List.map_cons, hdenotes.value_eq, ih]

/-- The first of some lookups that cannot be resolved says what the error is. -/
theorem exists_first_of_mapM {lookups : List Lookup}
    (h : lookups.mapM (Lookup.resolve model) = .error e) :
    ∃ before lookup after, lookups = before ++ lookup :: after ∧
      (∀ earlier ∈ before, ∃ test, earlier.Denotes model test) ∧ lookup.Fails model e := by
  induction lookups with
  | nil => cases h
  | cons lookup lookups ih =>
      -- the rest is looked at only if the first lookup can be resolved
      rw [List.mapM_cons] at h
      cases hlookup : lookup.resolve model with
      | error e' =>
          rw [hlookup] at h
          cases h
          exact ⟨[], lookup, lookups, rfl, List.forall_mem_nil _,
            Lookup.resolve_eq_error_iff.mp hlookup⟩
      | ok test =>
          rw [hlookup] at h
          change (lookups.mapM (Lookup.resolve model) >>= fun tests =>
            pure (test :: tests)) = _ at h
          cases hlookups : lookups.mapM (Lookup.resolve model) with
          | ok tests => rw [hlookups] at h; cases h
          | error e' =>
              rw [hlookups] at h
              cases h
              obtain ⟨before, next, after, rfl, hearlier, hfails⟩ := ih hlookups
              have hdenotes := Lookup.resolve_eq_ok_iff.mp hlookup
              exact ⟨lookup :: before, next, after, rfl,
                List.forall_mem_cons.mpr ⟨⟨test, hdenotes⟩, hearlier⟩, hfails⟩

/-- The leftmost lookup that fails is the one that is told of. -/
theorem fails_of_resolve (h : condition.resolve model = .error e) :
    ∃ before lookup after, condition.tests = before ++ lookup :: after ∧
      (∀ earlier ∈ before, ∃ test, earlier.Denotes model test) ∧ lookup.Fails model e := by
  have htests := map_tests_resolve model condition
  rw [h] at htests
  exact exists_first_of_mapM htests.symm

/-! ### Numbering -/

/-- The placeholders for the values of some tests, the first of which has the given number. Each
belongs to the column and the operator of its test. -/
def bindings (dialect : Dialect) (start : Nat) (tests : List Test) : List Lexeme.Use :=
  (tests.zipIdx start).map fun (test, number) =>
    ⟨quotedName test.column, dialect.operator test.comparison, dialect.placeholder number⟩

/-- Placeholders of what comes later have later numbers. -/
theorem bindings_append (dialect : Dialect) (start : Nat) (tests more : List Test) :
    bindings dialect start (tests ++ more)
      = bindings dialect start tests ++ bindings dialect (start + tests.length) more := by
  rw [bindings, List.zipIdx_append, List.map_append]
  rfl

theorem placeholders_bindings (dialect : Dialect) (start : Nat) (tests : List Test) :
    (bindings dialect start tests).map (·.placeholder)
      = (List.range' start tests.length).map dialect.placeholder := by
  rw [← List.zipIdx_map_snd, bindings, List.map_map, List.map_map]
  rfl

theorem written_testTexts (dialect : Dialect) (start : Nat) (tests : List Test) :
    List.Forall₂ Lexeme.Written (testTexts dialect start tests)
      ((bindings dialect start tests).map ([·])) := by
  induction tests generalizing start with
  | nil => exact .nil
  | cons test tests ih =>
      refine .cons ⟨_, ?_, Lexeme.binds_use test.column
        (Lexeme.isPlain_operator dialect test.comparison) dialect start⟩ (ih (start + 1))
      exact ((Lexeme.spells_name test.column).append_blank
        (Lexeme.spells_operator dialect test.comparison)).append_blank
        (Lexeme.spells_placeholder dialect start)

/-- In the text of any condition the placeholders are numbered from the left. -/
theorem written_text (dialect : Dialect) (start : Nat) (condition : Condition Test) :
    Lexeme.Written (condition.text dialect start) (bindings dialect start condition.tests) := by
  induction condition generalizing start with
  | empty => exact Lexeme.written_nil
  | all tests =>
      have hjoined := Lexeme.written_joined " AND "
        (fun h h' => h.append_blank (h'.word "AND" rfl))
        (written_testTexts dialect start tests)
      have hflatten : ((bindings dialect start tests).map ([·])).flatten
          = bindings dialect start tests := by
        rw [← List.flatMap_def, List.flatMap_singleton']
      rw [hflatten] at hjoined
      exact hjoined
  | not inner ih => exact (ih start).grouped.word "NOT" rfl
  | join left connective negated right ih ih' =>
      have hleft : Lexeme.Written
          (if left.isCompound then grouped (left.text dialect start) else left.text dialect start)
          (bindings dialect start left.tests) := by
        split
        · exact (ih start).grouped
        · exact ih start
      have hright : Lexeme.Written ((if negated then "NOT ".toList else []) ++
            (if negated || right.isCompound then
              grouped (right.text dialect (start + left.tests.length))
            else right.text dialect (start + left.tests.length)))
          (bindings dialect (start + left.tests.length) right.tests) := by
        cases negated with
        | true => exact (ih' _).grouped.word "NOT" rfl
        | false =>
            show Lexeme.Written (if right.isCompound then _ else _) _
            split
            · exact (ih' _).grouped
            · exact ih' _
      -- the numbers of the right side go on where those of the left side end
      have hboth := (hleft.append_blank (Lexeme.written_connective connective)).append_blank hright
      rw [List.append_nil, ← bindings_append] at hboth
      show Lexeme.Written _ (bindings dialect start (left.tests ++ right.tests))
      simpa only [text, List.append_assoc, List.cons_append] using hboth

/-! ### Compiling -/

/-- Compiling a condition that is built in any way, in any model and dialect, with any number for
the first argument. If every lookup denotes a test, the arguments are the values of the lookups, and
the text has one placeholder for each, numbered in their order, directly behind the column and the
operator of the test. Else the error is that of the first lookup which denotes none. -/
theorem compiled (model : Model) (condition : Condition Lookup) (dialect : Dialect) (start : Nat) :
    ((∀ lookup ∈ condition.tests, ∃ test, lookup.Denotes model test) →
      ∃ resolved, condition.resolve model = .ok resolved ∧
        List.Forall₂ (Lookup.Denotes model) condition.tests resolved.tests ∧
        resolved.arguments = condition.tests.map (·.value) ∧
        Lexeme.placeholders (resolved.text dialect start)
          = (List.range' start resolved.arguments.length).map dialect.placeholder ∧
        Lexeme.uses (resolved.text dialect start) = bindings dialect start resolved.tests) ∧
    ((¬∀ lookup ∈ condition.tests, ∃ test, lookup.Denotes model test) →
      ∃ before lookup after e, condition.tests = before ++ lookup :: after ∧
        (∀ earlier ∈ before, ∃ test, earlier.Denotes model test) ∧ lookup.Fails model e ∧
        condition.resolve model = .error e) := by
  cases hresolve : condition.resolve model with
  | error e =>
      obtain ⟨before, lookup, after, htests, hearlier, hfails⟩ := fails_of_resolve hresolve
      refine ⟨fun hdenotes => ?_, fun _ =>
        ⟨before, lookup, after, e, htests, hearlier, hfails, rfl⟩⟩
      obtain ⟨test, htest⟩ := hdenotes lookup (by simp [htests])
      have hok := Lookup.resolve_eq_ok_iff.mpr htest
      rw [Lookup.resolve_eq_error_iff.mpr hfails] at hok
      cases hok
  | ok resolved =>
      have hdenotes := denotes_of_resolve hresolve
      have hwritten := written_text dialect start resolved
      refine ⟨fun _ => ⟨resolved, rfl, hdenotes, arguments_of_denotes hdenotes, ?_,
        hwritten.uses_eq⟩, fun hnot => ?_⟩
      · rw [hwritten.placeholders_eq, placeholders_bindings]
        simp [arguments]
      · refine absurd (fun lookup hlookup => ?_) hnot
        obtain ⟨test, -, htest⟩ := exists_of_mem_right hdenotes.flip hlookup
        exact ⟨test, htest⟩

/-- A condition of which the second lookup ends in no operator, and the third names no field. -/
def faultyCondition : Condition Lookup :=
  (ofList [⟨"id >", .int 1⟩]).both (ofList [⟨"title ~", .text "Emma"⟩, ⟨"pages", .int 5⟩])

/-- The general statement at a condition with three tests, and at one with a faulty key. -/
theorem compiled_books :
    (∃ resolved, bookCondition.resolve bookModel = .ok resolved ∧
      resolved.arguments = [.int 1, .text "Emma", .int 5] ∧
      Lexeme.uses (resolved.text .postgres 3)
        = [⟨quotedName "id", ['>'], ['$', '3']⟩, ⟨quotedName "the \"title\"", ['='], ['$', '4']⟩,
          ⟨quotedName "id", ['<', '>'], ['$', '5']⟩]) ∧
    ∃ before lookup after, faultyCondition.tests = before ++ lookup :: after ∧
      lookup.Fails bookModel (.unknownOperator "~") := by
  constructor
  · have hdenotes : ∀ lookup ∈ bookCondition.tests, ∃ test, lookup.Denotes bookModel test := by
      have htests : bookCondition.tests
          = [⟨"id >", .int 1⟩, ⟨"title", .text "Emma"⟩, ⟨"id !=", .int 5⟩] := rfl
      rw [htests]
      simp only [List.forall_mem_cons, ← Lookup.resolve_eq_ok_iff]
      exact ⟨⟨_, rfl⟩, ⟨_, rfl⟩, ⟨_, rfl⟩, List.forall_mem_nil _⟩
    obtain ⟨resolved, hresolved, -, harguments, -, huses⟩ :=
      (compiled bookModel bookCondition .postgres 3).1 hdenotes
    refine ⟨resolved, hresolved, harguments, ?_⟩
    rw [huses]
    cases hresolved
    rfl
  · have hnot : ¬∀ lookup ∈ faultyCondition.tests, ∃ test, lookup.Denotes bookModel test := by
      intro hdenotes
      obtain ⟨test, htest⟩ := hdenotes ⟨"title ~", .text "Emma"⟩ (.tail _ (.head _))
      cases Lookup.resolve_eq_ok_iff.mpr htest
    obtain ⟨before, lookup, after, e, htests, -, hfails, hresolve⟩ :=
      (compiled bookModel faultyCondition .postgres 3).2 hnot
    have he : faultyCondition.resolve bookModel = .error (.unknownOperator "~") := rfl
    cases he.symm.trans hresolve
    exact ⟨before, lookup, after, htests, hfails⟩

end Condition

end SchemaHistory
