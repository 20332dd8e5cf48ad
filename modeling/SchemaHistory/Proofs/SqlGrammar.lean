import SchemaHistory.Proofs.Sessions
import SchemaHistory.Proofs.SqlText

/-!
# The grammar of schema changes

`Sql.Definition` is a statement of SQL that creates, changes or drops a table or an index, as its
grammar takes it apart: names, columns with their types and constraints, defaults as literals.
`Sql.definition?` reads the tokens of exactly one such statement, and each statement is read from
its own tokens (`Definition.definition?_tokens`).

Lists in parentheses are cut at the commas outside of inner parentheses. Tokens that keep their
parentheses to themselves are `Enclosed`, and a list of such items is read item by item
(`items?_intercalate`). The words of a type end where a constraint begins (`typeWords_constraints`).
-/

namespace SchemaHistory.Sql

/-! ### Statements -/

inductive Literal where
  | null
  | truth (value : Bool)
  /-- Digits with a sign or none, and how many of them stand after the point. -/
  | number (negative : Bool) (digits places : Nat)
  | text (text : String)
deriving DecidableEq

/-- The name of a type, such as `DOUBLE PRECISION` or `VARCHAR(80)`. -/
structure TypeName where
  words : List String
  length : Option Nat := none
deriving DecidableEq

inductive Constraint where
  | primaryKey
  | counted
  | notNull
  | unique
  | default (literal : Literal)
deriving DecidableEq

structure ColumnDefinition where
  name : String
  type : TypeName
  constraints : List Constraint := []
deriving DecidableEq

/-- A statement that changes the schema of a database. -/
inductive Definition where
  | createTable (table : String) (ifMissing : Bool) (columns : List ColumnDefinition)
  | dropTable (table : String)
  | renameTable (table newName : String)
  | addColumn (table : String) (column : ColumnDefinition)
  | dropColumn (table column : String)
  | setNotNull (table column : String)
  | createIndex (index table : String) (columns : List String)
  | dropIndex (index : String)
deriving DecidableEq

/-! ### Reading -/

/-- The words that constraints begin with, so that no type goes on with one. -/
def constraintWords : List String := ["PRIMARY", "AUTOINCREMENT", "NOT", "UNIQUE", "DEFAULT"]

def typeWords : List Token → List String × List Token
  | .word letters :: rest =>
    if constraintWords.contains letters then ([], .word letters :: rest)
    else
      let (words, rest) := typeWords rest
      (letters :: words, rest)
  | rest => ([], rest)

/-- Reads a type, with a length in parentheses or none. -/
def type? (tokens : List Token) : Option (TypeName × List Token) :=
  match typeWords tokens with
  | ([], _) => none
  | (words, .mark '(' :: .number length 0 :: .mark ')' :: rest) => some (⟨words, length⟩, rest)
  | (words, rest) => some (⟨words, none⟩, rest)

def literal? : Token → Option Literal
  | .word "NULL" => some .null
  | .word "TRUE" => some (.truth true)
  | .word "FALSE" => some (.truth false)
  | .number digits places => some (.number false digits places)
  | .text text => some (.text text)
  | _ => none

def constraints? : List Token → Option (List Constraint)
  | [] => some []
  | .word "PRIMARY" :: .word "KEY" :: rest => (constraints? rest).map (.primaryKey :: ·)
  | .word "AUTOINCREMENT" :: rest => (constraints? rest).map (.counted :: ·)
  | .word "NOT" :: .word "NULL" :: rest => (constraints? rest).map (.notNull :: ·)
  | .word "UNIQUE" :: rest => (constraints? rest).map (.unique :: ·)
  | .word "DEFAULT" :: .mark '-' :: .number digits places :: rest =>
    (constraints? rest).map (.default (.number true digits places) :: ·)
  | .word "DEFAULT" :: token :: rest => do
    let literal ← literal? token
    return .default literal :: (← constraints? rest)
  | _ => none

def column? : List Token → Option ColumnDefinition
  | .name name :: rest => do
    let (type, rest) ← type? rest
    return ⟨name, type, ← constraints? rest⟩
  | _ => none

def name? : List Token → Option String
  | [.name name] => some name
  | _ => none

/-- The items up to the closing parenthesis, which must be the last token. They are separated by the
commas that stand in no other parentheses. -/
def items? (depth : Nat) (item : List Token) : List Token → Option (List (List Token))
  | [.mark ')'] => if depth = 0 then some [item] else none
  | .mark ')' :: rest => if depth = 0 then none else items? (depth - 1) (item ++ [.mark ')']) rest
  | .mark '(' :: rest => items? (depth + 1) (item ++ [.mark '(']) rest
  | .mark ',' :: rest =>
    if depth = 0 then (items? 0 [] rest).map (item :: ·)
    else items? depth (item ++ [.mark ',']) rest
  | token :: rest => items? depth (item ++ [token]) rest
  | [] => none

def list? {α : Type} (read : List Token → Option α) : List Token → Option (List α)
  | [.mark '(', .mark ')'] => some []
  | .mark '(' :: rest => do (← items? 0 [] rest).mapM read
  | _ => none

def createTable? : List Token → Option Definition
  | .word "IF" :: .word "NOT" :: .word "EXISTS" :: .name table :: rest =>
    (list? column? rest).map (.createTable table true)
  | .name table :: rest => (list? column? rest).map (.createTable table false)
  | _ => none

/-- Reads what follows the name of a table that is altered. -/
def alterTable? (table : String) : List Token → Option Definition
  | .word "RENAME" :: .word "TO" :: rest => (name? rest).map (.renameTable table)
  | .word "ADD" :: .word "COLUMN" :: rest => (column? rest).map (.addColumn table)
  | .word "DROP" :: .word "COLUMN" :: rest => (name? rest).map (.dropColumn table)
  | [.word "ALTER", .word "COLUMN", .name column, .word "SET", .word "NOT", .word "NULL"] =>
    some (.setNotNull table column)
  | _ => none

def definition? : List Token → Option Definition
  | .word "CREATE" :: .word "TABLE" :: rest => createTable? rest
  | .word "DROP" :: .word "TABLE" :: rest => (name? rest).map .dropTable
  | .word "ALTER" :: .word "TABLE" :: .name table :: rest => alterTable? table rest
  | .word "CREATE" :: .word "INDEX" :: .name index :: .word "ON" :: .name table :: rest =>
    (list? name? rest).map (.createIndex index table)
  | .word "DROP" :: .word "INDEX" :: rest => (name? rest).map .dropIndex
  | _ => none

def read? (s : String) : Option Definition := (scan? s.toList).bind definition?

/-! ### Tokens -/

def Literal.tokens : Literal → List Token
  | null => [.word "NULL"]
  | truth true => [.word "TRUE"]
  | truth false => [.word "FALSE"]
  | number false digits places => [.number digits places]
  | number true digits places => [.mark '-', .number digits places]
  | text s => [.text s]

def TypeName.tokens (type : TypeName) : List Token :=
  type.words.map .word ++
    (type.length.map fun length => [.mark '(', .number length 0, .mark ')']).getD []

def Constraint.tokens : Constraint → List Token
  | primaryKey => [.word "PRIMARY", .word "KEY"]
  | counted => [.word "AUTOINCREMENT"]
  | notNull => [.word "NOT", .word "NULL"]
  | unique => [.word "UNIQUE"]
  | default literal => .word "DEFAULT" :: literal.tokens

def ColumnDefinition.tokens (column : ColumnDefinition) : List Token :=
  .name column.name :: (column.type.tokens ++ column.constraints.flatMap Constraint.tokens)

def listTokens (items : List (List Token)) : List Token :=
  .mark '(' :: ([Token.mark ','].intercalate items ++ [.mark ')'])

def Definition.tokens : Definition → List Token
  | createTable table ifMissing columns =>
    [.word "CREATE", .word "TABLE"] ++
      (if ifMissing then [.word "IF", .word "NOT", .word "EXISTS"] else []) ++
      .name table :: listTokens (columns.map ColumnDefinition.tokens)
  | dropTable table => [.word "DROP", .word "TABLE", .name table]
  | renameTable table newName =>
    [.word "ALTER", .word "TABLE", .name table, .word "RENAME", .word "TO", .name newName]
  | addColumn table column =>
    [.word "ALTER", .word "TABLE", .name table, .word "ADD", .word "COLUMN"] ++ column.tokens
  | dropColumn table column =>
    [.word "ALTER", .word "TABLE", .name table, .word "DROP", .word "COLUMN", .name column]
  | setNotNull table column =>
    [.word "ALTER", .word "TABLE", .name table, .word "ALTER", .word "COLUMN", .name column,
      .word "SET", .word "NOT", .word "NULL"]
  | createIndex index table columns =>
    [.word "CREATE", .word "INDEX", .name index, .word "ON", .name table] ++
      listTokens (columns.map fun column => [.name column])
  | dropIndex index => [.word "DROP", .word "INDEX", .name index]

/-! ### Statements are read from their tokens -/

variable {tokens rest : List Token} {items : List (List Token)}

/-- A default is read up to the end of its literal. -/
theorem constraints?_default (literal : Literal) (rest : List Token) :
    constraints? (.word "DEFAULT" :: (literal.tokens ++ rest))
      = (constraints? rest).map (.default literal :: ·) := by
  cases hrest : constraints? rest <;> cases literal with
  | truth value => cases value <;> simp [Literal.tokens, constraints?, literal?, hrest]
  | number negative digits places =>
      cases negative <;> simp [Literal.tokens, constraints?, literal?, hrest]
  | _ => simp [Literal.tokens, constraints?, literal?, hrest]

/-- Constraints are read from their own tokens. -/
theorem constraints?_tokens (constraints : List Constraint) :
    constraints? (constraints.flatMap Constraint.tokens) = some constraints := by
  induction constraints with
  | nil => rfl
  | cons constraint rest ih =>
      rw [List.flatMap_cons]
      cases constraint with
      | default literal =>
          rw [Constraint.tokens, List.cons_append, constraints?_default, ih]
          rfl
      | _ => simp [Constraint.tokens, constraints?, ih]

/-- The words of a type are none of the words that constraints begin with. -/
structure TypeName.Plain (type : TypeName) : Prop where
  words_ne_nil : type.words ≠ []
  plain : ∀ letters ∈ type.words, letters ∉ constraintWords

/-- The words of a type end where a constraint begins. -/
theorem typeWords_append {words : List String}
    (hwords : ∀ letters ∈ words, letters ∉ constraintWords) (hrest : typeWords rest = ([], rest)) :
    typeWords (words.map .word ++ rest) = (words, rest) := by
  induction words with
  | nil => exact hrest
  | cons letters words ih =>
      obtain ⟨hfirst, hwords⟩ := List.forall_mem_cons.mp hwords
      rw [List.map_cons, List.cons_append, typeWords, if_neg (by simpa using hfirst), ih hwords]

/-- No type goes on with constraints. -/
theorem typeWords_constraints (constraints : List Constraint) :
    typeWords (constraints.flatMap Constraint.tokens)
      = ([], constraints.flatMap Constraint.tokens) := by
  cases constraints with
  | nil => rfl
  | cons constraint rest =>
      cases constraint <;> simp [Constraint.tokens, typeWords, constraintWords]

/-- A type is read from its own tokens, whatever constraints follow. -/
theorem type?_tokens {type : TypeName} (h : type.Plain) (constraints : List Constraint) :
    type? (type.tokens ++ constraints.flatMap Constraint.tokens)
      = some (type, constraints.flatMap Constraint.tokens) := by
  obtain ⟨words, length⟩ := type
  obtain ⟨hsome, hplain⟩ := h
  obtain ⟨first, others, rfl⟩ := List.exists_cons_of_ne_nil hsome
  cases length with
  | some length =>
      have hwords : typeWords ((first :: others).map .word ++ .mark '(' :: .number length 0 ::
          .mark ')' :: constraints.flatMap Constraint.tokens) = _ := typeWords_append hplain rfl
      simp only [type?, TypeName.tokens, List.append_assoc, Option.map_some, Option.getD_some,
        List.cons_append, List.nil_append, hwords]
  | none =>
      have hwords := typeWords_append hplain (typeWords_constraints constraints)
      simp only [type?, TypeName.tokens, Option.map_none, Option.getD_none, List.append_nil, hwords]
      -- constraints begin with no parenthesis
      cases constraints with
      | nil => rfl
      | cons constraint rest => cases constraint <;> rfl

theorem column?_tokens {column : ColumnDefinition} (h : column.type.Plain) :
    column? column.tokens = some column := by
  rw [ColumnDefinition.tokens, column?, type?_tokens h]
  show (constraints? _ >>= fun constraints => some _) = _
  rw [constraints?_tokens]
  rfl

/-- Tokens that stay in one item of a list. -/
def Enclosed (tokens : List Token) : Prop :=
  ∀ depth item rest, items? depth item (tokens ++ rest) = items? depth (item ++ tokens) rest

theorem enclosed_nil : Enclosed [] := by
  intro depth item rest
  rw [List.nil_append, List.append_nil]

theorem Enclosed.append {more : List Token} (h : Enclosed tokens) (h' : Enclosed more) :
    Enclosed (tokens ++ more) := by
  intro depth item rest
  rw [List.append_assoc, h, h', List.append_assoc]

theorem enclosed_singleton {token : Token} (h : ∀ c, token = .mark c → c = '-') :
    Enclosed [token] := by
  intro depth item rest
  cases token with
  | mark c =>
      obtain rfl := h c rfl
      rfl
  | _ => rfl

theorem Enclosed.cons {token : Token} (h : ∀ c, token = .mark c → c = '-')
    (htokens : Enclosed tokens) : Enclosed (token :: tokens) :=
  (enclosed_singleton h).append htokens

/-- Parentheses around enclosed tokens are enclosed. -/
theorem Enclosed.group (h : Enclosed tokens) :
    Enclosed (.mark '(' :: (tokens ++ [.mark ')'])) := by
  intro depth item rest
  have hopen : ∀ rest, items? depth item (.mark '(' :: rest)
      = items? (depth + 1) (item ++ [.mark '(']) rest := fun _ => rfl
  have hclose : ∀ item, items? (depth + 1) item (.mark ')' :: rest)
      = items? depth (item ++ [.mark ')']) rest := by
    intro item
    cases rest <;> rfl
  rw [List.cons_append, hopen, List.append_assoc, h, List.singleton_append, hclose]
  simp

/-- Items with commas between them are read item by item. -/
theorem items?_intercalate (hsome : items ≠ []) (h : ∀ item ∈ items, Enclosed item) :
    items? 0 [] ([Token.mark ','].intercalate items ++ [.mark ')']) = some items := by
  induction items with
  | nil => exact absurd rfl hsome
  | cons item more ih =>
      obtain ⟨hitem, hmore⟩ := List.forall_mem_cons.mp h
      cases more with
      | nil =>
          rw [List.intercalate_singleton, hitem]
          rfl
      | cons next more =>
          have hcomma : ∀ rest, items? 0 item (.mark ',' :: rest)
              = (items? 0 [] rest).map (item :: ·) := fun _ => rfl
          rw [List.intercalate_cons_cons, List.append_assoc, List.append_assoc, hitem,
            List.nil_append, List.singleton_append, hcomma, ih (List.cons_ne_nil _ _) hmore]
          rfl

/-- A list of enclosed items is read item by item. -/
theorem list?_tokens {α : Type} {read : List Token → Option α} (h : ∀ item ∈ items, Enclosed item)
    (hsome : ∀ item ∈ items, item ≠ []) : list? read (listTokens items) = items.mapM read := by
  cases items with
  | nil => rfl
  | cons item more =>
      have hitems := items?_intercalate (List.cons_ne_nil item more) h
      rw [listTokens, list?, hitems]
      · rfl
      · intro hnothing
        have hlength := congrArg List.length hnothing
        have hitem := List.length_pos_iff.mpr (hsome item List.mem_cons_self)
        cases more with
        | nil =>
            rw [List.intercalate_singleton, List.length_append] at hlength
            simp only [List.length_singleton] at hlength
            omega
        | cons next more =>
            rw [List.intercalate_cons_cons] at hlength
            simp only [List.length_append, List.length_singleton] at hlength
            omega

theorem enclosed_literal (literal : Literal) : Enclosed literal.tokens := by
  cases literal with
  | truth value => cases value <;> exact enclosed_singleton (by simp)
  | number negative digits places =>
      cases negative with
      | false => exact enclosed_singleton (by simp)
      | true => exact .cons (by simp) (enclosed_singleton (by simp))
  | _ => exact enclosed_singleton (by simp)

theorem enclosed_constraint (constraint : Constraint) : Enclosed constraint.tokens := by
  cases constraint with
  | default literal => exact .cons (by simp) (enclosed_literal literal)
  | primaryKey | notNull => exact .cons (by simp) (enclosed_singleton (by simp))
  | _ => exact enclosed_singleton (by simp)

theorem enclosed_flatMap {α : Type} (write : α → List Token) (h : ∀ a, Enclosed (write a))
    (parts : List α) : Enclosed (parts.flatMap write) := by
  induction parts with
  | nil => exact enclosed_nil
  | cons part rest ih =>
      rw [List.flatMap_cons]
      exact (h part).append ih

theorem enclosed_type (type : TypeName) : Enclosed type.tokens := by
  refine Enclosed.append ?_ ?_
  · have hwords := enclosed_flatMap (fun letters => [Token.word letters])
      (fun letters => enclosed_singleton (by simp)) type.words
    rwa [← List.map_eq_flatMap] at hwords
  · cases type.length with
    | none => exact enclosed_nil
    | some length => exact Enclosed.group (enclosed_singleton (by simp))

theorem enclosed_column (column : ColumnDefinition) : Enclosed column.tokens :=
  .cons (by simp) ((enclosed_type column.type).append
    (enclosed_flatMap Constraint.tokens enclosed_constraint column.constraints))

def Definition.Plain : Definition → Prop
  | createTable _ _ columns => ∀ column ∈ columns, column.type.Plain
  | addColumn _ column => column.type.Plain
  | _ => True

theorem list?_columns {columns : List ColumnDefinition}
    (h : ∀ column ∈ columns, column.type.Plain) :
    list? column? (listTokens (columns.map ColumnDefinition.tokens)) = some columns := by
  rw [list?_tokens]
  · exact mapM_map_eq_pure fun column hmem => column?_tokens (h column hmem)
  · intro item hmem
    obtain ⟨column, -, rfl⟩ := List.mem_map.mp hmem
    exact enclosed_column column
  · intro item hmem
    obtain ⟨column, -, rfl⟩ := List.mem_map.mp hmem
    exact List.cons_ne_nil _ _

theorem list?_names (names : List String) :
    list? name? (listTokens (names.map fun name => [.name name])) = some names := by
  rw [list?_tokens]
  · exact mapM_map_eq_pure fun _ _ => rfl
  · intro item hmem
    obtain ⟨name, -, rfl⟩ := List.mem_map.mp hmem
    exact enclosed_singleton (by simp)
  · intro item hmem
    obtain ⟨name, -, rfl⟩ := List.mem_map.mp hmem
    exact List.cons_ne_nil _ _

/-- A statement is read from its tokens. -/
theorem Definition.definition?_tokens {definition : Definition} (h : definition.Plain) :
    definition? definition.tokens = some definition := by
  cases definition with
  | createTable table ifMissing columns =>
      have hcolumns := list?_columns h
      cases ifMissing with
      | true =>
          show (list? column? (listTokens (columns.map ColumnDefinition.tokens))).map _ = _
          rw [hcolumns]
          rfl
      | false =>
          show (list? column? (listTokens (columns.map ColumnDefinition.tokens))).map _ = _
          rw [hcolumns]
          rfl
  | addColumn table column =>
      show (column? column.tokens).map _ = _
      rw [column?_tokens h]
      rfl
  | createIndex index table columns =>
      show (list? name? (listTokens (columns.map fun name => [.name name]))).map _ = _
      rw [list?_names]
      rfl
  | _ => rfl

end SchemaHistory.Sql
