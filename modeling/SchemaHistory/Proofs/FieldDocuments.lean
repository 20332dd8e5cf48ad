import SchemaHistory.Field.Document
import SchemaHistory.Proofs.CalendarText
import SchemaHistory.Proofs.JsonTree
import SchemaHistory.Proofs.Named
import SchemaHistory.Proofs.Sessions

/-!
# Fields in documents

A field is read from the document that it is written as, if its default is one that a column of its
type keeps (`Field.ofJson?_toJson`). Whatever field is read has such a default
(`Field.keepsDefault_of_ofJson?`), so what was read once is written and read without a change.

The options of a field and those of its kind are members of one object. The kind is read from its
own members (`kindOf?_members`), the rest by name (`ofJsonUncoerced?_toJson`), and the default is
coerced to the type of the column at the end (`KeptBy.coerce_ofScalar`). For `Fields` the same is
said of all entries, with the names in the order in which they are declared.
-/

namespace SchemaHistory

namespace Json

variable {levels : Nat} {json : Json} {key : String} {members done : List (String × Json)}

/-! ### Repeated keys -/

/-- No object has a key twice. -/
inductive KeysDiffer : Json → Prop
  | scalar (value : Scalar) : KeysDiffer (.scalar value)
  | array {items : List Json} (h : ∀ item ∈ items, KeysDiffer item) : KeysDiffer (.array items)
  | object {members : List (String × Json)} (hkeys : (Named.names members).Nodup)
      (h : ∀ member ∈ members, KeysDiffer member.2) : KeysDiffer (.object members)

theorem mergedItems_eq (items : List Json) : mergedItems items = items.map merged := by
  induction items with
  | nil => rfl
  | cons item rest ih => rw [mergedItems, ih, List.map_cons]

/-- Members with different keys that are merged already are left as they are. -/
theorem mergedMembers_eq (hkeys : (Named.names (done ++ members)).Nodup)
    (hvalues : ∀ member ∈ members, merged member.2 = member.2) :
    mergedMembers done members = done ++ members := by
  induction members generalizing done with
  | nil => rw [mergedMembers, List.append_nil]
  | cons member rest ih =>
      obtain ⟨key, value⟩ := member
      obtain ⟨hvalue, hrest⟩ := List.forall_mem_cons.mp hvalues
      have hnew : Named.get? key done = none := by
        rw [Named.get?_eq_none_iff]
        intro hmem
        rw [Named.names_append, Named.names_cons] at hkeys
        exact (List.nodup_append.mp hkeys).2.2 key hmem key List.mem_cons_self rfl
      rw [mergedMembers, hvalue, Named.set_of_get?_eq_none hnew, ih (by simpa using hkeys) hrest,
        List.append_assoc, List.singleton_append]

/-- A document in which no key comes twice is left as it is. -/
theorem KeysDiffer.merged_eq (h : KeysDiffer json) : json.merged = json := by
  induction h with
  | scalar => rfl
  | array _ ih =>
      rw [merged, mergedItems_eq, List.map_congr_left ih, List.map_id']
  | @object members hkeys _ ih =>
      have hall : (Named.names ([] ++ members)).Nodup := hkeys
      rw [merged, mergedMembers_eq hall ih, List.nil_append]

theorem legible_mergedMembers (hdone : ∀ member ∈ done, Legible levels member.2)
    (hmembers : ∀ member ∈ members, Legible levels member.2.merged) :
    ∀ member ∈ mergedMembers done members, Legible levels member.2 := by
  induction members generalizing done with
  | nil => exact hdone
  | cons member rest ih =>
      obtain ⟨hmember, hrest⟩ := List.forall_mem_cons.mp hmembers
      refine ih (fun member hmem => ?_) hrest
      rcases Named.mem_set hmem with rfl | hmem
      · exact hmember
      · exact hdone member hmem

/-- Merging makes no document deeper or harder to read. -/
theorem Legible.merged (h : Legible levels json) : Legible levels json.merged := by
  induction h with
  | scalar h => exact .scalar h
  | unread => exact .unread
  | array _ ih =>
      rw [Json.merged, mergedItems_eq]
      refine .array fun item hmem => ?_
      obtain ⟨found, hfound, rfl⟩ := List.mem_map.mp hmem
      exact ih found hfound
  | object _ ih =>
      rw [Json.merged]
      exact .object (legible_mergedMembers (List.forall_mem_nil _) ih)

/-! ### Values that are read as a whole -/

theorem itemsAreRead_iff {items : List Json} :
    itemsAreRead items = true ↔ ∀ item ∈ items, item.isRead = true := by
  induction items with
  | nil => simp [itemsAreRead]
  | cons item rest ih => simp [itemsAreRead, ih]

theorem membersAreRead_iff :
    membersAreRead members = true ↔ ∀ member ∈ members, member.2.isRead = true := by
  induction members with
  | nil => simp [membersAreRead]
  | cons member rest ih => simp [membersAreRead, ih]

/-- Every member of a document without repeated keys is read. -/
theorem KeysDiffer.isRead (h : KeysDiffer json) : json.isRead = true := by
  induction h with
  | scalar => rfl
  | array _ ih => exact itemsAreRead_iff.mpr ih
  | object _ _ ih => exact membersAreRead_iff.mpr ih

/-- A value without repeated keys is read as a whole as it stands. -/
theorem KeysDiffer.whole?_eq (h : KeysDiffer json) : json.whole? = some json := by
  rw [whole?, if_pos h.isRead, h.merged_eq]

theorem Legible.whole? {found : Json} (h : Legible levels json)
    (hwhole : json.whole? = some found) :
    Legible levels found := by
  unfold Json.whole? at hwhole
  split at hwhole
  · cases hwhole
    exact h.merged
  · cases hwhole

/-! ### Members of records -/

theorem filter_key_eq_nil (h : key ∉ Named.names members) : members.filter (·.1 = key) = [] := by
  rw [List.filter_eq_nil_iff]
  intro member hmem heq
  exact h (List.mem_map.mpr ⟨member, hmem, of_decide_eq_true heq⟩)

/-- With different keys the members of one key are at most one. -/
theorem member?_eq (hkeys : (Named.names members).Nodup) :
    member? key members = some (Named.get? key members) := by
  unfold member?
  induction members with
  | nil => rfl
  | cons member rest ih =>
      obtain ⟨name, value⟩ := member
      obtain ⟨hnot, hrest⟩ := List.nodup_cons.mp hkeys
      by_cases hname : name = key
      · subst hname
        rw [List.filter_cons_of_pos (by simp), filter_key_eq_nil hnot, Named.get?_cons, if_pos rfl]
      · rw [List.filter_cons_of_neg (by simpa using hname), ih hrest, Named.get?_cons,
          if_neg hname]

theorem objectMembers?_eq (hkeys : (Named.names members).Nodup) (names : List String) :
    objectMembers? names members = some (names.map (Named.get? · members)) := by
  have hmember : (member? · members) = fun key => some (Named.get? key members) :=
    funext fun key => member?_eq hkeys
  rw [objectMembers?, hmember]
  exact List.mapM_pure

/-- Of an object whose keys differ, a record takes what is found by the names. -/
theorem record?_object (hkeys : (Named.names members).Nodup) (names : List String) :
    record? names (.object members) = some (names.map (Named.get? · members)) :=
  objectMembers?_eq hkeys names

/-- Members that are not asked for do not matter. -/
theorem member?_filter {names : List String} (hkey : key ∈ names) :
    member? key (members.filter (·.1 ∈ names)) = member? key members := by
  have hfilter : (members.filter (·.1 ∈ names)).filter (·.1 = key)
      = members.filter (·.1 = key) := by
    rw [List.filter_filter]
    refine List.filter_congr fun member _ => ?_
    by_cases hname : member.1 = key
    · simp [hname, hkey]
    · simp [hname]
  rw [member?, member?, hfilter]

/-- A record takes nothing but the members with its names. -/
theorem record?_filter (names : List String) :
    record? names (.object (members.filter (·.1 ∈ names))) = record? names (.object members) := by
  have hmembers : ∀ keys, keys ⊆ names →
      keys.mapM (member? · (members.filter (·.1 ∈ names))) = keys.mapM (member? · members) := by
    intro keys hkeys
    induction keys with
    | nil => rfl
    | cons key rest ih =>
        obtain ⟨hkey, hrest⟩ := List.cons_subset.mp hkeys
        rw [List.mapM_cons, List.mapM_cons, member?_filter hkey, ih hrest]
  exact hmembers names (List.Subset.refl names)

end Json

/-! ### Defaults -/

namespace Value

/-- A default that a column of the type keeps when it is read again: no `null`, a finite number, a
date or a time of the type, or a text that is none. -/
def KeptBy (type : ColumnType) : Value → Prop
  | null => False
  | bool _ | int _ => True
  | float x => x.isFinite = true
  | text s => coerce type (text s) = text s
  | date _ => type = .date
  | time _ => type = .time
  | dateTime _ => type = .dateTime

instance (type : ColumnType) : (value : Value) → Decidable (value.KeptBy type)
  | null => inferInstanceAs (Decidable False)
  | bool _ | int _ => inferInstanceAs (Decidable True)
  | float x => inferInstanceAs (Decidable (x.isFinite = true))
  | text s => inferInstanceAs (Decidable (coerce type (text s) = text s))
  | date _ => inferInstanceAs (Decidable (type = .date))
  | time _ => inferInstanceAs (Decidable (type = .time))
  | dateTime _ => inferInstanceAs (Decidable (type = .dateTime))

variable {type : ColumnType} {value : Value}

theorem ofInteger_toInt (n : Int64) : ofInteger n.toInt = int n := by
  rw [ofInteger, if_pos ⟨n.minValue_le_toInt, n.toInt_le⟩, Int64.ofInt_toInt]

/-- A value that its type keeps is written as a scalar that can be read. -/
theorem KeptBy.legible (h : value.KeptBy type) : value.toScalar.Legible := by
  cases value with
  | null => cases h
  | int n =>
      have hlower := n.le_toInt
      have hupper := n.toInt_lt
      exact ⟨hlower, hupper.trans (by decide)⟩
  | float x => exact h
  | _ => trivial

theorem KeptBy.toScalar_ne_null (h : value.KeptBy type) : value.toScalar ≠ .null := by
  cases value with
  | null => cases h
  | _ => nofun

/-- Such a default is read as it was written. -/
theorem KeptBy.coerce_ofScalar (h : value.KeptBy type) :
    coerce type (ofScalar value.toScalar) = value := by
  cases value with
  | null => cases h
  | bool b => rfl
  | int n => rw [toScalar, ofScalar, ofInteger_toInt, coerce]; nofun
  | float x => rfl
  | text s => exact h
  | date d =>
      obtain rfl : type = .date := h
      simp only [toScalar, ofScalar, coerce, parse?, Date.read?_text, Option.map_some,
        Option.getD_some]
  | time t =>
      obtain rfl : type = .time := h
      simp only [toScalar, ofScalar, coerce, parse?, Time.read?_text, Option.map_some,
        Option.getD_some]
  | dateTime m =>
      obtain rfl : type = .dateTime := h
      simp only [toScalar, ofScalar, coerce, parse?, DateTime.readJoined?_text, Option.some_or,
        Option.map_some, Option.getD_some]

/-- Whatever is parsed from a text is kept. -/
theorem keptBy_parse? {s : String} (h : parse? type s = some value) : value.KeptBy type := by
  unfold parse? at h
  split at h
  · obtain ⟨d, -, rfl⟩ := Option.map_eq_some_iff.mp h
    rfl
  · obtain ⟨t, -, rfl⟩ := Option.map_eq_some_iff.mp h
    rfl
  · obtain ⟨m, -, rfl⟩ := Option.map_eq_some_iff.mp h
    rfl
  · cases h

/-- Whatever stands in a document, a column keeps what it makes of it. -/
theorem keptBy_coerce {scalar : Json.Scalar} (h : scalar.Legible) (hnull : scalar ≠ .null) :
    (coerce type (ofScalar scalar)).KeptBy type := by
  cases scalar with
  | null => exact absurd rfl hnull
  | bool b => trivial
  | float x => exact h
  | integer n =>
      rw [ofScalar, ofInteger]
      split
      · trivial
      · obtain ⟨hlower, hupper⟩ := h
        have hsize : n.natAbs < 2 ^ 64 := by omega
        have hbounded : Binary64.decimalOrdinal n.natAbs 0 < 2047 * Nat.pow 2 52 :=
          Binary64.decimalOrdinal_lt_ordinalLimit hsize
        show Binary64.isFinite (.ofOrdinal _ (Binary64.decimalOrdinal n.natAbs 0)) = true
        rw [Binary64.ofOrdinal, dif_pos hbounded]
        rfl
  | string s =>
      rw [ofScalar, coerce]
      cases hparse : parse? type s with
      | some found => exact keptBy_parse? hparse
      | none =>
          show coerce type (text s) = text s
          rw [coerce, hparse]
          rfl

end Value

/-! ### Fields -/

namespace Field

open Json

variable {field : Field} {levels : Nat} {key : String}

/-- A default, if there is one, is kept by the column. -/
def KeepsDefault (field : Field) : Prop := ∀ value ∈ field.default, value.KeptBy field.columnType

instance (field : Field) : Decidable field.KeepsDefault :=
  inferInstanceAs (Decidable (∀ value ∈ field.default, value.KeptBy field.columnType))

theorem names_flagMember (key : String) (flag : Bool) :
    (Named.names (flagMember key flag)).Sublist [key] := by
  cases flag
  · exact List.nil_sublist _
  · exact List.Sublist.refl _

/-- The members of a field, in the order in which they are written. -/
def memberNames : List String :=
  ["max_length", "auto_now_add", "auto_now", "null", "primary_key", "unique", "index", "column",
    "default"]

theorem names_kindMembers (kind : FieldKind) :
    (Named.names (kindMembers kind)).Sublist ["max_length", "auto_now_add", "auto_now"] := by
  cases kind with
  | char maxLength => exact (List.nil_sublist _).cons_cons _
  | dateTime stampedOnAdd stampedOnChange =>
      rw [kindMembers, Named.names_append]
      exact ((names_flagMember _ _).append (names_flagMember _ _)).cons _
  | _ => exact List.nil_sublist _

theorem names_optionMembers (field : Field) : (Named.names field.optionMembers).Sublist
    ["null", "primary_key", "unique", "index", "column", "default"] := by
  have hcolumn : (Named.names (field.column.map fun column =>
      ("column", Json.string column)).toList).Sublist ["column"] := by
    cases field.column
    · exact List.nil_sublist _
    · exact List.Sublist.refl _
  have hdefault : (Named.names (field.default.map fun value =>
      ("default", Json.scalar value.toScalar)).toList).Sublist ["default"] := by
    cases field.default
    · exact List.nil_sublist _
    · exact List.Sublist.refl _
  simp only [optionMembers, Named.names_append]
  exact (((((names_flagMember "null" _).append (names_flagMember "primary_key" _)).append
    (names_flagMember "unique" _)).append (names_flagMember "index" _)).append hcolumn).append
    hdefault

theorem names_members (field : Field) :
    (Named.names (kindMembers field.kind ++ field.optionMembers)).Sublist memberNames := by
  rw [Named.names_append]
  exact (names_kindMembers field.kind).append (names_optionMembers field)

/-- A field is written with different keys. -/
theorem nodup_names_members (field : Field) :
    (Named.names (kindMembers field.kind ++ field.optionMembers)).Nodup :=
  (names_members field).nodup (by decide)

theorem get?_flagMember (flagKey : String) (flag : Bool) : Named.get? key (flagMember flagKey flag)
    = if flagKey = key ∧ flag = true then some (.bool true) else none := by
  cases flag <;> simp [flagMember, Named.get?_cons]

theorem withDefault_flag (flag : Bool) :
    withDefault false asBool? (if flag = true then some (.bool true) else none) = some flag := by
  cases flag <;> rfl

theorem get?_optional {α : Type} (name : String) (value : Option α) (write : α → Json) :
    Named.get? key (value.map fun a => (name, write a)).toList
      = if name = key then value.map write else none := by
  cases value <;> simp [Named.get?_cons]

/-- The members of the kind hold none of the options. -/
theorem get?_kindMembers (kind : FieldKind) (h : key ∈ optionNames) :
    Named.get? key (kindMembers kind) = none := by
  rw [Named.get?_eq_none_iff]
  intro hmem
  have hkind := (names_kindMembers kind).subset hmem
  have hapart : ∀ name ∈ optionNames, name ∉ ["max_length", "auto_now_add", "auto_now"] := by decide
  exact hapart key h hkind

/-- The options hold none of the members of the kind. -/
theorem get?_optionMembers (field : Field) (h : key ∉ optionNames) :
    Named.get? key field.optionMembers = none := by
  rw [Named.get?_eq_none_iff]
  intro hmem
  exact h ((names_optionMembers field).subset hmem)

theorem optional_scalar {scalar : Scalar} (h : scalar ≠ .null) :
    optional Value.ofJson? (some (.scalar scalar)) = some (some (.ofScalar scalar)) := by
  cases scalar with
  | null => exact absurd rfl h
  | _ => rfl

theorem asUInt64?_toNat (n : UInt64) : asUInt64? (.integer n.toNat) = some n := by
  have hfits : 0 ≤ (n.toNat : Int) ∧ (n.toNat : Int).toNat < UInt64.size :=
    ⟨Int.natCast_nonneg _, n.toNat_lt_size⟩
  rw [asUInt64?, if_pos hfits, Int.toNat_natCast, UInt64.ofNat_toNat]

/-- The kind is read from its name and its members. -/
theorem kindOf?_members (field : Field) :
    kindOf? field.kind.name (kindMembers field.kind ++ field.optionMembers) = some field.kind := by
  have hkeys := nodup_names_members field
  cases hkind : field.kind with
  | char maxLength =>
      rw [hkind] at hkeys
      have hlength : Named.get? "max_length" (kindMembers (.char maxLength) ++ field.optionMembers)
          = some (.integer maxLength.toNat) := by
        rw [Named.get?_append, kindMembers, Named.get?_cons, if_pos rfl, Option.some_or]
      simp only [kindOf?, FieldKind.name, objectMembers?_eq hkeys, List.map_cons, List.map_nil,
        hlength]
      show (required asUInt64? (some (.integer maxLength.toNat))).bind _ = _
      rw [required, Option.bind_some, asUInt64?_toNat]
      rfl
  | dateTime stampedOnAdd stampedOnChange =>
      rw [hkind] at hkeys
      have hflags : ∀ key ∈ ["auto_now_add", "auto_now"],
          Named.get? key (kindMembers (.dateTime stampedOnAdd stampedOnChange)
            ++ field.optionMembers)
          = if key = "auto_now_add" ∧ stampedOnAdd = true ∨
              key = "auto_now" ∧ stampedOnChange = true then some (.bool true) else none := by
        intro key hkey
        have hoptions : Named.get? key field.optionMembers = none :=
          get?_optionMembers field (by revert key; decide)
        rw [Named.get?_append, hoptions, Option.or_none, kindMembers, Named.get?_append,
          get?_flagMember, get?_flagMember]
        grind
      obtain ⟨hadd, hrest⟩ := List.forall_mem_cons.mp hflags
      obtain ⟨hchange, -⟩ := List.forall_mem_cons.mp hrest
      simp only [kindOf?, FieldKind.name, objectMembers?_eq hkeys, List.map_cons, List.map_nil,
        hadd, hchange]
      cases stampedOnAdd <;> cases stampedOnChange <;> rfl
  | _ => rfl

theorem legible_of_mem_flagMember {member : String × Json} {flag : Bool}
    (hmem : member ∈ flagMember key flag) : ∃ scalar : Scalar, scalar.Legible ∧
      member.2 = .scalar scalar := by
  cases flag with
  | false => cases hmem
  | true =>
      obtain rfl := List.mem_singleton.mp hmem
      exact ⟨.bool true, trivial, rfl⟩

theorem legible_of_mem_kindMembers {member : String × Json} {kind : FieldKind}
    (hmem : member ∈ kindMembers kind) : ∃ scalar : Scalar, scalar.Legible ∧
      member.2 = .scalar scalar := by
  cases kind with
  | char maxLength =>
      obtain rfl := List.mem_singleton.mp hmem
      have hupper := maxLength.toNat_lt
      exact ⟨.integer maxLength.toNat, ⟨by omega, by exact_mod_cast hupper⟩, rfl⟩
  | dateTime stampedOnAdd stampedOnChange =>
      rcases List.mem_append.mp hmem with hmem | hmem
      · exact legible_of_mem_flagMember hmem
      · exact legible_of_mem_flagMember hmem
  | _ => cases hmem

theorem legible_of_mem_optionMembers {member : String × Json} (h : field.KeepsDefault)
    (hmem : member ∈ field.optionMembers) : ∃ scalar : Scalar, scalar.Legible ∧
      member.2 = .scalar scalar := by
  simp only [optionMembers, List.mem_append, Option.mem_toList, Option.map_eq_some_iff] at hmem
  rcases hmem with ((((hmem | hmem) | hmem) | hmem) | ⟨column, -, rfl⟩) | ⟨value, hvalue, rfl⟩
  · exact legible_of_mem_flagMember hmem
  · exact legible_of_mem_flagMember hmem
  · exact legible_of_mem_flagMember hmem
  · exact legible_of_mem_flagMember hmem
  · exact ⟨.string column, trivial, rfl⟩
  · exact ⟨value.toScalar, (h value hvalue).legible, rfl⟩

/-- Every member of a field holds a scalar that can be read. -/
theorem legible_of_mem_members {member : String × Json} (h : field.KeepsDefault)
    (hmem : member ∈ kindMembers field.kind ++ field.optionMembers) :
    ∃ scalar : Scalar, scalar.Legible ∧ member.2 = .scalar scalar :=
  (List.mem_append.mp hmem).elim legible_of_mem_kindMembers (legible_of_mem_optionMembers h)

/-- The options are read from their members, the default as it stands in the document. -/
theorem ofJsonUncoerced?_toJson (h : field.KeepsDefault) : ofJsonUncoerced? field.toJson
    = some { field with default := field.default.map fun value => .ofScalar value.toScalar } := by
  have hkeys := nodup_names_members field
  have hread : membersAreRead (kindMembers field.kind ++ field.optionMembers) = true := by
    refine membersAreRead_iff.mpr fun member hmem => ?_
    obtain ⟨scalar, -, hscalar⟩ := legible_of_mem_members h hmem
    rw [hscalar]
    rfl
  have hcolumn : optional asString? (field.column.map Json.string) = some field.column := by
    cases field.column <;> rfl
  have hvalue : optional Value.ofJson? (field.default.map fun value => .scalar value.toScalar)
      = some (field.default.map fun value => .ofScalar value.toScalar) := by
    cases hcase : field.default with
    | none => rfl
    | some value => exact optional_scalar (h value hcase).toScalar_ne_null
  have hkind : ∀ key ∈ optionNames,
      Named.get? key (kindMembers field.kind ++ field.optionMembers)
        = Named.get? key field.optionMembers := by
    intro key hmem
    rw [Named.get?_append, get?_kindMembers field.kind hmem, Option.none_or]
  rw [toJson, ofJsonUncoerced?, hread, kindOf?_members, objectMembers?_eq hkeys,
    List.map_congr_left hkind]
  simp [optionNames, Named.get?_append, optionMembers, get?_flagMember, get?_optional,
    withDefault_flag, hcolumn, hvalue]

/-- A field is read as it was written. -/
theorem ofJson?_toJson (h : field.KeepsDefault) : ofJson? field.toJson = some field := by
  have hdefault : (field.default.map fun value => Value.ofScalar value.toScalar).map
      (Value.coerce field.columnType) = field.default := by
    cases hcase : field.default with
    | none => rfl
    | some value => exact congrArg some (h value hcase).coerce_ofScalar
  rw [ofJson?, ofJsonUncoerced?_toJson h, Option.map_some, coerced]
  exact congrArg (fun default => some { field with default }) hdefault

/-- A field is two objects deep. -/
theorem legible_toJson (h : field.KeepsDefault) : Legible (levels + 2) field.toJson := by
  refine .object (List.forall_mem_singleton.mpr (.object fun member hmem => ?_))
  obtain ⟨scalar, hlegible, heq⟩ := legible_of_mem_members h hmem
  rw [heq]
  exact .scalar hlegible

/-- No key comes twice in the document of a field. -/
theorem keysDiffer_toJson (h : field.KeepsDefault) : KeysDiffer field.toJson := by
  refine .object (List.pairwise_singleton _ _) (List.forall_mem_singleton.mpr
    (.object (nodup_names_members field) fun member hmem => ?_))
  obtain ⟨scalar, -, heq⟩ := legible_of_mem_members h hmem
  rw [heq]
  exact .scalar scalar

/-! ### What is read -/

theorem legible_of_member? {members : List (String × Json)}
    (h : Legible (levels + 1) (.object members)) {written : Option Json}
    (hmember : member? key members = some written) :
    ∀ json, written = some json → Legible levels json := by
  cases h with
  | object hvalues =>
  unfold member? at hmember
  split at hmember
  · cases hmember
    nofun
  · next name value hfilter =>
      cases hmember
      rintro _ ⟨⟩
      have hmem : (name, value) ∈ members.filter (·.1 = key) := by
        rw [hfilter]
        exact List.mem_singleton_self _
      exact hvalues _ (List.mem_filter.mp hmem).1
  · cases hmember

/-- A default that is read is what a scalar other than `null` stands for. -/
theorem exists_scalar_of_optional {written : Option Json}
    (hlegible : ∀ json, written = some json → Legible levels json) {default : Option Value}
    (h : Json.optional Value.ofJson? written = some default) : ∀ value, default = some value →
      ∃ scalar : Scalar, scalar.Legible ∧ scalar ≠ .null ∧ value = .ofScalar scalar := by
  unfold Json.optional at h
  split at h
  · cases h
    rintro _ ⟨⟩
  · cases h
    rintro _ ⟨⟩
  · next json hnull =>
      obtain ⟨value, hvalue, rfl⟩ := Option.map_eq_some_iff.mp h
      rintro _ ⟨⟩
      unfold Value.ofJson? at hvalue
      split at hvalue
      · next scalar =>
          cases hvalue
          cases hlegible _ rfl with
          | scalar hscalar => exact ⟨scalar, hscalar, fun heq => hnull (heq ▸ rfl), rfl⟩
      · cases hvalue

/-- The column keeps the default of whatever field is read. -/
theorem keepsDefault_of_ofJson? {json : Json} (hlegible : Legible (levels + 2) json)
    (h : ofJson? json = some field) : field.KeepsDefault := by
  obtain ⟨found, hfound, rfl⟩ := Option.map_eq_some_iff.mp h
  unfold ofJsonUncoerced? at hfound
  split at hfound
  · next name members =>
      cases hlegible with
      | object hvalue =>
      have hmembers := List.forall_mem_singleton.mp hvalue
      obtain ⟨-, -, hfound⟩ := Option.bind_eq_some_iff.mp hfound
      obtain ⟨kind, -, hfound⟩ := Option.bind_eq_some_iff.mp hfound
      obtain ⟨written, hwritten, hfound⟩ := Option.bind_eq_some_iff.mp hfound
      split at hfound
      · next null primaryKey unique index column default =>
          obtain ⟨flag, -, hfound⟩ := Option.bind_eq_some_iff.mp hfound
          obtain ⟨isKey, -, hfound⟩ := Option.bind_eq_some_iff.mp hfound
          obtain ⟨isUnique, -, hfound⟩ := Option.bind_eq_some_iff.mp hfound
          obtain ⟨isIndexed, -, hfound⟩ := Option.bind_eq_some_iff.mp hfound
          obtain ⟨name, -, hfound⟩ := Option.bind_eq_some_iff.mp hfound
          obtain ⟨value, hvalue, hfound⟩ := Option.bind_eq_some_iff.mp hfound
          cases hfound
          have hmember : member? "default" members = some default := by
            have hall := Option.mapM_eq_some.mp hwritten
            simp only [optionNames, List.forall₂_cons] at hall
            tauto
          intro kept hkept
          obtain ⟨read, hread, rfl⟩ := Option.map_eq_some_iff.mp hkept
          obtain ⟨scalar, hscalar, hnull, rfl⟩ :=
            exists_scalar_of_optional (legible_of_member? hmembers hmember) hvalue read hread
          exact Value.keptBy_coerce hscalar hnull
      · cases hfound
  · cases hfound

end Field

/-! ### Fields by name -/

namespace Fields

open Json

variable {fields : Fields} {levels : Nat}

/-- Every default is kept by its column. -/
def KeepDefaults (fields : Fields) : Prop := ∀ entry ∈ fields, entry.2.KeepsDefault

instance (fields : Fields) : Decidable fields.KeepDefaults :=
  inferInstanceAs (Decidable (∀ entry ∈ fields, entry.2.KeepsDefault))

/-- Fields with different names are collected as they come. -/
theorem foldl_set {done : Fields} (h : (Named.names (done ++ fields)).Nodup) :
    fields.foldl (fun done entry => done.set entry.1 entry.2) done = done ++ fields := by
  induction fields generalizing done with
  | nil => exact (List.append_nil done).symm
  | cons entry rest ih =>
      have hnew : Named.get? entry.1 done = none := by
        rw [Named.get?_eq_none_iff]
        intro hmem
        rw [Named.names_append, Named.names_cons] at h
        exact (List.nodup_append.mp h).2.2 entry.1 hmem entry.1 List.mem_cons_self rfl
      rw [List.foldl_cons, Named.set_of_get?_eq_none hnew, ih (by simpa using h),
        List.append_assoc, List.singleton_append]

/-- Fields are read as they were written, in their order. -/
theorem ofJson?_toJson (hnames : fields.names.Nodup) (h : fields.KeepDefaults) :
    ofJson? fields.toJson = some fields := by
  refine Option.bind_eq_some_iff.mpr ⟨fields, ?_, ?_⟩
  · refine mapM_map_eq_pure fun entry hmem => ?_
    exact Option.bind_eq_some_iff.mpr ⟨_, Field.ofJson?_toJson (h entry hmem), rfl⟩
  · exact congrArg some (foldl_set hnames)

/-- Fields that keep their defaults are written as a document that can be read. -/
theorem legible_toJson (h : fields.KeepDefaults) : Legible (levels + 3) fields.toJson := by
  refine .object fun member hmem => ?_
  obtain ⟨entry, hentry, rfl⟩ := List.mem_map.mp hmem
  exact Field.legible_toJson (h entry hentry)

theorem keysDiffer_toJson (hnames : fields.names.Nodup) (h : fields.KeepDefaults) :
    KeysDiffer fields.toJson := by
  refine .object ?_ fun member hmem => ?_
  · rw [Named.names, List.map_map]
    exact hnames
  · obtain ⟨entry, hentry, rfl⟩ := List.mem_map.mp hmem
    exact Field.keysDiffer_toJson (h entry hentry)

/-- No field is collected that was not given. -/
theorem mem_of_mem_foldl_set {entry : String × Field} {done : Fields}
    (h : entry ∈ fields.foldl (fun done entry => done.set entry.1 entry.2) done) :
    entry ∈ fields ∨ entry ∈ done := by
  induction fields generalizing done with
  | nil => exact .inr h
  | cons first rest ih =>
      rcases ih h with hmem | hmem
      · exact .inl (List.mem_cons_of_mem _ hmem)
      · rcases Named.mem_set hmem with rfl | hmem
        · exact .inl List.mem_cons_self
        · exact .inr hmem

/-- The columns keep the defaults of whatever fields are read. -/
theorem keepDefaults_of_ofJson? {json : Json} (hlegible : Legible (levels + 3) json)
    (h : ofJson? json = some fields) : fields.KeepDefaults := by
  obtain ⟨members, hmembers, h⟩ := Option.bind_eq_some_iff.mp h
  obtain ⟨read, hread, h⟩ := Option.bind_eq_some_iff.mp h
  cases h
  intro entry hmem
  have hentry := (mem_of_mem_foldl_set hmem).resolve_right List.not_mem_nil
  obtain ⟨member, hmember, heq⟩ := Option.exists_of_mem_mapM hread hentry
  obtain ⟨field, hfield, heq⟩ := Option.bind_eq_some_iff.mp heq
  cases heq
  cases json with
  | object found =>
      cases hmembers
      cases hlegible with
      | object hvalues => exact Field.keepsDefault_of_ofJson? (hvalues member hmember) hfield
  | _ => cases hmembers

end Fields

end SchemaHistory
