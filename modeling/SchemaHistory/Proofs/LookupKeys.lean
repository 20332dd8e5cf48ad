import SchemaHistory.Proofs.CompiledConditions

/-!
# Keys of lookups

The field and the operator of a lookup share one text. A key gives back what it was made from
exactly if no white space of the field can be taken for what stands around it: a field that is
compared for equality has none at all, any other field none at its ends
(`LookupKey.decode_encode_iff`). White space around a key, and how much of it there is between field
and operator, does not matter (`LookupKey.fields_and_operators`).
-/

namespace SchemaHistory

/-! ### White space at the ends -/

namespace Text

variable {cs left right : List Char}

def AllBlank (cs : List Char) : Prop := ∀ c ∈ cs, isBlank c = true

def NoneBlank (cs : List Char) : Prop := ∀ c ∈ cs, isBlank c = false

/-- There is no white space at either end. -/
structure Trimmed (cs : List Char) : Prop where
  head : ∀ c ∈ cs.head?, isBlank c = false
  last : ∀ c ∈ cs.getLast?, isBlank c = false

-- spelled out because other instances would try every character there is
instance (cs : List Char) : Decidable (AllBlank cs) := List.decidableBAll (isBlank · = true) cs

instance (cs : List Char) : Decidable (NoneBlank cs) := List.decidableBAll (isBlank · = false) cs

theorem NoneBlank.trimmed (h : NoneBlank cs) : Trimmed cs where
  head c hc := h c (List.mem_of_mem_head? hc)
  last c hc := h c (List.mem_of_mem_getLast? hc)

/-- What is between two texts is not at either end. -/
theorem Trimmed.around (hleft : Trimmed left) (hright : Trimmed right) (hne : left ≠ [])
    (hne' : right ≠ []) : Trimmed (left ++ (cs ++ right)) where
  head c hc := hleft.head c (by rwa [List.head?_append_of_ne_nil _ hne] at hc)
  last c hc := hright.last c (by
    rwa [← List.append_assoc, List.getLast?_append_of_ne_nil _ hne'] at hc)

theorem AllBlank.reverse (h : AllBlank cs) : AllBlank cs.reverse :=
  fun c hc => h c (List.mem_reverse.mp hc)

/-- Blanks at the front do not matter once they are dropped. -/
theorem dropBlanks_append (h : AllBlank left) : dropBlanks (left ++ cs) = dropBlanks cs :=
  List.dropWhile_append_of_pos h

theorem dropTrailingBlanks_append (h : AllBlank right) :
    dropTrailingBlanks (cs ++ right) = dropTrailingBlanks cs := by
  rw [dropTrailingBlanks, List.reverse_append, List.dropWhile_append_of_pos h.reverse,
    dropTrailingBlanks]

theorem dropTrailingBlanks_eq_self (h : ∀ c ∈ cs.getLast?, isBlank c = false) :
    dropTrailingBlanks cs = cs := by
  rcases List.eq_nil_or_concat' cs with rfl | ⟨front, last, rfl⟩
  · rfl
  · have hlast : isBlank last = false := h last (by simp)
    rw [dropTrailingBlanks, List.reverse_append, List.reverse_singleton, List.singleton_append,
      List.dropWhile_cons_of_neg (by simp [hlast]), List.reverse_cons, List.reverse_reverse]

theorem dropBlanks_eq_self (h : ∀ c ∈ cs.head?, isBlank c = false) : dropBlanks cs = cs := by
  cases cs with
  | nil => rfl
  | cons c cs => rw [dropBlanks, List.dropWhile_cons_of_neg (by simp [h c rfl])]

/-- What is dropped is white space, and what is left does not begin with any. -/
theorem exists_dropBlanks (cs : List Char) : ∃ left, cs = left ++ dropBlanks cs ∧ AllBlank left ∧
    ∀ c ∈ (dropBlanks cs).head?, isBlank c = false := by
  refine ⟨cs.takeWhile isBlank, List.takeWhile_append_dropWhile.symm,
    List.all_eq_true.mp List.all_takeWhile, fun c hc => ?_⟩
  have hhead := List.head?_dropWhile_not isBlank cs
  rw [← dropBlanks, Option.mem_def.mp hc] at hhead
  simpa using hhead

/-- A text ends in what is dropped at its end, which is blank, and what is left does not end in a
blank. -/
theorem exists_dropTrailingBlanks (cs : List Char) :
    ∃ right, cs = dropTrailingBlanks cs ++ right ∧ AllBlank right ∧
      ∀ c ∈ (dropTrailingBlanks cs).getLast?, isBlank c = false := by
  obtain ⟨left, hsplit, hblank, hhead⟩ := exists_dropBlanks cs.reverse
  refine ⟨left.reverse, ?_, hblank.reverse, fun c hc => hhead c ?_⟩
  · rw [dropTrailingBlanks, ← List.reverse_append, ← dropBlanks, ← hsplit, List.reverse_reverse]
  · rwa [dropTrailingBlanks, List.getLast?_reverse] at hc

/-- A trimmed text is left as it is. -/
theorem Trimmed.trimBlanks_eq (h : Trimmed cs) : trimBlanks cs = cs := by
  rw [trimBlanks, dropBlanks_eq_self h.head, dropTrailingBlanks_eq_self h.last]

/-- A text is white space around what is left of it when it is trimmed. -/
theorem exists_trimBlanks (cs : List Char) : ∃ left right, cs = left ++ (trimBlanks cs ++ right) ∧
    AllBlank left ∧ AllBlank right ∧ Trimmed (trimBlanks cs) := by
  obtain ⟨left, hleft, hblank, hhead⟩ := exists_dropBlanks cs
  obtain ⟨right, hright, hblank', hlast⟩ := exists_dropTrailingBlanks (dropBlanks cs)
  refine ⟨left, right, ?_, hblank, hblank', fun c hc => ?_, hlast⟩
  · rw [trimBlanks, ← hright]
    exact hleft
  · -- what is left begins where the text without leading white space begins
    refine hhead c ?_
    rw [hright]
    exact List.mem_head?_append_of_mem_head? hc

theorem trimBlanks_append_left (h : AllBlank left) : trimBlanks (left ++ cs) = trimBlanks cs := by
  rw [trimBlanks, dropBlanks_append h, trimBlanks]

theorem trimBlanks_append_right (h : AllBlank right) :
    trimBlanks (cs ++ right) = trimBlanks cs := by
  rw [trimBlanks, dropBlanks, List.dropWhile_append]
  split
  · next hempty =>
      have hnothing : right.dropWhile isBlank = [] := List.dropWhile_eq_nil_iff.mpr h
      rw [hnothing, trimBlanks, dropBlanks, List.isEmpty_iff.mp hempty]
  · exact dropTrailingBlanks_append h

end Text

namespace Comparison

/-- The operator of a token is the one that has it. -/
theorem ofToken?_eq_some_iff {text : String} {comparison : Comparison} :
    ofToken? text = some comparison ↔ text = comparison.token := by
  constructor
  · intro h
    unfold ofToken? at h
    split at h <;> cases h <;> rfl
  · rintro rfl
    cases comparison <;> rfl

theorem noneBlank_token (comparison : Comparison) : Text.NoneBlank comparison.token.toList := by
  cases comparison <;> decide

theorem token_ne_nil (comparison : Comparison) : comparison.token.toList ≠ [] := by
  cases comparison <;> decide

end Comparison

namespace LookupKey

open Text

variable {key field : String} {comparison : Comparison}

/-- The field can be told from what stands around it in a key: with no operator to follow it has no
white space, else it is not empty and has none at its ends. -/
def Legible (field : String) : Comparison → Prop
  | .equal => NoneBlank field.toList
  | _ => field ≠ "" ∧ Trimmed field.toList

/-- What a key says: without white space in it, it is the name of a field; else the operator stands
behind its last white space and the field before that. -/
theorem decode_eq_ok : decode key = .ok (field, comparison) ↔
    (NoneBlank (trimBlanks key.toList) ∧ field.toList = trimBlanks key.toList ∧
      comparison = .equal) ∨
    ∃ before blank, trimBlanks key.toList = before ++ blank :: comparison.token.toList ∧
      isBlank blank = true ∧ field.toList = dropTrailingBlanks before := by
  rw [decode_eq_ok_iff]
  constructor
  · rintro (hnone | ⟨⟨blank, htrimmed, hblank, -⟩, htoken⟩)
    · exact .inl ⟨hnone, String.toList_ofList, rfl⟩
    · have htext := Comparison.ofToken?_eq_some_iff.mp htoken
      rw [← String.toList_inj, String.toList_ofList] at htext
      exact .inr ⟨_, blank, htext ▸ htrimmed, hblank, String.toList_ofList⟩
  · rintro (⟨hnone, hfield, rfl⟩ | ⟨before, blank, htrimmed, hblank, hfield⟩)
    · rw [← String.ofList_toList (s := field), hfield]
      exact .alone hnone
    · rw [← String.ofList_toList (s := field), hfield]
      refine .compared ⟨blank, htrimmed, hblank, comparison.noneBlank_token⟩ ?_
      rw [String.ofList_toList]
      exact Comparison.ofToken?_eq_some_iff.mpr rfl

/-- The name of a field alone is read as a test for equality exactly if no blank stands in it. -/
theorem decode_encode_equal_iff :
    decode (encode field .equal) = .ok (field, .equal) ↔ NoneBlank field.toList := by
  show decode field = _ ↔ _
  rw [decode_eq_ok]
  constructor
  · rintro (⟨hnone, hfield, -⟩ | ⟨before, blank, htrimmed, -, hfield⟩)
    · exact hfield ▸ hnone
    · -- a field would be shorter than the key, which is the field itself
      obtain ⟨left, right, hsplit, -⟩ := exists_trimBlanks field.toList
      obtain ⟨rest, hrest, -⟩ := exists_dropTrailingBlanks before
      have hlong := congrArg List.length hsplit
      have hshort := congrArg List.length hrest
      rw [htrimmed] at hlong
      rw [← hfield] at hshort
      simp only [List.length_append, List.length_cons] at hlong hshort
      omega
  · intro hnone
    have htrimmed := hnone.trimmed.trimBlanks_eq
    exact .inl ⟨htrimmed.symm ▸ hnone, htrimmed.symm, rfl⟩

theorem toList_encode (h : comparison ≠ .equal) :
    (encode field comparison).toList = field.toList ++ ' ' :: comparison.token.toList := by
  have htext : encode field comparison = field ++ " " ++ comparison.token := by
    cases comparison <;> first | rfl | exact absurd rfl h
  rw [htext, String.toList_append, String.toList_append, List.append_assoc]
  rfl

/-- With an operator behind it, it is read exactly if it is trimmed and not empty. -/
theorem decode_encode_operator_iff (h : comparison ≠ .equal) :
    decode (encode field comparison) = .ok (field, comparison) ↔
      field ≠ "" ∧ Trimmed field.toList := by
  rw [decode_eq_ok, toList_encode h]
  constructor
  · rintro (⟨-, -, rfl⟩ | ⟨before, blank, htrimmed, hbetween, hfield⟩)
    · exact absurd rfl h
    · obtain ⟨rest, hrest, -, hlast⟩ := exists_dropTrailingBlanks before
      rw [← hfield] at hrest hlast
      obtain ⟨-, -, -, -, -, hends⟩ :=
        exists_trimBlanks (field.toList ++ ' ' :: comparison.token.toList)
      refine ⟨?_, fun c hc => ?_, hlast⟩
      · -- without a field the operator would be all that is left of the key
        rintro rfl
        have hblank : AllBlank [' '] := by decide
        have htoken : trimBlanks ([' '] ++ comparison.token.toList) = comparison.token.toList := by
          rw [trimBlanks_append_left hblank, comparison.noneBlank_token.trimmed.trimBlanks_eq]
        have hlong := congrArg List.length (htoken.symm.trans htrimmed)
        simp only [List.length_append, List.length_cons] at hlong
        omega
      · refine hends.head c ?_
        rw [htrimmed, hrest, List.append_assoc]
        exact List.mem_head?_append_of_mem_head? hc
  · rintro ⟨hfield, htrimmed⟩
    have hkey : Trimmed (field.toList ++ ([' '] ++ comparison.token.toList)) :=
      htrimmed.around comparison.noneBlank_token.trimmed (by simpa using hfield)
        comparison.token_ne_nil
    exact .inr ⟨field.toList, ' ', hkey.trimBlanks_eq, by decide,
      (dropTrailingBlanks_eq_self htrimmed.last).symm⟩

theorem decode_encode_iff :
    decode (encode field comparison) = .ok (field, comparison) ↔ Legible field comparison := by
  by_cases h : comparison = .equal
  · subst h
    exact decode_encode_equal_iff
  · rw [decode_encode_operator_iff h]
    cases comparison <;> first | exact absurd rfl h | rfl

/-! ### White space around and between -/

/-- White space at the ends of a key is not looked at. -/
theorem decode_congr {key' : String} (h : trimBlanks key.toList = trimBlanks key'.toList) :
    decode key = decode key' := by
  unfold decode
  rw [h]

/-- Blanks around a key do not matter. -/
theorem decode_surrounded {left right : String} (hleft : AllBlank left.toList)
    (hright : AllBlank right.toList) : decode (left ++ key ++ right) = decode key := by
  refine decode_congr ?_
  rw [String.toList_append, String.toList_append, trimBlanks_append_right hright,
    trimBlanks_append_left hleft]

/-- A key with white space between a field and its operator, if it is one. -/
theorem decode_of_gap {name gap token : List Char} (hname : Trimmed name) (hblank : AllBlank gap)
    (hgap : gap ≠ []) (htoken : NoneBlank token)
    (htrimmed : trimBlanks key.toList = name ++ (gap ++ token)) :
    decode key = match Comparison.ofToken? (String.ofList token) with
      | some comparison => .ok (String.ofList name, comparison)
      | none => .error (.unknownOperator (String.ofList token)) := by
  obtain ⟨front, blank, rfl⟩ := (List.eq_nil_or_concat' gap).resolve_left hgap
  obtain ⟨hfront, hlast⟩ := List.forall_mem_append.mp hblank
  have hends : EndsIn key (name ++ front) token :=
    ⟨blank, by simpa using htrimmed, hlast blank (List.mem_singleton_self _), htoken⟩
  cases hcomparison : Comparison.ofToken? (String.ofList token) with
  | none => exact decode_of_no_token hends hcomparison
  | some comparison =>
      rw [decode_of_token hends hcomparison, dropTrailingBlanks_append hfront,
        dropTrailingBlanks_eq_self hname.last]

/-- How much white space there is in front of the last word of a key does not matter. -/
theorem decode_spaced {before between between' token : String} (hblank : AllBlank between.toList)
    (hblank' : AllBlank between'.toList) (hbetween : between ≠ "") (hbetween' : between' ≠ "")
    (htoken : NoneBlank token.toList) :
    decode (before ++ between ++ token) = decode (before ++ between' ++ token) := by
  have hkey : ∀ gap : String,
      (before ++ gap ++ token).toList = before.toList ++ (gap.toList ++ token.toList) := by
    intro gap
    rw [String.toList_append, String.toList_append, List.append_assoc]
  obtain ⟨left, right, hbefore, hleft, hright, hname⟩ := exists_trimBlanks before.toList
  rcases eq_or_ne token.toList [] with hnone | hsome
  · -- nothing follows, so the white space is at the end
    have htrim : ∀ gap : String, AllBlank gap.toList →
        trimBlanks (before ++ gap ++ token).toList = trimBlanks before.toList := by
      intro gap h
      rw [hkey, hnone, List.append_nil, trimBlanks_append_right h]
    exact decode_congr ((htrim _ hblank).trans (htrim _ hblank').symm)
  rcases eq_or_ne (trimBlanks before.toList) [] with hempty | hnamed
  · -- nothing is in front, so the white space is at the beginning
    have hfront : AllBlank before.toList := by
      rw [hbefore, hempty]
      exact List.forall_mem_append.mpr ⟨hleft, hright⟩
    have htrim : ∀ gap : String, AllBlank gap.toList →
        trimBlanks (before ++ gap ++ token).toList = trimBlanks token.toList := by
      intro gap h
      rw [hkey, trimBlanks_append_left hfront, trimBlanks_append_left h]
    exact decode_congr ((htrim _ hblank).trans (htrim _ hblank').symm)
  · generalize trimBlanks before.toList = name at hbefore hname hnamed
    have htrim : ∀ gap : String, trimBlanks (before ++ gap ++ token).toList
        = name ++ ((right ++ gap.toList) ++ token.toList) := by
      intro gap
      rw [hkey, hbefore, List.append_assoc, trimBlanks_append_left hleft, List.append_assoc,
        ← List.append_assoc right]
      exact (hname.around htoken.trimmed hnamed hsome).trimBlanks_eq
    rw [decode_of_gap hname (List.forall_mem_append.mpr ⟨hright, hblank⟩) (by simp [hbetween])
        htoken (htrim between),
      decode_of_gap hname (List.forall_mem_append.mpr ⟨hright, hblank'⟩) (by simp [hbetween'])
        htoken (htrim between')]

/-- What keys of lookups say. A key that is made of a field and a comparison says what it was made
of exactly if the field is legible. Any key says something exactly if it has no white space, its
ends apart, and is the name of a field then, or if an operator stands behind its last white space
and the field is what stands before. White space around it changes nothing, nor does more of it
between field and operator. -/
theorem fields_and_operators (key : String) :
    (∀ field comparison, decode (encode field comparison) = .ok (field, comparison) ↔
      Legible field comparison) ∧
    (∀ field comparison, decode key = .ok (field, comparison) ↔
      (NoneBlank (trimBlanks key.toList) ∧ field.toList = trimBlanks key.toList ∧
        comparison = .equal) ∨
      ∃ before blank, trimBlanks key.toList = before ++ blank :: comparison.token.toList ∧
        isBlank blank = true ∧ field.toList = dropTrailingBlanks before) ∧
    (∀ left right : String, AllBlank left.toList → AllBlank right.toList →
      decode (left ++ key ++ right) = decode key) ∧
    ∀ before between between' token : String, AllBlank between.toList → AllBlank between'.toList →
      between ≠ "" → between' ≠ "" → NoneBlank token.toList →
      decode (before ++ between ++ token) = decode (before ++ between' ++ token) :=
  ⟨fun _ _ => decode_encode_iff, fun _ _ => decode_eq_ok, fun _ _ => decode_surrounded,
    fun _ _ _ _ => decode_spaced⟩

/-- A field of two words can be compared, but not for equality. -/
theorem first_name_compared :
    decode (encode "first name" .less) = .ok ("first name", .less) ∧
    decode (encode "first name" .equal) ≠ .ok ("first name", .equal) ∧
    decode ("\t" ++ "age >=" ++ " ") = .ok ("age", .greaterOrEqual) ∧
    decode ("age" ++ " \u3000" ++ ">=") = .ok ("age", .greaterOrEqual) := by
  obtain ⟨hmade, hbegins, haround, hbetween⟩ := fields_and_operators "age >="
  have hage : decode "age >=" = .ok ("age", .greaterOrEqual) := by
    refine (hbegins _ _).mpr (.inr ⟨"age".toList, ' ', ?_, ?_, ?_⟩) <;> decide
  have hless : Legible "first name" .less := by
    refine ⟨by decide, ?_, ?_⟩
    · rintro _ ⟨⟩
      decide
    · rintro _ ⟨⟩
      decide
  have hequal : ¬Legible "first name" .equal :=
    show ¬NoneBlank "first name".toList by decide
  have htab : AllBlank "\t".toList := by decide
  have hspace : AllBlank " ".toList := by decide
  have hwide : AllBlank " \u3000".toList := by decide
  have htoken : NoneBlank ">=".toList := by decide
  refine ⟨(hmade _ _).mpr hless, mt (hmade _ _).mp hequal, ?_, ?_⟩
  · rw [haround _ _ htab hspace, hage]
  · rw [hbetween "age" _ " " _ hwide hspace (by decide) (by decide) htoken]
    exact hage

end LookupKey

end SchemaHistory
