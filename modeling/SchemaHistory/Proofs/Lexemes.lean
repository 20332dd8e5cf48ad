import SchemaHistory.Proofs.Digits
import SchemaHistory.Statement
import Mathlib.Data.List.Forall2

/-!
# The lexemes of statements

`Lexeme.lexemes` cuts the text of a statement that reads or writes rows into lexemes, as SQL does:
names in double quotes, words, operators, placeholders, and the marks `(`, `)` and `,`. Each stays
as it is written. `Lexeme.Binds` says of the lexemes of a clause which placeholders are among them,
and which two lexemes each of these stands directly behind. It is put together as texts are
(`Lexeme.Written`).
-/

namespace SchemaHistory

/-- Characters of a text that belong together. -/
abbrev Lexeme := List Char

namespace Lexeme

/-! ### Cutting a text up -/

/-- The characters that a word, a number or the rest of a placeholder is made of. -/
def isPart (c : Char) : Bool := c.isAlphanum || c == '_'

/-- The characters that a word, a number or a placeholder begins with. -/
def isStart (c : Char) : Bool := isPart c || ['?', '$', ':'].contains c

def isOperatorMark (c : Char) : Bool := ['=', '<', '>', '!'].contains c

/-- Whether a character outside of quotes goes on with the lexeme that ends in the one before it. A
quote right after quotes is one that is part of what they enclose. -/
def goesOn (last c : Char) : Bool :=
  if isPart c then isStart last
  else if isOperatorMark c then isOperatorMark last
  else c == '"' && last == '"'

/-- The lexeme that is complete, of which the last character was seen first. -/
def finished (seen : List Char) : List Lexeme := if seen.isEmpty then [] else [seen.reverse]

/-- The lexemes of the rest of a text, inside of quotes or not, where some characters of a lexeme
have been seen. -/
def scan (inQuotes : Bool) (seen : List Char) : List Char → List Lexeme
  | [] => finished seen
  | c :: rest =>
    if inQuotes then scan (c != '"') (c :: seen) rest
    else if c.isWhitespace then finished seen ++ scan false [] rest
    else if seen.head?.any (goesOn · c) then scan (c == '"') (c :: seen) rest
    else finished seen ++ scan (c == '"') [c] rest

def lexemes (cs : List Char) : List Lexeme := scan false [] cs

/-- Blanks need not stand between lexemes. -/
example : lexemes "UPDATE\"t\" SET \"a\"\",\"=$1,\"b\" = ?".toList
    = ["UPDATE", "\"t\"", "SET", "\"a\"\",\"", "=", "$1", ",", "\"b\"", "=", "?"].map
      String.toList := by
  decide

variable {c : Char} {cs ds rest seen : List Char} {ls ms : List Lexeme}

/-- Nothing that stands there goes on with a lexeme. -/
def Apart (cs : List Char) : Prop := ∀ c ∈ cs.head?, c = ' ' ∨ c = ',' ∨ c = ')'

theorem apart_nil : Apart [] := nofun

theorem apart_cons (h : c = ' ' ∨ c = ',' ∨ c = ')') (cs : List Char) : Apart (c :: cs) := by
  intro d hd
  cases hd
  exact h

/-- Where nothing goes on with a lexeme, it is complete. -/
theorem scan_apart (h : Apart rest) : scan false seen rest = finished seen ++
    scan false [] rest := by
  have hnone : seen.head?.any (fun _ => false) = false := by cases seen <;> rfl
  cases rest with
  | nil => simp [scan, finished]
  | cons c rest =>
      have hfresh : finished [] = [] := rfl
      rcases h c rfl with rfl | rfl | rfl
      · rfl
      all_goals
        show (if seen.head?.any (fun _ => false) then _ else _) = finished seen ++
          (finished [] ++ _)
        rw [hnone, hfresh]
        rfl

/-- A text spells lexemes, whatever follows apart from it. -/
def Spells (cs : List Char) (ls : List Lexeme) : Prop :=
  ∀ rest, Apart rest → scan false [] (cs ++ rest) = ls ++ scan false [] rest

theorem spells_nil : Spells [] [] := fun _ _ => rfl

/-- A text that spells lexemes is cut into them. -/
theorem Spells.lexemes_eq (h : Spells cs ls) : lexemes cs = ls := by
  have hscan := h [] apart_nil
  simpa [lexemes, scan, finished] using hscan

/-- Texts follow each other if the second keeps words apart. -/
theorem Spells.append (h : Spells cs ls) (h' : Spells ds ms)
    (hapart : ∀ rest, Apart rest → Apart (ds ++ rest)) : Spells (cs ++ ds) (ls ++ ms) := by
  intro rest hrest
  rw [List.append_assoc, h _ (hapart rest hrest), h' rest hrest, List.append_assoc]

theorem Spells.blank (h : Spells cs ls) : Spells (' ' :: cs) ls := fun rest hrest => h rest hrest

/-- With a blank between them they always may. -/
theorem Spells.append_blank (h : Spells cs ls) (h' : Spells ds ms) :
    Spells (cs ++ ' ' :: ds) (ls ++ ms) :=
  h.append h'.blank fun rest _ => apart_cons (.inl rfl) (ds ++ rest)

/-- A mark is a lexeme whatever follows it. -/
theorem Spells.mark (hmark : c = '(' ∨ c = ')' ∨ c = ',') (h : Spells cs ls) :
    Spells (c :: cs) ([c] :: ls) := by
  intro rest hrest
  have hfollows : scan false [c] (cs ++ rest) = [c] :: scan false [] (cs ++ rest) := by
    have hends : ∀ d, goesOn c d = false := by
      intro d
      rcases hmark with rfl | rfl | rfl <;> simp [goesOn, isStart, isPart, isOperatorMark]
    cases cs ++ rest with
    | nil => rfl
    | cons d ds =>
        have hnone : ([c] : List Char).head?.any (goesOn · d) = false := hends d
        have hfresh : ([] : List Char).head?.any (goesOn · d) = false := rfl
        rw [scan, scan, hnone, hfresh]
        simp only [Bool.false_eq_true, if_false]
        split <;> rfl
  have hbegins : scan false [] (c :: (cs ++ rest)) = scan false [c] (cs ++ rest) := by
    rcases hmark with rfl | rfl | rfl <;> rfl
  rw [List.cons_append, hbegins, hfollows, h rest hrest]
  rfl

/-- A text in parentheses. -/
theorem Spells.grouped (h : Spells cs ls) :
    Spells (Condition.grouped cs) ([['(']] ++ ls ++ [[')']]) := by
  have hclosing : Spells [')'] [[')']] := spells_nil.mark (.inr (.inl rfl))
  have hends : ∀ rest, Apart rest → Apart ([')'] ++ rest) :=
    fun rest _ => apart_cons (.inr (.inr rfl)) rest
  exact (h.append hclosing hends).mark (.inl rfl)

/-! ### Words and placeholders -/

/-- What a word or a placeholder begins with is neither white space nor a quote. -/
theorem neither_of_isStart (h : isStart c = true) : c.isWhitespace = false ∧ c ≠ '"' := by
  constructor
  · by_contra hblank
    simp only [Char.isWhitespace, Bool.not_eq_false, Bool.or_eq_true, decide_eq_true_eq] at hblank
    rcases hblank with ((rfl | rfl) | rfl) | rfl <;> cases h
  · rintro rfl
    cases h

theorem isStart_of_isPart (h : isPart c = true) : isStart c = true := by
  rw [isStart, h, Bool.true_or]

/-- A word goes on as long as there are parts of it. -/
theorem scan_parts (hseen : ∀ d ∈ seen.head?, isStart d = true) (hne : seen ≠ [])
    (h : ∀ d ∈ cs, isPart d = true) :
    scan false seen (cs ++ rest) = scan false (cs.reverse ++ seen) rest := by
  induction cs generalizing seen with
  | nil => rfl
  | cons d ds ih =>
      obtain ⟨hd, hds⟩ := List.forall_mem_cons.mp h
      obtain ⟨hblank, hquote⟩ := neither_of_isStart (isStart_of_isPart hd)
      have hgoes : seen.head?.any (goesOn · d) = true := by
        cases seen with
        | nil => exact absurd rfl hne
        | cons last seen => simpa [goesOn, hd] using hseen last rfl
      have hstart : ∀ e ∈ (d :: seen).head?, isStart e = true := by
        intro e he
        cases he
        exact isStart_of_isPart hd
      rw [List.cons_append, scan, if_neg Bool.false_ne_true, if_neg (by simp [hblank]),
        if_pos hgoes,
        beq_eq_false_iff_ne.mpr hquote, ih hstart (List.cons_ne_nil _ _) hds, List.reverse_cons,
        List.append_assoc, List.singleton_append]

theorem spells_word (hfirst : isStart c = true) (hrest : ∀ d ∈ cs, isPart d = true) :
    Spells (c :: cs) [c :: cs] := by
  intro rest happart
  obtain ⟨hblank, hquote⟩ := neither_of_isStart hfirst
  have hbegins : scan false [] (c :: (cs ++ rest)) = scan false [c] (cs ++ rest) := by
    rw [scan, if_neg Bool.false_ne_true, if_neg (by simp [hblank]), beq_eq_false_iff_ne.mpr hquote]
    rfl
  have hseen : ∀ d ∈ [c].head?, isStart d = true := by
    intro d hd
    cases hd
    exact hfirst
  rw [List.cons_append, hbegins, scan_parts hseen (List.cons_ne_nil _ _) hrest, scan_apart happart]
  simp [finished]

def isWord (cs : List Char) : Bool := !cs.isEmpty && cs.all isPart

theorem spells_keyword (word : String) (h : isWord word.toList = true) :
    Spells word.toList [word.toList] := by
  cases hletters : word.toList with
  | nil => rw [hletters] at h; cases h
  | cons c rest =>
      rw [hletters] at h
      obtain ⟨hfirst, hrest⟩ := List.forall_mem_cons.mp (List.all_eq_true.mp h)
      exact spells_word (isStart_of_isPart hfirst) hrest

theorem spells_placeholder (dialect : Dialect) (number : Nat) :
    Spells (dialect.placeholder number) [dialect.placeholder number] := by
  have hdigits : ∀ d ∈ Text.digitsOfNumber number, isPart d = true := by
    intro d hd
    simp [isPart, Char.isAlphanum, Text.isDigit_of_mem_digitsOfNumber hd]
  cases dialect with
  | sqlite => exact spells_word rfl nofun
  | postgres => exact spells_word rfl hdigits
  | generic => exact spells_word rfl hdigits

theorem spells_operator (dialect : Dialect) (comparison : Comparison) :
    Spells (dialect.operator comparison) [dialect.operator comparison] := by
  intro rest hrest
  cases dialect <;> cases comparison <;> exact scan_apart hrest

theorem spells_connective (connective : Connective) :
    Spells (Condition.connectiveText connective) [Condition.connectiveText connective] := by
  cases connective <;> exact spells_word rfl (List.all_eq_true.mp rfl)

/-! ### Names -/

/-- What is in quotes belongs together, every quote in it being doubled. -/
theorem scan_quoted (cs : List Char) :
    scan true seen (cs.flatMap (fun c => if c = '"' then ['"', '"'] else [c]) ++ '"' :: rest)
      = scan false
        ('"' :: (cs.flatMap fun c => if c = '"' then ['"', '"'] else [c]).reverse
          ++ seen) rest := by
  induction cs generalizing seen with
  | nil => rfl
  | cons c cs ih =>
      rw [List.flatMap_cons, List.append_assoc]
      by_cases hquote : c = '"'
      · subst hquote
        have hdouble : ∀ ds, scan true seen ('"' :: '"' :: ds) =
          scan true ('"' :: '"' :: seen) ds :=
          fun _ => rfl
        rw [if_pos rfl, List.cons_append, List.singleton_append, hdouble, ih]
        simp
      · have hplain : ∀ ds, scan true seen (c :: ds) = scan true (c :: seen) ds := by
          intro ds
          rw [scan, if_pos rfl, bne_iff_ne.mpr hquote]
        rw [if_neg hquote, List.singleton_append, hplain, ih]
        simp

/-- A quoted name is one lexeme, whatever stands in it. -/
theorem spells_name (name : String) : Spells (quotedName name) [quotedName name] := by
  intro rest hrest
  have hbegins : ∀ ds, scan false [] ('"' :: ds) = scan true ['"'] ds := fun _ => rfl
  unfold quotedName Value.quoted
  rw [List.append_assoc, List.cons_append, List.singleton_append, hbegins, scan_quoted,
    scan_apart hrest]
  simp [finished]

/-! ### Placeholders -/

def isPlaceholder (lexeme : Lexeme) : Bool := lexeme.head?.any ['?', '$', ':'].contains

def placeholders (cs : List Char) : List Lexeme := (lexemes cs).filter isPlaceholder

/-- A placeholder with the two lexemes directly before it. -/
structure Use where
  column : Lexeme
  operator : Lexeme
  placeholder : Lexeme
deriving DecidableEq

/-- The placeholders among some lexemes that stand behind two others, from left to right. -/
def usesIn : List Lexeme → List Use
  | column :: operator :: lexeme :: rest =>
    if isPlaceholder lexeme then ⟨column, operator, lexeme⟩ :: usesIn (operator :: lexeme :: rest)
    else usesIn (operator :: lexeme :: rest)
  | _ => []

/-- The placeholders of a text that stand behind two other lexemes, from left to right. -/
def uses (cs : List Char) : List Use := usesIn (lexemes cs)

/-- The word before the condition of a statement. -/
def whereWord : Lexeme := "WHERE".toList

/-- All placeholders in a clause stand behind two other lexemes, as is said, and no condition begins
in it. -/
structure Binds (ls : List Lexeme) (bound : List Use) : Prop where
  first : ∀ lexeme ∈ ls.take 2, isPlaceholder lexeme = false
  uses : usesIn ls = bound
  placeholders : ls.filter isPlaceholder = bound.map (·.placeholder)
  plain : whereWord ∉ ls

/-- No use straddles two parts if neither of the first two lexemes of the second is a
placeholder. -/
theorem usesIn_append (h : ∀ lexeme ∈ ms.take 2, isPlaceholder lexeme = false) :
    usesIn (ls ++ ms) = usesIn ls ++ usesIn ms := by
  induction ls using usesIn.induct with
  | case1 column operator lexeme rest hplaceholder ih =>
      simp only [List.cons_append, usesIn] at ih ⊢
      rw [if_pos hplaceholder, if_pos hplaceholder, ih, List.cons_append]
  | case2 column operator lexeme rest hplaceholder ih =>
      simp only [List.cons_append, usesIn] at ih ⊢
      rw [if_neg hplaceholder, if_neg hplaceholder, ih]
  | case3 ls hshort =>
      -- a placeholder behind fewer than three lexemes would be one of the first two that follow
      have hskip : ∀ column operator lexeme rest, isPlaceholder lexeme = false →
          usesIn (column :: operator :: lexeme :: rest) = usesIn (operator :: lexeme :: rest) := by
        intro column operator lexeme rest hnone
        rw [usesIn, if_neg (by simp [hnone])]
      rcases ls with _ | ⟨a, _ | ⟨b, _ | ⟨c, ls⟩⟩⟩
      · rfl
      · rcases ms with _ | ⟨x, _ | ⟨y, ms⟩⟩
        · rfl
        · rfl
        · exact hskip a x y ms (h y (by simp))
      · rcases ms with _ | ⟨x, _ | ⟨y, ms⟩⟩
        · rfl
        · exact hskip a b x [] (h x (by simp))
        · exact (hskip a b x (y :: ms) (h x (by simp))).trans (hskip b x y ms (h y (by simp)))
      · exact absurd rfl (hshort a b c ls)

section Binds

variable {bound more : List Use}

theorem binds_nil : Binds [] [] := ⟨List.forall_mem_nil _, rfl, rfl, List.not_mem_nil⟩

/-- What two parts bind is bound in turn. -/
theorem Binds.append (h : Binds ls bound) (h' : Binds ms more) :
    Binds (ls ++ ms) (bound ++ more) where
  first := by
    intro lexeme hlexeme
    rw [List.take_append, List.mem_append] at hlexeme
    rcases hlexeme with hlexeme | hlexeme
    · exact h.first lexeme hlexeme
    · exact h'.first lexeme (List.take_subset_take_left _ (Nat.sub_le _ _) hlexeme)
  uses := by rw [usesIn_append h'.first, h.uses, h'.uses]
  placeholders := by rw [List.filter_append, h.placeholders, h'.placeholders, List.map_append]
  plain := by
    rw [List.mem_append, not_or]
    exact ⟨h.plain, h'.plain⟩

/-- Whether a lexeme neither is a placeholder nor begins a condition. -/
def isPlain (lexeme : Lexeme) : Bool := !isPlaceholder lexeme && lexeme != whereWord

theorem isPlaceholder_of_isPlain {lexeme : Lexeme} (h : isPlain lexeme = true) :
    isPlaceholder lexeme = false := by
  rw [isPlain, Bool.and_eq_true, Bool.not_eq_true'] at h
  exact h.1

theorem ne_whereWord_of_isPlain {lexeme : Lexeme} (h : isPlain lexeme = true) :
    whereWord ≠ lexeme := by
  rw [isPlain, Bool.and_eq_true, bne_iff_ne] at h
  exact h.2.symm

/-- No quoted name passes for a placeholder or a keyword. -/
theorem isPlain_name (name : String) : isPlain (quotedName name) = true := rfl

theorem isPlain_operator (dialect : Dialect) (comparison : Comparison) :
    isPlain (dialect.operator comparison) = true := by
  cases dialect <;> cases comparison <;> rfl

theorem isPlain_connective (connective : Connective) :
    isPlain (Condition.connectiveText connective) = true := by
  cases connective <;> rfl

theorem isPlaceholder_placeholder (dialect : Dialect) (number : Nat) :
    isPlaceholder (dialect.placeholder number) = true := by
  cases dialect <;> rfl

theorem ne_whereWord_placeholder (dialect : Dialect) (number : Nat) :
    whereWord ≠ dialect.placeholder number := by
  intro h
  have hplaceholder := isPlaceholder_placeholder dialect number
  rw [← h] at hplaceholder
  cases hplaceholder

theorem binds_singleton {lexeme : Lexeme} (h : isPlain lexeme = true) : Binds [lexeme] [] where
  first := by simpa using isPlaceholder_of_isPlain h
  uses := rfl
  placeholders := by simp [isPlaceholder_of_isPlain h]
  plain := by simpa using ne_whereWord_of_isPlain h

/-- A column, an operator and a placeholder are one use. -/
theorem binds_use {operator : Lexeme} (name : String) (h : isPlain operator = true)
    (dialect : Dialect) (number : Nat) :
    Binds [quotedName name, operator, dialect.placeholder number]
      [⟨quotedName name, operator, dialect.placeholder number⟩] := by
  have hname := isPlain_name name
  have hplaceholder := isPlaceholder_placeholder dialect number
  constructor
  · simp [isPlaceholder_of_isPlain hname, isPlaceholder_of_isPlain h]
  · simp [usesIn, hplaceholder]
  · simp [isPlaceholder_of_isPlain hname, isPlaceholder_of_isPlain h, hplaceholder]
  · simp [ne_whereWord_of_isPlain hname, ne_whereWord_of_isPlain h, ne_whereWord_placeholder]

/-! ### Texts -/

/-- A text whose placeholders stand behind what is said. -/
def Written (cs : List Char) (bound : List Use) : Prop := ∃ ls, Spells cs ls ∧ Binds ls bound

/-- The uses of a written text are what it binds. -/
theorem Written.uses_eq (h : Written cs bound) : uses cs = bound := by
  obtain ⟨ls, hspells, hbinds⟩ := h
  rw [Lexeme.uses, hspells.lexemes_eq, hbinds.uses]

theorem Written.placeholders_eq (h : Written cs bound) :
    placeholders cs = bound.map (·.placeholder) := by
  obtain ⟨ls, hspells, hbinds⟩ := h
  rw [Lexeme.placeholders, hspells.lexemes_eq, hbinds.placeholders]

theorem written_nil : Written [] [] := ⟨[], spells_nil, binds_nil⟩

theorem written_word (word : String) (h : (isWord word.toList && isPlain word.toList) = true) :
    Written word.toList [] := by
  rw [Bool.and_eq_true] at h
  exact ⟨_, spells_keyword word h.1, binds_singleton h.2⟩

theorem written_name (name : String) : Written (quotedName name) [] :=
  ⟨_, spells_name name, binds_singleton (isPlain_name name)⟩

theorem written_connective (connective : Connective) :
    Written (Condition.connectiveText connective) [] :=
  ⟨_, spells_connective connective, binds_singleton (isPlain_connective connective)⟩

/-- Two written texts may follow each other with a blank between them. -/
theorem Written.append_blank (h : Written cs bound) (h' : Written ds more) :
    Written (cs ++ ' ' :: ds) (bound ++ more) := by
  obtain ⟨ls, hspells, hbinds⟩ := h
  obtain ⟨ms, hspells', hbinds'⟩ := h'
  exact ⟨_, hspells.append_blank hspells', hbinds.append hbinds'⟩

/-- A text behind a word, with a blank between them. -/
theorem Written.word (h : Written cs bound) (word : String)
    (hword : (isWord word.toList && isPlain word.toList) = true) :
    Written (word.toList ++ ' ' :: cs) bound :=
  (written_word word hword).append_blank h

theorem Written.grouped (h : Written cs bound) : Written (Condition.grouped cs) bound := by
  obtain ⟨ls, hspells, hbinds⟩ := h
  have hbegin : Binds [['(']] [] := binds_singleton rfl
  have hend : Binds [[')']] [] := binds_singleton rfl
  have hbound := (hbegin.append hbinds).append hend
  rw [List.nil_append, List.append_nil] at hbound
  exact ⟨_, hspells.grouped, hbound⟩

/-- Texts that are joined by a separator. -/
theorem written_joined (separator : String) {parts : List (List Char)} {bounds : List (List Use)}
    (hseparator : ∀ {cs ds bound more}, Written cs bound → Written ds more →
      Written (cs ++ (separator.toList ++ ds)) (bound ++ more))
    (h : List.Forall₂ Written parts bounds) : Written (joined separator parts) bounds.flatten := by
  induction h with
  | nil => exact written_nil
  | @cons part bound parts bounds hpart hrest ih =>
      cases hrest with
      | nil =>
          show Written (separator.toList.intercalate [part]) (bound ++ [])
          rw [List.intercalate_singleton, List.append_nil]
          exact hpart
      | @cons next more nexts mores hnext hmore =>
          show Written (separator.toList.intercalate (part :: next :: nexts)) _
          rw [List.intercalate_cons_cons, List.append_assoc]
          exact hseparator hpart ih

end Binds

end Lexeme

end SchemaHistory
