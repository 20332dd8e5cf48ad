import SchemaHistory.Proofs.NumberText
import SchemaHistory.Dialect

/-!
# Tokens of SQL text

`Sql.scan?` splits a text into tokens as SQL does: a name stands in double quotes and a text in
single ones, each up to the first quote that is not doubled; outside of quotes there are words,
numbers and marks. `Sql.Spells` says that a piece of text is read as given tokens, whatever follows
apart from it.
-/

namespace SchemaHistory.Sql

inductive Token where
  /-- A word outside of quotes, in capital letters. -/
  | word (letters : String)
  /-- A name in double quotes. -/
  | name (name : String)
  /-- A text in single quotes. -/
  | text (text : String)
  /-- A number without a sign: its digits, and how many of them stand after the point. -/
  | number (digits places : Nat)
  | mark (mark : Char)
deriving DecidableEq

/-- What is being read. The characters of an unfinished token are kept last first. -/
inductive Place where
  /-- Between tokens. -/
  | gap
  | word (seen : List Char)
  | number (seen : List Char)
  /-- Inside quotes. -/
  | inside (quote : Char) (seen : List Char)
  /-- After a quote inside quotes, which ends them if no other one follows. -/
  | after (quote : Char) (seen : List Char)
deriving DecidableEq

def isWordPart (c : Char) : Bool := c.isAlphanum || c == '_'

def number? (cs : List Char) : Option Token :=
  match Binary64.spanDigits cs with
  | ([], _) => none
  | (whole, []) => some (.number (Text.numberOfDigits whole) 0)
  | (whole, '.' :: fraction) =>
    if !fraction.isEmpty && fraction.all Char.isDigit then
      some (.number (Text.numberOfDigits (whole ++ fraction)) fraction.length)
    else none
  | _ => none

def ofQuotes (quote : Char) (cs : List Char) : Token :=
  if quote = '"' then .name (String.ofList cs) else .text (String.ofList cs)

/-- The token that is complete at a place, unless more must follow. -/
def finish? : Place → Option (List Token)
  | .gap => some []
  | .word seen => some [.word (String.ofList (seen.reverse.map Char.toUpper))]
  | .number seen => (number? seen.reverse).map ([·])
  | .inside .. => none
  | .after quote seen => some [ofQuotes quote seen.reverse]

/-- Begins at a character that belongs to no token before it. -/
def begin? (c : Char) : Option (List Token × Place) :=
  if c.isWhitespace then some ([], .gap)
  else if c == '"' || c == '\'' then some ([], .inside c [])
  else if c.isDigit then some ([], .number [c])
  else if isWordPart c then some ([], .word [c])
  else if ['(', ')', ',', '-', ';'].contains c then some ([.mark c], .gap)
  else none

/-- Finishes a token and begins at the character behind it. -/
def leave? (place : Place) (c : Char) : Option (List Token × Place) := do
  let done ← finish? place
  let (tokens, next) ← begin? c
  return (done ++ tokens, next)

/-- Reads one character: the tokens it completes, and the place after it. -/
def step? : Place → Char → Option (List Token × Place)
  | .gap, c => begin? c
  | .word seen, c => if isWordPart c then some ([], .word (c :: seen)) else leave? (.word seen) c
  | .number seen, c =>
    if isWordPart c || c == '.' then some ([], .number (c :: seen)) else leave? (.number seen) c
  | .inside quote seen, c =>
    some ([], if c = quote then .after quote seen else .inside quote (c :: seen))
  | .after quote seen, c =>
    if c = quote then some ([], .inside quote (c :: seen)) else leave? (.after quote seen) c

/-- The tokens of the rest of a text, from a given place on. -/
def scanFrom? (place : Place) : List Char → Option (List Token)
  | [] => finish? place
  | c :: rest => do
    let (tokens, next) ← step? place c
    return tokens ++ (← scanFrom? next rest)

def scan? (cs : List Char) : Option (List Token) := scanFrom? .gap cs

/-! ### Pieces of text -/

/-- A text that no token before it goes on with. -/
def Apart (cs : List Char) : Prop := ∀ c ∈ cs.head?, c = ' ' ∨ c = ',' ∨ c = '(' ∨ c = ')'

/-- A text spells tokens, whatever follows apart from it. -/
def Spells (cs : List Char) (tokens : List Token) : Prop :=
  ∀ rest, Apart rest → scanFrom? .gap (cs ++ rest) = (scanFrom? .gap rest).map (tokens ++ ·)

variable {place next : Place} {cs ds rest seen : List Char} {tokens more done : List Token}
  {c quote : Char}

theorem apart_nil : Apart [] := nofun

theorem apart_cons (h : c = ' ' ∨ c = ',' ∨ c = '(' ∨ c = ')') (cs : List Char) :
    Apart (c :: cs) := by
  intro d hd
  cases hd
  exact h

theorem scanFrom?_cons (h : step? place c = some (tokens, next)) :
    scanFrom? place (c :: rest) = (scanFrom? next rest).map (tokens ++ ·) := by
  rw [scanFrom?, h]
  show (scanFrom? next rest >>= fun more => some (tokens ++ more)) = _
  cases scanFrom? next rest <;> rfl

/-- A character that completes no token is kept for later. -/
theorem scanFrom?_quiet (h : step? place c = some ([], next)) :
    scanFrom? place (c :: rest) = scanFrom? next rest := by
  rw [scanFrom?_cons h]
  exact Option.map_id'

/-- A token that goes on from character to character. -/
theorem scanFrom?_run (token : List Char → Place)
    (h : ∀ c ∈ cs, ∀ seen, step? (token seen) c = some ([], token (c :: seen))) :
    scanFrom? (token seen) (cs ++ rest) = scanFrom? (token (cs.reverse ++ seen)) rest := by
  induction cs generalizing seen with
  | nil => rfl
  | cons c cs ih =>
      obtain ⟨hc, hcs⟩ := List.forall_mem_cons.mp h
      rw [List.cons_append, scanFrom?_quiet (hc seen), ih hcs, List.reverse_cons, List.append_assoc,
        List.singleton_append]

/-- Where nothing more belongs to a token, it is finished. -/
theorem scanFrom?_leave (hdone : finish? place = some done)
    (h : ∀ c ∈ rest.head?, step? place c = leave? place c) :
    scanFrom? place rest = (scanFrom? .gap rest).map (done ++ ·) := by
  cases rest with
  | nil =>
      have hgap : finish? .gap = some [] := rfl
      rw [scanFrom?, scanFrom?, hdone, hgap, Option.map_some, List.append_nil]
  | cons c rest =>
      have hleave := h c rfl
      have hstep : step? .gap c = begin? c := rfl
      rw [leave?, hdone] at hleave
      cases hbegin : begin? c with
      | none =>
          rw [hbegin] at hleave hstep
          rw [scanFrom?, hleave, scanFrom?, hstep]
          rfl
      | some answer =>
          obtain ⟨tokens, next⟩ := answer
          rw [hbegin] at hleave hstep
          rw [scanFrom?_cons hleave, scanFrom?_cons hstep, Option.map_map]
          exact congrArg (Option.map · _) (funext fun ts => List.append_assoc _ _ _)

theorem spells_nil : Spells [] [] := by
  intro rest _
  exact Option.map_id'.symm

/-- A text that spells tokens is scanned into them. -/
theorem Spells.scan?_eq (h : Spells cs tokens) : scan? cs = some tokens := by
  have hscan := h [] apart_nil
  rw [List.append_nil, scanFrom?, finish?, Option.map_some, List.append_nil] at hscan
  exact hscan

/-- Texts that spell tokens may follow each other if the second keeps words apart. -/
theorem Spells.append (h : Spells cs tokens) (h' : Spells ds more)
    (hapart : ∀ rest, Apart rest → Apart (ds ++ rest)) : Spells (cs ++ ds) (tokens ++ more) := by
  intro rest hrest
  rw [List.append_assoc, h _ (hapart rest hrest), h' rest hrest, Option.map_map]
  refine congrArg (Option.map · _) (funext fun ts => ?_)
  exact (List.append_assoc _ _ _).symm

theorem Spells.blank (h : Spells cs tokens) : Spells (' ' :: cs) tokens := by
  intro rest hrest
  have hstep : step? .gap ' ' = some ([], .gap) := rfl
  rw [List.cons_append, scanFrom?_quiet hstep, h rest hrest]

/-- A text with a blank in between. -/
theorem Spells.append_blank (h : Spells cs tokens) (h' : Spells ds more) :
    Spells (cs ++ ' ' :: ds) (tokens ++ more) :=
  h.append h'.blank fun rest _ => apart_cons (.inl rfl) (ds ++ rest)

theorem Spells.mark (hmark : begin? c = some ([.mark c], .gap)) (h : Spells cs tokens) :
    Spells (c :: cs) (.mark c :: tokens) := by
  intro rest hrest
  have hstep : step? .gap c = some ([.mark c], .gap) := hmark
  rw [List.cons_append, scanFrom?_cons hstep, h rest hrest, Option.map_map]
  rfl

/-! ### Words -/

/-- A word, which begins with a letter. -/
theorem spells_word (hfirst : begin? c = some ([], .word [c]))
    (hletters : ∀ c ∈ cs, isWordPart c = true) :
    Spells (c :: cs) [.word (String.ofList ((c :: cs).map Char.toUpper))] := by
  intro rest hrest
  have hstep : step? .gap c = some ([], .word [c]) := hfirst
  have hend : finish? (.word (cs.reverse ++ [c]))
      = some [.word (String.ofList ((c :: cs).map Char.toUpper))] := by
    simp [finish?]
  rw [List.cons_append, scanFrom?_quiet hstep,
    scanFrom?_run .word fun d hd _ => if_pos (hletters d hd), scanFrom?_leave hend]
  intro d hd
  refine if_neg ?_
  rcases hrest d hd with rfl | rfl | rfl | rfl <;> decide

def capitals : List Char := "ABCDEFGHIJKLMNOPQRSTUVWXYZ".toList

/-- Whether a word is written in capital letters. -/
def isKeyword (word : String) : Bool :=
  !word.toList.isEmpty && word.toList.all (capitals.contains ·)

theorem begin?_capital (h : c ∈ capitals) : begin? c = some ([], .word [c]) := by
  have hall : capitals.all fun c => begin? c = some ([], .word [c]) := by decide
  exact of_decide_eq_true (List.all_eq_true.mp hall c h)

theorem isWordPart_capital (h : c ∈ capitals) : isWordPart c = true := by
  have hall : capitals.all isWordPart = true := by decide
  exact List.all_eq_true.mp hall c h

theorem toUpper_capital (h : c ∈ capitals) : c.toUpper = c := by
  have hall : capitals.all fun c => c.toUpper = c := by decide
  exact of_decide_eq_true (List.all_eq_true.mp hall c h)

/-- A keyword is one token. -/
theorem spells_keyword (word : String) (h : isKeyword word = true) :
    Spells word.toList [.word word] := by
  obtain ⟨hsome, hall⟩ := Bool.and_eq_true_iff.mp h
  cases hword : word.toList with
  | nil => simp [hword] at hsome
  | cons c cs =>
      have hletters : ∀ d ∈ c :: cs, d ∈ capitals := by
        simpa [hword] using hall
      obtain ⟨hfirst, hrest⟩ := List.forall_mem_cons.mp hletters
      have hupper : (c :: cs).map Char.toUpper = c :: cs :=
        (List.map_congr_left fun d hd => toUpper_capital (hletters d hd)).trans (List.map_id' _)
      have hspells := spells_word (begin?_capital hfirst)
        fun d hd => isWordPart_capital (hrest d hd)
      rwa [hupper, ← hword, String.ofList_toList, hword] at hspells

/-- Words with a blank behind each of them. -/
def phrase (words : List String) : List Char := words.flatMap fun word => word.toList ++ [' ']

/-- Keywords in front of a text are spelled one by one. -/
theorem Spells.phrase (h : Spells cs tokens) (words : List String)
    (hwords : words.all isKeyword = true) :
    Spells (Sql.phrase words ++ cs) (words.map .word ++ tokens) := by
  induction words with
  | nil => exact h
  | cons word words ih =>
      obtain ⟨hword, hwords⟩ := Bool.and_eq_true_iff.mp hwords
      rw [Sql.phrase, List.flatMap_cons, List.append_assoc, List.append_assoc,
        List.singleton_append]
      exact (spells_keyword word hword).append_blank (ih hwords)

/-! ### Quotes -/

/-- What is in quotes is read as it was, every quote in it being doubled. -/
theorem scanFrom?_inside (cs : List Char) :
    scanFrom? (.inside quote seen)
      (cs.flatMap (fun c => if c = quote then [quote, quote] else [c]) ++ quote :: rest)
      = scanFrom? (.after quote (cs.reverse ++ seen)) rest := by
  have hquote : ∀ seen, step? (.inside quote seen) quote = some ([], .after quote seen) := by
    simp [step?]
  induction cs generalizing seen with
  | nil => exact scanFrom?_quiet (hquote seen)
  | cons c cs ih =>
      rw [List.flatMap_cons, List.append_assoc, List.reverse_cons, List.append_assoc]
      by_cases hsame : c = quote
      · subst hsame
        have hdouble : step? (.after c seen) c = some ([], .inside c (c :: seen)) := if_pos rfl
        rw [if_pos rfl, List.cons_append, List.singleton_append, scanFrom?_quiet (hquote seen),
          scanFrom?_quiet hdouble, ih]
        rfl
      · have hother : step? (.inside quote seen) c = some ([], .inside quote (c :: seen)) := by
          simp [step?, hsame]
        rw [if_neg hsame, List.singleton_append, scanFrom?_quiet hother, ih]
        rfl

/-- Any characters in quotes are one token. -/
theorem spells_quoted (hquote : quote = '"' ∨ quote = '\'') (cs : List Char) :
    Spells (Value.quoted quote cs) [ofQuotes quote cs] := by
  intro rest hrest
  have hbegin : step? .gap quote = some ([], .inside quote []) := by
    rcases hquote with rfl | rfl <;> rfl
  have hend : finish? (.after quote (cs.reverse ++ [])) = some [ofQuotes quote cs] := by
    simp [finish?]
  unfold Value.quoted
  rw [List.append_assoc, List.singleton_append, List.cons_append, scanFrom?_quiet hbegin,
    scanFrom?_inside, scanFrom?_leave hend]
  intro d hd
  refine if_neg ?_
  rcases hquote with rfl | rfl <;> rcases hrest d hd with rfl | rfl | rfl | rfl <;> decide

/-- A quoted name is one token, whatever stands in it. -/
theorem spells_name (name : String) : Spells (quotedName name) [.name name] := by
  have hname := spells_quoted (.inl rfl) name.toList
  rwa [ofQuotes, if_pos rfl, String.ofList_toList] at hname

/-- A text is read character for character. -/
theorem spells_text (cs : List Char) :
    Spells (Value.quoted '\'' cs) [.text (String.ofList cs)] := by
  have htext := spells_quoted (.inr rfl) cs
  rwa [ofQuotes, if_neg (by decide)] at htext

/-! ### Numbers -/

/-- A numeral without an exponent is read as the number that it stands for. -/
theorem number?_text {numeral : Numeral} (h : numeral.WellFormed)
    (hplain : numeral.exponent = none) :
    number? numeral.text = some (.number
      (Text.numberOfDigits (numeral.whole ++ numeral.fraction)) numeral.fraction.length) := by
  have hwhole := h.whole_isEmpty
  have hfraction := h.fraction_isDigit
  unfold number?
  rw [h.spanDigits_text, hplain]
  cases hcase : numeral.whole with
  | nil => simp [hcase] at hwhole
  | cons c cs =>
      cases hdigits : numeral.fraction with
      | nil => simp [Numeral.fractionText, Numeral.exponentText]
      | cons d ds =>
          rw [hdigits] at hfraction
          have hall : (d :: ds).all Char.isDigit = true := List.all_eq_true.mpr hfraction
          simp only [Numeral.fractionText, Numeral.exponentText, List.append_nil]
          simp [hall]

theorem begin?_of_isDigit (h : c.isDigit = true) : begin? c = some ([], .number [c]) := by
  have hapart : c ∉ [' ', '\t', '\r', '\n', '"', '\''] := by
    intro hmem
    have hnone : ∀ d ∈ [' ', '\t', '\r', '\n', '"', '\''], d.isDigit = false := by simp
    rw [hnone c hmem] at h
    cases h
  simp only [List.mem_cons, List.not_mem_nil, or_false, not_or] at hapart
  simp [begin?, Char.isWhitespace, hapart, h]

theorem isWordPart_of_mem {numeral : Numeral} (h : numeral.WellFormed)
    (hplain : numeral.exponent = none) (hc : c ∈ numeral.text) : isWordPart c = true ∨ c = '.' := by
  have hdigit : ∀ d ∈ numeral.whole ++ numeral.fraction, isWordPart d = true := by
    intro d hd
    simp [isWordPart, Char.isAlphanum, h.digits d hd]
  rw [Numeral.text, hplain, Numeral.exponentText, List.append_nil] at hc
  rcases List.mem_append.mp hc with hc | hc
  · exact .inl (hdigit c (List.mem_append_left _ hc))
  · cases hcase : numeral.fraction with
    | nil =>
        rw [hcase] at hc
        cases hc
    | cons d ds =>
        rw [hcase] at hc hdigit
        rcases List.mem_cons.mp hc with rfl | hc
        · exact .inr rfl
        · exact .inl (hdigit c (List.mem_append_right _ hc))

/-- A number without exponent is one token, with its digits and its places. -/
theorem spells_numeral {numeral : Numeral} (h : numeral.WellFormed)
    (hplain : numeral.exponent = none) : Spells numeral.text [.number
      (Text.numberOfDigits (numeral.whole ++ numeral.fraction)) numeral.fraction.length] := by
  intro rest hrest
  have hnumber := number?_text h hplain
  have hparts : ∀ c ∈ numeral.text, isWordPart c = true ∨ c = '.' :=
    fun c hc => isWordPart_of_mem h hplain hc
  have hfirst := h.head?_text
  cases htext : numeral.text with
  | nil =>
      rw [htext] at hnumber
      cases hnumber
  | cons c cs =>
      rw [htext] at hnumber hparts hfirst
      have hstep : step? .gap c = some ([], .number [c]) := begin?_of_isDigit (hfirst c rfl)
      have hend : finish? (.number (cs.reverse ++ [c])) = some [.number
          (Text.numberOfDigits (numeral.whole ++ numeral.fraction)) numeral.fraction.length] := by
        simp [finish?, hnumber]
      rw [List.cons_append, scanFrom?_quiet hstep, scanFrom?_run .number, scanFrom?_leave hend]
      · intro d hd
        refine if_neg ?_
        rcases hrest d hd with rfl | rfl | rfl | rfl <;> decide
      · intro d hd seen
        exact if_pos (by simpa using hparts d (List.mem_cons_of_mem _ hd))

theorem spells_digits (n : Nat) : Spells (Text.digitsOfNumber n) [.number n 0] := by
  have hwhole : Json.wholeDigits (Text.digitsOfNumber n ++ []) = true :=
    Numeral.wholeDigits_zeros (.inr rfl)
  have hdigits : ∀ c ∈ Text.digitsOfNumber n ++ [], c.isDigit = true := by
    intro c hc
    rw [List.append_nil] at hc
    exact Text.isDigit_of_mem_digitsOfNumber hc
  have hspells : Spells (Numeral.text ⟨Text.digitsOfNumber n, [], none⟩) _ :=
    spells_numeral ⟨by simpa using hwhole, hdigits⟩ rfl
  simpa [Numeral.text, Numeral.fractionText, Numeral.exponentText,
    Text.numberOfDigits_digitsOfNumber] using hspells

end SchemaHistory.Sql
