import SchemaHistory.Condition
import SchemaHistory.Proofs.Digits
import SchemaHistory.Proofs.PredicateGrammar

/-!
# The text of conditions

`Grammar.tokens` takes the text of a predicate apart, and `Grammar.numbered` gives the placeholders
that have no number of their own the numbers of the arguments that they stand for, from left to
right. `Grammar.Written` says that a text is read as a predicate at a level of the grammar. It is
put together as texts are: by a pair of parentheses, by `NOT` and by a connective.
-/

namespace SchemaHistory

namespace Grammar

/-! ### Taking a text apart -/

/-- Reads a name up to the quote behind it. A quote that is part of the name is written twice. -/
def readName : List Char → Option (List Char × List Char)
  | '"' :: '"' :: rest => (readName rest).map fun (name, rest) => ('"' :: name, rest)
  | '"' :: rest => some ([], rest)
  | c :: rest => (readName rest).map fun (name, rest) => (c :: name, rest)
  | [] => none

def readNumber (cs : List Char) : Option (Nat × List Char) :=
  match cs.takeWhile Char.isDigit with
  | [] => none
  | digits => some (Text.numberOfDigits digits, cs.dropWhile Char.isDigit)

/-- The token of a word, in capital or small letters. -/
def keyword? (word : List Char) : Option Token :=
  match String.ofList (word.map Char.toUpper) with
  | "NOT" => some .not
  | "AND" => some .and
  | "OR" => some .or
  | _ => none

/-- Reads the first token of a text that does not begin with white space. -/
def token? : List Char → Option (Token × List Char)
  | '(' :: rest => some (.opening, rest)
  | ')' :: rest => some (.closing, rest)
  | '"' :: rest => (readName rest).map fun (name, rest) => (.name (String.ofList name), rest)
  | '?' :: rest => some (.placeholder none, rest)
  | '$' :: rest | ':' :: rest =>
    (readNumber rest).map fun (number, rest) => (.placeholder (some number), rest)
  | '=' :: rest => some (.operator .equal, rest)
  | '!' :: '=' :: rest | '<' :: '>' :: rest => some (.operator .notEqual, rest)
  | '>' :: '=' :: rest => some (.operator .greaterOrEqual, rest)
  | '>' :: rest => some (.operator .greater, rest)
  | '<' :: '=' :: rest => some (.operator .lessOrEqual, rest)
  | '<' :: rest => some (.operator .less, rest)
  | c :: rest =>
    if c.isAlpha then
      (keyword? ((c :: rest).takeWhile Char.isAlpha)).map fun token =>
        (token, (c :: rest).dropWhile Char.isAlpha)
    else none
  | [] => none

theorem length_readName {cs name rest : List Char} (h : readName cs = some (name, rest)) :
    rest.length < cs.length := by
  induction cs using readName.induct generalizing name with
  | case1 cs ih =>
      -- a quote that is part of the name
      rw [readName, Option.map_eq_some_iff] at h
      obtain ⟨⟨name', rest'⟩, hread, heq⟩ := h
      cases heq
      have hlength := ih hread
      simp only [List.length_cons]
      omega
  | case2 cs hne =>
      -- the closing quote
      rw [readName] at h
      · cases h
        simp
      · exact hne
  | case3 c cs hdouble hne ih =>
      rw [readName, Option.map_eq_some_iff] at h
      · obtain ⟨⟨name', rest'⟩, hread, heq⟩ := h
        cases heq
        have hlength := ih hread
        simp only [List.length_cons]
        omega
      all_goals assumption
  | case4 => cases h

theorem length_readNumber {cs rest : List Char} {n : Nat} (h : readNumber cs = some (n, rest)) :
    rest.length ≤ cs.length := by
  unfold readNumber at h
  split at h
  · cases h
  · cases h
    exact (List.dropWhile_sublist _).length_le

/-- A token takes at least one character. -/
theorem length_token? {cs rest : List Char} {token : Token} (h : token? cs = some (token, rest)) :
    rest.length < cs.length := by
  have hnumber : ∀ {cs rest : List Char} {token : Token},
      (readNumber cs).map (fun (number, rest) => (Token.placeholder (some number), rest))
        = some (token, rest) → rest.length < cs.length + 1 := by
    intro cs rest token h
    obtain ⟨⟨number, rest'⟩, hread, heq⟩ := Option.map_eq_some_iff.mp h
    cases heq
    exact Nat.lt_succ_of_le (length_readNumber hread)
  unfold token? at h
  split at h
  -- all tokens but names, placeholders with a number and words have a length of their own
  any_goals
    cases h
    simp only [List.length_cons]
    omega
  · obtain ⟨⟨name, rest'⟩, hread, heq⟩ := Option.map_eq_some_iff.mp h
    cases heq
    exact Nat.lt_succ_of_lt (length_readName hread)
  · exact hnumber h
  · exact hnumber h
  · split at h
    · next halpha =>
        obtain ⟨token', -, heq⟩ := Option.map_eq_some_iff.mp h
        cases heq
        rw [List.dropWhile_cons_of_pos halpha]
        exact Nat.lt_succ_of_le (List.dropWhile_sublist _).length_le
    · cases h
  · cases h

def tokens (cs : List Char) : Option (List Token) :=
  match cs with
  | [] => some []
  | c :: cs =>
    if c.isWhitespace then tokens cs
    else match _h : token? (c :: cs) with
      | some (token, rest) => (tokens rest).map (token :: ·)
      | none => none
termination_by cs.length
decreasing_by
  · simp
  · exact length_token? ‹_›

/-- Blanks between tokens do not matter. -/
theorem tokens_blank (cs : List Char) : tokens (' ' :: cs) = tokens cs := by
  rw [tokens, if_pos (by decide)]

theorem tokens_of_token? {c : Char} {cs rest : List Char} {token : Token}
    (hblank : c.isWhitespace = false) (h : token? (c :: cs) = some (token, rest)) :
    tokens (c :: cs) = (tokens rest).map (token :: ·) := by
  rw [tokens, if_neg (by simp [hblank])]
  split
  · next hread =>
      rw [h] at hread
      cases hread
      rfl
  · next hnone =>
      rw [h] at hnone
      cases hnone

/-! ### Pieces of text -/

/-- A text that does not run into what stands before it. -/
def Apart (cs : List Char) : Prop := ∀ c ∈ cs.head?, c = ' ' ∨ c = ')'

theorem apart_nil : Apart [] := nofun

theorem apart_blank (cs : List Char) : Apart (' ' :: cs) := by simp [Apart]

theorem apart_closing (cs : List Char) : Apart (')' :: cs) := by simp [Apart]

/-- A text spells tokens, whatever follows apart from it. -/
def Spells (cs : List Char) (ts : List Token) : Prop :=
  ∀ rest, Apart rest → tokens (cs ++ rest) = (tokens rest).map (ts ++ ·)

section Spells

variable {cs ds rest : List Char} {ts us : List Token} {token : Token}

/-- A text that spells tokens is cut into them. -/
theorem Spells.tokens_eq (h : Spells cs ts) : tokens cs = some ts := by
  have htokens := h [] apart_nil
  rw [List.append_nil, tokens] at htokens
  rw [htokens, Option.map_some, List.append_nil]

/-- Texts follow each other if the second keeps words apart. -/
theorem Spells.append (h : Spells cs ts) (h' : Spells ds us) (hapart : ∀ rest, Apart (ds ++ rest)) :
    Spells (cs ++ ds) (ts ++ us) := by
  intro rest hrest
  rw [List.append_assoc, h _ (hapart rest), h' rest hrest, Option.map_map]
  refine congrArg (Option.map · _) (funext fun vs => ?_)
  rw [Function.comp, List.append_assoc]

theorem Spells.blank (h : Spells cs ts) : Spells (' ' :: cs) ts := by
  intro rest hrest
  rw [List.cons_append, tokens_blank, h rest hrest]

/-- A text with a blank in between. -/
theorem Spells.append_blank (h : Spells cs ts) (h' : Spells ds us) :
    Spells (cs ++ ' ' :: ds) (ts ++ us) :=
  h.append h'.blank fun rest => apart_blank (ds ++ rest)

theorem spells_of_token? {c : Char} (hblank : c.isWhitespace = false)
    (h : ∀ rest, Apart rest → token? (c :: cs ++ rest) = some (token, rest)) :
    Spells (c :: cs) [token] := by
  intro rest hrest
  exact tokens_of_token? hblank (h rest hrest)

theorem Spells.grouped (h : Spells cs ts) :
    Spells (Condition.grouped cs) (.opening :: (ts ++ [.closing])) := by
  intro rest hrest
  have hopening : tokens ('(' :: (cs ++ ([')'] ++ rest)))
      = (tokens (cs ++ ([')'] ++ rest))).map (.opening :: ·) := tokens_of_token? (by decide) rfl
  have hclosing : tokens (')' :: rest) = (tokens rest).map (.closing :: ·) :=
    tokens_of_token? (by decide) rfl
  unfold Condition.grouped
  rw [List.append_assoc, List.cons_append, hopening, List.singleton_append,
    h _ (apart_closing rest), hclosing, Option.map_map, Option.map_map]
  refine congrArg (Option.map · _) (funext fun vs => ?_)
  simp

/-- A quoted name is read to its end, whatever stands in it. -/
theorem readName_escaped (name : List Char) (h : Apart rest) :
    readName (name.flatMap (fun c => if c = '"' then ['"', '"'] else [c]) ++ '"' :: rest)
      = some (name, rest) := by
  induction name with
  | nil =>
      -- what follows the closing quote is no quote, so it does not seem doubled
      cases rest with
      | nil => rfl
      | cons c rest =>
          rcases h c rfl with rfl | rfl <;> rfl
  | cons c name ih =>
      rw [List.flatMap_cons, List.append_assoc]
      by_cases hquote : c = '"'
      · subst hquote
        rw [if_pos rfl]
        show (readName (name.flatMap _ ++ '"' :: rest)).map _ = _
        rw [ih]
        rfl
      · rw [if_neg hquote, List.singleton_append, readName, ih]
        · rfl
        all_goals
          intros
          simp_all

theorem spells_name (name : String) : Spells (quotedName name) [.name name] := by
  show Spells ('"' :: (name.toList.flatMap _ ++ ['"'])) _
  refine spells_of_token? (by decide) fun rest hrest => ?_
  show (readName ((name.toList.flatMap _ ++ ['"']) ++ rest)).map _ = _
  rw [List.append_assoc, List.singleton_append, readName_escaped name.toList hrest]
  show some (Token.name (String.ofList name.toList), rest) = _
  rw [String.ofList_toList]

theorem spells_greater : Spells ['>'] [.operator .greater] := by
  refine spells_of_token? (by decide) fun rest hrest => ?_
  -- what follows is no `=`
  cases rest with
  | nil => rfl
  | cons c rest => rcases hrest c rfl with rfl | rfl <;> rfl

theorem spells_less : Spells ['<'] [.operator .less] := by
  refine spells_of_token? (by decide) fun rest hrest => ?_
  cases rest with
  | nil => rfl
  | cons c rest => rcases hrest c rfl with rfl | rfl <;> rfl

/-- Every operator of every dialect is one token. -/
theorem spells_operator (dialect : Dialect) (comparison : Comparison) :
    Spells (dialect.operator comparison) [.operator comparison] := by
  cases comparison with
  | greater => cases dialect <;> exact spells_greater
  | less => cases dialect <;> exact spells_less
  | equal => cases dialect <;> exact spells_of_token? (by decide) fun rest _ => rfl
  | notEqual => cases dialect <;> exact spells_of_token? (by decide) fun rest _ => rfl
  | greaterOrEqual => cases dialect <;> exact spells_of_token? (by decide) fun rest _ => rfl
  | lessOrEqual => cases dialect <;> exact spells_of_token? (by decide) fun rest _ => rfl

/-- The number in a placeholder, where the dialect writes one. -/
def mark : Dialect → Nat → Option Nat
  | .sqlite, _ => none
  | _, number => some number

theorem readNumber_digits (number : Nat) (h : Apart rest) :
    readNumber (Text.digitsOfNumber number ++ rest) = some (number, rest) := by
  have hdigits : ∀ c ∈ Text.digitsOfNumber number, c.isDigit = true :=
    fun _ => Text.isDigit_of_mem_digitsOfNumber
  have hrest : rest.takeWhile Char.isDigit = [] ∧ rest.dropWhile Char.isDigit = rest := by
    cases rest with
    | nil => exact ⟨rfl, rfl⟩
    | cons c rest => rcases h c rfl with rfl | rfl <;> exact ⟨rfl, rfl⟩
  unfold readNumber
  rw [List.takeWhile_append_of_pos hdigits, List.dropWhile_append_of_pos hdigits, hrest.1, hrest.2,
    List.append_nil]
  split
  · next hnil => exact absurd hnil Nat.toDigits_ne_nil
  · rw [Text.numberOfDigits_digitsOfNumber]

theorem spells_placeholder (dialect : Dialect) (number : Nat) :
    Spells (dialect.placeholder number) [.placeholder (mark dialect number)] := by
  cases dialect with
  | sqlite => exact spells_of_token? (by decide) fun rest _ => rfl
  | postgres =>
      refine spells_of_token? (by decide) fun rest hrest => ?_
      show (readNumber (Text.digitsOfNumber number ++ rest)).map _ = _
      rw [readNumber_digits number hrest]
      rfl
  | generic name capabilities =>
      refine spells_of_token? (by decide) fun rest hrest => ?_
      show (readNumber (Text.digitsOfNumber number ++ rest)).map _ = _
      rw [readNumber_digits number hrest]
      rfl

theorem spells_word {c : Char} (hletters : (c :: cs).all Char.isAlpha = true)
    (hword : ∀ rest, token? (c :: rest) = (keyword? ((c :: rest).takeWhile Char.isAlpha)).map
      fun token => (token, (c :: rest).dropWhile Char.isAlpha))
    (h : keyword? (c :: cs) = some token) (hblank : c.isWhitespace = false) :
    Spells (c :: cs) [token] := by
  refine spells_of_token? hblank fun rest hrest => ?_
  have halpha : ∀ d ∈ c :: cs, d.isAlpha = true := List.all_eq_true.mp hletters
  have hend : rest.takeWhile Char.isAlpha = [] ∧ rest.dropWhile Char.isAlpha = rest := by
    cases rest with
    | nil => exact ⟨rfl, rfl⟩
    | cons c rest => rcases hrest c rfl with rfl | rfl <;> exact ⟨rfl, rfl⟩
  rw [List.cons_append, hword, ← List.cons_append, List.takeWhile_append_of_pos halpha,
    List.dropWhile_append_of_pos halpha, hend.1, hend.2, List.append_nil, h, Option.map_some]

theorem spells_not : Spells ['N', 'O', 'T'] [.not] :=
  spells_word (by decide) (fun _ => rfl) rfl (by decide)

def ofConnective : Connective → Token
  | .and => .and
  | .or => .or

theorem spells_connective (connective : Connective) :
    Spells (Condition.connectiveText connective) [ofConnective connective] := by
  cases connective with
  | and =>
      have hand : Spells ['A', 'N', 'D'] [.and] :=
        spells_word (by decide) (fun _ => rfl) rfl (by decide)
      exact hand
  | or =>
      have hor : Spells ['O', 'R'] [.or] :=
        spells_word (by decide) (fun _ => rfl) rfl (by decide)
      exact hor

end Spells

/-! ### Numbers for placeholders -/

/-- Gives the placeholders that have no number the numbers from `next` on. -/
def numbered : Nat → List Token → List Token
  | next, .placeholder none :: ts => .placeholder (some next) :: numbered (next + 1) ts
  | next, token :: ts => token :: numbered next ts
  | _, [] => []

/-- Reads the text of a predicate. The first placeholder without a number stands for the argument
with the given one. -/
def readText (start : Nat) (cs : List Char) : Option Predicate := do
  read (numbered start (← tokens cs))

/-- What the grammar allows a text to be read as, however it is read. -/
def Allows (start : Nat) (cs : List Char) (p : Predicate) : Prop :=
  ∃ raw, tokens cs = some raw ∧ Reads .disjunction (numbered start raw) p

/-- The reader finds a predicate exactly if the grammar allows it, so the grammar allows no more
than one. -/
theorem readText_eq_some_iff {start : Nat} {cs : List Char} {p : Predicate} :
    readText start cs = some p ↔ Allows start cs p := by
  unfold Allows
  simp only [← read_eq_some_iff]
  exact Option.bind_eq_some_iff

/-- Some tokens get the numbers from `start` up to `stop`, if the dialect writes no numbers. -/
def Numbers (dialect : Dialect) (start stop : Nat) (raw ts : List Token) : Prop :=
  ∀ next rest, (dialect = .sqlite → next = start) →
    numbered next (raw ++ rest) = ts ++ numbered (if dialect = .sqlite then stop else next) rest

section Numbers

variable {dialect : Dialect} {start between stop : Nat} {raw raw' ts us : List Token}

/-- Placeholders are counted through two texts. -/
theorem Numbers.append (h : Numbers dialect start between raw ts)
    (h' : Numbers dialect between stop raw' us) :
    Numbers dialect start stop (raw ++ raw') (ts ++ us) := by
  intro next rest hnext
  rw [List.append_assoc, h next _ hnext, h' _ rest fun hsqlite => if_pos hsqlite, List.append_assoc]
  by_cases hsqlite : dialect = .sqlite
  · rw [if_pos hsqlite, if_pos hsqlite]
  · rw [if_neg hsqlite, if_neg hsqlite, if_neg hsqlite]

theorem numbers_of_plain {token : Token} (hplain : token ≠ .placeholder none) :
    Numbers dialect start start [token] [token] := by
  intro next rest hnext
  have hsame : (if dialect = .sqlite then start else next) = next := by
    by_cases hsqlite : dialect = .sqlite
    · rw [if_pos hsqlite, hnext hsqlite]
    · rw [if_neg hsqlite]
  rw [hsame, List.singleton_append, List.singleton_append, numbered]
  exact fun h => hplain h

theorem numbers_placeholder (number : Nat) : Numbers dialect number (number + 1)
    [.placeholder (mark dialect number)] [.placeholder (some number)] := by
  intro next rest hnext
  cases dialect with
  | sqlite =>
      obtain rfl := hnext rfl
      rfl
  | postgres => rfl
  | generic name capabilities => rfl

theorem numbers_connective (connective : Connective) :
    Numbers dialect start start [ofConnective connective] [ofConnective connective] := by
  refine numbers_of_plain ?_
  cases connective <;> simp [ofConnective]

end Numbers

/-! ### Predicates in writing -/

/-- A text is read as a predicate at a level. Its placeholders stand for the arguments from `start`
up to `stop`. -/
def Written (dialect : Dialect) (level : Level) (start stop : Nat) (cs : List Char)
    (p : Predicate) :
    Prop :=
  ∃ raw ts, Spells cs raw ∧ Numbers dialect start stop raw ts ∧ Reads level ts p

section Written

variable {dialect : Dialect} {start between stop : Nat} {cs ds : List Char} {p q : Predicate}

/-- What is written for a predicate is read as that predicate. -/
theorem Written.readText (h : Written dialect .disjunction start stop cs p) :
    readText start cs = some p := by
  obtain ⟨raw, ts, hspells, hnumbers, hreads⟩ := h
  have hnumbered := hnumbers start [] fun _ => rfl
  rw [List.append_nil, numbered, List.append_nil] at hnumbered
  unfold Grammar.readText
  rw [hspells.tokens_eq]
  show read (numbered start raw) = _
  rw [hnumbered]
  exact read_of_reads hreads

theorem Written.conjunction (h : Written dialect .negation start stop cs p) :
    Written dialect .conjunction start stop cs p := by
  obtain ⟨raw, ts, hspells, hnumbers, hreads⟩ := h
  exact ⟨raw, ts, hspells, hnumbers, .ofNegation hreads⟩

theorem Written.disjunction (h : Written dialect .conjunction start stop cs p) :
    Written dialect .disjunction start stop cs p := by
  obtain ⟨raw, ts, hspells, hnumbers, hreads⟩ := h
  exact ⟨raw, ts, hspells, hnumbers, .ofConjunction hreads⟩

/-- A test is written as a comparison of its column with its argument. -/
theorem written_test (dialect : Dialect) (number : Nat) (test : Test) :
    Written dialect .negation number (number + 1) (Condition.testText dialect number test)
      (.compare test.column test.comparison number) := by
  have hspells := ((spells_name test.column).append_blank
    (spells_operator dialect test.comparison)).append_blank (spells_placeholder dialect number)
  have hname : Numbers dialect number number [.name test.column] [.name test.column] :=
    numbers_of_plain nofun
  have hoperator :
      Numbers dialect number number [.operator test.comparison] [.operator test.comparison] :=
    numbers_of_plain nofun
  exact ⟨_, _, hspells, (hname.append hoperator).append (numbers_placeholder number),
    .compare _ _ _⟩

/-- In parentheses anything is as good as a single test. -/
theorem Written.grouped (h : Written dialect .disjunction start stop cs p) :
    Written dialect .negation start stop (Condition.grouped cs) p := by
  obtain ⟨raw, ts, hspells, hnumbers, hreads⟩ := h
  have hopening : Numbers dialect start start [.opening] [.opening] := numbers_of_plain nofun
  have hclosing : Numbers dialect stop stop [.closing] [.closing] := numbers_of_plain nofun
  exact ⟨_, _, hspells.grouped, hopening.append (hnumbers.append hclosing), .group hreads⟩

theorem Written.not (h : Written dialect .negation start stop cs p) :
    Written dialect .negation start stop ("NOT ".toList ++ cs) (.not p) := by
  obtain ⟨raw, ts, hspells, hnumbers, hreads⟩ := h
  have hnot : Numbers dialect start start [.not] [.not] := numbers_of_plain nofun
  exact ⟨_, _, spells_not.append_blank hspells, hnot.append hnumbers, .not hreads⟩

def joining : Connective → Predicate → Predicate → Predicate
  | .and => .and
  | .or => .or

/-- Two predicates that bind at least as tight as `NOT` can be joined as they are. -/
theorem Written.join (connective : Connective) (h : Written dialect .negation start between cs p)
    (h' : Written dialect .negation between stop ds q) :
    Written dialect .disjunction start stop
      (cs ++ ' ' :: Condition.connectiveText connective ++ ' ' :: ds) (joining connective p q) := by
  obtain ⟨raw, ts, hspells, hnumbers, hreads⟩ := h
  obtain ⟨raw', us, hspells', hnumbers', hreads'⟩ := h'
  have hnumbered := (hnumbers.append (numbers_connective connective)).append hnumbers'
  refine ⟨_, _, (hspells.append_blank (spells_connective connective)).append_blank hspells',
    hnumbered, ?_⟩
  rw [List.append_assoc, List.singleton_append]
  cases connective with
  | and => exact .ofConjunction (.and (.ofNegation hreads) hreads')
  | or => exact .or (.ofConjunction (.ofNegation hreads)) (.ofNegation hreads')

/-- A conjunction is written with AND between its sides. -/
theorem Written.and (h : Written dialect .conjunction start between cs p)
    (h' : Written dialect .negation between stop ds q) :
    Written dialect .conjunction start stop (cs ++ " AND ".toList ++ ds) (.and p q) := by
  obtain ⟨raw, ts, hspells, hnumbers, hreads⟩ := h
  obtain ⟨raw', us, hspells', hnumbers', hreads'⟩ := h'
  have hnumbered := (hnumbers.append (numbers_connective .and)).append hnumbers'
  have hspelled := (hspells.append_blank (spells_connective .and)).append_blank hspells'
  refine ⟨_, _, ?_, hnumbered, ?_⟩
  · have htext : cs ++ " AND ".toList ++ ds
        = cs ++ ' ' :: Condition.connectiveText .and ++ ' ' :: ds := by
      rw [List.append_assoc, List.append_assoc]
      rfl
    rw [htext]
    exact hspelled
  · rw [List.append_assoc, List.singleton_append]
    exact .and hreads hreads'

end Written

end Grammar

end SchemaHistory
