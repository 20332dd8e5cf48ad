import SchemaHistory.Json.Token
import SchemaHistory.Proofs.NumberText

/-!
# The words of JSON

What is written is read again: the characters of a text inside quotes (`Json.Quoted.decode_encode`),
the other scalars as words (`Json.Scalar.ofWord?_text`), and any scalar as one token wherever it
stands (`Json.Token.spells_text`). This takes scalars that have a text of their own: an integer
within 64 bits, a number that is finite.

The scan goes one character at a time and keeps the place it is at. A text `Spells` tokens if the
scan gives them whatever follows, as long as that does not go on with a word (`Apart`). Spelling is
closed under putting texts together, so the texts of whole values are spelled from the words up.
-/

namespace SchemaHistory.Json

/-! ### Texts in quotes -/

namespace Quoted

/-- A hexadecimal digit is read as the number that it was written for. -/
theorem hexValue?_hexDigit : ∀ n < 16, hexValue? (hexDigit n) = some n := by decide

theorem unit?_hexDigit {c : Char} (h : c.toNat < 32) :
    unit? '0' '0' (hexDigit (c.toNat / 16)) (hexDigit (c.toNat % 16)) = some c.toNat := by
  have hzero : hexValue? '0' = some 0 := rfl
  have hhigh := hexValue?_hexDigit (c.toNat / 16) (by omega)
  have hlow := hexValue?_hexDigit (c.toNat % 16) (by omega)
  have hvalue : ((0 * 16 + 0) * 16 + c.toNat / 16) * 16 + c.toNat % 16 = c.toNat := by omega
  simp only [unit?, hzero, hhigh, hlow, Option.bind_eq_bind, Option.bind_some, hvalue]
  rfl

/-- What stands for a character inside quotes is a letter behind a backslash, its number, or the
character itself. -/
theorem encodeChar_cases (c : Char) :
    (∃ letter, encodeChar c = ['\\', letter] ∧ escaped? letter = some c) ∨
      (c.toNat < 0x20 ∧ encodeChar c
        = ['\\', 'u', '0', '0', hexDigit (c.toNat / 16), hexDigit (c.toNat % 16)]) ∨
      (c ≠ '"' ∧ c ≠ '\\' ∧ ¬c.toNat < 0x20 ∧ encodeChar c = [c]) := by
  by_cases hescaped : c ∈ ['"', '\\', '\x08', '\t', '\n', '\x0c', '\r']
  · simp only [List.mem_cons, List.not_mem_nil, or_false] at hescaped
    rcases hescaped with rfl | rfl | rfl | rfl | rfl | rfl | rfl <;> exact .inl ⟨_, rfl, rfl⟩
  · simp only [List.mem_cons, List.not_mem_nil, or_false, not_or] at hescaped
    obtain ⟨hquote, hslash, hback, htab, hline, hpage, hreturn⟩ := hescaped
    by_cases hcontrol : c.toNat < 0x20
    · refine .inr (.inl ⟨hcontrol, ?_⟩)
      simp [encodeChar, hquote, hslash, hback, htab, hline, hpage, hreturn, hcontrol]
    · refine .inr (.inr ⟨hquote, hslash, hcontrol, ?_⟩)
      simp [encodeChar, hquote, hslash, hback, htab, hline, hpage, hreturn, hcontrol]

section Decoding

variable {rest : List Char}

theorem decodeAfter_escaped {letter plain : Char} (h : escaped? letter = some plain) :
    decodeAfter none ('\\' :: letter :: rest) = (decodeAfter none rest).map (plain :: ·) := by
  have hletter : letter ≠ 'u' := by
    rintro rfl
    cases h
  rw [decodeAfter.eq_def]
  simp [hletter, h]

theorem decodeAfter_unit {a b c d : Char} {unit : Nat} (h : unit? a b c d = some unit)
    (hplain : unit < 0xD800) : decodeAfter none ('\\' :: 'u' :: a :: b :: c :: d :: rest)
      = (decodeAfter none rest).map (Char.ofNat unit :: ·) := by
  have hhigh : ¬(0xD800 ≤ unit ∧ unit < 0xDC00) := by omega
  have hlow : ¬(0xDC00 ≤ unit ∧ unit < 0xE000) := by omega
  rw [decodeAfter.eq_def]
  simp only [h, if_neg hhigh, if_neg hlow]

theorem decodeAfter_plain {c : Char} (hslash : c ≠ '\\') (hprinted : ¬c.toNat < 0x20) :
    decodeAfter none (c :: rest) = (decodeAfter none rest).map (c :: ·) := by
  rw [decodeAfter]
  · simp [hslash, hprinted]
  · rintro _ _ _ _ _ rfl
    exact absurd rfl hslash
  · rintro _ _ rfl
    exact absurd rfl hslash

/-- A character is read from what stands for it inside quotes. -/
theorem decodeAfter_encodeChar (c : Char) :
    decodeAfter none (encodeChar c ++ rest) = (decodeAfter none rest).map (c :: ·) := by
  rcases encodeChar_cases c with ⟨letter, hencode, hletter⟩ | ⟨hcontrol, hencode⟩ |
    ⟨-, hslash, hprinted, hencode⟩
  · rw [hencode]
    exact decodeAfter_escaped hletter
  · rw [hencode, List.cons_append, List.cons_append, List.cons_append, List.cons_append,
      List.cons_append, List.cons_append, List.nil_append,
      decodeAfter_unit (unit?_hexDigit hcontrol) (by omega), Char.ofNat_toNat]
  · rw [hencode]
    exact decodeAfter_plain hslash hprinted

end Decoding

/-- Decoding undoes encoding. -/
theorem decode_encode (cs : List Char) : decode (encode cs) = some cs := by
  unfold decode encode
  induction cs with
  | nil => rfl
  | cons c cs ih =>
      rw [List.flatMap_cons, decodeAfter_encodeChar, ih]
      rfl

end Quoted

/-! ### Scalars -/

namespace Scalar

/-- Integers of 64 bits and finite floats have texts of their own. -/
def Legible : Scalar → Prop
  | integer n => -2 ^ 63 ≤ n ∧ n < 2 ^ 64
  | float x => x.isFinite = true
  | _ => True

def signText (negative : Bool) : List Char := if negative then ['-'] else []

/-- A whole number is read from its digits. -/
theorem readNumber?_digits (negative : Bool) (n : Nat) :
    readNumber? negative (Text.digitsOfNumber n) = some (ofWholeNumber negative n) := by
  have hspan : Binary64.spanDigits (Text.digitsOfNumber n ++ []) = (Text.digitsOfNumber n, []) :=
    Numeral.spanDigits_append Numeral.digitsOfNumber_isDigit nofun
  have hwhole : wholeDigits (Text.digitsOfNumber n) = true := by
    by_cases hzero : n = 0
    · rw [hzero]
      rfl
    · rw [← List.append_nil (Text.digitsOfNumber n)]
      exact Numeral.wholeDigits_append hzero []
  rw [List.append_nil] at hspan
  simp [readNumber?, hspan, hwhole, Text.numberOfDigits_digitsOfNumber]

/-- A number is no other word. -/
theorem ofWord?_number {negative : Bool} {cs : List Char} {scalar : Scalar}
    (hdigit : ∀ c ∈ cs.head?, c.isDigit = true) (hread : readNumber? negative cs = some scalar) :
    ofWord? (signText negative ++ cs) = some scalar := by
  cases cs with
  | nil => cases negative <;> cases hread
  | cons c rest =>
      have hc : c.isDigit = true := hdigit c rfl
      have hletters : c ≠ 'n' ∧ c ≠ 't' ∧ c ≠ 'f' ∧ c ≠ '-' := by
        refine ⟨?_, ?_, ?_, ?_⟩ <;> (rintro rfl; cases hc)
      obtain ⟨hn, ht, hf, hminus⟩ := hletters
      unfold ofWord?
      cases negative with
      | true => simp [signText, hread]
      | false =>
          simp only [signText, Bool.false_eq_true, if_false, List.nil_append]
          rw [if_neg (by simp [hn]), if_neg (by simp [ht]), if_neg (by simp [hf])]
          split
          · next heq => exact absurd (List.cons.inj heq).1 hminus
          · exact hread

theorem text_finite {negative : Bool} {ordinal : Nat} {bounded : ordinal < 2047 * Nat.pow 2 52}
    {cs : List Char} (h : Binary64.magnitudeText numberLayout ordinal = cs) :
    (float (.finite negative ordinal bounded)).text = signText negative ++ cs := by
  show (Binary64.text numberLayout (.finite negative ordinal bounded)).toList = _
  rw [Binary64.text, String.toList_ofList, h]
  rfl

theorem text_integer (n : Int) :
    (integer n).text = signText (decide (n < 0)) ++ Text.digitsOfNumber n.natAbs := by
  show integerText n = _
  simp [integerText, signText]

/-- An integer that can be read is read from its text. -/
theorem ofWord?_integer {n : Int} (h : (integer n).Legible) :
    ofWord? (integer n).text = some (integer n) := by
  obtain ⟨hlower, hupper⟩ := h
  have hdigit : ∀ c ∈ (Text.digitsOfNumber n.natAbs).head?, c.isDigit = true := by
    intro c hc
    exact Text.isDigit_of_mem_digitsOfNumber (List.mem_of_mem_head? hc)
  rw [text_integer, ofWord?_number hdigit (readNumber?_digits _ _)]
  by_cases hnegative : n < 0
  · have hfits : 0 < n.natAbs ∧ n.natAbs ≤ Nat.pow 2 63 := by
      rw [Nat.pow_eq]
      omega
    have hvalue : -(n.natAbs : Int) = n := by omega
    generalize n.natAbs = digits at *
    simp [ofWholeNumber, hnegative, hfits, hvalue]
  · have hfits : n.natAbs < UInt64.size := by
      rw [UInt64.size]
      omega
    have hvalue : (n.natAbs : Int) = n := by omega
    generalize n.natAbs = digits at *
    simp [ofWholeNumber, hnegative, hfits, hvalue]

theorem ofWord?_float {x : Binary64} (h : (float x).Legible) :
    ofWord? (float x).text = some (float x) := by
  cases x with
  | infinite => cases h
  | nan => cases h
  | finite negative ordinal bounded =>
      obtain ⟨numeral, hwell, htext, hordinal, -, hmarked⟩ :=
        Binary64.exists_numeral numberLayout bounded
      rw [text_finite htext,
        ofWord?_number hwell.head?_text (hwell.readNumber?_text negative (hmarked rfl)), hordinal,
        Binary64.ofOrdinal, dif_pos bounded]

/-- A scalar other than a text is read from its text. -/
theorem ofWord?_text {scalar : Scalar} (h : scalar.Legible) (hplain : ∀ s, scalar ≠ string s) :
    ofWord? scalar.text = some scalar := by
  cases scalar with
  | null => rfl
  | bool value => cases value <;> rfl
  | integer n => exact ofWord?_integer h
  | float x => exact ofWord?_float h
  | string s => exact absurd rfl (hplain s)

end Scalar

/-! ### Tokens -/

namespace Token

def enders : List Char := ['[', ']', '\x7b', '\x7d', ',', ':', '"', ' ', '\n', '\t', '\r']

theorem isWordPart_of_not_mem {c : Char} (h : c ∉ enders) : isWordPart c = true := by
  have hmark : ofMark? c = none := by
    unfold ofMark?
    split <;> first | rfl | exact absurd (by simp [enders]) h
  simp only [enders, List.mem_cons, List.not_mem_nil, not_or] at h
  simp [isWordPart, isGap, hmark, h]

theorem isWordPart_of_isDigit {c : Char} (h : c.isDigit = true) : isWordPart c = true := by
  have hnone : ∀ d ∈ enders, d.isDigit = false := by simp [enders]
  refine isWordPart_of_not_mem fun hmem => ?_
  rw [hnone c hmem] at h
  cases h

theorem isWordPart_sign {negative : Bool} {c : Char} (h : c ∈ Scalar.signText negative) :
    isWordPart c = true := by
  cases negative with
  | false => cases h
  | true =>
      rw [List.mem_singleton.mp h]
      decide

/-- The text of a scalar other than a text is one word. -/
theorem isWordPart_text {value : Scalar} (h : value.Legible) (hplain : ∀ s, value ≠ .string s) :
    ∀ c ∈ value.text, isWordPart c = true := by
  intro c hc
  cases value with
  | null => exact List.all_eq_true.mp (by decide) c hc
  | bool value =>
      cases value
      · exact List.all_eq_true.mp (by decide) c hc
      · exact List.all_eq_true.mp (by decide) c hc
  | string s => exact absurd rfl (hplain s)
  | integer n =>
      rw [Scalar.text_integer] at hc
      rcases List.mem_append.mp hc with hc | hc
      · exact isWordPart_sign hc
      · exact isWordPart_of_isDigit (Text.isDigit_of_mem_digitsOfNumber hc)
  | float x =>
      cases x with
      | infinite => cases h
      | nan => cases h
      | finite negative ordinal bounded =>
          obtain ⟨numeral, hwell, htext, -, -⟩ := Binary64.exists_numeral numberLayout bounded
          rw [Scalar.text_finite htext] at hc
          rcases List.mem_append.mp hc with hc | hc
          · exact isWordPart_sign hc
          rcases hwell.mem_text hc with hdigit | hmark
          · exact isWordPart_of_isDigit hdigit
          · have hall : ['.', 'e', '+', '-'].all isWordPart = true := by decide
            exact List.all_eq_true.mp hall c hmark

/-! ### Splitting a text into tokens -/

/-- What may follow a word. -/
def Apart (cs : List Char) : Prop := ∀ c ∈ cs.head?, isWordPart c = false

theorem scanFrom_cons {place next : Place} {c : Char} {rest : List Char} {tokens : List Token}
    (h : step place c = some (tokens, next)) :
    scanFrom place (c :: rest) = (scanFrom next rest).map (tokens ++ ·) := by
  rw [scanFrom, h]
  cases hrest : scanFrom next rest <;> simp [hrest]

theorem scanFrom_skip {place next : Place} {c : Char} {rest : List Char}
    (h : step place c = some ([], next)) : scanFrom place (c :: rest) = scanFrom next rest := by
  rw [scanFrom_cons h]
  cases scanFrom next rest <;> rfl

/-- Characters of a word are collected until it ends. -/
theorem scanFrom_word {cs rest seen : List Char} (h : ∀ c ∈ cs, isWordPart c = true) :
    scanFrom (.word seen) (cs ++ rest) = scanFrom (.word (cs.reverse ++ seen)) rest := by
  induction cs generalizing seen with
  | nil => rfl
  | cons c cs ih =>
      obtain ⟨hc, hcs⟩ := List.forall_mem_cons.mp h
      have hstep : step (.word seen) c = some ([], .word (c :: seen)) := if_pos hc
      rw [List.cons_append, scanFrom_skip hstep, ih hcs, List.reverse_cons, List.append_assoc]
      rfl

/-- At its end it is read as one token. -/
theorem scanFrom_word_end {rest seen : List Char} {token : Token} (hrest : Apart rest)
    (h : ofWord? seen = some token) :
    scanFrom (.word seen) rest = (scanFrom .gap rest).map (token :: ·) := by
  cases rest with
  | nil => simp [scanFrom, h]
  | cons c rest =>
      have hc : isWordPart c = false := hrest c rfl
      have hgap : step .gap c = some ((begin c).1, (begin c).2) := rfl
      have hstep : step (.word seen) c = some (token :: (begin c).1, (begin c).2) := by
        simp [step, hc, h]
      rw [scanFrom_cons hstep, scanFrom_cons hgap, Option.map_map]
      rfl

/-- A text is read as tokens, whatever comes after it. -/
def Spells (cs : List Char) (tokens : List Token) : Prop :=
  ∀ rest, Apart rest → scanFrom .gap (cs ++ rest) = (scanFrom .gap rest).map (tokens ++ ·)

variable {cs ds : List Char} {tokens more : List Token}

/-- A text that spells tokens is scanned into them. -/
theorem Spells.scanFrom_eq (h : Spells cs tokens) : scanFrom .gap cs = some tokens := by
  have hread := h [] nofun
  rw [List.append_nil] at hread
  simpa [scanFrom] using hread

/-- Texts that spell tokens may follow each other if the second keeps words apart. -/
theorem Spells.append (h : Spells cs tokens) (h' : Spells ds more)
    (hapart : ∀ rest, Apart rest → Apart (ds ++ rest)) : Spells (cs ++ ds) (tokens ++ more) := by
  intro rest hrest
  rw [List.append_assoc, h _ (hapart rest hrest), h' rest hrest, Option.map_map]
  congr 1
  funext others
  exact (List.append_assoc _ _ _).symm

theorem spells_nil : Spells [] [] := by
  intro rest _
  rw [List.nil_append]
  cases scanFrom .gap rest <;> rfl

/-- A punctuation mark is a token. -/
theorem Spells.mark {c : Char} {token : Token} (hmark : ofMark? c = some token)
    (h : Spells cs tokens) : Spells (c :: cs) (token :: tokens) := by
  intro rest hrest
  have hstep : step .gap c = some ([token], .gap) := by simp [step, begin, hmark]
  rw [List.cons_append, scanFrom_cons hstep, h rest hrest, Option.map_map]
  rfl

/-- Blanks are skipped. -/
theorem Spells.gap {c : Char} (hgap : c = ' ' ∨ c = '\n') (h : Spells cs tokens) :
    Spells (c :: cs) tokens := by
  intro rest hrest
  have hstep : step .gap c = some ([], .gap) := by rcases hgap with rfl | rfl <;> rfl
  rw [List.cons_append, scanFrom_skip hstep, h rest hrest]

theorem apart_mark {c : Char} {token : Token} (hmark : ofMark? c = some token) (cs : List Char) :
    Apart (c :: cs) := by
  intro d hd
  cases hd
  simp [isWordPart, hmark]

/-! ### Scalars as tokens -/

theorem scanFrom_backslash {seen rest : List Char} {letter : Char} :
    scanFrom (.quote seen) ('\\' :: letter :: rest)
      = scanFrom (.quote (letter :: '\\' :: seen)) rest := by
  have hslash : step (.quote seen) '\\' = some ([], .backslash ('\\' :: seen)) := rfl
  rw [scanFrom_skip hslash, scanFrom_skip rfl]

theorem scanFrom_plain {seen rest : List Char} {c : Char} (hquote : c ≠ '"') (hslash : c ≠ '\\') :
    scanFrom (.quote seen) (c :: rest) = scanFrom (.quote (c :: seen)) rest := by
  have hstep : step (.quote seen) c = some ([], .quote (c :: seen)) := by
    simp [step, hquote, hslash]
  exact scanFrom_skip hstep

/-- The quotes are not closed by what stands for a character. -/
theorem scanFrom_encodeChar (c : Char) {seen rest : List Char} :
    scanFrom (.quote seen) (Quoted.encodeChar c ++ rest)
      = scanFrom (.quote ((Quoted.encodeChar c).reverse ++ seen)) rest := by
  have hhex : ∀ n < 16, Quoted.hexDigit n ≠ '"' ∧ Quoted.hexDigit n ≠ '\\' := by decide
  rcases Quoted.encodeChar_cases c with ⟨letter, hencode, -⟩ | ⟨hcontrol, hencode⟩ |
    ⟨hquote, hslash, -, hencode⟩
  · rw [hencode]
    exact scanFrom_backslash
  · obtain ⟨hhighQuote, hhighSlash⟩ := hhex (c.toNat / 16) (by omega)
    obtain ⟨hlowQuote, hlowSlash⟩ := hhex (c.toNat % 16) (by omega)
    rw [hencode]
    simp only [List.cons_append, List.nil_append]
    rw [scanFrom_backslash, scanFrom_plain (by decide) (by decide),
      scanFrom_plain (by decide) (by decide), scanFrom_plain hhighQuote hhighSlash,
      scanFrom_plain hlowQuote hlowSlash]
    rfl
  · rw [hencode]
    exact scanFrom_plain hquote hslash

/-- An encoded string is scanned to its end, whatever it holds. -/
theorem scanFrom_encode (text : List Char) {seen rest : List Char} :
    scanFrom (.quote seen) (Quoted.encode text ++ rest)
      = scanFrom (.quote ((Quoted.encode text).reverse ++ seen)) rest := by
  induction text generalizing seen with
  | nil => rfl
  | cons c text ih =>
      have hencode : Quoted.encode (c :: text) = Quoted.encodeChar c ++ Quoted.encode text := rfl
      rw [hencode, List.append_assoc, scanFrom_encodeChar, ih, List.reverse_append,
        List.append_assoc]

theorem spells_string (s : String) : Spells (Scalar.string s).text [.scalar (.string s)] := by
  intro rest _
  have hquote : step (.quote ((Quoted.encode s.toList).reverse ++ [])) '"'
      = some ([.scalar (.string s)], .gap) := by
    simp [step, ofQuote?, Quoted.decode_encode]
  have hopen : step .gap '"' = some ([], .quote []) := rfl
  have htext : (Scalar.string s).text = '"' :: Quoted.encode s.toList ++ ['"'] := rfl
  rw [htext, List.cons_append, List.cons_append, List.append_assoc, scanFrom_skip hopen,
    scanFrom_encode, List.singleton_append, scanFrom_cons hquote]

/-- A word is one token. -/
theorem spells_word {token : Token} (hparts : ∀ c ∈ cs, isWordPart c = true)
    (hword : ofWord? cs.reverse = some token) : Spells cs [token] := by
  intro rest hrest
  cases cs with
  | nil => cases hword
  | cons c cs =>
      obtain ⟨hc, hcs⟩ := List.forall_mem_cons.mp hparts
      have hstep : step .gap c = some ([], .word [c]) := by
        simp only [isWordPart, Bool.and_eq_true, Bool.not_eq_true', Option.isNone_iff_eq_none] at hc
        obtain ⟨⟨hmark, hquote⟩, hgap⟩ := hc
        simp only [bne_iff_ne] at hquote
        simp [step, begin, hmark, hquote, hgap]
      rw [List.reverse_cons] at hword
      rw [List.cons_append, scanFrom_skip hstep, scanFrom_word hcs, scanFrom_word_end hrest hword]
      rfl

/-- A legible value is the tree of one scalar. -/
theorem ofScalar_eq {value : Scalar} (h : value.Legible) : ofScalar value = .scalar value := by
  have hrange : value.isInRange = true := by
    cases value with
    | float x => exact h
    | _ => rfl
  exact if_pos hrange

/-- A scalar is one token. -/
theorem spells_text {value : Scalar} (h : value.Legible) : Spells value.text [.scalar value] := by
  by_cases hstring : ∃ s, value = .string s
  · obtain ⟨s, rfl⟩ := hstring
    exact spells_string s
  have hplain : ∀ s, value ≠ .string s := fun s heq => hstring ⟨s, heq⟩
  refine spells_word (isWordPart_text h hplain) ?_
  rw [ofWord?, List.reverse_reverse, Scalar.ofWord?_text h hplain, Option.map_some, ofScalar_eq h]

theorem spells_hugeNumber : Spells hugeNumber.text [.hugeNumber] := by
  refine spells_word (List.all_eq_true.mp (by decide)) ?_
  decide +kernel

end Token

end SchemaHistory.Json
