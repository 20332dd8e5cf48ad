import SchemaHistory.Json.Record
import SchemaHistory.Proofs.JsonText

/-!
# The texts of JSON values

A value whose scalars have texts of their own, and which has no more levels than may be open, is
read from its text (`Json.read?_pretty_eq`). What is read from any text is such a value
(`Json.legible_of_read?`).

Reading is a scan into tokens and then a machine that keeps a stack of what is open. For the first
direction `spells_prettyAt` gives the tokens of the indented text, and `Legible.builds` runs the
machine over them with anything open below, by induction on the value. For the second
`sound_of_place?` is the step of the machine: what is open stays within the levels that are left.
-/

namespace SchemaHistory.Json

/-- A value of at most so many levels whose scalars have texts of their own. -/
inductive Legible : Nat → Json → Prop
  | scalar {levels : Nat} {value : Scalar} (h : value.Legible) : Legible levels (.scalar value)
  | unread {levels : Nat} : Legible levels .unread
  | array {levels : Nat} {items : List Json} (h : ∀ item ∈ items, Legible levels item) :
      Legible (levels + 1) (.array items)
  | object {levels : Nat} {members : List (String × Json)}
      (h : ∀ member ∈ members, Legible levels member.2) : Legible (levels + 1) (.object members)

/-! ### Text to tokens -/

section Scanning

open Token

variable {cs : List Char} {tokens : List Token} {level : Nat}

/-- Indentation spells nothing. -/
theorem spells_newLine (h : Spells cs tokens) (level : Nat) :
    Spells (newLine level ++ cs) tokens := by
  refine Spells.gap (Or.inr rfl) ?_
  induction 2 * level with
  | zero => exact h
  | succ k ih => exact Spells.gap (Or.inl rfl) ih

theorem apart_newLine (level : Nat) (cs : List Char) : Apart (newLine level ++ cs) := by
  intro c hc
  cases hc
  rfl

/-- Items spell their tokens with commas between them. -/
theorem spells_prettyItems {items : List Json}
    (h : ∀ item ∈ items, ∀ level, Spells (prettyAt level item) item.tokens) (level : Nat) :
    Spells (prettyItems level items) (itemTokens items) := by
  induction items with
  | nil => exact spells_nil
  | cons item rest ih =>
      obtain ⟨hitem, hrest⟩ := List.forall_mem_cons.mp h
      cases rest with
      | nil => exact spells_newLine (hitem level) level
      | cons next rest =>
          rw [prettyItems, itemTokens, List.append_assoc]
          refine spells_newLine ?_ level
          exact (hitem level).append ((ih hrest).mark rfl) fun rest _ => apart_mark rfl _

theorem spells_key (key : String) (h : Spells cs tokens) :
    Spells ((Scalar.string key).text ++ ':' :: ' ' :: cs)
      (.scalar (.string key) :: .colon :: tokens) :=
  (spells_string key).append ((h.gap (Or.inl rfl)).mark rfl) fun _ _ => apart_mark rfl _

/-- Members spell theirs, each with its key before it. -/
theorem spells_prettyMembers {members : List (String × Json)}
    (h : ∀ member ∈ members, ∀ level, Spells (prettyAt level member.2) member.2.tokens)
    (level : Nat) : Spells (prettyMembers level members) (memberTokens members) := by
  induction members with
  | nil => exact spells_nil
  | cons member rest ih =>
      obtain ⟨hmember, hrest⟩ := List.forall_mem_cons.mp h
      obtain ⟨key, value⟩ := member
      have hvalue := spells_key key (hmember level)
      cases rest with
      | nil =>
          rw [prettyMembers, memberTokens, List.append_assoc]
          exact spells_newLine hvalue level
      | cons next rest =>
          rw [prettyMembers, memberTokens, List.append_assoc, List.append_assoc]
          refine spells_newLine ?_ level
          have hboth := hvalue.append ((ih hrest).mark (c := ',') rfl) fun rest _ =>
            apart_mark rfl _
          simpa using hboth

/-- The text of a value is that of its tokens. -/
theorem spells_prettyAt {levels : Nat} {json : Json} (h : Legible levels json) :
    ∀ level, Spells (prettyAt level json) json.tokens := by
  induction h with
  | scalar h =>
      intro level
      exact spells_text h
  | unread =>
      intro level
      exact spells_hugeNumber
  | @array levels items _ ih =>
      intro level
      cases items with
      | nil => exact (spells_nil.mark (c := ']') rfl).mark rfl
      | cons item rest =>
          have hclose := spells_newLine (spells_nil.mark (c := ']') rfl) level
          have hitems := (spells_prettyItems ih (level + 1)).append hclose
            fun rest _ => List.append_assoc _ _ rest ▸ apart_newLine level _
          have hall := hitems.mark (c := '[') rfl
          simpa [prettyAt, Json.tokens] using hall
  | @object levels members _ ih =>
      intro level
      cases members with
      | nil => exact (spells_nil.mark (c := '\x7d') rfl).mark rfl
      | cons member rest =>
          have hclose := spells_newLine (spells_nil.mark (c := '\x7d') rfl) level
          have hmembers := (spells_prettyMembers ih (level + 1)).append hclose
            fun rest _ => List.append_assoc _ _ rest ▸ apart_newLine level _
          have hall := hmembers.mark (c := '\x7b') rfl
          simpa [prettyAt, Json.tokens] using hall

end Scanning

/-! ### Tokens to a value -/

section Building

variable {frames : List Frame} {expecting : Expecting} {token : Token} {rest : List Token}

theorem build?_cons : build? frames expecting (token :: rest)
    = (place? frames expecting token).bind fun next => build? next.1 next.2 rest := by
  rw [build?]

theorem build?_of_place? {frames' : List Frame} {expecting' : Expecting}
    (h : place? frames expecting token = some (frames', expecting')) :
    build? frames expecting (token :: rest) = build? frames' expecting' rest := by
  rw [build?_cons, h]
  rfl

/-- A value that is not too deep is closed as it stands. -/
theorem closed_eq {json : Json} (hroom : frames.length < depthLimit) : closed frames json = json :=
  if_pos hroom

/-- A value is built from its tokens, whatever is open. -/
def Builds (frames : List Frame) (json : Json) : Prop :=
  ∀ mayClose rest, build? frames (.value mayClose) (json.tokens ++ rest)
    = build? frames (.after json) rest

/-- The tokens of items build the array that holds them. -/
theorem build?_items {items done : List Json} (hroom : frames.length < depthLimit)
    (hitems : items ≠ []) (h : ∀ item ∈ items, ∀ done, Builds (.items done :: frames) item)
    (mayClose : Bool) :
    build? (.items done :: frames) (.value mayClose) (itemTokens items ++ .closeArray :: rest)
      = build? frames (.after (array (done.reverse ++ items))) rest := by
  induction items generalizing done mayClose with
  | nil => exact absurd rfl hitems
  | cons item others ih =>
      obtain ⟨hitem, hothers⟩ := List.forall_mem_cons.mp h
      cases others with
      | nil =>
          rw [itemTokens, hitem, build?_of_place? rfl, closed_eq hroom]
          simp
      | cons next others =>
          rw [itemTokens, List.append_assoc, hitem, List.cons_append, build?_of_place? rfl,
            ih (List.cons_ne_nil _ _) hothers]
          simp

/-- The tokens of members build the object. -/
theorem build?_members {members done : List (String × Json)} (hroom : frames.length < depthLimit)
    (hmembers : members ≠ [])
    (h : ∀ member ∈ members, ∀ done, Builds (.member done member.1 :: frames) member.2)
    (mayClose : Bool) :
    build? (.members (some done) :: frames) (.key mayClose)
        (memberTokens members ++ .closeObject :: rest)
      = build? frames (.after (object (done.reverse ++ members))) rest := by
  induction members generalizing done mayClose with
  | nil => exact absurd rfl hmembers
  | cons member others ih =>
      obtain ⟨hmember, hothers⟩ := List.forall_mem_cons.mp h
      obtain ⟨key, value⟩ := member
      cases others with
      | nil =>
          rw [memberTokens, List.cons_append, List.cons_append, build?_of_place? rfl,
            build?_of_place? rfl, hmember, build?_of_place? rfl, closed_eq hroom]
          simp [ofMembers]
      | cons next others =>
          rw [memberTokens, List.append_assoc, List.cons_append, List.cons_append,
            build?_of_place? rfl, build?_of_place? rfl, hmember, List.cons_append,
            build?_of_place? rfl, Option.map_some, ih (List.cons_ne_nil _ _) hothers]
          simp

/-- A value is built from its tokens where there is room for its levels. -/
theorem Legible.builds {levels : Nat} {json : Json} (h : Legible levels json) :
    ∀ frames : List Frame, frames.length + levels ≤ depthLimit → Builds frames json := by
  induction h with
  | scalar =>
      intro frames _ mayClose rest
      rw [Json.tokens, List.singleton_append, build?_of_place? rfl]
  | unread =>
      intro frames _ mayClose rest
      rw [Json.tokens, List.singleton_append, build?_of_place? rfl]
  | @array levels items _ ih =>
      intro frames hroom mayClose rest
      have hitems : ∀ item ∈ items, ∀ done, Builds (.items done :: frames) item := by
        intro item hmem done
        refine ih item hmem _ ?_
        rw [List.length_cons]
        omega
      have hopen : frames.length < depthLimit := by omega
      rw [Json.tokens, List.cons_append, List.cons_append, build?_of_place? rfl]
      cases items with
      | nil =>
          rw [itemTokens, List.nil_append, List.singleton_append, build?_of_place? rfl,
            closed_eq hopen]
      | cons item others =>
          rw [List.append_assoc]
          exact build?_items hopen (List.cons_ne_nil _ _) hitems true
  | @object levels members _ ih =>
      intro frames hroom mayClose rest
      have hmembers : ∀ member ∈ members, ∀ done,
          Builds (.member done member.1 :: frames) member.2 := by
        intro member hmem done
        refine ih member hmem _ ?_
        rw [List.length_cons]
        omega
      have hopen : frames.length < depthLimit := by omega
      rw [Json.tokens, List.cons_append, List.cons_append, build?_of_place? rfl]
      cases members with
      | nil =>
          rw [memberTokens, List.nil_append, List.singleton_append, build?_of_place? rfl,
            closed_eq hopen]
      | cons member others =>
          rw [List.append_assoc]
          exact build?_members hopen (List.cons_ne_nil _ _) hmembers true

/-- A legible tree is built again from its own tokens. -/
theorem Legible.ofTokens?_tokens {json : Json} (h : Legible depthLimit json) :
    ofTokens? json.tokens = some json := by
  have hbuilds := h.builds [] (by simp) false []
  rw [List.append_nil] at hbuilds
  exact hbuilds

end Building

/-- A value is read from its text. -/
theorem read?_pretty_eq {json : Json} (h : Legible depthLimit json) :
    read? json.pretty = some json := by
  rw [read?, pretty, Token.scan, String.toList_ofList, (spells_prettyAt h 0).scanFrom_eq,
    Option.bind_some, h.ofTokens?_tokens]

/-! ### What is read -/

namespace Scalar

theorem ofWholeNumber_bounds {negative : Bool} {n : Nat} {value : Int}
    (h : ofWholeNumber negative n = integer value) : -2 ^ 63 ≤ value ∧ value < 2 ^ 64 := by
  have hsize : UInt64.size = 2 ^ 64 := rfl
  unfold ofWholeNumber at h
  rw [Nat.pow_eq, hsize] at h
  split at h
  · split at h
    · cases h
      omega
    · cases h
  · split at h
    · cases h
      omega
    · cases h

theorem readNumber?_bounds {negative : Bool} {cs : List Char} {value : Int}
    (h : readNumber? negative cs = some (integer value)) : -2 ^ 63 ≤ value ∧ value < 2 ^ 64 := by
  unfold readNumber? at h
  obtain ⟨⟨⟩, -, h⟩ := Option.bind_eq_some_iff.mp h
  split at h
  · exact ofWholeNumber_bounds (Option.some.inj h)
  · -- with a point or an exponent it is a float
    dsimp only at h
    split at h
    · split at h
      · cases h
      · obtain ⟨⟨fraction, rest⟩, -, h⟩ := Option.bind_eq_some_iff.mp h
        obtain ⟨exponent, -, h⟩ := Option.bind_eq_some_iff.mp h
        cases h
    · obtain ⟨⟨fraction, rest⟩, -, h⟩ := Option.bind_eq_some_iff.mp h
      obtain ⟨exponent, -, h⟩ := Option.bind_eq_some_iff.mp h
      cases h

/-- No integer is read that would not fit into 64 bits. -/
theorem ofWord?_bounds {cs : List Char} {value : Int} (h : ofWord? cs = some (integer value)) :
    -2 ^ 63 ≤ value ∧ value < 2 ^ 64 := by
  unfold ofWord? at h
  split at h
  · cases h
  split at h
  · cases h
  split at h
  · cases h
  split at h
  · exact readNumber?_bounds h
  · exact readNumber?_bounds h

end Scalar

namespace Token

/-- The scalar of a token has a text of its own. -/
def Legible : Token → Prop
  | scalar value => value.Legible
  | _ => True

variable {place next : Place} {c : Char} {token : Token} {tokens : List Token}

theorem legible_of_ofMark? (h : ofMark? c = some token) : token.Legible := by
  unfold ofMark? at h
  split at h <;> first | (cases h; trivial) | cases h

theorem legible_begin : ∀ token ∈ (begin c).1, token.Legible := by
  unfold begin
  split
  · next found hmark =>
      intro token hmem
      rw [List.mem_singleton.mp hmem]
      exact legible_of_ofMark? hmark
  · split
    · nofun
    · split <;> nofun

theorem legible_of_ofWord? {seen : List Char} (h : ofWord? seen = some token) :
    token.Legible := by
  obtain ⟨value, hvalue, rfl⟩ := Option.map_eq_some_iff.mp h
  unfold ofScalar
  split
  · next hrange =>
      cases value with
      | integer n => exact Scalar.ofWord?_bounds hvalue
      | float x => exact hrange
      | _ => trivial
  · trivial

theorem legible_of_ofQuote? {seen : List Char} (h : ofQuote? seen = some token) :
    token.Legible := by
  unfold ofQuote? at h
  split at h
  · cases h
    trivial
  · split at h
    · cases h
      trivial
    · cases h

/-- Each step of the scan gives tokens that can be written and read again. -/
theorem legible_of_step (h : step place c = some (tokens, next)) :
    ∀ token ∈ tokens, token.Legible := by
  cases place with
  | gap =>
      have hbegin : (begin c).1 = tokens := congrArg Prod.fst (Option.some.inj h)
      rw [← hbegin]
      exact legible_begin
  | word seen =>
      by_cases hpart : isWordPart c = true
      · rw [step, if_pos hpart] at h
        cases h
        exact List.forall_mem_nil _
      · rw [step, if_neg hpart] at h
        obtain ⟨token, htoken, h⟩ := Option.bind_eq_some_iff.mp h
        have hbegin : token :: (begin c).1 = tokens := congrArg Prod.fst (Option.some.inj h)
        rw [← hbegin]
        exact List.forall_mem_cons.mpr ⟨legible_of_ofWord? htoken, legible_begin⟩
  | quote seen =>
      by_cases hquote : (c == '"') = true
      · rw [step, if_pos hquote] at h
        obtain ⟨token, htoken, h⟩ := Option.bind_eq_some_iff.mp h
        cases h
        exact List.forall_mem_singleton.mpr (legible_of_ofQuote? htoken)
      · rw [step, if_neg hquote] at h
        split at h
        · cases h
          exact List.forall_mem_nil _
        · cases h
          exact List.forall_mem_nil _
  | backslash seen =>
      cases h
      exact List.forall_mem_nil _

theorem legible_of_scanFrom {cs : List Char} (h : scanFrom place cs = some tokens) :
    ∀ token ∈ tokens, token.Legible := by
  induction cs generalizing place tokens with
  | nil =>
      cases place with
      | gap =>
          cases h
          nofun
      | word seen =>
          obtain ⟨token, htoken, h⟩ := Option.bind_eq_some_iff.mp h
          cases h
          exact List.forall_mem_singleton.mpr (legible_of_ofWord? htoken)
      | quote seen => cases h
      | backslash seen => cases h
  | cons c rest ih =>
      obtain ⟨⟨first, next⟩, hstep, h⟩ := Option.bind_eq_some_iff.mp h
      obtain ⟨others, hothers, h⟩ := Option.bind_eq_some_iff.mp h
      cases h
      exact List.forall_mem_append.mpr ⟨legible_of_step hstep, ih hothers⟩

end Token

/-- What an open array or object holds so far. -/
def Frame.Holds (levels : Nat) : Frame → Prop
  | .items done => ∀ item ∈ done, Legible levels item
  | .members done | .member done _ => ∀ found ∈ done, ∀ member ∈ found, Legible levels member.2

/-- What is open holds values of the levels that are left. -/
def Sound : List Frame → Prop
  | [] => True
  | frame :: frames => frame.Holds (depthLimit - (frames.length + 1)) ∧ Sound frames

def Expecting.Holds (levels : Nat) : Expecting → Prop
  | .after json => Legible levels json
  | _ => True

section Reading

variable {frames frames' : List Frame} {expecting expecting' : Expecting} {token : Token}
  {levels : Nat} {json : Json} {done : Option (List (String × Json))}

/-- What is closed has a level more than what it holds, and is not read where no level is left. -/
theorem legible_closed
    (h : ∀ levels, depthLimit - (frames.length + 1) = levels → Legible (levels + 1) json) :
    Legible (depthLimit - frames.length) (closed frames json) := by
  unfold closed
  split
  · next hroom =>
      have hlevels : depthLimit - frames.length = depthLimit - (frames.length + 1) + 1 := by omega
      rw [hlevels]
      exact h _ rfl
  · exact .unread

theorem legible_ofMembers (h : ∀ found ∈ done, ∀ member ∈ found, Legible levels member.2) :
    Legible (levels + 1) (ofMembers done) := by
  cases done with
  | none => exact .unread
  | some found => exact .object fun member hmem => h found rfl member (List.mem_reverse.mp hmem)

theorem holds_cons {key : String} (hjson : Legible levels json)
    (h : ∀ found ∈ done, ∀ member ∈ found, Legible levels member.2) :
    ∀ found ∈ done.map ((key, json) :: ·), ∀ member ∈ found, Legible levels member.2 := by
  intro found hfound
  obtain ⟨earlier, hearlier, rfl⟩ := Option.map_eq_some_iff.mp hfound
  exact List.forall_mem_cons.mpr ⟨hjson, h earlier hearlier⟩

/-- One more token keeps all that is held legible. -/
theorem sound_of_place? (h : place? frames expecting token = some (frames', expecting'))
    (hsound : Sound frames) (hexpecting : expecting.Holds (depthLimit - frames.length))
    (htoken : token.Legible) :
    Sound frames' ∧ expecting'.Holds (depthLimit - frames'.length) := by
  unfold place? at h
  split at h
  · cases h
    exact ⟨hsound, .scalar htoken⟩
  · cases h
    exact ⟨hsound, .unread⟩
  · cases h
    exact ⟨hsound, .unread⟩
  · cases h
    exact ⟨⟨List.forall_mem_nil _, hsound⟩, trivial⟩
  · cases h
    refine ⟨⟨?_, hsound⟩, trivial⟩
    rintro _ ⟨⟩
    exact List.forall_mem_nil _
  · cases h
    exact ⟨hsound.2, legible_closed fun levels _ => .array (List.forall_mem_nil _)⟩
  · cases h
    exact ⟨hsound, trivial⟩
  · cases h
    exact ⟨⟨nofun, hsound.2⟩, trivial⟩
  · cases h
    exact ⟨hsound.2, legible_closed fun levels _ => .object (List.forall_mem_nil _)⟩
  · cases h
    exact ⟨hsound, trivial⟩
  · cases h
    exact ⟨⟨List.forall_mem_cons.mpr ⟨hexpecting, hsound.1⟩, hsound.2⟩, trivial⟩
  · cases h
    obtain ⟨hdone, hsound⟩ := hsound
    refine ⟨hsound, legible_closed ?_⟩
    rintro _ rfl
    refine .array fun item hmem => ?_
    rcases List.mem_cons.mp (List.mem_reverse.mp hmem) with rfl | hmem
    · exact hexpecting
    · exact hdone item hmem
  · cases h
    exact ⟨⟨holds_cons hexpecting hsound.1, hsound.2⟩, trivial⟩
  · cases h
    obtain ⟨hdone, hsound⟩ := hsound
    refine ⟨hsound, legible_closed ?_⟩
    rintro _ rfl
    exact legible_ofMembers (holds_cons hexpecting hdone)
  · cases h

/-- Whatever is built from legible tokens is legible. -/
theorem legible_of_build? {tokens : List Token} {json : Json}
    (h : build? frames expecting tokens = some json) (hsound : Sound frames)
    (hexpecting : expecting.Holds (depthLimit - frames.length))
    (htokens : ∀ token ∈ tokens, token.Legible) : Legible depthLimit json := by
  induction tokens generalizing frames expecting with
  | nil =>
      unfold build? at h
      split at h
      · cases h
        exact hexpecting
      · cases h
      · next heq => cases heq
  | cons token rest ih =>
      obtain ⟨htoken, hrest⟩ := List.forall_mem_cons.mp htokens
      rw [build?_cons] at h
      obtain ⟨next, hplace, h⟩ := Option.bind_eq_some_iff.mp h
      obtain ⟨hsound', hexpecting'⟩ := sound_of_place? hplace hsound hexpecting htoken
      exact ih h hsound' hexpecting' hrest

/-- What is read has scalars with texts of their own, and no more levels than may be open. -/
theorem legible_of_read? {s : String} {json : Json} (h : read? s = some json) :
    Legible depthLimit json := by
  obtain ⟨tokens, hscan, h⟩ := Option.bind_eq_some_iff.mp h
  exact legible_of_build? h trivial trivial (Token.legible_of_scanFrom hscan)

end Reading

end SchemaHistory.Json
