import SchemaHistory.Proofs.MigratorRequests

/-!
# Clocks

The clock is read in two places: new columns that are stamped are filled with the moment, and so is
the row of a migration. Nothing else depends on it. Two statements are `Alike` if they differ at
most in moments that clocks have shown; they have the same text. Operations carried out at two
moments play scripts that are alike (`AlikeScripts.forwardAll`).
-/

namespace SchemaHistory

/-- What the clock has shown in two calls. -/
def Shown (now now' a b : DateTime) : Prop := a = now ∧ b = now'

/-- Two values that are one, or moments that clocks have shown. -/
def Value.Alike (clocks : DateTime → DateTime → Prop) (v w : Value) : Prop :=
  v = w ∨ ∃ a b, clocks a b ∧ v = .dateTime a ∧ w = .dateTime b

/-- The same names with values that are alike, in one order. -/
def Row.Alike (clocks : DateTime → DateTime → Prop) : Row → Row → Prop :=
  List.Forall₂ fun x y => x.1 = y.1 ∧ x.2.Alike clocks y.2

/-- Two statements that differ at most in moments that clocks have shown. -/
inductive Statement.Alike (clocks : DateTime → DateTime → Prop) : Statement → Statement → Prop where
  | refl (statement : Statement) : Alike clocks statement statement
  | insert (table : String) {values values' : Row} :
      values.Alike clocks values' → Alike clocks (.insert table values) (.insert table values')
  | update (table : String) (condition : Condition Test) {values values' : Row} :
      values.Alike clocks values' →
      Alike clocks (.update table values condition) (.update table values' condition)

/-- Two requests that differ at most in moments that clocks have shown. -/
inductive Request.Alike (clocks : DateTime → DateTime → Prop) : Request → Request → Prop where
  | refl (request : Request) : Alike clocks request request
  | execute {statement statement' : Statement} :
      statement.Alike clocks statement' → Alike clocks (.execute statement) (.execute statement')

section Alike

variable {clocks clocks' : DateTime → DateTime → Prop} {xs ys : Row} {v w : Value} {name : String}

theorem Value.Alike.mono (hclocks : ∀ a b, clocks a b → clocks' a b) (h : v.Alike clocks w) :
    v.Alike clocks' w := by
  rcases h with heq | ⟨a, b, hshown, hv, hw⟩
  · exact Or.inl heq
  · exact Or.inr ⟨a, b, hclocks a b hshown, hv, hw⟩

namespace Row.Alike

theorem mono (hclocks : ∀ a b, clocks a b → clocks' a b) (h : xs.Alike clocks ys) :
    xs.Alike clocks' ys :=
  List.Forall₂.imp (fun _ _ hxy => ⟨hxy.1, hxy.2.mono hclocks⟩) h

/-- Rows that differ in moments have the same columns. -/
theorem names_eq (h : xs.Alike clocks ys) : xs.map (·.1) = ys.map (·.1) := by
  induction h with
  | nil => rfl
  | cons hxy _ ih => rw [List.map_cons, List.map_cons, hxy.1, ih]

theorem values (h : xs.Alike clocks ys) :
    List.Forall₂ (Value.Alike clocks) (xs.map (·.2)) (ys.map (·.2)) := by
  induction h with
  | nil => exact .nil
  | cons hxy _ ih => exact .cons hxy.2 ih

theorem isEmpty_eq (h : xs.Alike clocks ys) : xs.isEmpty = ys.isEmpty := by
  cases h <;> rfl

/-- In each column they hold values that differ at most in moments. -/
theorem get? (h : xs.Alike clocks ys) (name : String) :
    Option.Rel (Value.Alike clocks) (Named.get? name xs) (Named.get? name ys) := by
  induction h with
  | nil => exact .none
  | @cons x y _ _ hxy _ ih =>
      obtain ⟨n, v⟩ := x
      obtain ⟨m, w⟩ := y
      obtain ⟨rfl, hvalue⟩ := hxy
      unfold Named.get?
      by_cases hname : n = name
      · rw [if_pos hname, if_pos hname]
        exact .some hvalue
      · rw [if_neg hname, if_neg hname]
        exact ih

theorem insert (h : xs.Alike clocks ys) (name : String) (hvalue : v.Alike clocks w) :
    Row.Alike clocks (Named.insert name v xs) (Named.insert name w ys) := by
  induction h with
  | nil => exact .cons ⟨rfl, hvalue⟩ .nil
  | @cons x y _ _ hxy hrest ih =>
      obtain ⟨n, _⟩ := x
      obtain ⟨m, _⟩ := y
      obtain ⟨rfl, hfirst⟩ := hxy
      unfold Named.insert
      split
      · exact .cons ⟨rfl, hvalue⟩ (.cons ⟨rfl, hfirst⟩ hrest)
      · split
        · exact .cons ⟨rfl, hvalue⟩ hrest
        · exact .cons ⟨rfl, hfirst⟩ ih

end Row.Alike

namespace Statement.Alike

variable {a b : Statement}

theorem mono (hclocks : ∀ a b, clocks a b → clocks' a b) (h : a.Alike clocks b) :
    a.Alike clocks' b := by
  cases h with
  | refl => exact .refl _
  | insert table hvalues => exact .insert table (hvalues.mono hclocks)
  | update table condition hvalues => exact .update table condition (hvalues.mono hclocks)

/-- Moments are arguments, so they are no part of the text. -/
theorem text_eq (h : a.Alike clocks b) (dialect : Dialect) : a.text dialect = b.text dialect := by
  unfold text
  cases h with
  | refl => rfl
  | @insert table values values' hvalues =>
      have hlength : values.length = values'.length := hvalues.length_eq
      unfold chars
      dsimp only
      rw [hlength, hvalues.names_eq]
  | @update table condition values values' hvalues =>
      have hlength : values.length = values'.length := hvalues.length_eq
      unfold chars
      dsimp only
      rw [hlength, hvalues.names_eq]

theorem arguments (h : a.Alike clocks b) :
    List.Forall₂ (Value.Alike clocks) a.arguments b.arguments := by
  have hsame (values : List Value) : List.Forall₂ (Value.Alike clocks) values values :=
    List.forall₂_same.mpr fun _ _ => Or.inl rfl
  cases h with
  | refl => exact hsame _
  | insert table hvalues => exact hvalues.values
  | update table condition hvalues => exact List.rel_append hvalues.values (hsame _)

end Statement.Alike

theorem Request.Alike.mono (hclocks : ∀ a b, clocks a b → clocks' a b) {a b : Request}
    (h : a.Alike clocks b) : a.Alike clocks' b := by
  cases h with
  | refl => exact .refl _
  | execute hstatement => exact .execute (hstatement.mono hclocks)

end Alike

/-! ### Scripts at two moments -/

namespace Backend

variable {σ ε α : Type} {backend backend' : Backend σ} {script : List Statement} {s t : σ}
  {wrap : SchemaError → ε} {answer : Except ε α} {action : EStateM ε σ α}

/-- What a backend runs depends on how it executes only. -/
theorem Runs.congr (hsame : backend.execute = backend'.execute) (h : backend.Runs script s t) :
    backend'.Runs script s t := by
  induction h with
  | nil s => exact .nil s
  | cons count hexecute _ ih => exact .cons count (hsame ▸ hexecute) ih

theorem Stops.congr (hsame : backend.execute = backend'.execute) {e : SchemaError}
    (h : backend.Stops script s e t) : backend'.Stops script s e t := by
  induction h with
  | here hexecute => exact .here (hsame ▸ hexecute)
  | later count hexecute _ ih => exact .later count (hsame ▸ hexecute) ih

theorem Plays.congr (hsame : backend.execute = backend'.execute)
    (h : backend.Plays wrap script answer action) : backend'.Plays wrap script answer action := by
  intro s
  rcases h s with ⟨t, hruns, haction⟩ | ⟨e, t, hstops, haction⟩
  · exact Or.inl ⟨t, hruns.congr hsame, haction⟩
  · exact Or.inr ⟨e, t, hstops.congr hsame, haction⟩

def atMoment (now : DateTime) (backend : Backend σ) : Backend σ := { backend with now }

end Backend

/-- Two answers, or one error. -/
inductive AnswersAlike {ε α β : Type} (R : α → β → Prop) : Except ε α → Except ε β → Prop where
  | ok {a : α} {b : β} : R a b → AnswersAlike R (.ok a) (.ok b)
  | error (e : ε) : AnswersAlike R (.error e) (.error e)

/-- On every database that speaks a dialect, one action at one moment and another at another play
scripts that are alike, with answers that are related. -/
def AlikeScripts {ε α β : Type} (dialect : Dialect) (now now' : DateTime) (wrap : SchemaError → ε)
    (R : α → β → Prop) (action : ∀ σ, Backend σ → EStateM ε σ α)
    (action' : ∀ σ, Backend σ → EStateM ε σ β) : Prop :=
  ∃ script script' answer answer',
    List.Forall₂ (Statement.Alike (Shown now now')) script script' ∧
    AnswersAlike R answer answer' ∧
    (∀ statement ∈ script, statement.IsChange) ∧ (∀ statement ∈ script', statement.IsChange) ∧
    (∀ (σ : Type) (backend : Backend σ), (backend.speaking dialect now).Plays wrap script answer
      (action σ (backend.speaking dialect now))) ∧
    ∀ (σ : Type) (backend : Backend σ), (backend.speaking dialect now').Plays wrap script' answer'
      (action' σ (backend.speaking dialect now'))

namespace AlikeScripts

open Backend

variable {ε ε' α β γ δ ζ : Type} {dialect : Dialect} {now now' : DateTime} {wrap : SchemaError → ε}
  {R : α → β → Prop} {action action' : ∀ σ, Backend σ → EStateM ε σ α}

/-- What does not look at the clock plays one script. -/
theorem of_eq (h : Scripted dialect now wrap action)
    (heq : ∀ σ (backend : Backend σ),
      action σ (backend.speaking dialect now) = action' σ (backend.speaking dialect now')) :
    AlikeScripts dialect now now' wrap (· = ·) action action' := by
  obtain ⟨script, answer, hchange, hplays⟩ := h
  refine ⟨script, script, answer, answer, List.forall₂_same.mpr fun _ _ => .refl _, ?_, hchange,
    hchange, hplays, fun σ backend => ?_⟩
  · cases answer with
    | ok a => exact .ok rfl
    | error e => exact .error e
  · rw [← heq σ backend]
    have hexecute : (backend.speaking dialect now).execute
        = (backend.speaking dialect now').execute := rfl
    exact (hplays σ backend).congr hexecute

/-- Alike scripts may be had from backends that speak a dialect at any moment. -/
theorem congr {first : ∀ σ, Backend σ → EStateM ε σ α} {first' : ∀ σ, Backend σ → EStateM ε σ β}
    {second : ∀ σ, Backend σ → EStateM ε σ α} {second' : ∀ σ, Backend σ → EStateM ε σ β}
    (heq : ∀ σ (backend : Backend σ),
      second σ (backend.speaking dialect now) = first σ (backend.speaking dialect now))
    (heq' : ∀ σ (backend : Backend σ),
      second' σ (backend.speaking dialect now') = first' σ (backend.speaking dialect now'))
    (h : AlikeScripts dialect now now' wrap R first first') :
    AlikeScripts dialect now now' wrap R second second' := by
  obtain ⟨script, script', answer, answer', halike, hanswers, hchange, hchange', hplays,
    hplays'⟩ := h
  exact ⟨script, script', answer, answer', halike, hanswers, hchange, hchange',
    fun σ backend => heq σ backend ▸ hplays σ backend,
    fun σ backend => heq' σ backend ▸ hplays' σ backend⟩

/-- One action after the other: the answers of the first may differ as far as the second allows. -/
theorem bind {first : ∀ σ, Backend σ → EStateM ε σ α} {first' : ∀ σ, Backend σ → EStateM ε σ β}
    {next : α → ∀ σ, Backend σ → EStateM ε σ γ} {next' : β → ∀ σ, Backend σ → EStateM ε σ δ}
    {then' : γ → δ → Prop} (hfirst : AlikeScripts dialect now now' wrap R first first')
    (hnext : ∀ a b, R a b →
      AlikeScripts dialect now now' wrap then' (next a) (next' b)) :
    AlikeScripts dialect now now' wrap then'
      (fun σ backend => first σ backend >>= fun a => next a σ backend)
      (fun σ backend => first' σ backend >>= fun b => next' b σ backend) := by
  obtain ⟨script, script', answer, answer', halike, hanswers, hchange, hchange', hplays, hplays'⟩ :=
    hfirst
  cases hanswers with
  | error e =>
      exact ⟨script, script', .error e, .error e, halike, .error e, hchange, hchange',
        fun σ backend => (hplays σ backend).bind_error, fun σ backend =>
          (hplays' σ backend).bind_error⟩
  | @ok a b hrelated =>
      obtain ⟨rest, rest', answer, answer', halikeRest, hanswers, hrest, hrest', hplaysRest,
        hplaysRest'⟩ := hnext a b hrelated
      refine ⟨script ++ rest, script' ++ rest', answer, answer', List.rel_append halike halikeRest,
        hanswers, List.forall_mem_append.mpr ⟨hchange, hrest⟩,
        List.forall_mem_append.mpr ⟨hchange', hrest'⟩, ?_, ?_⟩
      · intro σ backend
        exact (hplays σ backend).bind_ok (hplaysRest σ backend)
      · intro σ backend
        exact (hplays' σ backend).bind_ok (hplaysRest' σ backend)

theorem adapt (outer : ε → ε') {first : ∀ σ, Backend σ → EStateM ε σ α}
    {first' : ∀ σ, Backend σ → EStateM ε σ β}
    (h : AlikeScripts dialect now now' wrap R first first') :
    AlikeScripts dialect now now' (fun e => outer (wrap e)) R
      (fun σ backend => (first σ backend).adaptExcept outer)
      (fun σ backend => (first' σ backend).adaptExcept outer) := by
  obtain ⟨script, script', answer, answer', halike, hanswers, hchange, hchange', hplays,
    hplays'⟩ := h
  refine ⟨script, script', answer.mapError outer, answer'.mapError outer, halike, ?_, hchange,
    hchange', fun σ backend => (hplays σ backend).adapt outer,
    fun σ backend => (hplays' σ backend).adapt outer⟩
  cases hanswers with
  | ok hrelated => exact .ok hrelated
  | error e => exact .error (outer e)

/-- A loop over the same things, round by round. -/
theorem forM {xs : List ζ} {round round' : ζ → ∀ σ, Backend σ → EStateM ε σ Unit}
    (h : ∀ x, AlikeScripts dialect now now' wrap (· = ·) (round x) (round' x)) :
    AlikeScripts dialect now now' wrap (· = ·) (fun σ backend => xs.forM fun x => round x σ backend)
      (fun σ backend => xs.forM fun x => round' x σ backend) := by
  induction xs with
  | nil => exact of_eq (.pure ()) fun _ _ => rfl
  | cons x xs ih => exact bind (h x) fun _ _ _ => ih

theorem pure {a : α} {b : β} (h : R a b) :
    AlikeScripts dialect now now' wrap R (fun _ _ => Pure.pure a) fun _ _ => Pure.pure b :=
  ⟨[], [], .ok a, .ok b, .nil, .ok h, List.forall_mem_nil _, List.forall_mem_nil _,
    fun _ _ => Plays.of_answer (.ok a) fun _ => rfl, fun _ _ =>
      Plays.of_answer (.ok b) fun _ => rfl⟩

theorem throw (e : ε) :
    AlikeScripts dialect now now' wrap R
      (fun σ _ => (MonadExcept.throw e : EStateM ε σ α)) fun _ _ => MonadExcept.throw e :=
  ⟨[], [], .error e, .error e, .nil, .error e, List.forall_mem_nil _, List.forall_mem_nil _,
    fun _ _ => Plays.of_answer (.error e) fun _ => rfl,
    fun _ _ => Plays.of_answer (.error e) fun _ => rfl⟩

theorem run {statement statement' : Statement}
    (halike : statement.Alike (Shown now now') statement')
    (h : statement.IsChange) (h' : statement'.IsChange) :
    AlikeScripts dialect now now' id (· = ·) (fun _ backend => backend.run statement)
      fun _ backend => backend.run statement' := by
  have hplays (σ : Type) (backend : Backend σ) (statement : Statement) :
      backend.Plays id [statement] (.ok ()) (backend.run statement) := by
    intro s
    show (∃ t, _ ∧ EStateM.bind _ _ s = _) ∨ ∃ e t, _ ∧ EStateM.bind _ _ s = _
    unfold EStateM.bind
    cases hexecute : backend.execute statement s with
    | ok count t => exact Or.inl ⟨t, Runs.of_execute hexecute, rfl⟩
    | error e t => exact Or.inr ⟨e, t, Stops.here hexecute, rfl⟩
  exact ⟨[statement], [statement'], .ok (), .ok (), .cons halike .nil, .ok rfl,
    List.forall_mem_singleton.mpr h, List.forall_mem_singleton.mpr h',
    fun _ _ => hplays _ _ _, fun _ _ => hplays _ _ _⟩

/-- A loop that carries something along, by a relation between what either carries. -/
theorem foldlM {xs : List ζ} {round : α → ζ → ∀ σ, Backend σ → EStateM ε σ α}
    {round' : β → ζ → ∀ σ, Backend σ → EStateM ε σ β} {start : α} {start' : β}
    (hstart : R start start')
    (h : ∀ a b x, R a b →
      AlikeScripts dialect now now' wrap R (round a x) (round' b x)) :
    AlikeScripts dialect now now' wrap R
      (fun σ backend => xs.foldlM (fun a x => round a x σ backend) start)
      (fun σ backend => xs.foldlM (fun b x => round' b x σ backend) start') := by
  induction xs generalizing start start' with
  | nil => exact pure hstart
  | cons x xs ih =>
      simp only [List.foldlM_cons]
      exact bind (h start start' x hstart) fun _ _ hrelated => ih hrelated

end AlikeScripts

/-! ### Columns that are filled -/

namespace Backend

/-- What is known about columns that are being added, but for what clocks have shown. -/
structure Adding.Alike (clocks : DateTime → DateTime → Prop) (adding adding' : Adding) : Prop where
  fill : Row.Alike clocks adding.fill adding'.fill
  notNull : adding.notNull = adding'.notNull
  rebuild : adding.rebuild = adding'.rebuild

variable {now now' : DateTime} {clocks : DateTime → DateTime → Prop}

/-- What a column is filled with is a moment or does not depend on the clock. -/
theorem filling_alike (now now' : DateTime) (field : Field) :
    Option.Rel (Value.Alike (Shown now now')) (field.filling now)
      (field.filling now') := by
  have hsame (value? : Option Value) :
      Option.Rel (Value.Alike (Shown now now')) value? value? := by
    cases value? with
    | none => exact .none
    | some value => exact .some (Or.inl rfl)
  unfold Field.filling
  split
  · split
    · exact .some (Or.inr ⟨now, now', ⟨rfl, rfl⟩, rfl, rfl⟩)
    · exact hsame _
  · exact hsame _

/-- A column adds values that differ at most in the moment that fills it. -/
theorem Adding.Alike.add {adding adding' : Adding}
    (h : adding.Alike (Shown now now') adding') (inPlace : Bool)
    (entry : String × Field) :
    (adding.add inPlace now entry).Alike (Shown now now')
      (adding'.add inPlace now' entry) where
  fill := by
    unfold Adding.add
    dsimp only
    split
    · exact h.fill
    · have hfilling := filling_alike now now' entry.2
      revert hfilling
      generalize entry.2.filling now = value?
      generalize entry.2.filling now' = value?'
      intro hfilling
      cases hfilling with
      | none => exact h.fill
      | some hvalue => exact h.fill.insert entry.1 hvalue
  notNull := by
    unfold Adding.add
    rw [h.notNull]
  rebuild := by
    unfold Adding.add
    rw [h.rebuild]

theorem updateValues_alike (model : Model) {fill fill' : Row} (h : fill.Alike clocks fill') :
    Row.Alike clocks (updateValues model fill) (updateValues model fill') := by
  unfold updateValues
  induction model.fields with
  | nil => exact .nil
  | cons entry rest ih =>
      obtain ⟨name, field⟩ := entry
      rw [List.filterMap_cons, List.filterMap_cons]
      by_cases hkey : name = model.key
      · simpa only [if_pos hkey] using ih
      · have hget := h.get? name
        simp only [if_neg hkey]
        generalize fill.get? name = value? at hget
        generalize fill'.get? name = value?' at hget
        cases hget with
        | none => exact ih
        | some hvalue => exact .cons ⟨rfl, hvalue⟩ ih

end Backend

namespace AlikeScripts

open Backend

variable {dialect : Dialect} {now now' : DateTime}

/-- Adding a column asks for the same statement, whatever has been collected so far. -/
theorem addColumn (model : Model) (name : String) {adding adding' : Adding}
    (halike : adding.Alike (Shown now now') adding') :
    AlikeScripts dialect now now' id (Adding.Alike (Shown now now'))
      (fun _ backend => backend.addColumn model adding name)
      fun _ backend => backend.addColumn model adding' name := by
  cases hfield : model.field? name with
  | none =>
      refine congr (fun _ _ => ?_) (fun _ _ => ?_) (throw (.unknownField model.name name))
      · simp only [Backend.addColumn, hfield]
      · simp only [Backend.addColumn, hfield]
  | some field =>
      let inPlace := dialect.capabilities.altersNullability
      have hrun : AlikeScripts dialect now now' id (Adding.Alike (Shown now now'))
          (fun _ backend => do
            backend.run (addition inPlace model.table (name, field))
            return adding.add inPlace now (name, field))
          fun _ backend => do
            backend.run (addition inPlace model.table (name, field))
            return adding'.add inPlace now' (name, field) :=
        bind (run (.refl _) trivial trivial) fun _ _ _ => pure (halike.add inPlace (name, field))
      have hfilling := filling_alike now now' field
      cases hnull : field.null with
      | true =>
          refine congr (fun _ _ => ?_) (fun _ _ => ?_) hrun
          · simp only [Backend.addColumn, hfield, hnull, Adding.add]
            rfl
          · simp only [Backend.addColumn, hfield, hnull, Adding.add]
            rfl
      | false =>
          cases hvalue : field.filling now with
          | none =>
              rw [hvalue] at hfilling
              cases hvalue' : field.filling now' with
              | some value =>
                  rw [hvalue'] at hfilling
                  cases hfilling
              | none =>
                  refine congr (fun _ _ => ?_) (fun _ _ => ?_)
                    (throw (.missingDefault model.name name))
                  · simp only [Backend.addColumn, hfield, hnull, speaking, hvalue]
                    rfl
                  · simp only [Backend.addColumn, hfield, hnull, speaking, hvalue']
                    rfl
          | some value =>
              rw [hvalue] at hfilling
              cases hvalue' : field.filling now' with
              | none =>
                  rw [hvalue'] at hfilling
                  cases hfilling
              | some value' =>
                  refine congr (fun _ _ => ?_) (fun _ _ => ?_) hrun
                  · simp only [Backend.addColumn, hfield, hnull, speaking, hvalue, Adding.add]
                    rfl
                  · simp only [Backend.addColumn, hfield, hnull, speaking, hvalue', Adding.add]
                    rfl

/-- Filling the rows with values that are alike, and what follows it. -/
theorem fill (model : Model) {values values' : Row}
    (hvalues : values.Alike (Shown now now') values')
    {next next' : ∀ σ, Backend σ → Session σ Unit}
    (hnext : AlikeScripts dialect now now' id (· = ·) next next') :
    AlikeScripts dialect now now' id (· = ·)
      (fun σ backend => backend.update model values .empty >>= fun _ => next σ backend)
      fun σ backend => backend.update model values' .empty >>= fun _ => next' σ backend := by
  -- how many rows there were does not matter
  have hfill (σ : Type) (backend : Backend σ) (assigned : Row) (then' : Session σ Unit) :
      (Session.ofExcept (Condition.resolve model .empty) >>= fun condition =>
          backend.execute (.update model.table assigned condition)) >>= (fun _ => then')
        = backend.run (.update model.table assigned .empty) >>= fun _ => then' := by
    funext s
    show EStateM.bind (backend.execute _) _ s =
      EStateM.bind (EStateM.bind (backend.execute _) _) _ s
    unfold EStateM.bind
    cases backend.execute (.update model.table assigned .empty) s <;> rfl
  have hassigned := updateValues_alike model hvalues
  unfold Backend.update
  generalize updateValues model values = assigned at hassigned
  generalize updateValues model values' = assigned' at hassigned
  cases hassigned with
  | nil => exact hnext
  | cons hfirst hrest =>
      refine congr (fun σ backend => hfill σ _ _ _) (fun σ backend => hfill σ _ _ _)
        (bind (R := (· = ·)) (run (.update _ _ (.cons hfirst hrest)) ?_ ?_) fun _ _ _ => hnext)
      · trivial
      · trivial

/-- Adding columns asks for statements that differ at most in the moments filled in. -/
theorem widenTable (model : Model) (fields : List String) :
    AlikeScripts dialect now now' id (· = ·) (fun _ backend => backend.widenTable model fields)
      fun _ backend => backend.widenTable model fields := by
  refine bind (R := Adding.Alike (Shown now now'))
    (foldlM ⟨.nil, rfl, rfl⟩ fun _ _ name halike => addColumn model name halike)
    fun adding adding' halike => ?_
  have htighten : AlikeScripts dialect now now' id (· = ·)
      (fun _ backend => if adding.rebuild then backend.renewTable model model.columns
        else if dialect.capabilities.altersNullability then
          adding.notNull.forM fun column => backend.run (.setNotNull model.table column)
        else Pure.pure ())
      fun _ backend => if adding.rebuild then backend.renewTable model model.columns
        else if dialect.capabilities.altersNullability then
          adding.notNull.forM fun column => backend.run (.setNotNull model.table column)
        else Pure.pure () := by
    split
    · exact of_eq (.renewTable model model.columns) fun _ _ => rfl
    · split
      · exact forM fun column => run (.refl _) trivial trivial
      · exact pure rfl
  rw [← halike.notNull, ← halike.rebuild]
  have hempty := halike.fill.isEmpty_eq
  cases hfill : adding.fill.isEmpty with
  | true =>
      rw [hfill] at hempty
      rw [← hempty]
      exact htighten
  | false =>
      rw [hfill] at hempty
      rw [← hempty]
      exact fill model halike.fill htighten

/-! ### Operations -/

theorem toWork {action action' : ∀ σ, Backend σ → Session σ Unit}
    (h : AlikeScripts dialect now now' id (· = ·) action action') :
    AlikeScripts dialect now now' .schema (· = ·) (fun σ backend => (action σ backend).toWork)
      fun σ backend => (action' σ backend).toWork :=
  adapt MigrationError.schema h

theorem require (result : Except MigrationError Model)
    {next next' : Model → ∀ σ, Backend σ → Work σ Unit}
    (h : ∀ model, AlikeScripts dialect now now' .schema (· = ·) (next model) (next' model)) :
    AlikeScripts dialect now now' .schema (· = ·)
      (fun σ backend => Work.ofExcept result >>= fun model => next model σ backend)
      fun σ backend => Work.ofExcept result >>= fun model => next' model σ backend := by
  cases result with
  | ok model => exact h model
  | error e => exact throw e

/-- Only where columns are added is the clock looked at. -/
theorem forward (operation : Operation) (step : AppSchema.Step) :
    AlikeScripts dialect now now' .schema (· = ·)
      (fun _ backend => operation.forward backend step)
      fun _ backend => operation.forward backend step := by
  cases operation with
  | addFields model fields => exact require _ fun model => toWork (widenTable model _)
  | createModel name table fields => exact of_eq (.forward (.createModel ..) step) fun _ _ => rfl
  | deleteModel name => exact of_eq (.forward (.deleteModel ..) step) fun _ _ => rfl
  | removeFields model fields => exact of_eq (.forward (.removeFields ..) step) fun _ _ => rfl
  | addIndex model index fields => exact of_eq (.forward (.addIndex ..) step) fun _ _ => rfl
  | removeIndex model index => exact of_eq (.forward (.removeIndex ..) step) fun _ _ => rfl

/-- Undoing has no moments in it at all. -/
theorem backward (operation : Operation) (step : AppSchema.Step) :
    AlikeScripts dialect now now' .schema (· = ·)
      (fun _ backend => operation.backward backend step)
      fun _ backend => operation.backward backend step := by
  cases operation with
  | removeFields model fields => exact require _ fun model => toWork (widenTable model _)
  | createModel name table fields => exact of_eq (.backward (.createModel ..) step) fun _ _ => rfl
  | deleteModel name => exact of_eq (.backward (.deleteModel ..) step) fun _ _ => rfl
  | addFields model fields => exact of_eq (.backward (.addFields ..) step) fun _ _ => rfl
  | addIndex model index fields => exact of_eq (.backward (.addIndex ..) step) fun _ _ => rfl
  | removeIndex model index => exact of_eq (.backward (.removeIndex ..) step) fun _ _ => rfl

/-- All operations of a migration, one after the other. -/
theorem forwardAll (steps : Migration.Steps) :
    AlikeScripts dialect now now' .schema (· = ·)
      (fun _ backend => Migration.forwardAll backend steps)
      fun _ backend => Migration.forwardAll backend steps :=
  forM fun entry => forward entry.1 entry.2

theorem backwardAll (steps : Migration.Steps) :
    AlikeScripts dialect now now' .schema (· = ·)
      (fun _ backend => Migration.backwardAll backend steps)
      fun _ backend => Migration.backwardAll backend steps :=
  forM fun entry => backward entry.1 entry.2

end AlikeScripts

end SchemaHistory
