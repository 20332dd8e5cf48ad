import SchemaHistory.Proofs.CalendarText
import SchemaHistory.Proofs.NextMigration
import SchemaHistory.Proofs.StoreContents

/-!
# Fresh numbers

The number of a new migration is counted from that of the last one, and only the digits from 0 to 9
count. If the last number is made of them, the new migration is `MigrationStore.Fresh`: it comes
behind all others, in every order there is, and no file stands where it is written. If not, counting
begins at 1 again, and the new migration comes before the last one and may even replace the first.
After 9999 no number is left.
-/

namespace SchemaHistory

namespace Text

variable {c : Char} {xs ys : List Char}

/-- The ten ASCII digits are digits of one script among others. -/
theorem isDigitOfAnyScript_of_isDigit (h : c.isDigit = true) : isDigitOfAnyScript c = true := by
  have hdigit := isDigit_iff.mp h
  exact List.any_eq_true.mpr ⟨(0x0030, 0x0039), List.mem_cons_self, by simpa using hdigit⟩

/-- No digit of any script comes before zero. -/
theorem zero_le_of_isDigitOfAnyScript (h : isDigitOfAnyScript c = true) : '0' ≤ c := by
  obtain ⟨range, hmem, hwithin⟩ := List.any_eq_true.mp h
  have hleast : ∀ range ∈ digitRanges, 0x0030 ≤ range.1 := by decide +kernel
  rw [Bool.and_eq_true, decide_eq_true_iff] at hwithin
  exact (hleast range hmem).trans hwithin.1

/-- A text of digits that is not after another of the same length and a leading zero has a leading
zero, too. -/
theorem eq_zero_of_not_lt (hc : isDigitOfAnyScript c = true) (h : ¬('0' :: ys < c :: xs)) :
    c = '0' ∧ ¬ys < xs := by
  rw [List.cons_lt_cons_iff, not_or] at h
  have hzero : '0' = c := (zero_le_of_isDigitOfAnyScript hc).eq_of_not_lt h.1
  exact ⟨hzero.symm, fun hlt => h.2 ⟨hzero, hlt⟩⟩

/-- Four digits of any script that are not above the first number are digits from 0 to 9. -/
theorem isDigit_of_not_above_first {a b c d : Char}
    (hdigits : ∀ digit ∈ [a, b, c, d], isDigitOfAnyScript digit = true)
    (h : ¬['0', '0', '0', '1'] < [a, b, c, d]) : ∀ digit ∈ [a, b, c, d], digit.isDigit = true := by
  obtain ⟨rfl, hthree⟩ := eq_zero_of_not_lt (hdigits a (by simp)) h
  obtain ⟨rfl, htwo⟩ := eq_zero_of_not_lt (hdigits b (by simp)) hthree
  obtain ⟨rfl, hlast⟩ := eq_zero_of_not_lt (hdigits c (by simp)) htwo
  have hone : d ≤ '1' := not_lt.mp fun hlt => hlast (List.cons_lt_cons_iff.mpr (.inl hlt))
  have hd : d.isDigit = true :=
    isDigit_iff.mpr ⟨zero_le_of_isDigitOfAnyScript (hdigits d (by simp)), le_trans hone (by decide)⟩
  intro digit hmem
  simp only [List.mem_cons, List.not_mem_nil, or_false] at hmem
  rcases hmem with rfl | rfl | rfl | rfl
  · decide
  · decide
  · decide
  · exact hd

end Text

namespace MigrationName

variable {n : Nat} {label : String}

/-- What may stand behind the number in a name. -/
def IsLabel (label : String) : Prop := label ≠ "" ∧ ∀ c ∈ label.toList, Text.isWordChar c = true

/-- A number is written with four digits exactly if it is below ten thousand. -/
theorem length_numberText : (numberText n).toList.length = 4 ↔ n < 10 ^ 4 := by
  constructor
  · intro hfour
    obtain ⟨-, hdigits, hvalue⟩ := MigrationStore.numberText_eq n
    rw [← hvalue, ← hfour]
    exact Text.numberOfDigits_lt hdigits
  · intro hn
    rw [numberText, String.toList_ofList]
    exact Calendar.length_paddedNumber (by decide) hn

/-- A number and a label make a name as long as the number has four digits and the label is a
word. -/
theorem isSome_split?_iff : (split? s!"{numberText n}_{label}").isSome ↔
    n < 10 ^ 4 ∧ IsLabel label := by
  by_cases hn : n < 10 ^ 4
  · obtain ⟨a, b, c, d, hfour⟩ : ∃ a b c d, (numberText n).toList = [a, b, c, d] := by
      have hlength := length_numberText.mpr hn
      match (numberText n).toList, hlength with
      | [a, b, c, d], _ => exact ⟨a, b, c, d, rfl⟩
    have hall : [a, b, c, d].all Text.isDigitOfAnyScript = true := by
      refine List.all_eq_true.mpr fun digit hdigit => Text.isDigitOfAnyScript_of_isDigit ?_
      exact (MigrationStore.numberText_eq n).2.1 digit (hfour ▸ hdigit)
    have hname : s!"{numberText n}_{label}".toList = a :: b :: c :: d :: '_' :: label.toList := by
      rw [MigrationStore.toList_name, hfour]
      rfl
    unfold split?
    have hlimit : n < 10000 := hn
    simp only [hname, hall]
    simp [hlimit, IsLabel]
  · have hlong : ¬(split? s!"{numberText n}_{label}").isSome := by
      intro hsome
      have hnumbered : Migration.Numbered { app := "", name := s!"{numberText n}_{label}" } := hsome
      have hnumber := MigrationStore.number_eq_numberText hnumbered rfl
      exact hn (length_numberText.mp (hnumber ▸ hnumbered.length_number))
    exact iff_of_false hlong fun hboth => hn hboth.1

end MigrationName

namespace Migration

variable {a b : Migration}

/-- The number is in the digits from 0 to 9. -/
def Counted (migration : Migration) : Prop := ∀ c ∈ migration.number.toList, c.isDigit = true

/-- A name whose digits are not all ASCII counts as zero. -/
theorem rank_of_not_counted (h : ¬a.Counted) : a.rank = 0 := by
  rw [rank, MigrationName.rank, if_neg fun hall => h (List.all_eq_true.mp hall)]

/-- Numbers stand for more the higher they are, if the higher one counts. -/
theorem rank_le (ha : a.Numbered) (hb : b.Numbered) (hcounted : b.Counted)
    (h : a.number ≤ b.number) :
    a.rank ≤ b.rank := by
  by_cases hdigits : a.Counted
  · rw [rank_eq hdigits, rank_eq hcounted]
    refine not_lt.mp fun hlt => not_lt.mpr h ?_
    rw [String.lt_iff_toList_lt]
    exact Text.lt_of_numberOfDigits_lt (hb.length_number.trans ha.length_number.symm)
      hcounted hdigits
      hlt
  · rw [rank_of_not_counted hdigits]
    exact Nat.zero_le _

/-- What is not above the first number counts. -/
theorem counted_of_number_le (ha : a.Numbered) (h : a.number ≤ "0001") : a.Counted := by
  obtain ⟨_, _, _, _, _, -, hnumber, hdigits, -⟩ := ha.name_eq
  rw [Counted, hnumber]
  refine Text.isDigit_of_not_above_first hdigits fun hlt => not_lt.mpr h ?_
  rw [String.lt_iff_toList_lt, hnumber]
  exact hlt

end Migration

namespace MigrationStore

variable {store : MigrationStore} {tree : FileTree} {app : String} {existing : List Migration}
  {last migration : Migration} {declarations : List Declaration} {models : List Model}
  {label : Option String} {name : String} {state : AppSchema}

/-! ### The number after the last one -/

/-- A migration named after a number has that number. -/
theorem rank_of_name {n : Nat} (hm : migration.Numbered)
    (hname : migration.name = s!"{MigrationName.numberText n}_{name}") : migration.rank = n := by
  obtain ⟨-, hall, hvalue⟩ := numberText_eq n
  have hnumber := number_eq_numberText hm hname
  rw [← hnumber] at hall hvalue
  rw [Migration.rank_eq hall, hvalue]

/-- The number that is counted from a last one that does not count is the first one. -/
theorem number_of_not_counted (hlast : ¬last.Counted) (hm : migration.Numbered)
    (hname : migration.name = s!"{numberAfter (existing ++ [last])}_{name}") :
    migration.number = "0001" := by
  rw [numberAfter_concat, Migration.rank_of_not_counted hlast] at hname
  rw [← String.toList_inj, number_eq_numberText hm hname]
  decide

/-- The next migration comes behind the last one exactly if the number of the last one counts. -/
theorem name_lt_iff_counted (hlast : last.Numbered) (hm : migration.Numbered)
    (hname : migration.name = s!"{numberAfter (existing ++ [last])}_{name}") :
    last.name < migration.name ↔ last.Counted := by
  constructor
  · intro hlt
    by_contra hcounted
    have hle := Migration.number_le_of_name_le hlast hm hlt.le
    rw [number_of_not_counted hcounted hm hname] at hle
    exact hcounted (Migration.counted_of_number_le hlast hle)
  · intro hcounted
    exact hlast.name_lt hm (last_number_lt hlast hcounted hm hname)

/-! ### Fresh migrations -/

/-- A migration that comes behind all there are: by name, by what the number stands for, in the
order in which they are applied and when they are loaded, and that has no file yet. -/
structure Fresh (store : MigrationStore) (tree : FileTree) (existing : List Migration)
    (migration : Migration) : Prop where
  number_ne : ∀ earlier ∈ existing, earlier.number ≠ migration.number
  name_lt : ∀ earlier ∈ existing, earlier.name < migration.name
  rank_lt : ∀ earlier ∈ existing, earlier.rank < migration.rank
  no_repeat : repeatedNumber? [] (existing ++ [migration]) = none
  applied_last : ∀ migrations, migrations.Perm (migration :: existing) →
    Migrator.sorted migration.app migrations = .ok (existing ++ [migration])
  no_file : tree.has (store.filePath migration) = false

/-- No file stands where a migration with a new name is written. -/
theorem has_filePath (hload : store.load tree app = .ok existing) (happ : migration.app = app)
    (hm : migration.Numbered) (hfresh : ∀ earlier ∈ existing, earlier.name ≠ migration.name) :
    tree.has (store.filePath migration) = false := by
  rw [← Bool.not_eq_true]
  intro hhas
  obtain ⟨node, hfind⟩ := FileTree.has_iff.mp hhas
  rw [FileTree.find, places_filePath happ hm, filePlaces, FileTree.follow_append] at hfind
  obtain ⟨above, habove, hfind⟩ := Except.bind_eq_ok.mp hfind
  obtain ⟨-, -, found, hfound, -⟩ := FileTree.follow_cons_eq_ok.mp hfind
  obtain ⟨entries, read, hentries, hfiles, hperm, -⟩ :=
    (load_eq_ok (FileTree.has_iff.mpr ⟨above, habove⟩)).mp hload
  have hnone := not_listed hentries hfiles hm fun loaded hloaded =>
    hfresh loaded (hperm.mem_iff.mpr hloaded)
  rw [List.nil_append] at hfound
  rw [filePlaces, hfound] at hnone
  cases hnone

/-- The number of the next migration stands for more than all others. -/
theorem rank_lt_of_counted (hnumbered : ∀ earlier ∈ existing, earlier.Numbered)
    (hascending : existing.Pairwise (·.name < ·.name))
    (hcounted : ∀ last ∈ existing.getLast?, last.Counted) (hm : migration.Numbered)
    (hname : migration.name = s!"{numberAfter existing}_{name}") :
    ∀ earlier ∈ existing, earlier.rank < migration.rank := by
  intro earlier hearlier
  obtain ⟨before, last, rfl⟩ : ∃ before last, existing = before ++ [last] :=
    ⟨_, _, (List.dropLast_append_getLast (List.ne_nil_of_mem hearlier)).symm⟩
  have hle := Migration.rank_le (hnumbered _ hearlier) (hnumbered last (by simp))
    (hcounted last (by rw [List.getLast?_concat]; rfl))
    (number_le_last hnumbered hascending earlier hearlier)
  rw [rank_of_name hm (numberAfter_concat ▸ hname)]
  exact Nat.lt_succ_of_le hle

/-- A fresh number may be added to those that were loaded. -/
theorem repeatedNumber?_concat (hload : store.load tree app = .ok existing)
    (hfresh : ∀ earlier ∈ existing, earlier.number ≠ migration.number) :
    repeatedNumber? [] (existing ++ [migration]) = none := by
  refine repeatedNumber?_eq_none.mpr ⟨?_, List.disjoint_nil_right _⟩
  rw [List.map_append, List.map_singleton]
  refine (nodup_numbers_of_load hload).append (List.nodup_singleton _) fun number hnumber hown => ?_
  obtain ⟨earlier, hearlier, rfl⟩ := List.mem_map.mp hnumber
  exact hfresh earlier hearlier (List.mem_singleton.mp hown)

/-- However the migrations are arranged, one that comes behind the others is sorted last. -/
theorem sorted_concat {migrations : List Migration} (hload : store.load tree app = .ok existing)
    (happ : migration.app = app) (hlast : ∀ earlier ∈ existing, earlier.name < migration.name)
    (hperm : migrations.Perm (migration :: existing)) :
    Migrator.sorted app migrations = .ok (existing ++ [migration]) := by
  have hsame := (List.perm_append_singleton migration existing).trans hperm.symm
  refine Migrator.sorted_eq_ok (fun other hother => ?_) hsame ?_
  · rcases List.mem_append.mp (hsame.mem_iff.mpr hother) with hearlier | hown
    · exact (exists_text_of_mem_load hload hearlier).1
    · rw [List.mem_singleton.mp hown, happ]
  · refine List.pairwise_append.mpr ⟨ascending_of_load hload, List.pairwise_singleton _ _, ?_⟩
    intro earlier hearlier other hother
    rw [List.mem_singleton.mp hother]
    exact hlast earlier hearlier

/-- The next migration is fresh exactly if the number of the last one counts. -/
theorem fresh_iff_counted (hload : store.load tree app = .ok existing) (happ : migration.app = app)
    (hm : migration.Numbered) (hname : migration.name = s!"{numberAfter existing}_{name}") :
    store.Fresh tree existing migration ↔ ∀ last ∈ existing.getLast?, last.Counted := by
  have hnumbered := numbered_of_load hload
  have hascending := ascending_of_load hload
  constructor
  · intro hfresh last hlast
    obtain ⟨before, rfl⟩ := List.getLast?_eq_some_iff.mp hlast
    have hmem : last ∈ before ++ [last] := by simp
    exact (name_lt_iff_counted (hnumbered last hmem) hm hname).mp (hfresh.name_lt last hmem)
  · intro hcounted
    have hlast := comes_last hnumbered hascending hcounted hm hname
    have hnumbers : ∀ earlier ∈ existing, earlier.number ≠ migration.number :=
      fun earlier hearlier => ne_of_lt (hlast earlier hearlier).1
    have hnames : ∀ earlier ∈ existing, earlier.name < migration.name :=
      fun earlier hearlier => (hlast earlier hearlier).2
    exact {
      number_ne := hnumbers
      name_lt := hnames
      rank_lt := rank_lt_of_counted hnumbered hascending hcounted hm hname
      no_repeat := repeatedNumber?_concat hload hnumbers
      applied_last := fun _ hperm => by
        rw [happ]
        exact sorted_concat hload happ hnames hperm
      no_file := has_filePath hload happ hm fun earlier hearlier =>
        ne_of_lt (hnames earlier hearlier) }

/-! ### Running out of numbers -/

/-- The last number is the highest there is. -/
def Exhausted (existing : List Migration) : Prop := ∃ last ∈ existing.getLast?, last.rank = 9999

theorem rank_lt_limit (hlast : last.Numbered) : last.rank < 10 ^ 4 := by
  by_cases hcounted : last.Counted
  · rw [Migration.rank_eq hcounted, ← hlast.length_number]
    exact Text.numberOfDigits_lt hcounted
  · rw [Migration.rank_of_not_counted hcounted]
    decide

/-- The number after the last one has four digits unless the last one is the highest. -/
theorem not_exhausted_iff (hnumbered : ∀ earlier ∈ existing, earlier.Numbered) :
    ¬Exhausted existing ↔ (existing.getLast?.map (·.rank)).getD 0 + 1 < 10 ^ 4 := by
  unfold Exhausted
  cases hlast : existing.getLast? with
  | none => simp
  | some last =>
      have hlimit := rank_lt_limit (hnumbered last (List.mem_of_getLast? hlast))
      simp only [Option.mem_some_iff, exists_eq_left', Option.map_some, Option.getD_some]
      omega

/-- What is left to do becomes a migration if its name is one. -/
theorem makeAfter_of_diff (hreplay : AppSchema.replay app existing = .ok state)
    (hbuild : buildAll app declarations = .ok models) (hdiff : state.diff models ≠ []) :
    makeAfter app existing declarations label
      = (Migration.ofName app s!"{numberAfter existing}_{label.getD (usualLabel existing)}").map
          fun named => some { named with
            dependencies := existing.getLast?.toList.map fun last => (app, last.name)
            operations := state.diff models } := by
  unfold makeAfter
  rw [hreplay, hbuild]
  dsimp only [bind, Except.bind]
  split
  · next hnone => exact absurd hnone hdiff
  · cases Migration.ofName app s!"{numberAfter existing}_{label.getD (usualLabel existing)}" <;> rfl

theorem ofName_of_numbered (h : (MigrationName.split? name).isSome) :
    Migration.ofName app name = .ok { app, name } := by
  obtain ⟨parts, hparts⟩ := Option.isSome_iff_exists.mp h
  rw [Migration.ofName, MigrationName.decode, hparts]
  rfl

theorem ofName_of_not_numbered (h : ¬(MigrationName.split? name).isSome) :
    Migration.ofName app name = .error (.invalidName name) := by
  rw [Migration.ofName, MigrationName.decode, Option.not_isSome_iff_eq_none.mp h]
  rfl

/-- After the last number with four digits comes one with five. -/
theorem numberAfter_of_exhausted (h : Exhausted existing) : numberAfter existing = "10000" := by
  obtain ⟨last, hlast, hrank⟩ := h
  rw [numberAfter, Option.mem_def.mp hlast, Option.map_some, Option.getD_some, hrank]
  decide

/-- What is left to do becomes a migration exactly if there is a number left and the label is
one. -/
theorem make_of_diff (hload : store.load tree app = .ok existing)
    (hreplay : AppSchema.replay app existing = .ok state)
    (hbuild : buildAll app declarations = .ok models) (hdiff : state.diff models ≠ []) :
    ((∃ migration, store.make tree app declarations label = .ok (some migration)) ↔
      ¬Exhausted existing ∧ MigrationName.IsLabel (label.getD (usualLabel existing))) ∧
    (Exhausted existing → store.make tree app declarations label
      = .error (.invalidName s!"10000_{label.getD (usualLabel existing)}")) := by
  have hname : (MigrationName.split?
      s!"{numberAfter existing}_{label.getD (usualLabel existing)}").isSome ↔
        ¬Exhausted existing ∧ MigrationName.IsLabel (label.getD (usualLabel existing)) := by
    rw [not_exhausted_iff (numbered_of_load hload)]
    exact MigrationName.isSome_split?_iff
  rw [make_eq hload, makeAfter_of_diff hreplay hbuild hdiff]
  refine ⟨⟨?_, ?_⟩, ?_⟩
  · rintro ⟨migration, hmade⟩
    by_contra hnot
    rw [ofName_of_not_numbered (mt hname.mp hnot)] at hmade
    cases hmade
  · intro hboth
    rw [ofName_of_numbered (hname.mpr hboth)]
    exact ⟨_, rfl⟩
  · intro hexhausted
    rw [ofName_of_not_numbered fun hsome => (hname.mp hsome).1 hexhausted,
      numberAfter_of_exhausted hexhausted]
    rfl

/-- A migration is made only if there is a difference between the replayed state and the
declarations. -/
theorem exists_diff_of_makeAfter
    (h : makeAfter app existing declarations label = .ok (some migration)) :
    ∃ state models, AppSchema.replay app existing = .ok state ∧
      buildAll app declarations = .ok models ∧ state.diff models ≠ [] := by
  obtain ⟨state, hreplay, h⟩ := Except.bind_eq_ok.mp h
  obtain ⟨models, hbuild, h⟩ := Except.bind_eq_ok.mp h
  refine ⟨state, models, hreplay, hbuild, fun hnone => ?_⟩
  rw [hnone] at h
  cases h

/-- Whatever is made for an app, with whatever label, is fresh exactly if the last number is in the
digits from 0 to 9. Nothing is made once the last number is the highest, and where something is left
to do the name with a fifth digit is reported then. Until then all that is left to do becomes a
migration. -/
theorem fresh_exactly_if_counted (declarations : List Declaration) (label : Option String)
    (hload : store.load tree app = .ok existing) :
    (∀ migration, store.make tree app declarations label = .ok (some migration) →
      (store.Fresh tree existing migration ↔ ∀ last ∈ existing.getLast?, last.Counted)) ∧
    (Exhausted existing → ∀ migration,
      store.make tree app declarations label ≠ .ok (some migration)) ∧
    ∀ state models, AppSchema.replay app existing = .ok state →
      buildAll app declarations = .ok models → state.diff models ≠ [] →
      ((∃ migration, store.make tree app declarations label = .ok (some migration)) ↔
        ¬Exhausted existing ∧ MigrationName.IsLabel (label.getD (usualLabel existing))) ∧
      (Exhausted existing → store.make tree app declarations label
        = .error (.invalidName s!"10000_{label.getD (usualLabel existing)}")) := by
  refine ⟨fun migration hmake => ?_, fun hexhausted migration hmake => ?_, ?_⟩
  · have hmakeAfter := (make_eq hload).symm.trans hmake
    obtain ⟨state, models, hreplay, hbuild, -⟩ := exists_diff_of_makeAfter hmakeAfter
    obtain ⟨happ, hm, -, hname⟩ := makeAfter_eq_some hreplay hbuild hmakeAfter
    exact fresh_iff_counted hload happ hm hname
  · obtain ⟨state, models, hreplay, hbuild, hdiff⟩ :=
      exists_diff_of_makeAfter ((make_eq hload).symm.trans hmake)
    exact ((make_of_diff hload hreplay hbuild hdiff).1.mp ⟨migration, hmake⟩).1 hexhausted
  · intro state models hreplay hbuild hdiff
    exact make_of_diff hload hreplay hbuild hdiff

/-- A migration of the notes behind the first one, which adds titles. -/
def numberedMigration (name : String) : Migration where
  app := "notes"
  name := name
  operations := [.addFields "Note" [("title", .ofKind (.char 80))]]

/-- Once it has been written, it is loaded behind the first one. -/
theorem load_numberedMigration (name : String) (hm : (numberedMigration name).Numbered)
    (hlast : Operation.noteMigration.number < (numberedMigration name).number ∧
      Operation.noteMigration.name < (numberedMigration name).name)
    (hread : Migration.read .standard (numberedMigration name).text = .ok (numberedMigration name))
    (hwrite : (match shelf.write (numberedMigration name) noteTree with
      | .ok _ _ => true
      | .error _ _ => false) = true) : ∃ path tree',
    shelf.write (numberedMigration name) noteTree = .ok path tree' ∧
      shelf.load tree' "notes" = .ok [Operation.noteMigration, numberedMigration name] := by
  obtain ⟨path, tree', hwritten⟩ := exists_write hwrite
  refine ⟨path, tree', hwritten,
    (load_write rooted_noteTree load_noteTree rfl hm ?_ hread hwritten).2⟩
  intro earlier hearlier
  rw [List.mem_singleton.mp hearlier]
  exact hlast

/-- What is made behind the first migration of the notes is fresh. Behind the last number there is,
nothing is made. -/
theorem second_is_fresh_until_last :
    shelf.Fresh noteTree [Operation.noteMigration] titledMigration ∧
    ∃ path tree', shelf.write (numberedMigration "9999_titles") noteTree = .ok path tree' ∧
      shelf.load tree' "notes" = .ok [Operation.noteMigration, numberedMigration "9999_titles"] ∧
      shelf.make tree' "notes" [titledDeclaration] none = .error (.invalidName "10000_auto") := by
  have hmake : shelf.make noteTree "notes" [titledDeclaration] none =
    .ok (some titledMigration) := by
    rw [make_eq load_noteTree]
    decide +kernel
  have hcounted : ∀ last ∈ [Operation.noteMigration].getLast?, last.Counted := by
    intro last hlast
    cases hlast
    have hall : Operation.noteMigration.number.toList.all Char.isDigit = true := by decide +kernel
    exact List.all_eq_true.mp hall
  obtain ⟨hfresh, -⟩ := fresh_exactly_if_counted [titledDeclaration] none load_noteTree
  obtain ⟨path, tree', hwrite, hload⟩ := load_numberedMigration "9999_titles"
    (by decide +kernel) (by decide +kernel)
    (Migration.read_text_eq (by decide +kernel) (by decide +kernel) (by decide +kernel))
    (by decide +kernel)
  obtain ⟨-, -, hlimit⟩ := fresh_exactly_if_counted [titledDeclaration] none hload
  have hexhausted : Exhausted [Operation.noteMigration, numberedMigration "9999_titles"] :=
    ⟨_, rfl, by decide +kernel⟩
  refine ⟨(hfresh titledMigration hmake).mpr hcounted, path, tree', hwrite, hload, ?_⟩
  exact (hlimit _ _ rfl rfl (by decide +kernel)).2 hexhausted

/-- What is made when the number of the last migration does not count. -/
def againMigration : Migration where
  app := "notes"
  name := "0001_initial"
  dependencies := [("notes", "٠٠٠٢_titles")]
  operations := [.removeFields "Note" ["text"], .addIndex "Note" "note_title_idx" ["title"]]

/-- The first migration of the notes is numbered in the digits from 0 to 9, the second one in
others. -/
theorem first_is_made_again : ∃ path tree',
    shelf.write (numberedMigration "٠٠٠٢_titles") noteTree = .ok path tree' ∧
    shelf.load tree' "notes" = .ok [Operation.noteMigration, numberedMigration "٠٠٠٢_titles"] ∧
    shelf.make tree' "notes" [titledDeclaration] (some "initial") = .ok (some againMigration) ∧
    againMigration.number = Operation.noteMigration.number ∧
    ¬(numberedMigration "٠٠٠٢_titles").name < againMigration.name ∧
    ¬Operation.noteMigration.rank < againMigration.rank ∧
    shelf.filePath againMigration = shelf.filePath Operation.noteMigration ∧
    ¬shelf.Fresh tree' [Operation.noteMigration, numberedMigration "٠٠٠٢_titles"]
      againMigration := by
  obtain ⟨path, tree', hwrite, hload⟩ := load_numberedMigration "٠٠٠٢_titles"
    (by decide +kernel) (by decide +kernel)
    (Migration.read_text_eq (by decide +kernel) (by decide +kernel) (by decide +kernel))
    (by decide +kernel)
  have hmake : shelf.make tree' "notes" [titledDeclaration] (some "initial")
      = .ok (some againMigration) := by
    rw [make_eq hload]
    decide +kernel
  have hbefore : ¬(numberedMigration "٠٠٠٢_titles").name < againMigration.name := by decide +kernel
  refine ⟨path, tree', hwrite, hload, hmake, by decide +kernel, hbefore, by decide +kernel,
    by decide +kernel, fun hfresh => hbefore (hfresh.name_lt _ (by simp))⟩

end MigrationStore

end SchemaHistory
