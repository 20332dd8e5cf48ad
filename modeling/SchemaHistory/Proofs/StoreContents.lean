import SchemaHistory.Proofs.GraphKeys
import SchemaHistory.Proofs.ReadMigrations
import SchemaHistory.Proofs.StoredMigrations

/-!
# All that a store holds

The migrations of all apps are read app by app. No two of them have the same app and name, and in
one app no two have the same number (`MigrationStore.toldApart_of_readAll`). Plans rest on this: in
a graph of such migrations nothing is replaced by a later one, and the number of a target tells one
migration of its app from all others.
-/

namespace SchemaHistory

/-- Migrations with a number each, which can be told apart: by app and name, and also by app and
number. -/
structure Migration.ToldApart (migrations : List Migration) : Prop where
  keys : (migrations.map Migration.key).Nodup
  numbered : ∀ migration ∈ migrations, migration.Numbered
  eq_of_number_eq : ∀ migration ∈ migrations, ∀ other ∈ migrations,
    migration.app = other.app → migration.number = other.number → migration = other

theorem Migration.ToldApart.of_perm {migrations added : List Migration}
    (h : Migration.ToldApart migrations) (hperm : added.Perm migrations) :
    Migration.ToldApart added where
  keys := (hperm.map Migration.key).nodup_iff.mpr h.keys
  numbered migration hmem := h.numbered migration (hperm.mem_iff.mp hmem)
  eq_of_number_eq migration hmem other hother :=
    h.eq_of_number_eq migration (hperm.mem_iff.mp hmem) other (hperm.mem_iff.mp hother)

namespace MigrationStore

variable {store : MigrationStore} {tree : FileTree} {app : String}
  {existing migrations : List Migration}

/-- Whatever is loaded is numbered. -/
theorem numbered_of_load (h : store.load tree app = .ok existing) :
    ∀ migration ∈ existing, migration.Numbered := by
  intro migration hmem
  obtain ⟨-, text, hread⟩ := exists_text_of_mem_load h hmem
  exact Migration.numbered_of_read hread

/-- No number is loaded twice. -/
theorem nodup_numbers_of_load (h : store.load tree app = .ok existing) :
    (existing.map (·.number)).Nodup := by
  cases hthere : tree.has (store.appDirectory app) with
  | false =>
      rw [load_of_missing hthere] at h
      cases h
      exact List.nodup_nil
  | true =>
      obtain ⟨_, _, _, _, _, _, hnumbers⟩ := (load_eq_ok hthere).mp h
      exact hnumbers

/-- An app has one directory. -/
theorem nodup_apps {apps : List String} (h : store.apps tree = .ok apps) : apps.Nodup := by
  rw [MigrationStore.apps] at h
  split at h
  · cases h
    exact List.nodup_nil
  · obtain ⟨entries, hentries, h⟩ := Except.bind_eq_ok.mp h
    cases h
    obtain ⟨-, rfl⟩ := FileTree.entries_eq_ok.mp (Except.mapError_eq_ok.mp hentries)
    exact Named.Ordered.nodup_names (List.Pairwise.filter _ Named.ordered_nil.insertAll)

/-- What is loaded of apps that differ can be told apart. -/
theorem toldApart_of_loads {apps : List String} {loads : List (List Migration)} (happs : apps.Nodup)
    (h : List.Forall₂ (fun app existing => store.load tree app = .ok existing) apps loads) :
    Migration.ToldApart loads.flatten ∧ ∀ migration ∈ loads.flatten, migration.app ∈ apps := by
  induction h with
  | nil => exact ⟨⟨List.nodup_nil, nofun, nofun⟩, nofun⟩
  | @cons app existing apps loads hload _ ih =>
      obtain ⟨hfresh, happs⟩ := List.nodup_cons.mp happs
      obtain ⟨hrest, hwithin⟩ := ih happs
      have happ : ∀ migration ∈ existing, migration.app = app :=
        fun migration hmem => (exists_text_of_mem_load hload hmem).1
      -- a migration of this app is none of those of the others
      have hforeign : ∀ migration ∈ existing, ∀ other ∈ loads.flatten,
          migration.app ≠ other.app := by
        intro migration hmem other hother heq
        rw [happ migration hmem] at heq
        exact hfresh (heq ▸ hwithin other hother)
      refine ⟨⟨?_, ?_, ?_⟩, ?_⟩
      · rw [List.flatten_cons, List.map_append]
        refine List.nodup_append.mpr ⟨?_, hrest.keys, ?_⟩
        · refine List.pairwise_map.mpr ((ascending_of_load hload).imp fun {a b} hlt heq => ?_)
          have hname : a.name = b.name := congrArg MigrationKey.name heq
          exact absurd (hname ▸ hlt) (lt_irrefl _)
        · intro key hkey other hother heq
          obtain ⟨migration, hmem, rfl⟩ := List.mem_map.mp hkey
          obtain ⟨foreign, hforeignMem, rfl⟩ := List.mem_map.mp hother
          exact hforeign migration hmem foreign hforeignMem (congrArg MigrationKey.app heq)
      · rw [List.flatten_cons, List.forall_mem_append]
        exact ⟨numbered_of_load hload, hrest.numbered⟩
      · intro migration hmem other hother heq hnumber
        rw [List.flatten_cons, List.mem_append] at hmem hother
        rcases hmem with hmem | hmem <;> rcases hother with hother | hother
        · exact List.inj_on_of_nodup_map (nodup_numbers_of_load hload) hmem hother hnumber
        · exact absurd heq (hforeign migration hmem other hother)
        · exact absurd heq.symm (hforeign other hother migration hmem)
        · exact hrest.eq_of_number_eq migration hmem other hother heq hnumber
      · rw [List.flatten_cons, List.forall_mem_append]
        refine ⟨fun migration hmem => ?_, fun migration hmem => ?_⟩
        · exact happ migration hmem ▸ List.mem_cons_self
        · exact List.mem_cons_of_mem _ (hwithin migration hmem)

/-- What a store holds can be told apart. -/
theorem toldApart_of_readAll (h : store.readAll tree = .ok migrations) :
    Migration.ToldApart migrations := by
  obtain ⟨apps, happs, h⟩ := Except.bind_eq_ok.mp h
  obtain ⟨loads, hloads, h⟩ := Except.bind_eq_ok.mp h
  cases h
  exact (toldApart_of_loads (nodup_apps happs) (Except.mapM_eq_ok.mp hloads)).1

end MigrationStore

end SchemaHistory
