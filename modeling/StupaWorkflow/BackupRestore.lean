import StupaWorkflow.BackupCatalogue
import StupaWorkflow.Listing
import StupaWorkflow.Runs

/-!
The catalogue names the archives of the bucket and no others, over every sequence of backups,
prunes, deletes, pins, uploads and restores whose restores agree: the rows of the restored
catalogue name the archives that the present rows of these ids name.
-/
namespace Backup
open Py StorageKeys List

section Keys

theorem uuid_text_length (u : Uuid) : (Uuid.text u).length = 36 := by
  simp [Uuid.text, Uuid.hex_length]

theorem archiveKey_inj {i j : Uuid} {s t : Datetime} (h : archiveKey i s = archiveKey j t) : i = j := by
  unfold archiveKey at h
  have hfront := append_cancel_right h
  exact Uuid.text_inj (append_inj' hfront (by rw [uuid_text_length, uuid_text_length])).2

def Owner (k : Text) (id : Uuid) : Prop := ∃ t, k = archiveKey id t

theorem owner_unique (k : Text) (i j : Uuid) (hi : Owner k i) (hj : Owner k j) : i = j := by
  obtain ⟨s, rfl⟩ := hi
  obtain ⟨t, ht⟩ := hj
  exact archiveKey_inj ht

theorem Row.Keyed.owner {r : Row} (h : r.Keyed) {k : Text} (hk : r.storageKey = some k) : Owner k r.id :=
  ⟨_, h.key k hk⟩

theorem Row.archive_eq_some {r : Row} {k : Text} : r.archive = some k ↔ r.status = .done ∧ r.storageKey = some k := by
  simp [Row.archive]

end Keys

namespace Catalogue
open List

variable {c : Catalogue} {i : Uuid} {k : Text}

theorem get_eq_some {r : Row} : c.get i = some r ↔ r ∈ c.rows ∧ r.id = i :=
  ⟨Table.of_find, fun h => Table.find_of_mem c.nodup h.1 h.2⟩

theorem get_eq_none : c.get i = none ↔ i ∉ c.ids := by
  simp [get, ids]

theorem lists_eq_some : c.lists i = some k ↔ ∃ r ∈ c.rows, r.id = i ∧ r.status = .done ∧ r.storageKey = some k := by
  simp only [lists, Option.bind_eq_some_iff, get_eq_some, Row.archive_eq_some, and_assoc]

theorem lists_owned (c : Catalogue) : Listing.Owned Owner c.lists := by
  intro i k h
  obtain ⟨r, hr, rfl, _, hkey⟩ := lists_eq_some.mp h
  exact (c.keyed r hr).owner hkey

@[simp] theorem get_update (f : RowChange) (j : Uuid) :
    (c.update j f).get i = if i = j then (c.get j).map f.change else c.get i :=
  Table.find_modify (fun r hr => (f.id r).trans hr) i

@[simp] theorem get_insert {r : Row} (hid : r.id ∉ c.ids) (hr : r.Keyed) :
    (c.insert r hid hr).get i = if i = r.id then some r else c.get i := by
  rw [get, insert, find?_append]
  split
  next h =>
    have hnone : c.rows.find? (fun x => x.id = i) = none := get_eq_none.mpr (h ▸ hid)
    rw [hnone, Option.none_or, find?_singleton, if_pos (by simpa using h.symm)]
  next h => simp [Ne.symm h, get]

@[simp] theorem get_filter_id (p : Uuid → Bool) :
    (c.filter fun r => p r.id).get i = if p i then c.get i else none := by
  rw [get, filter, find?_filter]
  split
  next h =>
    congr 1
    funext r
    by_cases hr : r.id = i <;> simp [hr, h]
  next h =>
    rw [find?_eq_none]
    intro r _ hr
    simp only [decide_eq_true_eq] at hr
    exact h (hr.2 ▸ hr.1)

@[simp] theorem get_reseed (rows : Catalogue) :
    (c.reseed rows).get i = if i ∈ c.ids then c.get i else rows.get i := by
  have hrest := get_filter_id (c := rows) (i := i) fun j => j ∉ c.ids
  rw [get, reseed, find?_append]
  change (c.get i).or ((rows.filter fun r => r.id ∉ c.ids).get i) = _
  rw [hrest]
  by_cases h : i ∈ c.ids
  · obtain ⟨r, hr⟩ := Option.ne_none_iff_exists'.mp (mt get_eq_none.mp (not_not_intro h))
    rw [if_pos h, hr, Option.some_or]
  · rw [if_neg h, if_pos (decide_eq_true h), get_eq_none.mpr h, Option.none_or]

end Catalogue

/-- A finished row has its archive in the bucket, and a finished row lists every archive. -/
structure Listed (d : Db) : Prop where
  stored : ∀ r ∈ d.catalogue.rows, r.status = .done → ∃ k, r.storageKey = some k ∧ (d.archives.get k).isSome
  listed : ∀ k, (d.archives.get k).isSome → ∃ r ∈ d.catalogue.rows, r.status = .done ∧ r.storageKey = some k

theorem listed_iff {d : Db} : Listed d ↔ Listing.Exact d.catalogue.lists fun k => (d.archives.get k).isSome := by
  constructor
  · intro h k
    constructor
    · intro hk
      obtain ⟨r, hr, hdone, hkey⟩ := h.listed k hk
      exact ⟨r.id, Catalogue.lists_eq_some.mpr ⟨r, hr, rfl, hdone, hkey⟩⟩
    · rintro ⟨i, hi⟩
      obtain ⟨r, hr, rfl, hdone, hkey⟩ := Catalogue.lists_eq_some.mp hi
      obtain ⟨k', hk', hstored⟩ := h.stored r hr hdone
      rw [hkey, Option.some_inj] at hk'
      exact hk' ▸ hstored
  · intro h
    constructor
    · intro r hr hdone
      obtain ⟨k, hk⟩ := Option.ne_none_iff_exists'.mp ((d.catalogue.keyed r hr).done hdone)
      exact ⟨k, hk, (h k).mpr ⟨r.id, Catalogue.lists_eq_some.mpr ⟨r, hr, rfl, hdone, hk⟩⟩⟩
    · intro k hk
      obtain ⟨i, hi⟩ := (h k).mp hk
      obtain ⟨r, hr, -, hdone, hkey⟩ := Catalogue.lists_eq_some.mp hi
      exact ⟨r, hr, hdone, hkey⟩

section Deletes

theorem row_foldl_delete (rows : List Row) (d : Db) (i : Uuid) :
    (rows.foldl Db.delete d).catalogue.get i = if i ∈ rows.map Row.id then none else d.catalogue.get i := by
  induction rows generalizing d with
  | nil => rfl
  | cons r rows ih =>
    have hget := Catalogue.get_filter_id (c := d.catalogue) (i := i) fun j => j ≠ r.id
    rw [foldl_cons, ih, Db.delete, hget]
    by_cases hi : i = r.id <;> simp [hi]

theorem lists_foldl_delete (rows : List Row) (d : Db) (i : Uuid) :
    (rows.foldl Db.delete d).catalogue.lists i = if i ∈ rows.map Row.id then none else d.catalogue.lists i := by
  rw [Catalogue.lists, row_foldl_delete]
  split
  · rfl
  · rfl

theorem archive_foldl_delete (rows : List Row) (d : Db) (k : Text) :
    (rows.foldl Db.delete d).archives.get k =
      if ∃ r ∈ rows, r.storageKey = some k then none else d.archives.get k := by
  induction rows generalizing d with
  | nil => simp
  | cons r rows ih =>
    have hget : (d.delete r).archives.get k = if r.storageKey = some k then none else d.archives.get k := by
      rw [Db.delete]
      cases hkey : r.storageKey with
      | none => simp
      | some j => simp [eq_comm]
    rw [foldl_cons, ih, hget]
    by_cases hr : r.storageKey = some k
    · simp [hr]
    · simp [hr]

theorem listed_foldl_delete {d : Db} (h : Listed d) {rows : List Row} (hrows : ∀ r ∈ rows, r ∈ d.catalogue.rows) :
    Listed (rows.foldl Db.delete d) := by
  rw [listed_iff] at h ⊢
  have hdrop := h.drop owner_unique d.catalogue.lists_owned (· ∈ rows.map Row.id)
    (fun k => ∃ r ∈ rows, r.storageKey = some k) ?_ ?_
  · intro k
    simp only [lists_foldl_delete, archive_foldl_delete]
    rw [← hdrop k]
    by_cases hk : ∃ r ∈ rows, r.storageKey = some k <;> simp [hk]
  · rintro k ⟨r, hr, hk⟩
    exact ⟨r.id, mem_map_of_mem hr, (d.catalogue.keyed r (hrows r hr)).owner hk⟩
  · intro i k hi hk
    obtain ⟨r, hr, rfl⟩ := mem_map.mp hi
    obtain ⟨x, hx, hid, _, hkey⟩ := Catalogue.lists_eq_some.mp hk
    exact ⟨r, hr, inj_on_of_nodup_map d.catalogue.nodup hx (hrows r hr) hid ▸ hkey⟩

theorem mem_doomed {settings : Settings} {tie : Uuid → ℕ} {c : Catalogue} {r : Row} (h : r ∈ doomed settings tie c) :
    r ∈ c.rows ∧ r.kind ≠ .preRestore := by
  unfold doomed at h
  split at h
  · cases h
  · have hmem := (mem_insertionSort _).mp (mem_of_mem_drop h)
    simp only [mem_filter, Bool.and_eq_true, decide_eq_true_eq] at hmem
    exact ⟨hmem.1, hmem.2.2⟩

theorem Listed.prune {d : Db} (h : Listed d) (settings : Settings) (tie : Uuid → ℕ) : Listed (d.prune settings tie) :=
  listed_foldl_delete h fun _ hr => (mem_doomed hr).1

theorem Listed.delete {d : Db} (h : Listed d) {r : Row} (hr : r ∈ d.catalogue.rows) : Listed (d.delete r) :=
  listed_foldl_delete h (by simpa using hr : ∀ x ∈ [r], x ∈ d.catalogue.rows)

end Deletes

section Builds

variable {d : Db}

theorem Listed.congr {e : Db} (h : Listed d) (hlists : e.catalogue.lists = d.catalogue.lists) (hget : e.archives = d.archives) :
    Listed e := by
  rw [listed_iff] at h ⊢
  rw [hlists, hget]
  exact h

theorem lists_update_same {c : Catalogue} {i : Uuid} {f : RowChange}
    (h : ∀ r, c.get i = some r → (f.change r).archive = r.archive) : (c.update i f).lists = c.lists := by
  funext j
  simp only [Catalogue.lists, Catalogue.get_update]
  split
  next heq =>
    subst heq
    cases hget : c.get j with
    | none => rfl
    | some r => exact h r hget
  next => rfl

theorem Listed.insert {d : Db} (h : Listed d) {r : Row} (hid : r.id ∉ d.catalogue.ids) (hr : r.Keyed) :
    (r.archive = none → Listed { d with catalogue := d.catalogue.insert r hid hr }) ∧
      ∀ k dump, r.archive = some k →
        Listed { catalogue := d.catalogue.insert r hid hr, archives := d.archives.put k dump } := by
  have hnone : d.catalogue.lists r.id = none := by rw [Catalogue.lists, Catalogue.get_eq_none.mpr hid, Option.bind_none]
  have hlists : (d.catalogue.insert r hid hr).lists = Function.update d.catalogue.lists r.id r.archive := by
    funext i
    by_cases hi : i = r.id
    · subst hi
      simp [Catalogue.lists]
    · simp [Catalogue.lists, hi]
  constructor
  · intro harchive
    refine h.congr ?_ rfl
    rw [hlists, harchive, ← hnone, Function.update_eq_self]
  · intro k dump harchive
    rw [listed_iff] at h ⊢
    rw [hlists, harchive]
    intro j
    change ((d.archives.put k dump).get j).isSome ↔ _
    rw [← h.add hnone k j, ObjectStore.get_put]
    by_cases hj : j = k <;> simp [hj]

theorem Listed.createRow (h : Listed d) (kind : Kind) (n : NewRow) (hfresh : d.Fresh n.id) : Listed (d.createRow kind n hfresh) :=
  (h.insert hfresh.1 (newRow_keyed kind n)).1 rfl

theorem Listed.importBackup (h : Listed d) (n : NewRow) (archive : Catalogue) (result : ArchiveResult) (hfresh : d.Fresh n.id) :
    Listed (importBackup n archive result d hfresh) :=
  (h.insert hfresh.1 (markImported_keyed result (newRow .imported n))).2 _ archive rfl

theorem Listed.updateBackup (h : Listed d) (id : Uuid) (note : Option Text) (pinned : Option Bool) :
    Listed (d.update id (.patch note pinned)) :=
  h.congr (lists_update_same fun _ _ => rfl) rfl

/-- The state after the archive is stored and its row is finished, before the retention. -/
def built (row : Row) (result : ArchiveResult) (now : Datetime) (d : Db) : Db where
  catalogue := (d.catalogue.update row.id .running).update row.id (.done result now)
  archives := d.archives.put (archiveKey row.id row.createdAt) (d.catalogue.update row.id .running)

theorem get_built {row : Row} {result : ArchiveResult} {now : Datetime} (hrow : row ∈ d.catalogue.rows) (i : Uuid) :
    (built row result now d).catalogue.get i =
      if i = row.id then some (row.markRunning.markDone result now) else d.catalogue.get i := by
  have hget : d.catalogue.get row.id = some row := Catalogue.get_eq_some.mpr ⟨hrow, rfl⟩
  by_cases hi : i = row.id
  · simp [built, hi, hget, RowChange.done, RowChange.running]
  · simp [built, hi]

theorem createBackup_spec (settings : Settings) (id : Uuid) (b : Build) (d : Db) :
    (d.catalogue.get id = none ∧ createBackup settings id b d = (.gone, d)) ∨
      ∃ row ∈ d.catalogue.rows, row.id = id ∧
        ((row.status = .done ∧ createBackup settings id b d = (.done, d)) ∨
          (row.status ≠ .done ∧
            ((∃ code, b.result = .error code ∧ createBackup settings id b d =
                (.failed, (d.update id .running).update id (.failed code b.finishedAt))) ∨
              ∃ result, b.result = .ok result ∧ createBackup settings id b d =
                (.done, (built row result b.finishedAt d).prune settings b.tie)))) := by
  unfold createBackup
  cases hget : d.catalogue.get id with
  | none => exact .inl ⟨rfl, rfl⟩
  | some row =>
    obtain ⟨hrow, rfl⟩ := Catalogue.get_eq_some.mp hget
    refine .inr ⟨row, hrow, rfl, ?_⟩
    by_cases hdone : row.status = .done
    · exact .inl ⟨hdone, by simp [hdone]⟩
    · refine .inr ⟨hdone, ?_⟩
      cases hresult : b.result with
      | error code => exact .inl ⟨code, rfl, by simp [hdone]⟩
      | ok result => exact .inr ⟨result, rfl, by simp [hdone, built, Db.update]⟩

theorem lists_of_not_done {c : Catalogue} {row : Row} (hrow : row ∈ c.rows) (hdone : row.status ≠ .done) :
    c.lists row.id = none := by
  rw [Catalogue.lists, Catalogue.get_eq_some.mpr ⟨hrow, rfl⟩, Option.bind_some, Row.archive, if_neg hdone]

theorem Listed.built (h : Listed d) {row : Row} (hrow : row ∈ d.catalogue.rows) (hdone : row.status ≠ .done)
    (result : ArchiveResult) (now : Datetime) : Listed (built row result now d) := by
  have hlists : (Backup.built row result now d).catalogue.lists =
      Function.update d.catalogue.lists row.id (some (archiveKey row.id row.createdAt)) := by
    funext i
    rw [Catalogue.lists, get_built hrow]
    by_cases hi : i = row.id
    · subst hi
      simp [Row.archive, Row.markDone, Row.markRunning]
    · simp [hi, Catalogue.lists]
  rw [listed_iff] at h ⊢
  rw [hlists]
  intro j
  change ((d.archives.put _ _).get j).isSome ↔ _
  rw [← h.add (lists_of_not_done hrow hdone) _ j, ObjectStore.get_put]
  by_cases hj : j = archiveKey row.id row.createdAt <;> simp [hj]

theorem Listed.createBackup (h : Listed d) (settings : Settings) (id : Uuid) (b : Build) :
    Listed (createBackup settings id b d).2 := by
  rcases createBackup_spec settings id b d with ⟨_, heq⟩ | ⟨row, hrow, rfl, ⟨_, heq⟩ | ⟨hdone, ⟨code, _, heq⟩ | ⟨result, _, heq⟩⟩⟩
  · rw [heq]
    exact h
  · rw [heq]
    exact h
  · rw [heq]
    have hget : d.catalogue.get row.id = some row := Catalogue.get_eq_some.mpr ⟨hrow, rfl⟩
    refine h.congr ?_ rfl
    refine (lists_update_same fun r hr => ?_).trans (lists_update_same fun r hr => ?_)
    · simp only [Db.update, Catalogue.get_update, if_true, hget, Option.map_some, Option.some.injEq] at hr
      subst hr
      rfl
    · rw [hget, Option.some_inj] at hr
      subst hr
      simp [RowChange.running, Row.markRunning, Row.archive, hdone]
  · rw [heq]
    exact (h.built hrow hdone result b.finishedAt).prune settings b.tie

end Builds

section Restores

def kept (settings : Settings) (tie : Uuid → ℕ) (c : Catalogue) (i : Uuid) : Option Text :=
  if i ∈ (doomed settings tie c).map Row.id then none else c.lists i

/-- The catalogue that a restore puts in place: the safety copy is built, the retention
after it keeps the archive, and the archive is readable. -/
def target (settings : Settings) (id : Uuid) (b : Build) (readable : Bool) (d : Db) : Option Catalogue :=
  match b.result, readable with
  | .ok _, true =>
    if id ∈ (doomed settings b.tie d.catalogue).map Row.id then none
    else ((d.catalogue.get id).bind Row.storageKey).bind d.archives.get
  | _, _ => none

/-- A restore agrees when each row of the restored catalogue names the archive that the
present row of its id names, and no archive where there is no such row. -/
def Agrees (settings : Settings) : Op → Db → Prop
  | .restore id _ b readable, d =>
    ∀ dump ∈ target settings id b readable d, ∀ i ∈ dump.ids, dump.lists i = kept settings b.tie d.catalogue i
  | _, _ => True

instance decidableAgrees (settings : Settings) : (op : Op) → (d : Db) → Decidable (Agrees settings op d)
  | .restore id _ b readable, d =>
    -- over the rows of the dump, not over all ids
    haveI : ∀ dump : Catalogue, Decidable (∀ i ∈ dump.ids, dump.lists i = kept settings b.tie d.catalogue i) :=
      fun dump => List.decidableBAll _ dump.ids
    inferInstanceAs (Decidable (∀ dump ∈ target settings id b readable d, ∀ i ∈ dump.ids,
      dump.lists i = kept settings b.tie d.catalogue i))
  | .request _ _, _ | .build _ _, _ | .retention _, _ | .patch _ _ _, _ | .delete _, _ | .upload _ _ _, _ =>
    isTrue trivial

def safetyRow (n : NewRow) : Row := newRow .preRestore n.safety

variable {settings : Settings} {id : Uuid} {n : NewRow} {b : Build} {d : Db}
variable {i : Uuid}

theorem safetyBackup_spec (settings : Settings) (b : Build) (h : d.Fresh n.id) :
    (∃ code, b.result = .error code ∧ (safetyBackup settings n b d h).1 = .failed) ∨
      ∃ result, b.result = .ok result ∧ safetyBackup settings n b d h = (.done,
        (built (safetyRow n) result b.finishedAt (d.createRow .preRestore n.safety h)).prune
          settings b.tie) := by
  have hget : (d.createRow .preRestore n.safety h).catalogue.get n.id = some (safetyRow n) := by
    simp [Db.createRow, newRow, safetyRow]
  rcases createBackup_spec settings n.id b (d.createRow .preRestore n.safety h) with
    ⟨hnone, _⟩ | ⟨row, hrow, hid, hcases⟩
  · rw [hget] at hnone
    cases hnone
  · have hsafety : row = safetyRow n := by
      have := Catalogue.get_eq_some.mpr ⟨hrow, hid⟩
      rw [hget, Option.some_inj] at this
      exact this.symm
    subst hsafety
    rcases hcases with ⟨hdone, _⟩ | ⟨_, ⟨code, hresult, heq⟩ | ⟨result, hresult, heq⟩⟩
    · cases hdone
    · exact .inl ⟨code, hresult, congrArg Prod.fst heq⟩
    · exact .inr ⟨result, hresult, heq⟩

/-- The safety copy is no row of the retention. -/
theorem doomed_built (h : d.Fresh n.id) (result : ArchiveResult) (now : Datetime) (tie : Uuid → ℕ) :
    doomed settings tie
        (built (safetyRow n) result now (d.createRow .preRestore n.safety h)).catalogue =
      doomed settings tie d.catalogue := by
  have habsent : (safetyRow n).id ∉ d.catalogue.rows.map Row.id := h.1
  have hrows : (built (safetyRow n) result now
      (d.createRow .preRestore n.safety h)).catalogue.rows =
        d.catalogue.rows ++ [(safetyRow n).markRunning.markDone result now] := by
    change Table.modify _ _ _ (Table.modify _ _ _ (d.catalogue.rows ++ [safetyRow n])) = _
    rw [Table.modify, Table.modify, map_append, map_append]
    change Table.modify _ _ _ (Table.modify _ _ _ _) ++ _ = _
    rw [Table.modify_absent (by rwa [Table.modify_absent habsent]), Table.modify_absent habsent]
    simp [RowChange.running, RowChange.done, Row.markRunning]
  rw [doomed, doomed, hrows, filter_append]
  simp [safetyRow, newRow, Row.markRunning, Row.markDone]

theorem get_createRow (kind : Kind) {m : NewRow} (h : d.Fresh m.id) (hi : i ≠ m.id) :
    (d.createRow kind m h).catalogue.get i = d.catalogue.get i := by
  simp [Db.createRow, newRow, hi]

theorem safe_get (h : d.Fresh n.id) (result : ArchiveResult) (hi : i ≠ n.id) :
    ((built (safetyRow n) result b.finishedAt (d.createRow .preRestore n.safety h)).prune
      settings b.tie).catalogue.get i =
        if i ∈ (doomed settings b.tie d.catalogue).map Row.id then none else d.catalogue.get i := by
  have hrow : safetyRow n ∈ (d.createRow .preRestore n.safety h).catalogue.rows :=
    mem_append_right _ mem_cons_self
  have hne : i ≠ (safetyRow n).id := hi
  rw [Db.prune, row_foldl_delete, doomed_built, get_built hrow]
  simp only [if_neg hne]
  rw [get_createRow .preRestore (show d.Fresh n.safety.id from h) hi]

theorem safe_archive (h : d.Fresh n.id) (result : ArchiveResult) (hi : i ≠ n.id) {k : Text} (hk : Owner k i)
    (hkeep : i ∉ (doomed settings b.tie d.catalogue).map Row.id) :
    ((built (safetyRow n) result b.finishedAt (d.createRow .preRestore n.safety h)).prune
      settings b.tie).archives.get k = d.archives.get k := by
  rw [Db.prune, archive_foldl_delete, doomed_built, if_neg]
  · have hne : k ≠ archiveKey n.id n.createdAt := fun heq => hi (owner_unique k i n.id hk ⟨_, heq⟩)
    change (d.archives.put (archiveKey n.id n.createdAt) _).get k = _
    rw [ObjectStore.get_put, if_neg hne]
  · rintro ⟨r, hr, hkey⟩
    have hown := (d.catalogue.keyed r (mem_doomed hr).1).owner hkey
    exact hkeep (owner_unique k i r.id hk hown ▸ mem_map_of_mem hr)

theorem restoreBackup_spec (settings : Settings) (b : Build) (h : d.Fresh n.id) (hne : n.id ≠ id) (readable : Bool) :
    (target settings id b readable d = none ∧
        (restoreBackup settings id n b readable d h).2 = (safetyBackup settings n b d h).2) ∨
      ∃ dump result, target settings id b readable d = some dump ∧
        (safetyBackup settings n b d h).2 =
          (built (safetyRow n) result b.finishedAt (d.createRow .preRestore n.safety h)).prune
            settings b.tie ∧
        (restoreBackup settings id n b readable d h).2 =
          { (safetyBackup settings n b d h).2 with
            catalogue := dump.reseed (safetyBackup settings n b d h).2.catalogue } := by
  rcases safetyBackup_spec settings b h with ⟨code, hresult, hfailed⟩ | ⟨result, hresult, heq⟩
  · left
    refine ⟨by simp [target, hresult], ?_⟩
    rw [restoreBackup]
    rcases hs : safetyBackup settings n b d h with ⟨outcome, e⟩
    rw [hs] at hfailed
    cases hfailed
    rfl
  · rw [restoreBackup, heq]
    simp only [safe_get h result hne.symm]
    by_cases hdoomed : id ∈ (doomed settings b.tie d.catalogue).map Row.id
    · left
      refine ⟨?_, ?_⟩
      · cases readable <;> simp [target, hresult, hdoomed]
      · rw [if_pos hdoomed]
        rfl
    · rw [if_neg hdoomed]
      cases hkey : (d.catalogue.get id).bind Row.storageKey with
      | none =>
        left
        refine ⟨?_, rfl⟩
        cases readable <;> simp [target, hresult, hdoomed, hkey]
      | some key =>
        obtain ⟨row, hrow, hrowkey⟩ := Option.bind_eq_some_iff.mp hkey
        obtain ⟨hmem, hid⟩ := Catalogue.get_eq_some.mp hrow
        have hown : Owner key id := hid ▸ (d.catalogue.keyed row hmem).owner hrowkey
        simp only [safe_archive h result hne.symm hown hdoomed]
        cases harchive : d.archives.get key with
        | none =>
          left
          refine ⟨?_, rfl⟩
          cases readable <;> simp [target, hresult, hdoomed, hkey, harchive]
        | some dump =>
          cases readable with
          | false => exact .inl ⟨by simp [target, hresult], rfl⟩
          | true => exact .inr ⟨dump, result, by simp [target, hresult, hdoomed, hkey, harchive], rfl, rfl⟩

theorem reseed_lists (c rows : Catalogue) :
    (c.reseed rows).lists = fun i => if i ∈ c.ids then c.lists i else rows.lists i := by
  funext i
  simp only [Catalogue.lists, Catalogue.get_reseed]
  split <;> rfl

theorem safe_lists (h : d.Fresh n.id) (result : ArchiveResult) (hi : i ≠ n.id) :
    ((built (safetyRow n) result b.finishedAt (d.createRow .preRestore n.safety h)).prune
      settings b.tie).catalogue.lists i = kept settings b.tie d.catalogue i := by
  rw [Catalogue.lists, safe_get h result hi, kept, Catalogue.lists]
  split <;> rfl

theorem Listed.restore_iff (hd : Listed d) (h : d.Fresh n.id) (hne : n.id ≠ id) (readable : Bool) :
    Listed (restoreBackup settings id n b readable d h).2 ↔ Agrees settings (.restore id n b readable) d := by
  have hsafe : Listed (safetyBackup settings n b d h).2 := (hd.createRow .preRestore n.safety h).createBackup settings n.id b
  rcases restoreBackup_spec settings b h hne readable with ⟨htarget, heq⟩ | ⟨dump, result, htarget, hs, heq⟩
  · rw [heq, Agrees, htarget]
    simpa using hsafe
  · have hfresh : ∀ i ∈ dump.ids, i ≠ n.id := by
      rintro i hi rfl
      have hstored : ∃ k, d.archives.get k = some dump := by
        unfold target at htarget
        split at htarget
        · split at htarget
          · cases htarget
          · obtain ⟨k, _, hk⟩ := Option.bind_eq_some_iff.mp htarget
            exact ⟨k, hk⟩
        · cases htarget
      obtain ⟨k, hk⟩ := hstored
      exact h.2 (k, dump) (ObjectStore.get_eq_some.mp hk) hi
    rw [heq, listed_iff, reseed_lists, Listing.exact_override_iff owner_unique (Catalogue.lists_owned _) dump.lists_owned
      (listed_iff.mp hsafe), Agrees, htarget]
    simp only [Option.mem_def, Option.some.injEq, forall_eq']
    refine forall₂_congr fun i hi => ?_
    rw [hs, safe_lists h result (hfresh i hi)]

theorem Listed.step_iff (hd : Listed d) {op : Op} {d' : Db} (hstep : step settings op d = some d') :
    Listed d' ↔ Agrees settings op d := by
  cases op with
  | request kind n =>
    obtain ⟨h, heq⟩ := Option.dite_none_right_eq_some.mp hstep
    cases heq
    exact iff_of_true (hd.createRow kind n h) trivial
  | build id b =>
    cases hstep
    exact iff_of_true (hd.createBackup settings id b) trivial
  | retention tie =>
    cases hstep
    exact iff_of_true (hd.prune settings tie) trivial
  | patch id note pinned =>
    cases hstep
    refine iff_of_true ?_ trivial
    cases hpatch : Backup.updateBackup id note pinned d with
    | error e => exact hd
    | ok d' =>
      obtain ⟨row, _, hd'⟩ := bind_ok.mp hpatch
      cases hd'
      exact hd.updateBackup id note pinned
  | delete id =>
    cases hstep
    refine iff_of_true ?_ trivial
    cases hdelete : deleteBackup id d with
    | error e => exact hd
    | ok d' =>
      obtain ⟨row, hrow, hd'⟩ := bind_ok.mp hdelete
      obtain ⟨_, _, hd'⟩ := bind_ok.mp hd'
      cases hd'
      refine hd.delete ?_
      unfold load at hrow
      split at hrow
      · next r hr =>
          cases hrow
          exact (Catalogue.get_eq_some.mp hr).1
      · cases hrow
  | upload n archive result =>
    obtain ⟨h, heq⟩ := Option.dite_none_right_eq_some.mp hstep
    cases heq
    exact iff_of_true (hd.importBackup n archive result h.1) trivial
  | restore id n b readable =>
    obtain ⟨h, heq⟩ := Option.dite_none_right_eq_some.mp hstep
    cases heq
    exact hd.restore_iff h.1 h.2 readable

theorem listed_start : Listed Db.start := ⟨by simp [Db.start, Catalogue.empty], by simp [Db.start]⟩

/-- Over a sequence of operations whose restores agree the catalogue lists the archives,
and the next operation keeps this exactly when it agrees too. -/
theorem catalogue_survives {ops : List Op} (hguard : Runs.Guarded (Agrees settings) (step settings) Db.start ops)
    (hrun : Runs.run (step settings) Db.start ops = some d) :
    Listed d ∧ ∀ op d', step settings op d = some d' → (Listed d' ↔ Agrees settings op d) := by
  have hlisted : Listed d := Runs.guarded_run (fun hd hagrees hstep => (hd.step_iff hstep).mpr hagrees) listed_start
    hguard hrun
  exact ⟨hlisted, fun op d' hstep => hlisted.step_iff hstep⟩

end Restores

section Cases

def fourteen : Settings := ⟨14⟩

def facts : ArchiveResult := ⟨1024, text "sha", 3, some (text "1.0"), none⟩

def rowAt (hour : ℕ) (id : Uuid) : NewRow := ⟨id, ⟨⟨2026, 5, 1⟩, ⟨hour, 0, 0, 0⟩⟩, none, none, text "1.0"⟩

def succeeds : Build := ⟨.ok facts, ⟨⟨2026, 5, 1⟩, ⟨12, 0, 0, 0⟩⟩, fun _ => 0⟩

/-- Some archive of the bucket is listed by no finished row. -/
def hides (d : Db) : Bool := d.archives.keys.any fun k => d.catalogue.rows.all fun r => r.archive ≠ some k

def promises (d : Db) : Bool :=
  d.catalogue.rows.any fun r => r.status = .done && ((r.storageKey.bind d.archives.get).isNone)

theorem hides_not_listed {d : Db} (h : hides d = true) : ¬ Listed d := by
  intro hd
  simp only [hides, any_eq_true, all_eq_true, decide_eq_true_eq] at h
  obtain ⟨k, hk, hnone⟩ := h
  obtain ⟨r, hr, hrow⟩ := hd.listed k (ObjectStore.mem_keys.mp hk)
  exact hnone r hr (Row.archive_eq_some.mpr hrow)

theorem promises_not_listed {d : Db} (h : promises d = true) : ¬ Listed d := by
  intro hd
  simp only [promises, any_eq_true, Bool.and_eq_true, decide_eq_true_eq, Option.isNone_iff_eq_none] at h
  obtain ⟨r, hr, hdone, hnone⟩ := h
  obtain ⟨k, hk, hstored⟩ := hd.stored r hr hdone
  rw [hk, Option.bind_some] at hnone
  rw [hnone] at hstored
  cases hstored

/-- One backup and its restore: the row of the archive stands there as running. A deleted
archive that a later backup knew comes back as a finished row without its object. -/
theorem restore_hides_and_promises :
    (∃ d, Runs.run (step fourteen) Db.start
        [.request .manual (rowAt 1 1), .build 1 succeeds, .restore 1 (rowAt 2 2) succeeds true] = some d ∧ ¬ Listed d) ∧
      ∃ d, Runs.run (step fourteen) Db.start
        [.request .manual (rowAt 1 1), .build 1 succeeds, .request .scheduled (rowAt 2 2), .build 2 succeeds, .delete 1,
         .restore 2 (rowAt 3 3) succeeds true] = some d ∧ promises d = true ∧ ¬ Listed d := by
  have hfirst : (Runs.run (step fourteen) Db.start
      [.request .manual (rowAt 1 1), .build 1 succeeds, .restore 1 (rowAt 2 2) succeeds true]).any hides = true := by
    decide +kernel
  have hsecond : (Runs.run (step fourteen) Db.start
      [.request .manual (rowAt 1 1), .build 1 succeeds, .request .scheduled (rowAt 2 2), .build 2 succeeds, .delete 1,
       .restore 2 (rowAt 3 3) succeeds true]).any promises = true := by
    decide +kernel
  obtain ⟨d, hrun, hhides⟩ := (Option.any_eq_true _ _).mp hfirst
  obtain ⟨e, hrun', hpromises⟩ := (Option.any_eq_true _ _).mp hsecond
  exact ⟨⟨d, hrun, hides_not_listed hhides⟩, e, hrun', hpromises, promises_not_listed hpromises⟩

def secondDump : Catalogue :=
  let first : Catalogue := Catalogue.empty.insert ((newRow .manual (rowAt 1 1)).markDone facts succeeds.finishedAt)
    (by decide) ⟨by simp [Row.markDone], by simp [Row.markDone]⟩
  first.insert (newRow .manual (rowAt 2 2)).markRunning (by decide)
    ⟨by simp [newRow, Row.markRunning], by simp [newRow, Row.markRunning]⟩

def uploadedAgain : List Op :=
  [.request .manual (rowAt 1 1), .build 1 succeeds, .request .manual (rowAt 2 2), .build 2 succeeds,
   .upload (rowAt 4 4) secondDump facts, .delete 2, .restore 4 (rowAt 5 5) succeeds true]

theorem uploadedAgain_survives :
    Runs.Guarded (Agrees fourteen) (step fourteen) Db.start uploadedAgain ∧
      ∃ d, Runs.run (step fourteen) Db.start uploadedAgain = some d ∧ d.catalogue.rows.length = 4 ∧ Listed d := by
  have hguard : Runs.Guarded (Agrees fourteen) (step fourteen) Db.start uploadedAgain := by decide +kernel
  have hrows : (Runs.run (step fourteen) Db.start uploadedAgain).any (fun d => d.catalogue.rows.length = 4) = true := by
    decide +kernel
  obtain ⟨d, hrun, hlength⟩ := (Option.any_eq_true _ _).mp hrows
  exact ⟨hguard, d, hrun, of_decide_eq_true hlength, (catalogue_survives hguard hrun).1⟩

end Cases

end Backup
