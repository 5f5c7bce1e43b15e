import StupaWorkflow.AttachmentModel
import StupaWorkflow.ObjectTransactions

/-!
Every request that writes the attachment rows, as a script over the rows and the bucket.
-/
namespace Files
open Py Filenames StorageKeys Uploads ObjectTx List

abbrev FileScript := Script Db Text Bytes
abbrev FileWorld := World Db Text Bytes

/-- The statements of a caller around a removal of files, in the same transaction:
those before it, such as its own audit entry, touch other tables only. -/
structure Caller where
  before : ℕ
  after : List (Owners → Option Owners)

inductive Request where
  | upload (application : Uuid) (filename : Option Text) (data : Bytes) (u id : Uuid)
  | draftUpload (token : Option Text) (generated : Text) (filename : Option Text) (data : Bytes) (now : Time) (id : Uuid)
  | create (owner : Owner) (parent : Uuid) (ids : List Uuid) (token : Text) (now : Time)
  | delete (id : Uuid)
  | draftDelete (id : Uuid) (token : Text)
  | deleteForMessages (owner : MessageOwner) (ids : List Uuid) (caller : Caller)
  | dropForMessages (owner : MessageOwner) (ids : List Uuid) (caller : Caller)
  | deleteForTicket (ticket : Uuid) (caller : Caller)
  | deleteForApplication (application : Uuid) (caller : Caller)
  | purgeBatch (now : Time)
  | purgeTokens (now : Time)
  | finalizeScan (id : Uuid) (verdict : ScanVerdict)

section Scripts

variable (U : Unicode) (O : Outside) (s : Settings) (storage : Bool) (db : Db)

/-- A statement on another table, such as the audit entry. -/
def other : Action Db Text Bytes := .statement some

def ownersStatement (f : Owners → Option Owners) : Action Db Text Bytes :=
  .statement fun db => (f db.owners).map fun owners => { db with owners }

def upload (application : Uuid) (filename : Option Text) (data : Bytes) (u id : Uuid) : Except Problem FileScript := do
  checkSize s data
  raiseUnless (application ∈ db.owners.applications)
    (.notFound (text "application " ++ Uuid.text application ++ text " not found"))
  let (_, displayName) ← validate U O s storage filename data
  let key := applicationKey U application u displayName
  return ⟨[.put key data, .statement (·.insert (applicationRow id application data.length key)), other], []⟩

def draftUpload (token : Option Text) (generated : Text) (filename : Option Text) (data : Bytes) (now : Time)
    (id : Uuid) : Except Problem FileScript := do
  let (_, displayName) ← validate U O s storage filename data
  let hash ← hashDraftToken (token.getD generated) s.magicLinkSecret
  raiseUnless (token.isNone || db.tokenAlive hash now) draftTokenInvalid
  checkQuota s db hash data.length
  let key := draftKey U id displayName
  return ⟨[.put key data, .statement fun db => some (db.upsertToken hash (now + days s.attachmentDraftTtlDays)),
    .statement (·.insert (draftRow id hash data.length key)), other], []⟩

/-- `check_drafts`, the insert of the owner and `bind_drafts`. -/
def create (owner : Owner) (parent : Uuid) (ids : List Uuid) (token : Text) (now : Time) : Except Problem FileScript := do
  let hash ← hashDraftToken token s.magicLinkSecret
  let rows := db.attachments.filter (·.listedDraft ids hash)
  let missing := missingDrafts ids rows ((db.token hash).map (·.expiresAt)) now
  raiseUnless missing.isEmpty (draftAttachmentsMissing missing)
  return ⟨[ownersStatement fun o => some (o.add owner parent),
    .statement fun db => some (db.updateWhere (·.bindable ids hash) (·.bind owner)), other], []⟩

/-- The keys whose objects `remove_objects` removes. -/
def objectKeys (rows : List Attachment) : List Text := if storage then rows.filterMap (·.storageKey) else []

def delete (id : Uuid) : Except Problem FileScript :=
  match db.row id with
  | some a =>
    if a.applicationId.isNone then .error (attachmentNotFound id)
    else .ok ⟨(objectKeys storage [a]).map .remove ++
      [.statement fun db => some (db.deleteWhere (·.id = id)), other], []⟩
  | none => .error (attachmentNotFound id)

def draftDelete (id : Uuid) (token : Text) : Except Problem FileScript := do
  let hash ← hashDraftToken token s.magicLinkSecret
  let rows := db.attachments.filter fun a => a.id = id && a.draftOf hash
  raiseUnless (!rows.isEmpty) (attachmentNotFound id)
  return ⟨[.statement fun db => some (db.deleteWhere fun a => a.id = id && a.draftOf hash), other],
    objectKeys storage rows⟩

/-- `_drop_rows`: the deletes with their flush, then one audit entry for each row. -/
def dropRows (p : Attachment → Bool) : List (Action Db Text Bytes) :=
  .statement (fun db => some (db.deleteWhere p)) :: (db.attachments.filter p).map fun _ => other

/-- `_remove_rows` inside the transaction of a caller that commits. -/
def removeRows (caller : Caller) (p : Attachment → Bool) : FileScript :=
  ⟨List.replicate caller.before other ++ dropRows db p ++
    (objectKeys storage (db.attachments.filter p)).map .remove ++ caller.after.map ownersStatement, []⟩

/-- `_drop_rows` inside such a transaction, with `remove_objects` after the commit. -/
def dropThenRemove (caller : Caller) (p : Attachment → Bool) : FileScript :=
  ⟨List.replicate caller.before other ++ dropRows db p ++ caller.after.map ownersStatement,
    objectKeys storage (db.attachments.filter p)⟩

def ofMessages (owner : MessageOwner) (ids : List Uuid) (a : Attachment) : Bool :=
  (owner.column a).any (ids.contains ·)

def ofTicket (o : Owners) (ticket : Uuid) (a : Attachment) : Bool :=
  a.ticketId = some ticket || a.ticketNoteId.any fun note => o.ticketNotes.contains (note, ticket)

def ofApplication (o : Owners) (application : Uuid) (a : Attachment) : Bool :=
  a.applicationId = some application || a.commentId.any fun comment => o.comments.contains (comment, application)

def expiredAt (now : Time) (a : Attachment) : Option Time :=
  if a.applicationId.isNone then
    (a.draftTokenHash.bind fun h => (db.token h).map (·.expiresAt)).filter (· ≤ now)
  else none

def expiredDrafts (now : Time) : List Attachment :=
  ((db.attachments.filter fun a => (expiredAt db now a).isSome).mergeSort fun a b =>
    (expiredAt db now a).getD 0 ≤ (expiredAt db now b).getD 0).take purgeBatchSize

def purgeBatch (now : Time) : FileScript :=
  let rows := expiredDrafts db now
  ⟨[.statement fun db => some (db.deleteWhere fun a => (rows.map (·.id)).contains a.id)], objectKeys storage rows⟩

def purgeTokens (now : Time) : FileScript :=
  ⟨[.statement fun db => some (db.deleteTokens fun t =>
    t.expiresAt ≤ now && !(db.attachments.any (·.draftTokenHash = some t.tokenHash)))], []⟩

def finalizeScan (id : Uuid) (verdict : ScanVerdict) : FileScript :=
  match db.row id with
  | none => ⟨[], []⟩
  | some a =>
    let record : Action Db Text Bytes := .statement fun db => some (db.updateWhere (·.id = id) (recordVerdict verdict))
    if verdict.clean then ⟨[record], []⟩ else ⟨[record, other], objectKeys storage [a]⟩

def script : Request → Except Problem FileScript
  | .upload application filename data u id => upload U O s storage db application filename data u id
  | .draftUpload token generated filename data now id => draftUpload U O s storage db token generated filename data now id
  | .create owner parent ids token now => create s db owner parent ids token now
  | .delete id => delete storage db id
  | .draftDelete id token => draftDelete s storage db id token
  | .deleteForMessages owner ids caller => .ok (removeRows storage db caller (ofMessages owner ids))
  | .dropForMessages owner ids caller => .ok (dropThenRemove storage db caller (ofMessages owner ids))
  | .deleteForTicket ticket caller => .ok (removeRows storage db caller (ofTicket db.owners ticket))
  | .deleteForApplication application caller => .ok (removeRows storage db caller (ofApplication db.owners application))
  | .purgeBatch now => .ok (purgeBatch storage db now)
  | .purgeTokens now => .ok (purgeTokens now)
  | .finalizeScan id verdict => .ok (finalizeScan storage db id verdict)

end Scripts

section Runs

/-- A request with the storage it has and what fails on its way. -/
structure Step where
  request : Request
  storage : Bool
  faults : Faults Text

variable (U : Unicode) (O : Outside) (s : Settings)

def step (w : FileWorld) (st : Step) : FileWorld :=
  match script U O s st.storage w.db st.request with
  | .ok sc => exec w sc st.faults
  | .error _ => w

def run (w : FileWorld) (steps : List Step) : FileWorld := steps.foldl (step U O s) w

def CalmStep (w : FileWorld) (st : Step) : Prop :=
  ∀ sc, script U O s st.storage w.db st.request = .ok sc → Calm w sc st.faults

def CalmRun (w : FileWorld) : List Step → Prop
  | [] => True
  | st :: rest => CalmStep U O s w st ∧ CalmRun (step U O s w st) rest

def refs (db : Db) : List Text := db.attachments.filterMap (·.storageKey)

def Step.drawn (st : Step) : Option Uuid :=
  match st.request with
  | .upload _ _ _ u _ => some u
  | _ => none

def start (owners : Owners) : FileWorld := ⟨⟨owners, [], []⟩, .empty⟩

end Runs

section Shape

variable (U : Unicode) (db : Db) (sc : FileScript) (drawn : Option Uuid)

def KeyOf (used : List Uuid) (a : Attachment) (k : Text) : Prop :=
  (∃ name, k = draftKey U a.id name) ∨ ∃ application u name, u ∈ used ∧ k = applicationKey U application u name

structure Adds (a : Attachment) (k : Text) : Prop where
  final : ∀ q, finalDb db sc.body = some q → q.attachments = db.attachments ++ [a] ∧ db.row a.id = none
  key : a.storageKey = some k
  built : KeyOf U drawn.toList a k
  puts : ∃ v, .put k v ∈ sc.body
  keeps : ∀ j, .remove j ∉ sc.body
  cleanup : sc.cleanup = []

/-- The script changes rows one by one, and frees only keys that it takes from them. -/
structure Trims (g : Attachment → Option Attachment) : Prop where
  final : ∀ q, finalDb db sc.body = some q → q.attachments = db.attachments.filterMap g
  id : ∀ a b, g a = some b → b.id = a.id
  key : ∀ a b k, g a = some b → b.storageKey = some k → a.storageKey = some k
  freed : ∀ k, .remove k ∈ sc.body ∨ k ∈ sc.cleanup →
    ∃ a ∈ db.attachments, a.storageKey = some k ∧ ∀ b, g a = some b → b.storageKey ≠ some k
  noPut : ∀ k v, .put k v ∉ sc.body

variable {U db sc drawn}
variable {p : Attachment → Bool}

def without (p : Attachment → Bool) (a : Attachment) : Option Attachment := if p a then none else some a

theorem filterMap_without (p : Attachment → Bool) (rows : List Attachment) :
    rows.filterMap (without p) = rows.filter fun a => !p a := by
  rw [← filterMap_eq_filter]
  congr 1
  funext a
  cases hp : p a <;> simp [without, hp, Option.guard]

theorem without_eq {a b : Attachment} (h : without p a = some b) : p a = false ∧ b = a := by
  unfold without at h
  split at h
  · cases h
  · next hp => exact ⟨by simpa using hp, (Option.some.inj h).symm⟩

theorem trims_without (final : ∀ q, finalDb db sc.body = some q → q.attachments = db.attachments.filter fun a => !p a)
    (freed : ∀ k, .remove k ∈ sc.body ∨ k ∈ sc.cleanup → ∃ a ∈ db.attachments, p a ∧ a.storageKey = some k)
    (noPut : ∀ k v, .put k v ∉ sc.body) : Trims db sc (without p) where
  final q hq := by rw [final q hq, filterMap_without]
  id a b h := by rw [(without_eq h).2]
  key a b k h hk := (without_eq h).2 ▸ hk
  freed k hk := by
    obtain ⟨a, hmem, hp, hkey⟩ := freed k hk
    exact ⟨a, hmem, hkey, fun b hb => by simp [(without_eq hb).1] at hp⟩
  noPut := noPut

/-- An update that keeps the id and may only clear the key. -/
theorem trims_update {f : Attachment → Attachment}
    (final : ∀ q, finalDb db sc.body = some q → q.attachments = db.attachments.map fun a => if p a then f a else a)
    (id : ∀ a, (f a).id = a.id) (key : ∀ a k, (f a).storageKey = some k → a.storageKey = some k)
    (freed : ∀ k, .remove k ∈ sc.body ∨ k ∈ sc.cleanup →
      ∃ a ∈ db.attachments, a.storageKey = some k ∧ p a ∧ (f a).storageKey = none)
    (noPut : ∀ k v, .put k v ∉ sc.body) : Trims db sc fun a => some (if p a then f a else a) where
  final q hq := by rw [final q hq, ← filterMap_eq_map]; rfl
  id a b h := by
    obtain rfl := Option.some.inj h
    split
    · exact id a
    · rfl
  key a b k h hk := by
    obtain rfl := Option.some.inj h
    split at hk
    · exact key a k hk
    · exact hk
  freed k hk := by
    obtain ⟨a, hmem, hkey, hp, hnone⟩ := freed k hk
    refine ⟨a, hmem, hkey, fun b hb => ?_⟩
    obtain rfl := Option.some.inj hb
    simp [hp, hnone]
  noPut := noPut

end Shape

section Scripts

variable {U : Unicode} {O : Outside} {s : Settings} {storage : Bool} {db q : Db} {sc : FileScript}
variable {id : Uuid} {filename : Option Text} {now : Time}

theorem mem_objectKeys {rows : List Attachment} {k : Text} (h : k ∈ objectKeys storage rows) :
    ∃ a ∈ rows, a.storageKey = some k := by
  unfold objectKeys at h
  split at h
  · exact mem_filterMap.mp h
  · cases h

theorem insert_some {a : Attachment} (h : db.insert a = some q) : q = db.append a ∧ db.row a.id = none := by
  unfold Db.insert at h
  split at h
  · next hcheck =>
      simp only [Bool.and_eq_true, Option.isNone_iff_eq_none] at hcheck
      exact ⟨(Option.some.inj h).symm, hcheck.1.1.2⟩
  · cases h

theorem upsertToken_attachments (hash : Digest) (expiresAt : Time) (db : Db) :
    (db.upsertToken hash expiresAt).attachments = db.attachments := by
  unfold Db.upsertToken
  split <;> rfl

theorem upload_adds {application u : Uuid} {data : Bytes} (h : upload U O s storage db application filename data u id = .ok sc) :
    ∃ a k, Adds U db sc (some u) a k := by
  simp only [upload, bind_ok, pure_ok] at h
  obtain ⟨_, _, _, _, ⟨_, displayName⟩, _, rfl⟩ := h
  refine ⟨applicationRow id application data.length (applicationKey U application u displayName), _, ?_, rfl,
    .inr ⟨application, u, displayName, by simp, rfl⟩, ⟨data, by simp⟩, by simp [other], rfl⟩
  intro q hq
  simp only [finalDb, other, Option.bind_some, Option.bind_eq_some_iff, Option.some.injEq] at hq
  obtain ⟨q', hinsert, rfl⟩ := hq
  obtain ⟨rfl, hrow⟩ := insert_some hinsert
  exact ⟨rfl, hrow⟩

theorem draftUpload_adds {token : Option Text} {generated : Text} {data : Bytes}
    (h : draftUpload U O s storage db token generated filename data now id = .ok sc) : ∃ a k, Adds U db sc none a k := by
  simp only [draftUpload, bind_ok, pure_ok] at h
  obtain ⟨⟨_, displayName⟩, _, hash, _, _, _, _, _, rfl⟩ := h
  refine ⟨draftRow id hash data.length (draftKey U id displayName), _, ?_, rfl, .inl ⟨displayName, rfl⟩,
    ⟨data, by simp⟩, by simp [other], rfl⟩
  intro q hq
  simp only [finalDb, other, Option.bind_some, Option.bind_eq_some_iff, Option.some.injEq] at hq
  obtain ⟨q', hinsert, rfl⟩ := hq
  obtain ⟨rfl, hrow⟩ := insert_some hinsert
  rw [Db.row, upsertToken_attachments] at hrow
  exact ⟨by rw [Db.append, upsertToken_attachments], hrow⟩

theorem ownersStatement_keeps {f : Owners → Option Owners} {p q : Db}
    (h : (f p.owners).map (fun owners => { p with owners }) = some q) : q.attachments = p.attachments := by
  obtain ⟨owners, _, rfl⟩ := Option.map_eq_some_iff.mp h
  rfl

def Quiet (body : List (Action Db Text Bytes)) : Prop :=
  ∀ f, .statement f ∈ body → ∀ p q, f p = some q → q.attachments = p.attachments

theorem quiet_replicate (n : ℕ) : Quiet (List.replicate n other) := by
  intro f hf p q hq
  have heq := Action.statement.inj (eq_of_mem_replicate hf)
  rw [heq] at hq
  rw [Option.some.inj hq]

theorem quiet_map_other {α : Type} (l : List α) : Quiet (l.map fun _ => other) := by
  rw [map_const']
  exact quiet_replicate l.length

theorem quiet_owners (l : List (Owners → Option Owners)) : Quiet (l.map ownersStatement) := by
  intro f hf p q hq
  obtain ⟨g, _, heq⟩ := mem_map.mp hf
  rw [← Action.statement.inj heq] at hq
  exact ownersStatement_keeps hq

theorem quiet_remove (keys : List Text) : Quiet (keys.map .remove) := by
  intro f hf
  obtain ⟨k, _, heq⟩ := mem_map.mp hf
  cases heq

theorem Quiet.append {xs ys : List (Action Db Text Bytes)} (hx : Quiet xs) (hy : Quiet ys) : Quiet (xs ++ ys) := by
  intro f hf
  exact (mem_append.mp hf).elim (hx f) (hy f)

theorem finalDb_delete {b a : List (Action Db Text Bytes)} {p : Attachment → Bool} (hb : Quiet b) (ha : Quiet a)
    (h : finalDb db (b ++ .statement (fun db => some (db.deleteWhere p)) :: a) = some q) :
    q.attachments = db.attachments.filter fun a => !p a := by
  rw [finalDb_append] at h
  obtain ⟨mid, hmid, h⟩ := Option.bind_eq_some_iff.mp h
  rw [finalDb, Option.bind_some] at h
  rw [finalDb_keeps Db.attachments ha h, Db.deleteWhere, finalDb_keeps Db.attachments hb hmid]

theorem removeRows_trims (caller : Caller) (p : Attachment → Bool) :
    Trims db (removeRows storage db caller p) (without p) := by
  refine trims_without (fun q hq => ?_) (fun k hk => ?_) (by simp [removeRows, dropRows, other, ownersStatement])
  · simp only [removeRows, dropRows, append_assoc, cons_append] at hq
    exact finalDb_delete (quiet_replicate _) ((quiet_map_other _).append ((quiet_remove _).append (quiet_owners _))) hq
  · have hkeys : k ∈ objectKeys storage (db.attachments.filter p) := by
      simpa [removeRows, dropRows, other, ownersStatement] using hk
    obtain ⟨a, hmem, hkey⟩ := mem_objectKeys hkeys
    exact ⟨a, (mem_filter.mp hmem).1, (mem_filter.mp hmem).2, hkey⟩

theorem dropThenRemove_trims (caller : Caller) (p : Attachment → Bool) :
    Trims db (dropThenRemove storage db caller p) (without p) := by
  refine trims_without (fun q hq => ?_) (fun k hk => ?_) (by simp [dropThenRemove, dropRows, other, ownersStatement])
  · simp only [dropThenRemove, dropRows, append_assoc, cons_append] at hq
    exact finalDb_delete (quiet_replicate _) ((quiet_map_other _).append (quiet_owners _)) hq
  · have hkeys : k ∈ objectKeys storage (db.attachments.filter p) := by
      simpa [dropThenRemove, dropRows, other, ownersStatement] using hk
    obtain ⟨a, hmem, hkey⟩ := mem_objectKeys hkeys
    exact ⟨a, (mem_filter.mp hmem).1, (mem_filter.mp hmem).2, hkey⟩

theorem delete_trims (h : delete storage db id = .ok sc) : Trims db sc (without (·.id = id)) := by
  unfold delete at h
  split at h
  · next a hrow =>
      split at h
      · cases h
      · obtain rfl := Except.ok.inj h
        refine trims_without (fun q hq => ?_) (fun k hk => ?_) (by simp [other])
        · exact finalDb_delete (quiet_remove _) (quiet_replicate 1) hq
        · have hkeys : k ∈ objectKeys storage [a] := by simpa [other] using hk
          obtain ⟨b, hmem, hkey⟩ := mem_objectKeys hkeys
          obtain rfl := mem_singleton.mp hmem
          exact ⟨b, (row_some hrow).1, decide_eq_true (row_some hrow).2, hkey⟩
  · cases h

theorem draftDelete_trims {token : Text} (h : draftDelete s storage db id token = .ok sc) : ∃ g, Trims db sc g := by
  simp only [draftDelete, bind_ok, pure_ok] at h
  obtain ⟨hash, _, _, _, rfl⟩ := h
  refine ⟨_, trims_without (p := fun a => a.id = id && a.draftOf hash) (fun q hq => ?_) (fun k hk => ?_)
    (by simp [other])⟩
  · exact finalDb_delete (b := []) (fun f hf => by cases hf) (quiet_replicate 1) hq
  · have hkeys := hk.resolve_left (by simp [other])
    obtain ⟨a, hmem, hkey⟩ := mem_objectKeys hkeys
    exact ⟨a, (mem_filter.mp hmem).1, (mem_filter.mp hmem).2, hkey⟩

theorem mem_expiredDrafts {a : Attachment} (h : a ∈ expiredDrafts db now) : a ∈ db.attachments ∧ (expiredAt db now a).isSome := by
  have hmem := mem_mergeSort.mp (mem_of_mem_take h)
  exact mem_filter.mp hmem

theorem purgeBatch_trims (now : Time) : ∃ g, Trims db (purgeBatch storage db now) g := by
  refine ⟨_, trims_without (p := fun a => ((expiredDrafts db now).map (·.id)).contains a.id) (fun q hq => ?_)
    (fun k hk => ?_) (by simp [purgeBatch])⟩
  · exact finalDb_delete (b := []) (fun f hf => by cases hf) (fun f hf => by cases hf) hq
  · have hkeys := hk.resolve_left (by simp [purgeBatch])
    obtain ⟨a, hmem, hkey⟩ := mem_objectKeys hkeys
    exact ⟨a, (mem_expiredDrafts hmem).1, contains_iff_mem.mpr (mem_map_of_mem hmem), hkey⟩

theorem purgeTokens_trims (now : Time) : ∃ g, Trims db (purgeTokens now) g := by
  refine ⟨_, trims_without (p := fun a => a.draftTokenHash.any fun h => db.tokens.any fun t =>
    (t.expiresAt ≤ now && !(db.attachments.any (·.draftTokenHash = some t.tokenHash))) && t.tokenHash = h)
    (fun q hq => ?_) (by simp [purgeTokens]) (by simp [purgeTokens])⟩
  simp only [purgeTokens, finalDb, Option.bind_some, Option.some.injEq] at hq
  rw [← hq, Db.deleteTokens]

theorem finalizeScan_trims (id : Uuid) (verdict : ScanVerdict) :
    ∃ g, Trims db (finalizeScan storage db id verdict) g := by
  unfold finalizeScan
  split
  · exact ⟨_, trims_without (p := fun _ => false) (fun q hq => by cases hq; simp) (by simp) (by simp)⟩
  · next a hrow =>
      have hid : ∀ b, (recordVerdict verdict b).id = b.id := fun b => rfl
      have hkey : ∀ b k, (recordVerdict verdict b).storageKey = some k → b.storageKey = some k := by
        intro b k hk
        simp only [recordVerdict] at hk
        split at hk
        · exact hk
        · cases hk
      split
      · refine ⟨_, trims_update (p := (·.id = id)) (fun q hq => ?_) hid hkey (by simp) (by simp)⟩
        cases hq
        rfl
      · next hclean =>
          refine ⟨_, trims_update (p := (·.id = id)) (fun q hq => ?_) hid hkey (fun k hk => ?_) (by simp [other])⟩
          · cases hq
            rfl
          · have hkeys := hk.resolve_left (by simp [other])
            obtain ⟨b, hmem, hb⟩ := mem_objectKeys hkeys
            obtain rfl := mem_singleton.mp hmem
            exact ⟨b, (row_some hrow).1, hb, decide_eq_true (row_some hrow).2, by simp [recordVerdict, hclean]⟩

theorem bind_id (owner : Owner) (a : Attachment) : (a.bind owner).id = a.id := by
  rcases owner with id | id | ⟨kind, id⟩
  · rfl
  · rfl
  · cases kind <;> rfl

theorem bind_storageKey (owner : Owner) (a : Attachment) : (a.bind owner).storageKey = a.storageKey := by
  rcases owner with id | id | ⟨kind, id⟩
  · rfl
  · rfl
  · cases kind <;> rfl

theorem create_trims {owner : Owner} {parent : Uuid} {ids : List Uuid} {token : Text}
    (h : create s db owner parent ids token now = .ok sc) : ∃ g, Trims db sc g := by
  simp only [create, bind_ok, pure_ok] at h
  obtain ⟨hash, _, _, _, rfl⟩ := h
  refine ⟨_, trims_update (p := (·.bindable ids hash)) (f := (·.bind owner)) (fun q hq => ?_) (bind_id owner)
    (fun a k hk => bind_storageKey owner a ▸ hk) (by simp [other, ownersStatement]) (by simp [other, ownersStatement])⟩
  cases hq
  rfl

theorem script_shape {st : Step} (h : script U O s st.storage db st.request = .ok sc) :
    (∃ a k, Adds U db sc st.drawn a k) ∨ ∃ g, Trims db sc g := by
  obtain ⟨request, storage, faults⟩ := st
  cases request with
  | upload application filename data u id => exact .inl (upload_adds h)
  | draftUpload token generated filename data now id => exact .inl (draftUpload_adds h)
  | create owner parent ids token now => exact .inr (create_trims h)
  | delete id => exact .inr ⟨_, delete_trims h⟩
  | draftDelete id token => exact .inr (draftDelete_trims h)
  | deleteForMessages owner ids caller => exact .inr ⟨_, Except.ok.inj h ▸ removeRows_trims caller _⟩
  | dropForMessages owner ids caller => exact .inr ⟨_, Except.ok.inj h ▸ dropThenRemove_trims caller _⟩
  | deleteForTicket ticket caller => exact .inr ⟨_, Except.ok.inj h ▸ removeRows_trims caller _⟩
  | deleteForApplication application caller => exact .inr ⟨_, Except.ok.inj h ▸ removeRows_trims caller _⟩
  | purgeBatch now => exact .inr (Except.ok.inj h ▸ purgeBatch_trims now)
  | purgeTokens now => exact .inr (Except.ok.inj h ▸ purgeTokens_trims now)
  | finalizeScan id verdict => exact .inr (Except.ok.inj h ▸ finalizeScan_trims id verdict)

end Scripts

section Invariant

variable {U : Unicode} {O : Outside} {s : Settings} {db : Db} {sc : FileScript} {used : List Uuid} {drawn : Option Uuid}
variable {k : Text} {a b : Attachment} {g : Attachment → Option Attachment} {st : Step} {w : FileWorld}

/-- Two rows do not name one key. -/
def Apart (a b : Attachment) : Prop := ∀ k, a.storageKey = some k → b.storageKey ≠ some k

/-- The rows have different ids and different keys, and each key is built from the
id of its row or from a UUID drawn before. -/
structure Wf (U : Unicode) (used : List Uuid) (db : Db) : Prop where
  ids : (db.attachments.map (·.id)).Nodup
  apart : db.attachments.Pairwise Apart
  built : ∀ a ∈ db.attachments, ∀ k, a.storageKey = some k → KeyOf U used a k

theorem refs_nodup (h : db.attachments.Pairwise Apart) : (refs db).Nodup := by
  unfold refs List.Nodup
  rw [pairwise_filterMap]
  refine h.imp fun {a b} hab k hk j hj heq => ?_
  exact hab k hk (heq ▸ hj)

theorem mem_refs : k ∈ refs db ↔ ∃ a ∈ db.attachments, a.storageKey = some k := mem_filterMap

instance : Std.Symm Apart := ⟨fun _ _ h k hb ha => h k ha hb⟩

theorem Wf.row_eq (h : Wf U used db) (ha : a ∈ db.attachments) (hb : b ∈ db.attachments) (hak : a.storageKey = some k)
    (hbk : b.storageKey = some k) : a = b := by
  by_contra hne
  exact h.apart.forall ha hb hne k hak hbk

theorem KeyOf.mono {more : List Uuid} (h : KeyOf U used a k) : KeyOf U (more ++ used) a k :=
  h.imp_right fun ⟨application, u, name, hu, hk⟩ => ⟨application, u, name, mem_append_right _ hu, hk⟩

theorem Adds.fresh (h : Adds U db sc drawn a k) (hwf : Wf U used db) (hdrawn : ∀ u ∈ drawn, u ∉ used) (hrow : db.row a.id = none)
    (hb : b ∈ db.attachments) : b.storageKey ≠ some k := by
  intro hk
  have hid : b.id ≠ a.id := by
    unfold Db.row at hrow
    simpa using find?_eq_none.mp hrow b hb
  rcases h.built with ⟨name, hnew⟩ | ⟨application, u, name, hu, hnew⟩
  · rcases hwf.built b hb k hk with ⟨name', hold⟩ | ⟨_, _, _, _, hold⟩
    · exact hid (draftKey_inj (hnew.symm.trans hold)).symm
    · exact draftKey_ne_applicationKey (hnew.symm.trans hold)
  · rcases hwf.built b hb k hk with ⟨name', hold⟩ | ⟨_, v, _, hv, hold⟩
    · exact draftKey_ne_applicationKey (hold.symm.trans hnew)
    · have huv : u = v := applicationKey_inj (hnew.symm.trans hold)
      exact hdrawn u (by simpa using hu) (huv ▸ hv)

theorem Adds.wf (h : Adds U db sc drawn a k) (hwf : Wf U used db) (hdrawn : ∀ u ∈ drawn, u ∉ used) {q : Db}
    (hq : finalDb db sc.body = some q) : Wf U (drawn.toList ++ used) q := by
  obtain ⟨hrows, hrow⟩ := h.final q hq
  refine ⟨?_, ?_, ?_⟩
  · rw [hrows]
    refine Table.nodup_insert hwf.ids fun b hb heq => ?_
    exact find?_eq_none.mp hrow b hb (decide_eq_true heq)
  · rw [hrows, pairwise_append]
    refine ⟨hwf.apart, by simp, fun b hb c hc => ?_⟩
    obtain rfl := mem_singleton.mp hc
    intro j hbj hcj
    obtain rfl := Option.some.inj (hcj.symm.trans h.key)
    exact h.fresh hwf hdrawn hrow hb hbj
  · intro b hb j hj
    rw [hrows] at hb
    rcases mem_append.mp hb with hb | hb
    · exact (hwf.built b hb j hj).mono
    · obtain rfl := mem_singleton.mp hb
      obtain rfl := Option.some.inj (hj.symm.trans h.key)
      exact h.built.imp_right fun ⟨application, u, name, hu, heq⟩ =>
        ⟨application, u, name, mem_append_left _ hu, heq⟩

theorem Adds.tidy (h : Adds U db sc drawn a k) (hwf : Wf U used db) (hdrawn : ∀ u ∈ drawn, u ∉ used) : Tidy refs db sc where
  nodup q hq := refs_nodup (h.wf hwf hdrawn hq).apart
  known q hq j hj := by
    obtain ⟨b, hb, hbj⟩ := mem_refs.mp hj
    rw [(h.final q hq).1] at hb
    rcases mem_append.mp hb with hb | hb
    · exact .inl (mem_refs.mpr ⟨b, hb, hbj⟩)
    · obtain rfl := mem_singleton.mp hb
      obtain rfl := Option.some.inj (hbj.symm.trans h.key)
      exact .inr h.puts
  removed q _ j hj := absurd hj (h.keeps j)
  cleanup q _ j hj := by
    rw [h.cleanup] at hj
    cases hj

theorem Trims.wf (h : Trims db sc g) (hwf : Wf U used db) (more : List Uuid) {q : Db} (hq : finalDb db sc.body = some q) :
    Wf U (more ++ used) q := by
  have hrows := h.final q hq
  refine ⟨?_, ?_, ?_⟩
  · rw [hrows]
    exact Table.nodup_filterMap hwf.ids h.id
  · rw [hrows, pairwise_filterMap]
    refine hwf.apart.imp fun {a b} hab c hc d hd k hck hdk => ?_
    exact hab k (h.key a c k hc hck) (h.key b d k hd hdk)
  · intro b hb k hk
    rw [hrows] at hb
    obtain ⟨a, ha, hab⟩ := mem_filterMap.mp hb
    have hbuilt : KeyOf U (more ++ used) a k := (hwf.built a ha k (h.key a b k hab hk)).mono
    unfold KeyOf at hbuilt ⊢
    rwa [h.id a b hab]

theorem Trims.freed_gone (h : Trims db sc g) (hwf : Wf U used db) {q : Db} (hq : finalDb db sc.body = some q)
    (hk : .remove k ∈ sc.body ∨ k ∈ sc.cleanup) : k ∉ refs q := by
  intro href
  obtain ⟨b, hb, hbk⟩ := mem_refs.mp href
  rw [h.final q hq] at hb
  obtain ⟨a, ha, hab⟩ := mem_filterMap.mp hb
  obtain ⟨c, hc, hck, hgone⟩ := h.freed k hk
  obtain rfl := hwf.row_eq ha hc (h.key a b k hab hbk) hck
  exact hgone b hab hbk

theorem Trims.tidy (h : Trims db sc g) (hwf : Wf U used db) : Tidy refs db sc where
  nodup q hq := refs_nodup (h.wf hwf [] hq).apart
  known q hq j hj := by
    obtain ⟨b, hb, hbj⟩ := mem_refs.mp hj
    rw [h.final q hq] at hb
    obtain ⟨a, ha, hab⟩ := mem_filterMap.mp hb
    exact .inl (mem_refs.mpr ⟨a, ha, h.key a b j hab hbj⟩)
  removed q hq j hj := h.freed_gone hwf hq (.inl hj)
  cleanup q hq j hj := h.freed_gone hwf hq (.inr hj)

theorem script_tidy (h : script U O s st.storage db st.request = .ok sc) (hwf : Wf U used db) (hdrawn : ∀ u ∈ st.drawn, u ∉ used) :
    Tidy refs db sc ∧ ∀ q, finalDb db sc.body = some q → Wf U (st.drawn.toList ++ used) q := by
  rcases script_shape h with ⟨a, k, hadds⟩ | ⟨g, htrims⟩
  · exact ⟨hadds.tidy hwf hdrawn, fun q hq => hadds.wf hwf hdrawn hq⟩
  · exact ⟨htrims.tidy hwf, fun q hq => htrims.wf hwf _ hq⟩

theorem script_removes (h : script U O s st.storage db st.request = .ok sc) (k : Text) (hk : .remove k ∈ sc.body) :
    k ∈ refs db ∧ ∀ v, .put k v ∉ sc.body := by
  rcases script_shape h with ⟨a, j, hadds⟩ | ⟨g, htrims⟩
  · exact absurd hk (hadds.keeps k)
  · obtain ⟨a, ha, hak, _⟩ := htrims.freed k (.inl hk)
    exact ⟨mem_refs.mpr ⟨a, ha, hak⟩, htrims.noPut k⟩

theorem exec_db_cases (w : FileWorld) (sc : FileScript) (faults : Faults Text) :
    (exec w sc faults).db = w.db ∨ finalDb w.db sc.body = some (exec w sc faults).db := by
  cases hcommits : commits w sc faults with
  | false => exact .inl (by rw [exec_of_not_commits hcommits])
  | true =>
    obtain ⟨objects, q, hbody, hexec⟩ := exec_of_commits hcommits
    rw [hexec]
    exact .inr (execBody_db (by rw [hbody]))

theorem Wf.mono {more : List Uuid} (h : Wf U used db) : Wf U (more ++ used) db :=
  ⟨h.ids, h.apart, fun a ha k hk => (h.built a ha k hk).mono⟩

theorem step_wf (hwf : Wf U used w.db) (hdrawn : ∀ u ∈ st.drawn, u ∉ used) :
    Wf U (st.drawn.toList ++ used) (step U O s w st).db := by
  unfold step
  split
  · next sc hsc =>
      rcases exec_db_cases w sc st.faults with hdb | hdb
      · rw [hdb]
        exact hwf.mono
      · exact (script_tidy hsc hwf hdrawn).2 _ hdb
  · exact hwf.mono

theorem step_backed_iff (hw : Backed refs w) (hwf : Wf U used w.db) (hdrawn : ∀ u ∈ st.drawn, u ∉ used) :
    Backed refs (step U O s w st) ↔ CalmStep U O s w st := by
  unfold step CalmStep
  cases hsc : script U O s st.storage w.db st.request with
  | error e => exact iff_of_true hw (fun sc h => by cases h)
  | ok sc =>
    constructor
    · intro hbacked sc' heq
      obtain rfl := Except.ok.inj heq
      by_contra hcalm
      exact exec_not_backed (script_removes hsc) hcalm hbacked
    · intro hcalm
      exact exec_backed hw (script_tidy hsc hwf hdrawn).1 (hcalm sc rfl)

theorem run_backed_iff {steps : List Step} (hw : Backed refs w) (hwf : Wf U used w.db)
    (hdrawn : (steps.filterMap (·.drawn)).Nodup) (hused : ∀ u ∈ steps.filterMap (·.drawn), u ∉ used) :
    (∀ n, Backed refs (run U O s w (steps.take n))) ↔ CalmRun U O s w steps := by
  induction steps generalizing w used with
  | nil => exact iff_of_true (fun n => by simpa [run] using hw) trivial
  | cons st rest ih =>
    have hst : ∀ u ∈ st.drawn, u ∉ used := fun u hu => hused u (mem_filterMap.mpr ⟨st, by simp, hu⟩)
    -- the UUIDs still to come differ from the one that this step draws
    have hnext : ∀ u ∈ rest.filterMap (·.drawn), u ∉ st.drawn.toList ++ used := by
      intro u hu hmem
      rcases mem_append.mp hmem with hmem | hmem
      · have hsome : st.drawn = some u := by simpa using hmem
        simp only [filterMap_cons, hsome, nodup_cons] at hdrawn
        exact hdrawn.1 hu
      · obtain ⟨st', hst', hu'⟩ := mem_filterMap.mp hu
        exact hused u (mem_filterMap.mpr ⟨st', mem_cons_of_mem _ hst', hu'⟩) hmem
    have hrest : (rest.filterMap (·.drawn)).Nodup :=
      hdrawn.sublist ((sublist_cons_self st rest).filterMap _)
    have hsplit : (∀ n, Backed refs (run U O s w ((st :: rest).take n))) ↔
        Backed refs (step U O s w st) ∧ ∀ n, Backed refs (run U O s (step U O s w st) (rest.take n)) := by
      constructor
      · exact fun h => ⟨by simpa [run] using h 1, fun n => h (n + 1)⟩
      · intro h n
        cases n with
        | zero => simpa [run] using hw
        | succ n => exact h.2 n
    rw [hsplit, CalmRun, ← step_backed_iff hw hwf hst]
    refine and_congr_right fun hstep => ih hstep (step_wf hwf hst) hrest hnext

/-- From no files, with a new UUID for every application upload: each state of the
run has the object of every row, and each key once, exactly when no transaction
fails after it has removed an object. -/
theorem attachments_backed_iff (owners : Owners) (steps : List Step) (hdrawn : (steps.filterMap (·.drawn)).Nodup) :
    (∀ n, Backed refs (run U O s (start owners) (steps.take n))) ↔ CalmRun U O s (start owners) steps := by
  have hwf : Wf U [] (start owners).db := ⟨by simp [start], by simp [start], by simp [start]⟩
  exact run_backed_iff ⟨by simp [start, refs], by simp [start, refs]⟩ hwf hdrawn (by simp)

instance (w : FileWorld) (st : Step) : Decidable (CalmStep U O s w st) :=
  decidable_of_iff ((script U O s st.storage w.db st.request).toOption.all fun sc => decide (Calm w sc st.faults)) <| by
    unfold CalmStep
    cases script U O s st.storage w.db st.request with
    | error e => simp [Except.toOption]
    | ok sc => simp [Except.toOption]

instance decidableCalmRun (w : FileWorld) : (steps : List Step) → Decidable (CalmRun U O s w steps)
  | [] => isTrue trivial
  | st :: rest => @instDecidableAnd _ _ inferInstance (decidableCalmRun (step U O s w st) rest)

end Invariant

section Examples

def pdfFiles : Outside := ⟨fun _ => pdfMime, fun _ => none, fun _ => .ok (), true, true⟩

def shortLimits : Settings := ⟨1000, 7, 20, 1000, text "pepper"⟩

def oneApplication : Owners := ⟨[1], [], []⟩

def stepWith (request : Request) (outcomes : List Bool) : Step := ⟨request, true, outcomes, true, fun _ => false⟩

def uploadReceipt : Request := .upload 1 (some (text "receipt.pdf")) [37] 2 3

def receiptSteps : List Step :=
  [stepWith uploadReceipt [], stepWith (.upload 1 (some (text "b.pdf")) [37] 4 5) [true, false],
   stepWith (.finalizeScan 3 ⟨false, none⟩) [], stepWith (.upload 1 (some (text "c.pdf")) [37] 6 7) [],
   stepWith (.delete 7) []]

theorem receipts_backed :
    (receiptSteps.filterMap (·.drawn)).Nodup ∧
      CalmRun asciiUnicode pdfFiles shortLimits (start oneApplication) receiptSteps ∧
      (∀ n, Backed refs (run asciiUnicode pdfFiles shortLimits (start oneApplication) (receiptSteps.take n))) ∧
      (refs (run asciiUnicode pdfFiles shortLimits (start oneApplication) (receiptSteps.take 4)).db).length = 1 := by
  have hcalm : CalmRun asciiUnicode pdfFiles shortLimits (start oneApplication) receiptSteps := by decide +kernel
  exact ⟨by decide, hcalm, (attachments_backed_iff oneApplication receiptSteps (by decide)).mpr hcalm,
    by decide +kernel⟩

def failedDelete : List Step := [stepWith uploadReceipt [], stepWith (.delete 3) [true, true, false]]

/-- The rolled-back delete leaves the row without its object. -/
theorem failedDelete_not_backed :
    (failedDelete.filterMap (·.drawn)).Nodup ∧
      ¬ ∀ n, Backed refs (run asciiUnicode pdfFiles shortLimits (start oneApplication) (failedDelete.take n)) := by
  refine ⟨by decide, fun h => ?_⟩
  have hlost : ¬ ∀ k ∈ refs (run asciiUnicode pdfFiles shortLimits (start oneApplication) (failedDelete.take 2)).db,
      ((run asciiUnicode pdfFiles shortLimits (start oneApplication) (failedDelete.take 2)).objects.get k).isSome := by
    decide +kernel
  exact hlost (h 2).present

end Examples

end Files
