import StupaWorkflow.ObjectStore
import StupaWorkflow.StorageKeys

/-!
The objects of a backup: the archive writer, the reader that skips unsafe keys, and the mirror
that makes the bucket match the archive.
-/
namespace Backup
open Py Filenames StorageKeys
open List hiding splitOn count

abbrev Bytes := List ℕ

abbrev Bucket := ObjectStore Text Bytes

structure Member where
  name : Text
  isFile : Bool
  content : Bytes

/-- The tar library: the archive of a list of members, and the members of an archive. -/
structure TarLibrary (Tar : Type) where
  addfiles : List Member → Tar
  getmembers : Tar → List Member

section Archive

variable {Tar : Type}

def archiveDumpName : Text := text "db.dump"
def archiveObjectPrefix : Text := text "objects/"
def archiveManifestName : Text := text "manifest.json"

/-- The members in their order. `manifest` gives the JSON for a count of objects. -/
def tarMembers (dump : Bytes) (objects : List (Text × Bytes)) (manifest : ℕ → Bytes) : List Member :=
  ⟨archiveDumpName, true, dump⟩ ::
    objects.map (fun o => ⟨archiveObjectPrefix ++ o.1, true, o.2⟩) ++
      [⟨archiveManifestName, true, manifest objects.length⟩]

/-- `write_tar`: the archive and the number of objects. -/
def writeTar (lib : TarLibrary Tar) (dump : Bytes) (objects : List (Text × Bytes)) (manifest : ℕ → Bytes) : Tar × ℕ :=
  (lib.addfiles (tarMembers dump objects manifest), objects.length)

def safeObjectKey (key : Text) : Bool :=
  key ≠ [] && !([slash].isPrefixOf key) && backslash ∉ key && text ".." ∉ splitOn slash key

/-- One member of `iter_objects`. -/
def objectOf (m : Member) : Option (Text × Bytes) :=
  if m.isFile && archiveObjectPrefix.isPrefixOf m.name then
    let key := m.name.drop archiveObjectPrefix.length
    if safeObjectKey key then some (key, m.content) else none
  else none

def iterObjects (lib : TarLibrary Tar) (tar : Tar) : List (Text × Bytes) := (lib.getmembers tar).filterMap objectOf

end Archive

section Mirror

variable {Tar : Type}

/-- The operations that the store refuses with a `StorageError`. -/
structure Faults where
  put : Text → Bool
  remove : Text → Bool

/-- `_put_object` for every object; a refused write ends the restore. -/
def putObjects (faults : Faults) (bucket : Bucket) : List (Text × Bytes) → Option Bucket
  | [] => some bucket
  | o :: os => if faults.put o.1 then none else putObjects faults (bucket.put o.1 o.2) os

/-- `_mirror_objects`. A refused removal is only a warning. -/
def mirrorObjects (lib : TarLibrary Tar) (faults : Faults) (tar : Tar) (bucket : Bucket) : Option Bucket :=
  let objects := iterObjects lib tar
  let before := bucket.keys
  (putObjects faults bucket objects).map fun written =>
    (before.filter (· ∉ objects.map (·.1))).foldl (fun b k => if faults.remove k then b else b.remove k) written

end Mirror

section Keys

def IsUuid (s : Text) : Prop := ∃ u : Uuid, s = Uuid.hex u ∨ s = Uuid.text u

def fixedSegments : List Text := [text "drafts", text "invoices", text "cd-logos"]

/-- The file names in `BUILTIN_LOGOS`. -/
def builtinLogoFiles : List Text :=
  [text "HSRT.svg", text "INF.svg", text "ASTA.svg", text "STUPA.svg", text "ECHO.svg", text "MAKERS.svg",
    text "MAKERS-RAlign.svg", text "MAKERS-Icon.svg", text "Skyline.svg"]

/-- The keys that the platform writes: paths with a storage name at the end, the converted logos,
the images and the two PDFs of a protocol. -/
inductive Built (U : Unicode) : Text → Prop
  | named {head : Text} {uuids : List Text} (filename : Option Text) (hhead : head ∈ fixedSegments ∨ IsUuid head)
      (huuids : ∀ s ∈ uuids, IsUuid s) : Built U (joinSegments (head :: uuids ++ [sanitizeStorageName U filename]))
  | builtinLogo (u : Uuid) {fileName : Text} (hfile : fileName ∈ builtinLogoFiles) : Built U (builtinLogoKey u fileName)
  | image (imageId : Uuid) : Built U (imageStorageKey imageId)
  | protocol (protocolId : Uuid) : Built U (protocolStorageKey protocolId)
  | protocolPublic (protocolId : Uuid) : Built U (protocolPublicStorageKey protocolId)

variable {U : Unicode}

theorem named_built {head : Text} {u : Uuid} {s : Text} (name : Text) (hhead : head ∈ fixedSegments ∨ IsUuid head)
    (hs : s = Uuid.hex u ∨ s = Uuid.text u) : Built U (joinSegments [head, s, sanitizeStorageName U (some name)]) :=
  .named (some name) hhead (show ∀ t ∈ [s], IsUuid t from forall_mem_singleton.mpr ⟨u, hs⟩)

theorem applicationKey_built (application u : Uuid) (name : Text) : Built U (applicationKey U application u name) :=
  named_built name (.inr ⟨application, .inr rfl⟩) (.inl rfl)

theorem draftKey_built (attachment : Uuid) (name : Text) : Built U (draftKey U attachment name) :=
  named_built name (.inl (by simp [fixedSegments])) (.inr rfl)

theorem invoiceKey_built (u : Uuid) (name : Text) : Built U (invoiceKey u (sanitizeStorageName U (some name))) :=
  named_built name (.inl (by simp [fixedSegments])) (.inl rfl)

theorem logoKey_built (u : Uuid) (name : Text) : Built U (logoKey U u name) :=
  named_built name (.inl (by simp [fixedSegments])) (.inl rfl)

structure GoodSegment (s : Text) : Prop where
  ne : s ≠ []
  plain : Plain s
  noBackslash : backslash ∉ s
  notParent : s ≠ text ".."

theorem IsUuid.mem {s : Text} (h : IsUuid s) {c : ℕ} (hc : c ∈ s) : c = 45 ∨ (48 ≤ c ∧ c ≤ 57) ∨ (97 ≤ c ∧ c ≤ 102) := by
  obtain ⟨u, hs | hs⟩ := h
  · exact .inr (Uuid.mem_hex (hs ▸ hc))
  · exact (Uuid.mem_text (hs ▸ hc)).imp_right Uuid.mem_hex

theorem IsUuid.ne_nil {s : Text} (h : IsUuid s) : s ≠ [] := by
  obtain ⟨u, hs | hs⟩ := h
  · intro hnil
    have := Uuid.hex_length u
    simp [← hs, hnil] at this
  · intro hnil
    have := Uuid.hex_length u
    simp [← Uuid.text_filter, ← hs, hnil] at this

/-- A UUID starts a good segment, since its first character is no dot. -/
theorem IsUuid.good_append {s ending : Text} (h : IsUuid s) (hplain : slash ∉ ending) (hback : backslash ∉ ending) :
    GoodSegment (s ++ ending) := by
  refine ⟨append_ne_nil_of_left_ne_nil h.ne_nil _, fun hmem => ?_, fun hmem => ?_, ?_⟩
  · rcases mem_append.mp hmem with hmem | hmem
    · have := h.mem hmem
      simp only [slash] at this
      omega
    · exact hplain hmem
  · rcases mem_append.mp hmem with hmem | hmem
    · have := h.mem hmem
      simp only [backslash] at this
      omega
    · exact hback hmem
  · intro hdots
    obtain ⟨c, rest, rfl⟩ := exists_cons_of_ne_nil h.ne_nil
    have hc := h.mem (mem_cons_self (a := c))
    have hdot : c = 46 := (List.cons.inj hdots).1
    omega

theorem IsUuid.good {s : Text} (h : IsUuid s) : GoodSegment s :=
  append_nil s ▸ h.good_append not_mem_nil not_mem_nil

theorem safeName_good {name : Text} (h : SafeName name) : GoodSegment name := by
  refine ⟨h.ne, safeName_plain h, fun hmem => ?_, ?_⟩
  · have := h.safe _ hmem
    revert this
    decide
  · rintro rfl
    obtain ⟨c, rest, heq, _, hdot⟩ := h.first
    exact hdot (List.cons.inj heq).1.symm

theorem safeObjectKey_of_good {segments : List Text} (hne : segments ≠ []) (h : ∀ s ∈ segments, GoodSegment s) :
    safeObjectKey (joinSegments segments) = true := by
  obtain ⟨head, rest, rfl⟩ := exists_cons_of_ne_nil hne
  have hhead := h head (by simp)
  obtain ⟨c, cs, rfl⟩ := exists_cons_of_ne_nil hhead.ne
  have hstart : ∃ t, joinSegments ((c :: cs) :: rest) = c :: t := by
    cases rest with
    | nil => exact ⟨cs, rfl⟩
    | cons s rest => exact ⟨_, rfl⟩
  obtain ⟨t, ht⟩ := hstart
  have hc : ¬ slash = c := fun heq => hhead.plain (by simp [heq])
  have hback : backslash ∉ joinSegments ((c :: cs) :: rest) := by
    intro hmem
    rcases mem_joinSegments hmem with heq | ⟨s, hs, hmem⟩
    · revert heq
      decide
    · exact (h s hs).noBackslash hmem
  have hparent : text ".." ∉ splitOn slash (joinSegments ((c :: cs) :: rest)) := by
    rw [splitOn_joinSegments hne fun s hs => (h s hs).plain]
    exact fun hmem => (h _ hmem).notParent rfl
  simp only [safeObjectKey, Bool.and_eq_true, decide_eq_true_eq, Bool.not_eq_true']
  refine ⟨⟨⟨by simp [ht], ?_⟩, hback⟩, hparent⟩
  simp [ht, List.isPrefixOf, hc]

theorem safe_path {start first second last : Text} (hstart : start = first ++ slash :: (second ++ [slash]))
    (hfirst : GoodSegment first) (hsecond : GoodSegment second) (hlast : GoodSegment last) :
    safeObjectKey (start ++ last) = true := by
  have hkey : start ++ last = joinSegments [first, second, last] := by simp [hstart, joinSegments]
  rw [hkey]
  exact safeObjectKey_of_good (cons_ne_nil _ _) (by simp [hfirst, hsecond, hlast])

theorem constants_good : ∀ s ∈ fixedSegments ++ builtinLogoFiles ++ [text "media", text "images", text "pdf", text "protocol"],
    GoodSegment s := by
  have hcheck : ∀ s ∈ fixedSegments ++ builtinLogoFiles ++ [text "media", text "images", text "pdf", text "protocol"],
      s ≠ [] ∧ slash ∉ s ∧ backslash ∉ s ∧ s ≠ text ".." := by decide
  intro s hs
  obtain ⟨hne, hplain, hback, hparent⟩ := hcheck s hs
  exact ⟨hne, hplain, hback, hparent⟩

theorem Built.safe {key : Text} (h : Built U key) : safeObjectKey key = true := by
  have hconst := constants_good
  simp only [mem_append, or_imp, forall_and] at hconst
  obtain ⟨⟨hfixed, hlogos⟩, hothers⟩ := hconst
  cases h with
  | @named head uuids filename hhead huuids =>
    refine safeObjectKey_of_good (by simp) fun s hs => ?_
    rcases mem_append.mp hs with hs | hs
    · rcases mem_cons.mp hs with heq | hs
      · rw [heq]
        exact hhead.elim (hfixed head) IsUuid.good
      · exact (huuids s hs).good
    · rw [mem_singleton.mp hs]
      exact safeName_good (sanitizeStorageName_safe U filename)
  | @builtinLogo u fileName hfile =>
    have hu : IsUuid (Uuid.hex u) := ⟨u, .inl rfl⟩
    refine safeObjectKey_of_good (cons_ne_nil _ _) (forall_mem_cons.mpr ⟨hfixed _ (by simp [fixedSegments]), ?_⟩)
    exact forall_mem_cons.mpr ⟨hu.good, forall_mem_singleton.mpr (hlogos _ hfile)⟩
  | image imageId =>
    have hid : IsUuid (Uuid.text imageId) := ⟨imageId, .inr rfl⟩
    exact safe_path (by decide) (hothers (text "media") (by simp)) (hothers (text "images") (by simp)) hid.good
  | protocol protocolId =>
    have hid : IsUuid (Uuid.text protocolId) := ⟨protocolId, .inr rfl⟩
    rw [protocolStorageKey, append_assoc]
    exact safe_path (by decide) (hothers (text "pdf") (by simp)) (hothers (text "protocol") (by simp))
      (hid.good_append (by decide) (by decide))
  | protocolPublic protocolId =>
    have hid : IsUuid (Uuid.text protocolId) := ⟨protocolId, .inr rfl⟩
    rw [protocolPublicStorageKey, append_assoc]
    exact safe_path (by decide) (hothers (text "pdf") (by simp)) (hothers (text "protocol") (by simp))
      (hid.good_append (by decide) (by decide))

end Keys

section RoundTrip

variable {Tar : Type} {lib : TarLibrary Tar} {dump : Bytes} {objects : List (Text × Bytes)} {manifest : ℕ → Bytes}

theorem objectOf_object {o : Text × Bytes} (h : safeObjectKey o.1 = true) :
    objectOf ⟨archiveObjectPrefix ++ o.1, true, o.2⟩ = some o := by
  simp [objectOf, h]

theorem iterObjects_writeTar (htar : lib.getmembers (writeTar lib dump objects manifest).1 = tarMembers dump objects manifest)
    (hsafe : ∀ o ∈ objects, safeObjectKey o.1 = true) :
    iterObjects lib (writeTar lib dump objects manifest).1 = objects := by
  have hdump : objectOf ⟨archiveDumpName, true, dump⟩ = none := rfl
  have hmanifest : objectOf ⟨archiveManifestName, true, manifest objects.length⟩ = none := rfl
  have hobjects : (objects.map fun o => (⟨archiveObjectPrefix ++ o.1, true, o.2⟩ : Member)).filterMap objectOf = objects := by
    rw [filterMap_map]
    conv_rhs => rw [← filterMap_some (l := objects)]
    exact filterMap_congr fun o ho => objectOf_object (hsafe o ho)
  rw [iterObjects, htar, tarMembers, cons_append, filterMap_cons_none hdump, filterMap_append, hobjects,
    filterMap_cons_none hmanifest, filterMap_nil, append_nil]

theorem putObjects_eq (faults : Faults) (hput : ∀ k, faults.put k = false) (bucket : Bucket)
    (objects : List (Text × Bytes)) :
    putObjects faults bucket objects = some (objects.foldl (fun b o => b.put o.1 o.2) bucket) := by
  induction objects generalizing bucket with
  | nil => rfl
  | cons o os ih =>
    rw [putObjects, hput, if_neg Bool.false_ne_true, ih]
    rfl

/-- After the mirror an object outside the archive is left only when the store
refused its removal. -/
theorem mirrorObjects_get {faults : Faults} (hput : ∀ k, faults.put k = false) {tar : Tar}
    (hkeys : ((iterObjects lib tar).map Prod.fst).Nodup) (old : Bucket) :
    ∃ new, mirrorObjects lib faults tar old = some new ∧ ∀ k, new.get k =
      (((iterObjects lib tar).find? (·.1 = k)).map (·.2)).or (if faults.remove k then old.get k else none) := by
  rw [mirrorObjects, putObjects_eq faults hput]
  refine ⟨_, rfl, fun k => ?_⟩
  rw [ObjectStore.get_foldl_remove, ObjectStore.get_foldl_put _ _ hkeys]
  cases hfind : (iterObjects lib tar).find? (·.1 = k) with
  | some e =>
    have hk := find?_some hfind
    rw [decide_eq_true_eq] at hk
    have hmem : k ∈ (iterObjects lib tar).map (·.1) := hk ▸ mem_map_of_mem (mem_of_find?_eq_some hfind)
    have hkeep : k ∉ old.keys.filter fun k => k ∉ (iterObjects lib tar).map (·.1) := by simp [hmem]
    rw [if_neg fun h => hkeep h.1]
    rfl
  | none =>
    have habsent : k ∉ (iterObjects lib tar).map (·.1) := by
      intro hmem
      obtain ⟨e, he, heq⟩ := mem_map.mp hmem
      have := find?_eq_none.mp hfind e he
      simp [heq] at this
    simp only [Option.map_none, Option.none_or, mem_filter, habsent, not_false_eq_true, decide_true, and_true]
    cases hold : old.get k with
    | none => simp
    | some v =>
      have : k ∈ old.keys := ObjectStore.mem_keys.mpr (by simp [hold])
      cases faults.remove k <;> simp [this]

/-- A backup of a bucket of built keys comes back exactly: the reader skips no
key, and the mirrored bucket is the one of the backup whatever it held before. -/
theorem restore_exact {U : Unicode} {bucket : Bucket} (hbuilt : ∀ k ∈ bucket.keys, Built U k)
    (htar : lib.getmembers (writeTar lib dump bucket.entries manifest).1 = tarMembers dump bucket.entries manifest)
    {faults : Faults} (hput : ∀ k, faults.put k = false) (hremove : ∀ k, faults.remove k = false) (old : Bucket) :
    iterObjects lib (writeTar lib dump bucket.entries manifest).1 = bucket.entries ∧
      ∃ new, mirrorObjects lib faults (writeTar lib dump bucket.entries manifest).1 old = some new ∧
        ∀ k, new.get k = bucket.get k := by
  have hread := iterObjects_writeTar htar fun o ho => (hbuilt o.1 (mem_map_of_mem ho)).safe
  obtain ⟨new, hnew, hget⟩ := mirrorObjects_get hput (hread ▸ bucket.nodup) old
  refine ⟨hread, new, hnew, fun k => ?_⟩
  rw [hget, hread, hremove, if_neg Bool.false_ne_true, Option.or_none]
  rfl

def plainTar : TarLibrary (List Member) := ⟨id, id⟩

def noFaults : Faults := ⟨fun _ => false, fun _ => false⟩

/-- A key of each builder. -/
def eightKeys : List Text :=
  [applicationKey asciiUnicode 1 2 (text "Antrag.pdf"), draftKey asciiUnicode 3 (text "../Beleg.pdf"),
    invoiceKey 4 (sanitizeStorageName asciiUnicode (some (text "R 1.pdf"))), logoKey asciiUnicode 5 (text "Logo.png"),
    builtinLogoKey 6 (text "STUPA.svg"), imageStorageKey 7, protocolStorageKey 8, protocolPublicStorageKey 8]

/-- Each object holds its own key. -/
def eightFiles : Bucket := eightKeys.foldl (fun b k => b.put k k) ObjectStore.empty

theorem eightKeys_built : ∀ k ∈ eightKeys, Built asciiUnicode k := by
  simp only [eightKeys, forall_mem_cons]
  exact ⟨applicationKey_built _ _ _, draftKey_built _ _, invoiceKey_built _ _, logoKey_built _ _,
    .builtinLogo 6 (by simp [builtinLogoFiles]), .image 7, .protocol 8, .protocolPublic 8, by simp⟩

theorem mem_keys_foldl {keys : List Text} {bucket : Bucket} {k : Text} :
    k ∈ (keys.foldl (fun b k => b.put k k) bucket).keys ↔ k ∈ keys ∨ k ∈ bucket.keys := by
  induction keys generalizing bucket with
  | nil => simp
  | cons key keys ih =>
    rw [foldl_cons, ih, mem_cons, ObjectStore.mem_keys, ObjectStore.mem_keys, ObjectStore.get_put]
    by_cases hk : k = key <;> simp [hk]

theorem eightFiles_restored :
    (∀ k, k ∈ eightFiles.keys ↔ k ∈ eightKeys) ∧ ∃ new,
      mirrorObjects plainTar noFaults (writeTar plainTar [] eightFiles.entries fun _ => []).1
        (ObjectStore.empty.put (text "stale") [9]) = some new ∧ ∀ k, new.get k = eightFiles.get k := by
  have hkeys : ∀ k, k ∈ eightFiles.keys ↔ k ∈ eightKeys := fun k => mem_keys_foldl.trans (or_iff_left not_mem_nil)
  exact ⟨hkeys, (restore_exact (fun k hk => eightKeys_built k ((hkeys k).mp hk)) rfl (fun _ => rfl) (fun _ => rfl) _).2⟩

end RoundTrip

end Backup
