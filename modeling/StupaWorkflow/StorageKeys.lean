import StupaWorkflow.Filenames

/-!
Object keys of the bucket. The key of an upload is a path: a fixed first segment or a UUID, then
UUIDs, then a storage name. Two builders give the same key only for the same UUIDs.
-/
namespace StorageKeys
open Py Filenames
open List hiding splitOn splitOn_ne_nil

abbrev Uuid := Fin (2 ^ 128)

instance neZero_uuid : NeZero (2 ^ 128) := ⟨by decide⟩

instance lawfulBEq_uuid : LawfulBEq Uuid := inferInstance

def hexDigit (n : ℕ) : ℕ := if n < 10 then 48 + n else 87 + n

def hexDigits : ℕ → ℕ → Text
  | 0, _ => []
  | width + 1, n => hexDigits width (n / 16) ++ [hexDigit (n % 16)]

def Uuid.hex (u : Uuid) : Text := hexDigits 32 u.val

/-- `str(uuid)`: groups of 8, 4, 4, 4 and 12 digits. -/
def Uuid.text (u : Uuid) : Text :=
  let h := Uuid.hex u
  h.take 8 ++ 45 :: (h.drop 8).take 4 ++ 45 :: (h.drop 12).take 4 ++ 45 :: (h.drop 16).take 4 ++ 45 :: h.drop 20

/-- `"/".join(segments)`. -/
def joinSegments : List Text → Text
  | [] => []
  | [s] => s
  | s :: rest => s ++ slash :: joinSegments rest

def applicationKey (U : Unicode) (application u : Uuid) (displayName : Text) : Text :=
  joinSegments [Uuid.text application, Uuid.hex u, sanitizeStorageName U (some displayName)]

/-- `DRAFT_KEY_PREFIX` and the id of the attachment. -/
def draftKey (U : Unicode) (attachment : Uuid) (displayName : Text) : Text :=
  joinSegments [Py.text "drafts", Uuid.text attachment, sanitizeStorageName U (some displayName)]

def invoiceKey (u : Uuid) (keyName : Text) : Text := joinSegments [Py.text "invoices", Uuid.hex u, keyName]

/-- `CD_LOGO_PREFIX`. -/
def logoKey (U : Unicode) (u : Uuid) (displayName : Text) : Text :=
  joinSegments [Py.text "cd-logos", Uuid.hex u, sanitizeStorageName U (some displayName)]

/-- The key of `_convert_row`, with the file name of the bundled logo. -/
def builtinLogoKey (u : Uuid) (fileName : Text) : Text := joinSegments [Py.text "cd-logos", Uuid.hex u, fileName]

/-- `IMAGE_KEY_PREFIX` and the id of the image. -/
def imageStorageKey (imageId : Uuid) : Text := Py.text "media/images/" ++ Uuid.text imageId

def protocolStorageKey (protocolId : Uuid) : Text := Py.text "pdf/protocol/" ++ Uuid.text protocolId ++ Py.text ".pdf"

def protocolPublicStorageKey (protocolId : Uuid) : Text :=
  Py.text "pdf/protocol/" ++ Uuid.text protocolId ++ Py.text "-public.pdf"

section Hex

variable {n width c : ℕ}

theorem hexDigit_spec (h : n < 16) : (48 ≤ hexDigit n ∧ hexDigit n ≤ 57) ∨ (97 ≤ hexDigit n ∧ hexDigit n ≤ 102) := by
  unfold hexDigit
  split <;> omega

theorem hexDigits_spec (h : c ∈ hexDigits width n) : (48 ≤ c ∧ c ≤ 57) ∨ (97 ≤ c ∧ c ≤ 102) := by
  induction width generalizing n with
  | zero => simp [hexDigits] at h
  | succ width ih =>
    rcases mem_append.mp h with h | h
    · exact ih h
    · rw [mem_singleton.mp h]
      exact hexDigit_spec (Nat.mod_lt _ (by decide))

theorem hexDigits_length (width n : ℕ) : (hexDigits width n).length = width := by
  induction width generalizing n with
  | zero => rfl
  | succ width ih => simp [hexDigits, ih]

theorem Uuid.mem_hex {u : Uuid} (h : c ∈ Uuid.hex u) : (48 ≤ c ∧ c ≤ 57) ∨ (97 ≤ c ∧ c ≤ 102) :=
  hexDigits_spec h

theorem Uuid.hex_length (u : Uuid) : (Uuid.hex u).length = 32 := hexDigits_length 32 u.val

theorem hexDigits_inj {m : ℕ} (hm : m < 16 ^ width) (hn : n < 16 ^ width) (h : hexDigits width m = hexDigits width n) :
    m = n := by
  induction width generalizing m n with
  | zero =>
    simp only [pow_zero, Nat.lt_one_iff] at hm hn
    rw [hm, hn]
  | succ width ih =>
    obtain ⟨hfront, hlast⟩ := append_inj' h rfl
    have hlt : ∀ k, k < 16 ^ (width + 1) → k / 16 < 16 ^ width := fun k hk =>
      Nat.div_lt_of_lt_mul (by rwa [Nat.pow_succ, Nat.mul_comm] at hk)
    have hdiv := ih (hlt m hm) (hlt n hn) hfront
    have hmod : m % 16 = n % 16 := by
      have hm16 := Nat.mod_lt m (by decide : 16 > 0)
      have hn16 := Nat.mod_lt n (by decide : 16 > 0)
      have heq : hexDigit (m % 16) = hexDigit (n % 16) := by simpa using hlast
      unfold hexDigit at heq
      split at heq <;> split at heq <;> omega
    rw [← Nat.div_add_mod m 16, ← Nat.div_add_mod n 16, hdiv, hmod]

theorem Uuid.hex_inj {u v : Uuid} (h : Uuid.hex u = Uuid.hex v) : u = v := by
  have hpow : (2 : ℕ) ^ 128 = 16 ^ 32 := by decide
  exact Fin.ext (hexDigits_inj (u.isLt.trans_eq hpow) (v.isLt.trans_eq hpow) h)

theorem Uuid.text_filter (u : Uuid) : (Uuid.text u).filter (· ≠ 45) = Uuid.hex u := by
  have hkeep : ∀ s : Text, (∀ c ∈ s, c ∈ Uuid.hex u) → s.filter (· ≠ 45) = s := by
    intro s hs
    refine filter_eq_self.mpr fun c hc => decide_eq_true ?_
    have := Uuid.mem_hex (hs c hc)
    omega
  have htake : ∀ n m c, c ∈ ((Uuid.hex u).drop n).take m → c ∈ Uuid.hex u :=
    fun n m c hc => mem_of_mem_drop (mem_of_mem_take hc)
  simp only [Uuid.text, filter_append, filter_cons, ne_eq, not_true_eq_false, decide_false,
    Bool.false_eq_true, if_false]
  rw [hkeep _ fun c => mem_of_mem_take, hkeep _ (htake 8 4), hkeep _ (htake 12 4), hkeep _ (htake 16 4),
    hkeep _ fun c => mem_of_mem_drop]
  simp only [append_assoc]
  rw [← drop_drop (i := 4) (j := 16), take_append_drop, ← drop_drop (i := 4) (j := 12),
    take_append_drop, ← drop_drop (i := 4) (j := 8), take_append_drop, take_append_drop]

theorem Uuid.text_inj {u v : Uuid} (h : Uuid.text u = Uuid.text v) : u = v := by
  refine Uuid.hex_inj ?_
  rw [← Uuid.text_filter, h, Uuid.text_filter]

end Hex

section Segments

/-- A segment without a separator. -/
def Plain (s : Text) : Prop := slash ∉ s

theorem splitOn_joinSegments {segments : List Text} (hne : segments ≠ []) (h : ∀ s ∈ segments, Plain s) :
    splitOn slash (joinSegments segments) = segments := by
  induction segments with
  | nil => exact absurd rfl hne
  | cons s rest ih =>
    cases rest with
    | nil => exact splitOn_absent (h s (by simp))
    | cons t rest =>
      rw [joinSegments, splitOn_append (h s (by simp)), ih (by simp) fun u hu => h u (mem_cons_of_mem _ hu)]
      simp

theorem segment_infix {sep : ℕ} {s t : Text} (h : t ∈ splitOn sep s) : t <:+: s := by
  have hparts : ∀ part parts, splitOn sep s = part :: parts → part <+: s ∧ ∀ u ∈ parts, u <:+: s := by
    clear h t
    induction s with
    | nil =>
      intro part parts heq
      cases heq
      exact ⟨prefix_rfl, by simp⟩
    | cons c s ih =>
      intro part parts heq
      rw [splitOn] at heq
      obtain ⟨first, rest, hs⟩ := exists_cons_of_ne_nil (splitOn_ne_nil sep s)
      obtain ⟨hfirst, hrest⟩ := ih first rest hs
      have hcons : ∀ {u : Text}, u <:+: s → u <:+: c :: s := fun hu => hu.trans (suffix_cons c s).isInfix
      rw [hs] at heq
      split at heq
      · obtain ⟨rfl, rfl⟩ := List.cons.inj heq
        refine ⟨List.nil_prefix, fun u hu => hcons ?_⟩
        rcases mem_cons.mp hu with rfl | hu
        · exact hfirst.isInfix
        · exact hrest u hu
      · obtain ⟨rfl, rfl⟩ := List.cons.inj heq
        exact ⟨(prefix_cons_inj c).mpr hfirst, fun u hu => hcons (hrest u hu)⟩
  obtain ⟨part, parts, hs⟩ := exists_cons_of_ne_nil (splitOn_ne_nil sep s)
  obtain ⟨hpart, hrest⟩ := hparts part parts hs
  rw [hs] at h
  rcases mem_cons.mp h with rfl | h
  · exact hpart.isInfix
  · exact hrest t h

theorem mem_joinSegments {segments : List Text} {c : ℕ} (h : c ∈ joinSegments segments) :
    c = slash ∨ ∃ s ∈ segments, c ∈ s := by
  induction segments with
  | nil => simp [joinSegments] at h
  | cons s rest ih =>
    cases rest with
    | nil => exact .inr ⟨s, by simp, h⟩
    | cons t rest =>
      rw [joinSegments] at h
      · rcases mem_append.mp h with h | h
        · exact .inr ⟨s, by simp, h⟩
        · rcases mem_cons.mp h with rfl | h
          · exact .inl rfl
          · rcases ih h with hc | ⟨u, hu, hc⟩
            · exact .inl hc
            · exact .inr ⟨u, mem_cons_of_mem _ hu, hc⟩
      · simp

theorem Uuid.hex_plain (u : Uuid) : Plain (Uuid.hex u) := by
  intro h
  have := Uuid.mem_hex h
  simp only [slash] at this
  omega

theorem Uuid.mem_text {u : Uuid} {c : ℕ} (h : c ∈ Uuid.text u) : c = 45 ∨ c ∈ Uuid.hex u := by
  by_cases hc : c = 45
  · exact .inl hc
  · right
    rw [← Uuid.text_filter]
    exact mem_filter.mpr ⟨h, decide_eq_true hc⟩

theorem Uuid.text_plain (u : Uuid) : Plain (Uuid.text u) := by
  intro h
  rcases Uuid.mem_text h with h | h
  · cases h
  · exact Uuid.hex_plain u h

theorem safeName_plain {name : Text} (h : SafeName name) : Plain name := by
  intro hslash
  have := h.safe slash hslash
  revert this
  decide

end Segments

section Builders

variable {U : Unicode} {a b u v : Uuid} {m n : Text}

theorem sanitizeStorageName_plain (U : Unicode) (name : Option Text) : Plain (sanitizeStorageName U name) :=
  safeName_plain (sanitizeStorageName_safe U name)

theorem applicationKey_segments (U : Unicode) (a u : Uuid) (m : Text) :
    splitOn slash (applicationKey U a u m) = [Uuid.text a, Uuid.hex u, sanitizeStorageName U (some m)] := by
  have hplain : ∀ s ∈ [Uuid.text a, Uuid.hex u, sanitizeStorageName U (some m)], Plain s :=
    forall_mem_cons.mpr ⟨Uuid.text_plain a, forall_mem_cons.mpr ⟨Uuid.hex_plain u,
      forall_mem_singleton.mpr (sanitizeStorageName_plain U _)⟩⟩
  rw [applicationKey, splitOn_joinSegments (cons_ne_nil _ _) hplain]

theorem draftKey_segments (U : Unicode) (a : Uuid) (m : Text) :
    splitOn slash (draftKey U a m) = [text "drafts", Uuid.text a, sanitizeStorageName U (some m)] := by
  have hdrafts : slash ∉ text "drafts" := by decide
  have hplain : ∀ s ∈ [text "drafts", Uuid.text a, sanitizeStorageName U (some m)], Plain s :=
    forall_mem_cons.mpr ⟨hdrafts, forall_mem_cons.mpr ⟨Uuid.text_plain a,
      forall_mem_singleton.mpr (sanitizeStorageName_plain U _)⟩⟩
  rw [draftKey, splitOn_joinSegments (cons_ne_nil _ _) hplain]

theorem applicationKey_inj (h : applicationKey U a u m = applicationKey U b v n) : u = v := by
  have hsegments := applicationKey_segments U a u m
  rw [h, applicationKey_segments] at hsegments
  simp only [List.cons.injEq] at hsegments
  exact (Uuid.hex_inj hsegments.2.1).symm

theorem draftKey_inj (h : draftKey U a m = draftKey U b n) : a = b := by
  have hsegments := draftKey_segments U a m
  rw [h, draftKey_segments] at hsegments
  simp only [List.cons.injEq] at hsegments
  exact (Uuid.text_inj hsegments.2.1).symm

/-- No UUID reads `drafts`. -/
theorem draftKey_ne_applicationKey : draftKey U a m ≠ applicationKey U b v n := by
  intro h
  have hsegments := draftKey_segments U a m
  rw [h, applicationKey_segments] at hsegments
  simp only [List.cons.injEq] at hsegments
  have hr : 114 ∈ Uuid.text b := hsegments.1 ▸ by decide
  rcases Uuid.mem_text hr with hr | hr
  · cases hr
  · have := Uuid.mem_hex hr
    omega

end Builders

end StorageKeys
