import StupaWorkflow.AuditModel
import StupaWorkflow.Sha256

/-!
What a passing check of the audit log says about its rows.
-/
namespace Py
open List Option

theorem digits_mod {width m n : ℕ} (h : digits width m = digits width n) : m % 10 ^ width = n % 10 ^ width := by
  induction width generalizing m n with
  | zero => simp [Nat.mod_one]
  | succ width ih =>
    obtain ⟨hfront, hlast⟩ := append_inj h (by simp)
    have hdiv := ih hfront
    have hmod : m % 10 = n % 10 := by simpa using hlast
    rw [Nat.pow_succ', Nat.mod_mul, Nat.mod_mul, hdiv, hmod]

theorem digits_inj {width m n : ℕ} (hm : m < 10 ^ width) (hn : n < 10 ^ width) (h : digits width m = digits width n) :
    m = n := by
  have := digits_mod h
  rwa [Nat.mod_eq_of_lt hm, Nat.mod_eq_of_lt hn] at this

theorem Date.isoformat_inj {d e : Date} (hd : d.year < 10000 ∧ d.month < 100 ∧ d.day < 100)
    (he : e.year < 10000 ∧ e.month < 100 ∧ e.day < 100) (h : d.isoformat = e.isoformat) : d = e := by
  simp only [Date.isoformat, append_assoc] at h
  obtain ⟨hyear, h⟩ := append_inj h (by simp)
  obtain ⟨hmonth, h⟩ := append_inj (append_cancel_left h) (by simp)
  have hday := append_cancel_left h
  obtain ⟨y, m, dd⟩ := d
  obtain ⟨y', m', dd'⟩ := e
  rw [Date.mk.injEq]
  exact ⟨digits_inj hd.1 he.1 hyear, digits_inj hd.2.1 he.2.1 hmonth, digits_inj hd.2.2 he.2.2 hday⟩

theorem Datetime.isoformat_inj {t u : Datetime} (ht : t.valid = true) (hu : u.valid = true)
    (h : t.isoformat = u.isoformat) : t = u := by
  simp only [Datetime.valid, Bool.and_eq_true, decide_eq_true_eq] at ht hu
  simp only [Datetime.isoformat, append_assoc, cons_append] at h
  obtain ⟨hdate, h⟩ := append_inj h (by simp [Date.isoformat])
  obtain ⟨hhour, h⟩ := append_inj (List.cons.inj h).2 (by simp)
  obtain ⟨hminute, h⟩ := append_inj (List.cons.inj h).2 (by simp)
  obtain ⟨hsecond, h⟩ := append_inj (List.cons.inj h).2 (by simp)
  have hmicro := append_cancel_right h
  obtain ⟨d, hour, minute, second, micro⟩ := t
  obtain ⟨e, hour', minute', second', micro'⟩ := u
  have hsame : micro = micro' := by
    split at hmicro
    · split at hmicro
      · simp_all
      · cases hmicro
    · split at hmicro
      · cases hmicro
      · exact digits_inj (by simp_all) (by simp_all) (List.cons.inj hmicro).2
  rw [Datetime.mk.injEq, Clock.mk.injEq]
  simp only at ht hu hhour hminute hsecond hdate
  exact ⟨Date.isoformat_inj (by omega) (by omega) hdate, digits_inj (by omega) (by omega) hhour,
    digits_inj (by omega) (by omega) hminute, digits_inj (by omega) (by omega) hsecond, hsame⟩

/-- The bytes that only the head of a canonical text starts with, a brace and the
quoted letter of its first key. -/
def mark : List ℕ := [123, 34, 97]

def hasMark : List ℕ → Bool
  | [] => false
  | c :: s => mark.isPrefixOf (c :: s) || hasMark s

theorem hasMark_cons {c : ℕ} (hc : c ≠ 123) (s : List ℕ) : hasMark (c :: s) = hasMark s := by
  have : (123 == c) = false := by simpa using Ne.symm hc
  simp [hasMark, mark, List.isPrefixOf, this]

theorem hasMark_plain {s : List ℕ} (hs : ∀ c ∈ s, c ≠ 123) (t : List ℕ) : hasMark (s ++ t) = hasMark t := by
  induction s with
  | nil => rfl
  | cons c s ih =>
    obtain ⟨hc, hs⟩ := forall_mem_cons.mp hs
    rw [cons_append, hasMark_cons hc, ih hs]

theorem hasMark_brace {s : List ℕ} (hs : ∀ t, s ≠ 34 :: 97 :: t) : hasMark (123 :: s) = hasMark s := by
  have hpre : mark.isPrefixOf (123 :: s) = false := by
    rw [Bool.eq_false_iff, ne_eq, isPrefixOf_iff_prefix]
    rintro ⟨t, ht⟩
    exact hs t (List.cons.inj ht).2.symm
  rw [hasMark, hpre, Bool.false_or]

theorem escapePlain_brace (c : ℕ) : Json.escapePlain c = [123] ∨ ∀ d ∈ Json.escapePlain c, d ≠ 123 := by
  by_cases hc : c = 123
  · subst hc
    exact .inl rfl
  · right
    by_cases hlow : c < 32
    · interval_cases c <;> decide
    · unfold Json.escapePlain
      split
      · decide
      · split
        · decide
        · rw [if_neg (by omega), if_neg (by omega), if_neg (by omega), if_neg (by omega), if_neg (by omega)]
          simpa using hc

theorem hasMark_literal (s t : Text) : hasMark (s.flatMap Json.escapePlain ++ 34 :: 44 :: t) = hasMark t := by
  induction s with
  | nil => rw [flatMap_nil, nil_append, hasMark_cons (by decide), hasMark_cons (by decide)]
  | cons c s ih =>
    rw [flatMap_cons, append_assoc]
    rcases escapePlain_brace c with hc | hc
    · rw [hc, singleton_append, hasMark_brace, ih]
      intro u hu
      cases s with
      | nil => exact absurd (List.cons.inj (List.cons.inj hu).2).1 (by decide)
      | cons d s =>
        obtain ⟨a, r, hd, ha⟩ := Json.escapePlain_head d
        rw [flatMap_cons, hd] at hu
        exact ha (List.cons.inj hu).1
    · rw [hasMark_plain hc, ih]

theorem hasMark_of_drop {n : ℕ} {s : List ℕ} (h : mark <+: s.drop n) : hasMark s = true := by
  induction s generalizing n with
  | nil =>
    rw [drop_nil] at h
    cases prefix_nil.mp h
  | cons c s ih =>
    cases n with
    | zero =>
      have hpre : mark.isPrefixOf (c :: s) = true := isPrefixOf_iff_prefix.mpr h
      rw [hasMark, hpre, Bool.true_or]
    | succ n => rw [hasMark, ih h, Bool.or_true]

theorem utf8Encode_split {s t : Text} {bytes : List ℕ} (h : utf8Encode (s ++ t) = some bytes) :
    ∃ a b, utf8Encode s = some a ∧ utf8Encode t = some b ∧ bytes = a ++ b := by
  induction s generalizing bytes with
  | nil => exact ⟨[], bytes, rfl, h, rfl⟩
  | cons c s ih =>
    obtain ⟨x, rest, hx, hrest, rfl⟩ := utf8Encode_cons h
    obtain ⟨a, b, ha, hb, rfl⟩ := ih hrest
    exact ⟨x ++ a, b, by simp [utf8Encode, hx, ha], hb, by rw [append_assoc]⟩

theorem utf8Encode_length {s : Text} {bytes : List ℕ} (h : utf8Encode s = some bytes) : s.length ≤ bytes.length := by
  induction s generalizing bytes with
  | nil => exact Nat.zero_le _
  | cons c s ih =>
    obtain ⟨x, rest, hx, hrest, rfl⟩ := utf8Encode_cons h
    have := ih hrest
    have := length_pos_iff.mpr (utf8Char_ne_nil hx)
    simp only [length_cons, length_append]
    omega

theorem utf8Encode_ascii {s : Text} {c : ℕ} {bytes : List ℕ} (hc : c < 0x80) (h : utf8Encode s = some (c :: bytes)) :
    ∃ t, s = c :: t ∧ utf8Encode t = some bytes := by
  cases s with
  | nil => cases h
  | cons d s =>
    obtain ⟨x, rest, hx, hrest, heq⟩ := utf8Encode_cons h
    obtain ⟨_, rfl⟩ | ⟨_, _, rfl⟩ | ⟨_, _, rfl⟩ | ⟨_, _, rfl⟩ := utf8Char_cases hx
    · rw [singleton_append] at heq
      obtain ⟨rfl, rfl⟩ := List.cons.inj heq
      exact ⟨s, rfl, hrest⟩
    · exact absurd (List.cons.inj heq).1 (by omega)
    · exact absurd (List.cons.inj heq).1 (by omega)
    · exact absurd (List.cons.inj heq).1 (by omega)

theorem hasMark_utf8 {s : Text} {bytes : List ℕ} (h : utf8Encode s = some bytes) (hs : hasMark s = false) :
    hasMark bytes = false := by
  induction s generalizing bytes with
  | nil =>
    cases h
    rfl
  | cons c s ih =>
    obtain ⟨x, rest, hx, hrest, rfl⟩ := utf8Encode_cons h
    simp only [hasMark, Bool.or_eq_false_iff] at hs
    have htail := ih hrest hs.2
    by_cases hc : c = 123
    · subst hc
      obtain rfl : [123] = x := by simpa [utf8Char] using hx
      rw [singleton_append, hasMark_brace, htail]
      rintro t rfl
      obtain ⟨u, rfl, hu⟩ := utf8Encode_ascii (by decide) hrest
      obtain ⟨v, rfl, _⟩ := utf8Encode_ascii (by decide) hu
      simp [mark, List.isPrefixOf] at hs
    · rw [hasMark_plain _ rest, htail]
      obtain ⟨_, rfl⟩ | ⟨_, _, rfl⟩ | ⟨_, _, rfl⟩ | ⟨_, _, rfl⟩ := utf8Char_cases hx
      · simpa using hc
      · simp only [mem_cons, not_mem_nil, or_false, forall_eq_or_imp, forall_eq]
        omega
      · simp only [mem_cons, not_mem_nil, or_false, forall_eq_or_imp, forall_eq]
        omega
      · simp only [mem_cons, not_mem_nil, or_false, forall_eq_or_imp, forall_eq]
        omega

end Py

namespace Audit
open List Option

open Py

/-- Columns that agree once the keys of their data are in order. -/
structure Fields.Same (f g : Fields) : Prop where
  actor : f.actor = g.actor
  action : f.action = g.action
  targetType : f.targetType = g.targetType
  targetId : f.targetId = g.targetId
  time : f.stamp.time = g.stamp.time
  data : f.data.value.sortKeys = g.data.value.sortKeys

theorem optionalText_inj {s t : Option Text} (h : optionalText s = optionalText t) : s = t := by
  cases s <;> cases t <;> simp_all [optionalText]

theorem sortKeys_optionalText (s : Option Text) : (optionalText s).sortKeys = optionalText s := by
  cases s <;> rfl

theorem floatsWritten_optionalText (s : Option Text) : (optionalText s).FloatsWritten := by
  cases s <;> trivial

theorem floatsWritten_payload (f : Fields) : (payload f).FloatsWritten :=
  ⟨trivial, floatsWritten_optionalText _, trivial, f.data.floats, floatsWritten_optionalText _,
    floatsWritten_optionalText _, trivial⟩

theorem sortKeys_payload (f : Fields) : (payload f).sortKeys =
    .obj [(text "action", .str f.action), (text "actor", optionalText f.actor), (text "at", .str f.stamp.time.isoformat),
      (text "data", f.data.value.sortKeys), (text "target_id", optionalText f.targetId),
      (text "target_type", optionalText f.targetType)] := by
  rw [payload, Json.sortKeys]
  simp only [Json.sortKeysMembers, sortKeys_optionalText, Json.sortKeys]
  rfl

theorem canonicalPayload_ok {f : Fields} {bytes : Bytes} :
    canonicalPayload f = .ok bytes ↔ utf8Encode (payload f).dumpsSorted = some bytes := by
  unfold canonicalPayload
  cases utf8Encode (payload f).dumpsSorted <;> simp

theorem canonicalPayload_inj {f g : Fields} {bytes : Bytes} (hf : canonicalPayload f = .ok bytes)
    (hg : canonicalPayload g = .ok bytes) : f.Same g := by
  have htext := utf8Encode_inj (canonicalPayload_ok.mp hf) (canonicalPayload_ok.mp hg)
  have hsorted := Json.dumpsSorted_inj (floatsWritten_payload f) (floatsWritten_payload g) htext
  rw [sortKeys_payload, sortKeys_payload] at hsorted
  simp only [Json.obj.injEq, List.cons.injEq, Prod.mk.injEq, true_and, and_true, Json.str.injEq] at hsorted
  obtain ⟨haction, hactor, hat, hdata, hid, htype⟩ := hsorted
  exact ⟨optionalText_inj hactor, haction, optionalText_inj htype, optionalText_inj hid,
    Datetime.isoformat_inj f.stamp.valid g.stamp.valid hat, hdata⟩

/-- The canonical text between its first character and the value of `data`. -/
def payloadHead (f : Fields) : Text :=
  text "\"action\":" ++ (Json.quotePlain f.action ++ (text ",\"actor\":" ++ ((optionalText f.actor).compact ++
    (text ",\"at\":" ++ (Json.quotePlain f.stamp.time.isoformat ++ text ",\"data\":")))))

def payloadRest (f : Fields) : Text :=
  f.data.value.sortKeys.compact ++ (text ",\"target_id\":" ++ ((optionalText f.targetId).compact ++
    (text ",\"target_type\":" ++ ((optionalText f.targetType).compact ++ [125]))))

theorem dumpsSorted_payload (f : Fields) :
    (payload f).dumpsSorted = 123 :: (payloadHead f ++ payloadRest f) := by
  rw [Json.dumpsSorted, sortKeys_payload]
  simp only [Json.compact, Json.compactMembers, payloadHead, payloadRest, append_assoc, cons_append]
  rfl

theorem hasMark_payloadHead (f : Fields) : hasMark (payloadHead f) = false := by
  have hquote : ∀ s t : Text, hasMark (Json.quotePlain s ++ 44 :: t) = hasMark t := by
    intro s t
    rw [Json.quotePlain, append_assoc, cons_append, hasMark_cons (by decide), singleton_append,
      hasMark_literal]
  have hactor : ∀ t : Text, hasMark ((optionalText f.actor).compact ++ 44 :: t) = hasMark t := by
    intro t
    cases f.actor with
    | none => exact hasMark_plain (s := text "null") (by decide) _ |>.trans (hasMark_cons (by decide) t)
    | some s => exact hquote s t
  have hlead : ∀ (w : Text), (∀ c ∈ w, c ≠ 123) → hasMark w = false := by
    intro w hw
    rw [← append_nil w, hasMark_plain hw]
    rfl
  rw [payloadHead, hasMark_plain (by decide)]
  refine (hquote _ _).trans ?_
  refine (hasMark_plain (s := text "\"actor\":") (by decide) _).trans ?_
  refine (hactor _).trans ?_
  refine (hasMark_plain (s := text "\"at\":") (by decide) _).trans ?_
  refine (hquote _ _).trans ?_
  exact hlead (text "\"data\":") (by decide)

theorem payloadHead_length (f : Fields) : 34 ≤ (payloadHead f).length := by
  have hquote : ∀ s : Text, 2 ≤ (Json.quotePlain s).length := by
    intro s
    simp only [Json.quotePlain, length_append, length_cons, length_nil]
    omega
  have hactor : 2 ≤ (optionalText f.actor).compact.length := by
    cases f.actor with
    | none => decide
    | some s => exact hquote s
  have h₁ := hquote f.action
  have h₂ := hquote f.stamp.time.isoformat
  have hlengths : (text "\"action\":").length = 9 ∧ (text ",\"actor\":").length = 9 ∧ (text ",\"at\":").length = 6 ∧
      (text ",\"data\":").length = 8 := by decide
  simp only [payloadHead, length_append]
  omega

/-- The bytes of a genesis entry are never those of a later one: a canonical text does
not start anew 32 bytes into another one. -/
theorem canonicalPayload_ne_continued {f g : Fields} {b c h : Bytes} (hf : canonicalPayload f = .ok b)
    (hg : canonicalPayload g = .ok c) (hh : h.length = 32) : b ≠ h ++ c := by
  rintro rfl
  have hf := canonicalPayload_ok.mp hf
  have hg := canonicalPayload_ok.mp hg
  rw [dumpsSorted_payload] at hf hg
  obtain ⟨x, rest, hx, hrest, hbytes⟩ := utf8Encode_cons hf
  obtain rfl : [123] = x := by simpa [utf8Char] using hx
  obtain ⟨head, tail, hhead, _, rfl⟩ := utf8Encode_split hrest
  have hmark : mark <+: c := by
    have hsplit : 123 :: (payloadHead g ++ payloadRest g) = mark ++ (payloadHead g ++ payloadRest g).drop 2 := rfl
    rw [hsplit] at hg
    obtain ⟨a, b, ha, _, rfl⟩ := utf8Encode_split hg
    cases ha
    exact prefix_append _ _
  have hlong := (payloadHead_length f).trans (utf8Encode_length hhead)
  have hdrop : c = head.drop 31 ++ tail := by
    have := congrArg (List.drop 32) hbytes
    rw [drop_left' hh, singleton_append, drop_succ_cons, drop_append_of_le_length (by omega)] at this
    exact this
  have hin : mark <+: head.drop 31 := by
    rw [hdrop] at hmark
    exact prefix_of_prefix_length_le hmark (prefix_append _ _) (by simp [mark]; omega)
  have hnone := hasMark_utf8 hhead (hasMark_payloadHead f)
  rw [hasMark_of_drop hin] at hnone
  cases hnone

/-- What `_entry_hash` hands to `sha256`. -/
def hashInput (e : AuditEntry) : Except Problem Bytes :=
  (canonicalPayload e.fields).map fun canonical => e.prevHash.getD [] ++ canonical

def CollisionFree (sha256 : Bytes → Bytes) (inputs : Set Bytes) : Prop :=
  ∀ m ∈ inputs, ∀ n ∈ inputs, sha256 m = sha256 n → m = n

def HashedIn (inputs : Set Bytes) (rows : List AuditEntry) : Prop :=
  ∀ e ∈ rows, ∀ m, hashInput e = .ok m → m ∈ inputs

def lastHash (rows : List AuditEntry) : Option Bytes := (byId rows).getLast?.map (·.hash)

variable {sha256 : Bytes → Bytes} {inputs : Set Bytes}

theorem mem_byId {rows : List AuditEntry} {e : AuditEntry} : e ∈ byId rows ↔ e ∈ rows := mem_insertionSort _

theorem HashedIn.byId {rows : List AuditEntry} (h : HashedIn inputs rows) : HashedIn inputs (byId rows) :=
  fun e he => h e (mem_byId.mp he)

theorem sealed_input {e : AuditEntry} (h : Sealed sha256 e) :
    ∃ c, canonicalPayload e.fields = .ok c ∧ hashInput e = .ok (e.prevHash.getD [] ++ c) ∧
      e.hash = sha256 (e.prevHash.getD [] ++ c) := by
  unfold Sealed entryHash at h
  cases hc : canonicalPayload e.fields with
  | error x =>
    rw [hc] at h
    cases h
  | ok c =>
    rw [hc] at h
    exact ⟨c, rfl, by rw [hashInput, hc]; rfl, (Except.ok.inj h).symm⟩

def Digested (e : AuditEntry) : Prop := ∀ h, e.prevHash = some h → h.length = 32

theorem digested_of_chained (hlen : ∀ m, (sha256 m).length = 32) {rows : List AuditEntry}
    (h : Chained sha256 none rows) {e : AuditEntry} (he : e ∈ rows) : Digested e := by
  intro hash hhash
  rcases h.prev_cases he with hnone | ⟨x, hx, hsome⟩
  · rw [hnone] at hhash
    cases hhash
  · obtain ⟨c, _, _, hdigest⟩ := sealed_input hx
    rw [hsome, some_inj] at hhash
    rw [← hhash, hdigest, hlen]

theorem same_of_hash (hfree : CollisionFree sha256 inputs) {a b : AuditEntry} (ha : Digested a) (hb : Digested b)
    (hia : ∀ m, hashInput a = .ok m → m ∈ inputs) (hib : ∀ m, hashInput b = .ok m → m ∈ inputs)
    (hsa : Sealed sha256 a) (hsb : Sealed sha256 b) (h : a.hash = b.hash) :
    a.prevHash = b.prevHash ∧ a.fields.Same b.fields := by
  obtain ⟨c, hc, hinput, hhash⟩ := sealed_input hsa
  obtain ⟨d, hd, hinput', hhash'⟩ := sealed_input hsb
  have heq := hfree _ (hia _ hinput) _ (hib _ hinput') (by rw [← hhash, ← hhash', h])
  cases hp : a.prevHash with
  | none =>
    cases hq : b.prevHash with
    | none =>
      simp only [hp, hq, getD_none, nil_append] at heq
      subst heq
      exact ⟨rfl, canonicalPayload_inj hc hd⟩
    | some q =>
      simp only [hp, hq, getD_none, getD_some, nil_append] at heq
      exact absurd heq (canonicalPayload_ne_continued hc hd (hb q hq))
  | some p =>
    cases hq : b.prevHash with
    | none =>
      simp only [hp, hq, getD_none, getD_some, nil_append] at heq
      exact absurd heq.symm (canonicalPayload_ne_continued hd hc (ha p hp))
    | some q =>
      simp only [hp, hq, getD_some] at heq
      obtain ⟨rfl, rfl⟩ := append_inj heq ((ha p hp).trans (hb q hq).symm)
      exact ⟨rfl, canonicalPayload_inj hc hd⟩

theorem binding (hlen : ∀ m, (sha256 m).length = 32) (hfree : CollisionFree sha256 inputs) {as bs : List AuditEntry}
    (ha : Chained sha256 none as) (hb : Chained sha256 none bs) (hia : HashedIn inputs as) (hib : HashedIn inputs bs) :
    HashChain.Binding AuditEntry.prevHash AuditEntry.hash (Sealed sha256) (fun a b => a.fields.Same b.fields) as bs :=
  fun a hma b hmb => same_of_hash hfree (digested_of_chained hlen ha hma) (digested_of_chained hlen hb hmb)
    (hia a hma) (hib b hmb)

theorem passes_unique (hlen : ∀ m, (sha256 m).length = 32) (hfree : CollisionFree sha256 inputs)
    {as bs : List AuditEntry} (hia : HashedIn inputs as) (hib : HashedIn inputs bs) (ha : Passes sha256 as)
    (hb : Passes sha256 bs) (hlast : lastHash as = lastHash bs) :
    List.Forall₂ (fun a b => a.fields.Same b.fields) (byId as) (byId bs) := by
  have ha := passes_iff.mp ha
  have hb := passes_iff.mp hb
  have htip : HashChain.tip AuditEntry.hash none (byId as) = HashChain.tip AuditEntry.hash none (byId bs) := by
    rw [HashChain.tip_eq_getLast?, HashChain.tip_eq_getLast?]
    exact hlast
  exact (ha.unique hb (binding hlen hfree ha hb hia.byId hib.byId) htip).imp fun _ _ h => h.2.2

/-- `id` is the primary key. -/
def Keyed (rows : List AuditEntry) : Prop := (rows.map (·.id)).Nodup

theorem Keyed.strict {rows : List AuditEntry} (h : Keyed rows) : (byId rows).Pairwise fun a b => a.id < b.id := by
  have hsorted : (byId rows).Pairwise fun a b => a.id ≤ b.id := pairwise_insertionSort _ _
  have hkeys : ((byId rows).map (·.id)).Nodup := ((perm_insertionSort _ rows).map _).nodup_iff.mpr h
  have hne : (byId rows).Pairwise fun a b => a.id ≠ b.id := pairwise_map.mp hkeys
  exact hsorted.imp₂ (fun _ _ hle hne => lt_of_le_of_ne hle hne) hne

theorem byId_filter {rows : List AuditEntry} (h : Keyed rows) (keep : AuditEntry → Bool) :
    byId (rows.filter keep) = (byId rows).filter keep := by
  have hkeyed : Keyed (rows.filter keep) := h.sublist (filter_sublist.map _)
  refine List.Perm.eq_of_pairwise (fun a b _ _ hab hba => absurd hab (lt_asymm hba)) hkeyed.strict
    (h.strict.filter keep) ?_
  exact (perm_insertionSort _ _).trans ((perm_insertionSort _ rows).filter keep).symm

/-- In a list with an order, the kept entries form a prefix exactly when nothing is
kept behind an entry that is not. -/
theorem filter_prefix_iff {es : List AuditEntry} (h : es.Pairwise fun a b => a.id < b.id) (keep : AuditEntry → Bool) :
    es.filter keep <+: es ↔ ∀ a ∈ es, ∀ b ∈ es, a.id ≤ b.id → keep b = true → keep a = true := by
  induction es with
  | nil => simp
  | cons e es ih =>
    obtain ⟨hlt, hrest⟩ := pairwise_cons.mp h
    cases hkeep : keep e with
    | true =>
      rw [filter_cons_of_pos hkeep, cons_prefix_cons, ih hrest]
      refine ⟨fun hall a ha b hb hle hb' => ?_, fun hall => ⟨rfl, fun a ha b hb => ?_⟩⟩
      · rcases mem_cons.mp ha with rfl | hmem
        · exact hkeep
        · rcases mem_cons.mp hb with heq | hmem'
          · have := hlt a hmem
            rw [heq] at hle
            omega
          · exact hall.2 a hmem b hmem' hle hb'
      · exact hall a (mem_cons_of_mem _ ha) b (mem_cons_of_mem _ hb)
    | false =>
      rw [filter_cons_of_neg (by simp [hkeep])]
      constructor
      · intro hpre a ha b hb _ hb'
        have hnone : es.filter keep = [] := by
          cases hfilter : es.filter keep with
          | nil => rfl
          | cons x xs =>
            rw [hfilter, cons_prefix_cons] at hpre
            have hx := (mem_filter.mp (hfilter ▸ mem_cons_self : x ∈ es.filter keep)).2
            rw [hpre.1, hkeep] at hx
            cases hx
        rcases mem_cons.mp hb with rfl | hb
        · rw [hkeep] at hb'
          cases hb'
        · exact absurd (hnone ▸ mem_filter.mpr ⟨hb, hb'⟩ : b ∈ []) not_mem_nil
      · intro hall
        have hnone : es.filter keep = [] := by
          refine filter_eq_nil_iff.mpr fun b hb hb' => ?_
          have := hall e mem_cons_self b (mem_cons_of_mem _ hb) (hlt b hb).le hb'
          rw [hkeep] at this
          cases this
        rw [hnone]
        exact nil_prefix

theorem passes_filter_iff (hlen : ∀ m, (sha256 m).length = 32) (hfree : CollisionFree sha256 inputs)
    {rows : List AuditEntry} (hkeys : Keyed rows) (hin : HashedIn inputs rows) (h : Passes sha256 rows)
    (keep : AuditEntry → Bool) : Passes sha256 (rows.filter keep) ↔
      ∀ a ∈ rows, ∀ b ∈ rows, a.id ≤ b.id → keep b = true → keep a = true := by
  have hchain := passes_iff.mp h
  have hprefix := hchain.sublist_iff (filter_sublist (p := keep))
    (binding hlen hfree hchain hchain hin.byId hin.byId)
  rw [passes_iff, byId_filter hkeys]
  refine hprefix.trans ?_
  rw [filter_prefix_iff hkeys.strict]
  simp only [mem_byId]

def rewrite (edit : AuditEntry → Fields) (rows : List AuditEntry) : List AuditEntry :=
  rows.map fun e => { e with fields := edit e }

theorem byId_rewrite (edit : AuditEntry → Fields) (rows : List AuditEntry) :
    byId (rewrite edit rows) = rewrite edit (byId rows) := by
  let edited : AuditEntry → AuditEntry := fun e => { e with fields := edit e }
  exact (map_insertionSort (fun a b : AuditEntry => a.id ≤ b.id) (fun a b : AuditEntry => a.id ≤ b.id) edited rows
    fun _ _ _ _ => Iff.rfl).symm

theorem lastHash_rewrite (edit : AuditEntry → Fields) (rows : List AuditEntry) :
    lastHash (rewrite edit rows) = lastHash rows := by
  rw [lastHash, byId_rewrite, rewrite, List.getLast?_map, Option.map_map]
  rfl

theorem rewrite_fails (hlen : ∀ m, (sha256 m).length = 32) (hfree : CollisionFree sha256 inputs)
    {rows : List AuditEntry} (edit : AuditEntry → Fields) (hin : HashedIn inputs rows)
    (hin' : HashedIn inputs (rewrite edit rows)) (h : Passes sha256 rows) {e : AuditEntry} (he : e ∈ rows)
    (hchanged : ¬ e.fields.Same (edit e)) : ¬ Passes sha256 (rewrite edit rows) := by
  intro hedited
  have hsame := passes_unique hlen hfree hin hin' h hedited (lastHash_rewrite edit rows).symm
  rw [byId_rewrite, rewrite, forall₂_map_right_iff, forall₂_same] at hsame
  exact hchanged (hsame e (mem_byId.mpr he))

/-- Where `sha256` gives 32 bytes and the hashed inputs do not collide: the last hash of a log that
passes fixes its rows, only a deletion of the newest rows goes unnoticed, and no change of a
covered column does. -/
theorem audit_log_tamper_evident (sha256 : Bytes → Bytes) (inputs : Set Bytes) (hlen : ∀ m, (sha256 m).length = 32)
    (hfree : CollisionFree sha256 inputs) :
    (∀ as bs, HashedIn inputs as → HashedIn inputs bs → Passes sha256 as → Passes sha256 bs → lastHash as = lastHash bs →
      List.Forall₂ (fun a b => a.fields.Same b.fields) (byId as) (byId bs)) ∧
    (∀ rows, Keyed rows → HashedIn inputs rows → Passes sha256 rows → ∀ keep : AuditEntry → Bool,
      (Passes sha256 (rows.filter keep) ↔ ∀ a ∈ rows, ∀ b ∈ rows, a.id ≤ b.id → keep b = true → keep a = true)) ∧
    (∀ rows edit, HashedIn inputs rows → HashedIn inputs (rewrite edit rows) → Passes sha256 rows →
      (∃ e ∈ rows, ¬ e.fields.Same (edit e)) → ¬ Passes sha256 (rewrite edit rows)) := by
  refine ⟨fun as bs hia hib => passes_unique hlen hfree hia hib, fun rows hkeys hin h keep => ?_, ?_⟩
  · exact passes_filter_iff hlen hfree hkeys hin h keep
  · rintro rows edit hin hin' h ⟨e, he, hchanged⟩
    exact rewrite_fails hlen hfree edit hin hin' h he hchanged

theorem bigEndian_length (n x : ℕ) : (Sha256.bigEndian n x).length = n := by
  induction n generalizing x with
  | zero => rfl
  | succ n ih => rw [Sha256.bigEndian, length_append, ih, length_singleton]

theorem digest_length (m : Bytes) : (Sha256.digest m).length = 32 := by
  simp only [Sha256.digest, flatMap_cons, flatMap_nil, length_append, bigEndian_length, length_nil]

section Samples

def loginFields : Fields :=
  { actor := some (text "sub-1"), action := text "login", targetType := none, targetId := none, stamp := noon,
    data := ⟨.obj [(text "new", .bool true)], ⟨trivial, trivial⟩⟩ }

def deniedFields : Fields := { loginFields with action := text "access.denied" }

/-- The hash of a row, from the hash of the row before it. -/
def sampleHash (prev : Option Bytes) (f : Fields) : Bytes :=
  Sha256.digest (prev.getD [] ++ (canonicalPayload f).toOption.getD [])

def loginRow : AuditEntry := ⟨1, loginFields, none, sampleHash none loginFields⟩

def deniedRow : AuditEntry := ⟨2, deniedFields, some loginRow.hash, sampleHash (some loginRow.hash) deniedFields⟩

def twoRows : List AuditEntry := [loginRow, deniedRow]

/-- The texts that the two rows hash, and the text of the first row after an edit. -/
def sampleInputs : List Bytes :=
  [(canonicalPayload loginFields).toOption.getD [], (canonicalPayload deniedFields).toOption.getD [],
    loginRow.hash ++ (canonicalPayload deniedFields).toOption.getD []]

theorem sealed_sample (id : ℕ) (prev : Option Bytes) {f : Fields} (h : (canonicalPayload f).toOption.isSome) :
    Sealed Sha256.digest ⟨id, f, prev, sampleHash prev f⟩ := by
  obtain ⟨c, hc⟩ := isSome_iff_exists.mp h
  rw [toOption_some] at hc
  simp only [Sealed, entryHash, sampleHash, hc, Except.map, computeHash, Except.toOption, getD_some]

theorem hashInput_ok {e : AuditEntry} {m : Bytes} (h : hashInput e = .ok m) :
    m = e.prevHash.getD [] ++ (canonicalPayload e.fields).toOption.getD [] := by
  rw [hashInput] at h
  cases hc : canonicalPayload e.fields with
  | error p => rw [hc] at h; cases h
  | ok c =>
    rw [hc] at h
    exact (Except.ok.inj h).symm

/-- Of two chained rows the log without the second passes, the log without the first does not, nor the
one whose first row was edited; and the shorter log has another last hash. -/
theorem twoRows_tampering :
    Passes Sha256.digest twoRows ∧ Passes Sha256.digest (twoRows.filter (·.id ≠ 2)) ∧
      ¬ Passes Sha256.digest (twoRows.filter (·.id ≠ 1)) ∧ lastHash twoRows ≠ lastHash (twoRows.filter (·.id ≠ 2)) ∧
      ¬ Passes Sha256.digest (rewrite (fun _ => deniedFields) twoRows) := by
  have hlogin : (canonicalPayload loginFields).toOption.isSome := by decide +kernel
  have hdenied : (canonicalPayload deniedFields).toOption.isSome := by decide +kernel
  have hpasses : Passes Sha256.digest twoRows :=
    passes_iff.mpr ⟨rfl, sealed_sample 1 none hlogin, rfl, sealed_sample 2 _ hdenied, trivial⟩
  have hdistinct : (sampleInputs.map Sha256.digest).Nodup := by decide +kernel
  have hfree : CollisionFree Sha256.digest {m | m ∈ sampleInputs} := fun m hm n hn h => inj_on_of_nodup_map hdistinct hm hn h
  have hin : HashedIn {m | m ∈ sampleInputs} twoRows := by
    intro e he m hm
    rw [hashInput_ok hm]
    rcases mem_pair.mp he with rfl | rfl
    · simp only [loginRow, getD_none, nil_append, Set.mem_ofPred_eq, sampleInputs, mem_cons, true_or]
    · simp only [deniedRow, getD_some, Set.mem_ofPred_eq, sampleInputs, mem_cons, true_or, or_true]
  have hin' : HashedIn {m | m ∈ sampleInputs} (rewrite (fun _ => deniedFields) twoRows) := by
    intro e he m hm
    rw [hashInput_ok hm]
    rcases mem_pair.mp he with rfl | rfl
    · simp only [loginRow, getD_none, nil_append, Set.mem_ofPred_eq, sampleInputs, mem_cons, true_or, or_true]
    · simp only [deniedRow, getD_some, Set.mem_ofPred_eq, sampleInputs, mem_cons, true_or, or_true]
  obtain ⟨hunique, hdeletion, hedit⟩ :=
    audit_log_tamper_evident Sha256.digest {m | m ∈ sampleInputs} digest_length hfree
  have hkeyed : Keyed twoRows := by
    unfold Keyed
    decide
  have hshort := (hdeletion twoRows hkeyed hin hpasses (·.id ≠ 2)).mpr (by decide)
  refine ⟨hpasses, hshort, mt (hdeletion twoRows hkeyed hin hpasses (·.id ≠ 1)).mp (by decide), fun hlast => ?_, ?_⟩
  · have hsame := (hunique _ _ hin (fun e he => hin e (mem_filter.mp he).1) hpasses hshort hlast).length_eq
    revert hsame
    decide
  · exact hedit twoRows _ hin hin' hpasses ⟨loginRow, mem_cons_self, fun hsame => absurd hsame.action (by decide)⟩

end Samples

end Audit
