import StupaWorkflow.DecisionModel

/-!
What the decisions of an application say over a whole run. A decision that a newer one superseded
carries the time of that one, and a decision that a revert undid carries a time at which nothing
was decided.
-/
namespace Decision
open Py Decimals List

section Newest

variable {rows : List ApplicationDecision} {v : ApplicationDecision}

theorem newest_mem (h : newest rows = some v) : v ∈ rows :=
  argmax_mem h

theorem newest_iff (hone : ∀ x ∈ rows, ∀ y ∈ rows, x = y) : newest rows = some v ↔ v ∈ rows := by
  refine ⟨newest_mem, fun hv => ?_⟩
  cases hnew : newest rows with
  | none =>
    rw [newest, argmax_eq_none] at hnew
    rw [hnew] at hv
    cases hv
  | some x => rw [hone x (newest_mem hnew) v hv]

theorem newest_none : newest rows = none ↔ rows = [] := argmax_eq_none

theorem mem_marked {d : Db} {app : Uuid} {mark : Option Time} {r : ApplicationDecision} :
    r ∈ d.marked app mark ↔ r ∈ d.decisions ∧ r.applicationId = app ∧ r.supersededAt = mark := by
  simp [Db.marked]

end Newest

section Rows

def Retired (rows : List ApplicationDecision) (r : ApplicationDecision) : Prop :=
  ∃ t, r.supersededAt = some t ∧ ∀ x ∈ rows, x.decidedAt ≠ t

/-- The decision rows of all applications. Each decision that can still become valid
names in `before` the one that carries its time. -/
structure Sound (rows : List ApplicationDecision) : Prop where
  ids : (rows.map ApplicationDecision.id).Nodup
  times : (rows.map ApplicationDecision.decidedAt).Nodup
  dated : ∀ r ∈ rows, ∀ t, r.supersededAt = some t → r.decidedAt < t
  one : ∀ x ∈ rows, ∀ y ∈ rows, x.applicationId = y.applicationId → x.supersededAt = none → y.supersededAt = none → x = y
  link : ∀ x ∈ rows, ¬ Retired rows x → ∀ r ∈ rows, r.applicationId = x.applicationId →
    (r.supersededAt = some x.decidedAt ↔ x.before = some r.id)
  before : ∀ x ∈ rows, ∀ k, x.before = some k → ∃ r ∈ rows, r.id = k ∧ r.applicationId = x.applicationId

def Older (rows : List ApplicationDecision) (s : Time) : Prop :=
  ∀ r ∈ rows, r.decidedAt < s ∧ ∀ t, r.supersededAt = some t → t < s

theorem Sound.id_inj {rows : List ApplicationDecision} (h : Sound rows) {x y : ApplicationDecision} (hx : x ∈ rows)
    (hy : y ∈ rows) (hid : x.id = y.id) : x = y := inj_on_of_nodup_map h.ids hx hy hid

theorem Sound.time_inj {rows : List ApplicationDecision} (h : Sound rows) {x y : ApplicationDecision} (hx : x ∈ rows)
    (hy : y ∈ rows) (ht : x.decidedAt = y.decidedAt) : x = y := inj_on_of_nodup_map h.times hx hy ht

def superseding (app : Uuid) (s : Time) (r : ApplicationDecision) : ApplicationDecision :=
  if r.applicationId = app ∧ r.supersededAt = none then { r with supersededAt := some s } else r

theorem superseding_same (app : Uuid) (s : Time) (r : ApplicationDecision) :
    (superseding app s r).id = r.id ∧ (superseding app s r).applicationId = r.applicationId ∧
      (superseding app s r).decidedAt = r.decidedAt ∧ (superseding app s r).before = r.before := by
  unfold superseding
  split <;> exact ⟨rfl, rfl, rfl, rfl⟩

theorem superseding_mark {app : Uuid} {s t : Time} {r : ApplicationDecision} (ht : t ≠ s) :
    (superseding app s r).supersededAt = some t ↔ r.supersededAt = some t := by
  unfold superseding
  split
  next h => simp [h.2, Ne.symm ht]
  next => exact Iff.rfl

theorem superseding_now {app : Uuid} {s : Time} {r : ApplicationDecision} (hr : ∀ t, r.supersededAt = some t → t < s) :
    (superseding app s r).supersededAt = some s ↔ r.applicationId = app ∧ r.supersededAt = none := by
  unfold superseding
  split
  next h => simp [h]
  next h =>
    refine ⟨fun hs => absurd (hr s hs) (lt_irrefl s), fun h' => absurd h' h⟩

theorem superseding_none {app : Uuid} {s : Time} {r : ApplicationDecision} :
    (superseding app s r).supersededAt = none ↔ r.applicationId ≠ app ∧ r.supersededAt = none := by
  unfold superseding
  split
  next h => simp [h.1]
  next h =>
    constructor
    · exact fun hs => ⟨fun happ => h ⟨happ, hs⟩, hs⟩
    · exact fun h' => h'.2

theorem Sound.record {rows : List ApplicationDecision} (h : Sound rows) {s : Time} (hs : Older rows s)
    (row : ApplicationDecision) (hid : ∀ r ∈ rows, r.id ≠ row.id) (hdecided : row.decidedAt = s)
    (hvalid : row.supersededAt = none)
    (hbefore : ∀ r ∈ rows, r.applicationId = row.applicationId → (r.supersededAt = none ↔ row.before = some r.id))
    (hold : ∀ k, row.before = some k → ∃ r ∈ rows, r.id = k ∧ r.applicationId = row.applicationId) :
    Sound (rows.map (superseding row.applicationId s) ++ [row]) := by
  have hmem : ∀ {q}, q ∈ rows.map (superseding row.applicationId s) ++ [row] →
      (∃ r ∈ rows, superseding row.applicationId s r = q) ∨ q = row := by
    intro q hq
    rcases mem_append.mp hq with hq | hq
    · exact .inl (mem_map.mp hq)
    · exact .inr (mem_singleton.mp hq)
  have hin : ∀ {r}, r ∈ rows → superseding row.applicationId s r ∈ rows.map (superseding row.applicationId s) ++ [row] :=
    fun hr => mem_append_left _ (mem_map_of_mem hr)
  have hsame := superseding_same row.applicationId s
  constructor
  case ids =>
    have hids : (rows.map (superseding row.applicationId s)).map ApplicationDecision.id = rows.map ApplicationDecision.id := by
      rw [map_map]
      exact map_congr_left fun r _ => (hsame r).1
    refine Table.nodup_insert (hids ▸ h.ids) (forall_mem_map.mpr fun r hr => ?_)
    rw [(hsame r).1]
    exact hid r hr
  case times =>
    have htimes : (rows.map (superseding row.applicationId s)).map ApplicationDecision.decidedAt =
        rows.map ApplicationDecision.decidedAt := by
      rw [map_map]
      exact map_congr_left fun r _ => (hsame r).2.2.1
    refine Table.nodup_insert (htimes ▸ h.times) (forall_mem_map.mpr fun r hr => ?_)
    rw [(hsame r).2.2.1, hdecided]
    exact (hs r hr).1.ne
  case dated =>
    intro q hq t ht
    rcases hmem hq with ⟨r, hr, rfl⟩ | rfl
    · rw [(hsame r).2.2.1]
      by_cases hnow : t = s
      · rw [hnow]
        exact (hs r hr).1
      · exact h.dated r hr t ((superseding_mark hnow).mp ht)
    · rw [hvalid] at ht
      cases ht
  case one =>
    intro x hx y hy happ hxn hyn
    rcases hmem hx with ⟨r, hr, rfl⟩ | rfl <;> rcases hmem hy with ⟨r', hr', rfl⟩ | rfl
    · rw [(hsame r).2.1, (hsame r').2.1] at happ
      rw [h.one r hr r' hr' happ (superseding_none.mp hxn).2 (superseding_none.mp hyn).2]
    · rw [(hsame r).2.1] at happ
      exact absurd happ (superseding_none.mp hxn).1
    · rw [(hsame r').2.1] at happ
      exact absurd happ.symm (superseding_none.mp hyn).1
    · rfl
  case link =>
    intro x hx hlive r hr happ
    rcases hmem hx with ⟨old, hold', rfl⟩ | rfl
    · -- an older decision: its time is not the new one
      have htime : old.decidedAt ≠ s := (hs old hold').1.ne
      have hlive' : ¬ Retired rows old := by
        rintro ⟨t, ht, hnone⟩
        have hts : t ≠ s := ((hs old hold').2 t ht).ne
        refine hlive ⟨t, (superseding_mark hts).mpr ht, ?_⟩
        intro y hy
        rcases hmem hy with ⟨y', hy', rfl⟩ | rfl
        · rw [(hsame y').2.2.1]
          exact hnone y' hy'
        · rw [hdecided]
          exact hts.symm
      rw [(hsame old).2.2.1, (hsame old).2.2.2]
      rw [(hsame old).2.1] at happ
      rcases hmem hr with ⟨r', hr', rfl⟩ | rfl
      · rw [(hsame r').2.1] at happ
        rw [superseding_mark htime, (hsame r').1]
        exact h.link old hold' hlive' r' hr' happ
      · rw [hvalid]
        refine iff_of_false (by simp) fun hb => ?_
        obtain ⟨q, hq, hqid, _⟩ := h.before old hold' _ hb
        exact hid q hq hqid
    · rw [hdecided]
      rcases hmem hr with ⟨r', hr', rfl⟩ | rfl
      · rw [(hsame r').2.1] at happ
        rw [superseding_now (hs r' hr').2, (hsame r').1]
        simp only [happ, true_and]
        exact hbefore r' hr' happ
      · rw [hvalid]
        refine iff_of_false (by simp) fun hb => ?_
        obtain ⟨q, hq, hqid, _⟩ := hold _ hb
        exact hid q hq hqid
  case before =>
    intro x hx k hk
    rcases hmem hx with ⟨old, hold', rfl⟩ | rfl
    · rw [(hsame old).2.2.2] at hk
      obtain ⟨r, hr, hrid, happ⟩ := h.before old hold' k hk
      refine ⟨_, hin hr, (hsame r).1.trans hrid, ?_⟩
      rw [(hsame r).2.1, (hsame old).2.1]
      exact happ
    · obtain ⟨r, hr, hrid, happ⟩ := hold k hk
      exact ⟨_, hin hr, (hsame r).1.trans hrid, (hsame r).2.1.trans happ⟩

def swapping (undoneId : Uuid) (restoredId : Option Uuid) (s : Time) (r : ApplicationDecision) : ApplicationDecision :=
  if some r.id = restoredId then { r with supersededAt := none }
  else if r.id = undoneId then { r with supersededAt := some s }
  else r

theorem swapping_same (undoneId : Uuid) (restoredId : Option Uuid) (s : Time) (r : ApplicationDecision) :
    (swapping undoneId restoredId s r).id = r.id ∧ (swapping undoneId restoredId s r).applicationId = r.applicationId ∧
      (swapping undoneId restoredId s r).decidedAt = r.decidedAt ∧ (swapping undoneId restoredId s r).before = r.before := by
  unfold swapping
  split
  · exact ⟨rfl, rfl, rfl, rfl⟩
  · split <;> exact ⟨rfl, rfl, rfl, rfl⟩

theorem swapping_event (undoneId : Uuid) (restoredId : Option Uuid) (s : Time) (r : ApplicationDecision) :
    (swapping undoneId restoredId s r).statusEventId = r.statusEventId := by
  unfold swapping
  split
  · rfl
  · split <;> rfl

/-- What a revert swaps: a valid decision and one that it superseded. -/
structure Swappable (rows : List ApplicationDecision) (undone : ApplicationDecision) (restored : Option ApplicationDecision) :
    Prop where
  mem : undone ∈ rows
  valid : undone.supersededAt = none
  back : ∀ p, restored = some p →
    p ∈ rows ∧ p.applicationId = undone.applicationId ∧ p.supersededAt = some undone.decidedAt

section Swap

variable {rows : List ApplicationDecision} {undone : ApplicationDecision} {restored : Option ApplicationDecision} {s : Time}

theorem Sound.swapping_cases (h : Sound rows) (hsw : Swappable rows undone restored) {r : ApplicationDecision}
    (hr : r ∈ rows) :
    (restored = some r ∧ (swapping undone.id (restored.map ApplicationDecision.id) s r).supersededAt = none) ∨
      (r = undone ∧ (swapping undone.id (restored.map ApplicationDecision.id) s r).supersededAt = some s) ∨
      (restored ≠ some r ∧ r ≠ undone ∧
        (swapping undone.id (restored.map ApplicationDecision.id) s r).supersededAt = r.supersededAt) := by
  unfold swapping
  by_cases hback : some r.id = restored.map ApplicationDecision.id
  · left
    obtain ⟨p, hp, hid⟩ := Option.map_eq_some_iff.mp hback.symm
    obtain ⟨hmem, _, _⟩ := hsw.back p hp
    rw [h.id_inj hmem hr hid] at hp
    exact ⟨hp, by rw [if_pos hback]⟩
  · have hne : restored ≠ some r := fun heq => hback (by rw [heq]; rfl)
    by_cases hundone : r.id = undone.id
    · right; left
      exact ⟨h.id_inj hr hsw.mem hundone, by rw [if_neg hback, if_pos hundone]⟩
    · right; right
      exact ⟨hne, fun heq => hundone (by rw [heq]), by rw [if_neg hback, if_neg hundone]⟩

theorem Sound.swap (h : Sound rows) (hs : Older rows s) (hsw : Swappable rows undone restored) :
    Sound (rows.map (swapping undone.id (restored.map ApplicationDecision.id) s)) := by
  have hsame := swapping_same undone.id (restored.map ApplicationDecision.id) s
  have hcases : ∀ {r}, r ∈ rows → _ := fun {r} hr => h.swapping_cases (s := s) hsw (r := r) hr
  constructor
  case ids =>
    rw [map_map, show _ ∘ _ = ApplicationDecision.id from funext fun r => (hsame r).1]
    exact h.ids
  case times =>
    rw [map_map, show _ ∘ _ = ApplicationDecision.decidedAt from funext fun r => (hsame r).2.2.1]
    exact h.times
  case dated =>
    refine forall_mem_map.mpr fun r hr t ht => ?_
    rw [(hsame r).2.2.1]
    rcases hcases hr with ⟨_, hnone⟩ | ⟨_, hnow⟩ | ⟨_, _, hkept⟩
    · rw [hnone] at ht
      cases ht
    · rw [hnow] at ht
      cases ht
      exact (hs r hr).1
    · exact h.dated r hr t (hkept ▸ ht)
  case one =>
    refine forall_mem_map.mpr fun x hx => forall_mem_map.mpr fun y hy happ hxn hyn => ?_
    rw [(hsame x).2.1, (hsame y).2.1] at happ
    -- a valid row is the restored one, or it was valid before and is not of this application
    have hvalid : ∀ {r}, r ∈ rows → (swapping undone.id (restored.map ApplicationDecision.id) s r).supersededAt = none →
        restored = some r ∨ (r.supersededAt = none ∧ r.applicationId ≠ undone.applicationId) := by
      intro r hr hrn
      rcases hcases hr with ⟨hback, _⟩ | ⟨_, hnow⟩ | ⟨_, hne, hkept⟩
      · exact .inl hback
      · rw [hnow] at hrn
        cases hrn
      · rw [hkept] at hrn
        exact .inr ⟨hrn, fun happ' => hne (h.one r hr undone hsw.mem happ' hrn hsw.valid)⟩
    rcases hvalid hx hxn with hbx | ⟨hxv, hxa⟩ <;> rcases hvalid hy hyn with hby | ⟨hyv, hya⟩
    · rw [hbx] at hby
      rw [Option.some.inj hby]
    · exact absurd (happ.symm.trans (hsw.back x hbx).2.1) hya
    · exact absurd (happ.trans (hsw.back y hby).2.1) hxa
    · rw [h.one x hx y hy happ hxv hyv]
  case link =>
    refine forall_mem_map.mpr fun x hx hlive => forall_mem_map.mpr fun r hr happ => ?_
    rw [(hsame r).2.1, (hsame x).2.1] at happ
    rw [(hsame x).2.2.1, (hsame x).2.2.2, (hsame r).1]
    have htimes : ∀ {t}, (∀ y ∈ rows, y.decidedAt ≠ t) →
        ∀ y ∈ rows.map (swapping undone.id (restored.map ApplicationDecision.id) s), y.decidedAt ≠ t := by
      intro t ht
      refine forall_mem_map.mpr fun y hy => ?_
      rw [(hsame y).2.2.1]
      exact ht y hy
    have hnever : ∀ y ∈ rows, y.decidedAt ≠ s := fun y hy => (hs y hy).1.ne
    have hlive' : ¬ Retired rows x := by
      rintro ⟨t, ht, hnone⟩
      rcases hcases hx with ⟨hback, _⟩ | ⟨hundone, _⟩ | ⟨_, _, hkept⟩
      · obtain ⟨_, _, hmark⟩ := hsw.back x hback
        rw [hmark] at ht
        exact hnone undone hsw.mem (Option.some.inj ht)
      · rw [hundone, hsw.valid] at ht
        cases ht
      · exact hlive ⟨t, hkept.trans ht, htimes hnone⟩
    have hother : x ≠ undone := by
      rintro rfl
      rcases hcases hx with ⟨hback, _⟩ | ⟨_, hnow⟩ | ⟨_, hne, _⟩
      · have := (hsw.back x hback).2.2
        rw [hsw.valid] at this
        cases this
      · exact hlive ⟨s, hnow, htimes hnever⟩
      · exact hne rfl
    rw [← h.link x hx hlive' r hr happ]
    rcases hcases hr with ⟨hback, hnone⟩ | ⟨hundone, hnow⟩ | ⟨_, _, hkept⟩
    · rw [hnone, (hsw.back r hback).2.2]
      refine iff_of_false (by simp) fun heq => hother ?_
      exact (h.time_inj hsw.mem hx (Option.some.inj heq)).symm
    · rw [hnow, hundone, hsw.valid]
      exact iff_of_false (fun heq => hnever x hx (Option.some.inj heq).symm) (by simp)
    · rw [hkept]
  case before =>
    refine forall_mem_map.mpr fun x hx k hk => ?_
    rw [(hsame x).2.2.2] at hk
    obtain ⟨r, hr, hrid, happ⟩ := h.before x hx k hk
    refine ⟨_, mem_map_of_mem hr, (hsame r).1.trans hrid, ?_⟩
    rw [(hsame r).2.1, (hsame x).2.1]
    exact happ

end Swap

theorem Retired.record {rows : List ApplicationDecision} {s : Time} (hs : Older rows s) {r : ApplicationDecision}
    (row : ApplicationDecision)
    (hr : r ∈ rows) (h : Retired rows r) (hdecided : row.decidedAt = s) :
    superseding row.applicationId s r = r ∧ Retired (rows.map (superseding row.applicationId s) ++ [row]) r := by
  obtain ⟨t, ht, hnone⟩ := h
  have hsame : superseding row.applicationId s r = r := by
    rw [superseding, if_neg]
    rintro ⟨_, hvalid⟩
    rw [ht] at hvalid
    cases hvalid
  refine ⟨hsame, t, ht, fun x hx => ?_⟩
  rcases mem_append.mp hx with hx | hx
  · obtain ⟨y, hy, rfl⟩ := mem_map.mp hx
    rw [(superseding_same _ s y).2.2.1]
    exact hnone y hy
  · rw [mem_singleton.mp hx, hdecided]
    exact ((hs r hr).2 t ht).ne'

theorem Retired.swap {rows : List ApplicationDecision} {undone : ApplicationDecision}
    {restored : Option ApplicationDecision} {s : Time} (hrows : Sound rows) (hsw : Swappable rows undone restored)
    {r : ApplicationDecision} (hr : r ∈ rows) (h : Retired rows r) :
    Retired (rows.map (swapping undone.id (restored.map ApplicationDecision.id) s))
      (swapping undone.id (restored.map ApplicationDecision.id) s r) := by
  obtain ⟨t, ht, hnone⟩ := h
  refine ⟨t, ?_, forall_mem_map.mpr fun y hy => ?_⟩
  · rcases hrows.swapping_cases hsw hr with ⟨hback, _⟩ | ⟨hundone, _⟩ | ⟨_, _, hkept⟩
    · obtain ⟨_, _, hmark⟩ := hsw.back r hback
      rw [hmark] at ht
      exact absurd (Option.some.inj ht) (hnone undone hsw.mem)
    · rw [hundone, hsw.valid] at ht
      cases ht
    · exact hkept.trans ht
  · rw [(swapping_same _ _ s y).2.2.1]
    exact hnone y hy

theorem Swappable.retires {rows : List ApplicationDecision} {undone : ApplicationDecision}
    {restored : Option ApplicationDecision} {s : Time} (hrows : Sound rows) (hs : Older rows s)
    (hsw : Swappable rows undone restored) :
    Retired (rows.map (swapping undone.id (restored.map ApplicationDecision.id) s))
      (swapping undone.id (restored.map ApplicationDecision.id) s undone) := by
  refine ⟨s, ?_, forall_mem_map.mpr fun y hy => ?_⟩
  · rcases hrows.swapping_cases hsw hsw.mem with ⟨hback, _⟩ | ⟨_, hnow⟩ | ⟨_, hne, _⟩
    · have hmark := (hsw.back undone hback).2.2
      rw [hsw.valid] at hmark
      cases hmark
    · exact hnow
    · exact absurd rfl hne
  · rw [(swapping_same _ _ s y).2.2.1]
    exact (hs y hy).1.ne

end Rows

end Decision
