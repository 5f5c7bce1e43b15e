import StupaWorkflow.DecisionRows

/-!
The decisions of the applications over a run of requests: what each request writes,
and when a revert and the revert of a revert bring back the decision they should.
-/
namespace Decision
open Py List

section Tables

variable {d : Db} {app event : Uuid} {f : Application → Application} {undone : ApplicationDecision}
  {restored : Option ApplicationDecision} {rows : List ApplicationDecision}

/-- The valid decision is the row without a `superseded_at`. -/
theorem valid_iff (h : Sound d.decisions) {v : ApplicationDecision} :
    d.valid app = some v ↔ v ∈ d.decisions ∧ v.applicationId = app ∧ v.supersededAt = none := by
  rw [Db.valid, newest_iff, mem_marked]
  intro x hx y hy
  obtain ⟨hx, hxa, hxn⟩ := mem_marked.mp hx
  obtain ⟨hy, hya, hyn⟩ := mem_marked.mp hy
  exact h.one x hx y hy (hxa.trans hya.symm) hxn hyn

theorem valid_congr {d' : Db} (h : Sound d.decisions) (h' : Sound d'.decisions)
    (hsame : ∀ v, v.applicationId = app → v.supersededAt = none → (v ∈ d'.decisions ↔ v ∈ d.decisions)) :
    d'.valid app = d.valid app := by
  refine Option.ext fun v => ?_
  rw [valid_iff h', valid_iff h]
  constructor
  · rintro ⟨hv, happ, hn⟩
    exact ⟨(hsame v happ hn).mp hv, happ, hn⟩
  · rintro ⟨hv, happ, hn⟩
    exact ⟨(hsame v happ hn).mpr hv, happ, hn⟩

def AmountsCopied (d : Db) : Prop := ∀ a ∈ d.applications, a.approvedAmount = amountOf (d.valid a.id)

structure Inv (d : Db) : Prop where
  apps : (d.applications.map Application.id).Nodup
  rows : Sound d.decisions
  ids : ∀ r ∈ d.decisions, r.id < d.next
  events : ∀ r ∈ d.decisions, ∀ e, r.statusEventId = some e → e < d.next
  entries : ∀ entry ∈ d.log, entry.statusEventId < d.next
  amounts : AmountsCopied d
  swaps : ∀ entry ∈ d.log, ∀ s, entry.swap = some s →
    (∀ r ∈ d.decisions, r.statusEventId ≠ some entry.statusEventId) ∧
      ∃ r ∈ d.decisions, s.undoneId = some r.id ∧ Retired d.decisions r

theorem setApp_ids (h : (d.applications.map Application.id).Nodup) (k : Uuid) (hid : ∀ a, (f a).id = a.id) :
    ((d.setApp k f).applications.map Application.id).Nodup := by
  show ((Table.modify Application.id k f d.applications).map Application.id).Nodup
  rw [Table.modify_keys hid]
  exact h

theorem Inv.setApp (h : Inv d) {k : Uuid} (hid : ∀ a, (f a).id = a.id) (happroved : ∀ a, (f a).approvedAmount = a.approvedAmount) :
    Inv (d.setApp k f) where
  apps := setApp_ids h.apps k hid
  rows := h.rows
  ids := h.ids
  events := h.events
  entries := h.entries
  amounts := by
    refine forall_mem_map.mpr fun a ha => ?_
    split
    · rw [happroved, hid]
      exact h.amounts a ha
    · exact h.amounts a ha
  swaps := h.swaps

theorem recordDecision_decisions (app : Uuid) (p : DecisionIn) (decidedBy : Option Text) (voteId ev : Option Uuid)
    (d : Db) : (recordDecision app p decidedBy voteId ev d).decisions =
      d.decisions.map (superseding app d.now) ++ [newDecision app p decidedBy voteId ev d] := rfl

theorem Inv.recordRows (h : Inv d) (hs : Older d.decisions d.now) (app : Uuid) (p : DecisionIn) (decidedBy : Option Text)
    (voteId ev : Option Uuid) : Sound (recordDecision app p decidedBy voteId ev d).decisions := by
  rw [recordDecision_decisions]
  refine h.rows.record hs (newDecision app p decidedBy voteId ev d) ?_ rfl rfl ?_ ?_
  · intro r hr
    exact (h.ids r hr).ne
  · intro r hr happ
    show _ ↔ (d.valid app).map ApplicationDecision.id = some r.id
    rw [Option.map_eq_some_iff]
    constructor
    · intro hn
      exact ⟨r, (valid_iff h.rows).mpr ⟨hr, happ, hn⟩, rfl⟩
    · rintro ⟨v, hv, hid⟩
      obtain ⟨hmem, _, hn⟩ := (valid_iff h.rows).mp hv
      rw [← h.rows.id_inj hmem hr hid]
      exact hn
  · intro k hk
    obtain ⟨v, hv, hid⟩ := Option.map_eq_some_iff.mp hk
    obtain ⟨hmem, happ, _⟩ := (valid_iff h.rows).mp hv
    exact ⟨v, hmem, hid, happ⟩

theorem Inv.valid_record (h : Inv d) (hs : Older d.decisions d.now) (app : Uuid) (p : DecisionIn) (decidedBy : Option Text)
    (voteId ev : Option Uuid) (k : Uuid) : (recordDecision app p decidedBy voteId ev d).valid k =
      if k = app then some (newDecision app p decidedBy voteId ev d) else d.valid k := by
  have hrows := h.recordRows hs app p decidedBy voteId ev
  split
  next hk =>
    rw [valid_iff hrows, recordDecision_decisions, hk]
    exact ⟨mem_append_right _ (mem_singleton.mpr rfl), rfl, rfl⟩
  next hk =>
    refine valid_congr h.rows hrows fun v happ hn => ?_
    rw [recordDecision_decisions, mem_append, mem_singleton, mem_map]
    have hother : v.applicationId ≠ app := happ ▸ hk
    constructor
    · rintro (⟨r, hr, rfl⟩ | rfl)
      · have hsame : superseding app d.now r = r := by
          rw [superseding, if_neg]
          rintro ⟨hra, _⟩
          exact hother ((superseding_same app d.now r).2.1.trans hra)
        rwa [hsame]
      · exact absurd rfl hother
    · intro hv
      refine .inl ⟨v, hv, ?_⟩
      rw [superseding, if_neg fun h' => hother h'.1]

theorem Inv.record (h : Inv d) (hs : Older d.decisions d.now) (app : Uuid) (p : DecisionIn) (decidedBy : Option Text)
    (voteId : Option Uuid) {ev : Option Uuid} (hev : ∀ e, ev = some e → e < d.next)
    (hfree : ∀ entry ∈ d.log, ∀ s, entry.swap = some s → ev ≠ some entry.statusEventId) :
    Inv (recordDecision app p decidedBy voteId ev d) where
  apps := setApp_ids h.apps app fun _ => rfl
  rows := h.recordRows hs app p decidedBy voteId ev
  ids := by
    rw [recordDecision_decisions]
    intro r hr
    show r.id < d.next + 1
    rcases mem_append.mp hr with hr | hr
    · obtain ⟨q, hq, rfl⟩ := mem_map.mp hr
      rw [(superseding_same app d.now q).1]
      exact Nat.lt_succ_of_lt (h.ids q hq)
    · rw [mem_singleton.mp hr]
      exact Nat.lt_succ_self _
  events := by
    rw [recordDecision_decisions]
    intro r hr e he
    show e < d.next + 1
    rcases mem_append.mp hr with hr | hr
    · obtain ⟨q, hq, rfl⟩ := mem_map.mp hr
      refine Nat.lt_succ_of_lt (h.events q hq e ?_)
      rw [← he, superseding]
      split <;> rfl
    · rw [mem_singleton.mp hr] at he
      exact Nat.lt_succ_of_lt (hev e he)
  entries entry he := Nat.lt_succ_of_lt (h.entries entry he)
  amounts := by
    refine forall_mem_map.mpr fun a ha => ?_
    split
    next hid =>
      show p.approvedAmount = amountOf ((recordDecision app p decidedBy voteId ev d).valid a.id)
      rw [h.valid_record hs, if_pos hid]
      rfl
    next hid =>
      rw [h.valid_record hs, if_neg hid]
      exact h.amounts a ha
  swaps := by
    intro entry he s hswap
    obtain ⟨hfresh, r, hr, hid, hretired⟩ := h.swaps entry he s hswap
    obtain ⟨hsame, hret⟩ := hretired.record hs (newDecision app p decidedBy voteId ev d) hr rfl
    rw [recordDecision_decisions]
    refine ⟨?_, r, mem_append_left _ (mem_map.mpr ⟨r, hr, hsame⟩), hid, hret⟩
    intro q hq
    rcases mem_append.mp hq with hq | hq
    · obtain ⟨q', hq', rfl⟩ := mem_map.mp hq
      have : (superseding app d.now q').statusEventId = q'.statusEventId := by
        rw [superseding]
        split <;> rfl
      rw [this]
      exact hfresh q' hq'
    · rw [mem_singleton.mp hq]
      exact hfree entry he s hswap

theorem swapDecisions_decisions (app : Uuid) (undone : ApplicationDecision) (restored : Option ApplicationDecision)
    (d : Db) : (swapDecisions app (some undone) restored d).1.decisions =
      d.decisions.map (swapping undone.id (restored.map ApplicationDecision.id) d.now) := by
  show (d.decisions.map _).map _ = _
  rw [map_map]
  refine map_congr_left fun r _ => ?_
  simp only [Function.comp_apply, Option.map_some, Option.some.injEq, swapping]
  by_cases hundone : r.id = undone.id <;> simp [hundone]

theorem Inv.valid_swap (h : Inv d) (hs : Older d.decisions d.now) (hsw : Swappable d.decisions undone restored) (k : Uuid) :
    (swapDecisions undone.applicationId (some undone) restored d).1.valid k =
      if k = undone.applicationId then restored.map fun r => { r with supersededAt := none } else d.valid k := by
  have hrows : Sound (swapDecisions undone.applicationId (some undone) restored d).1.decisions := by
    rw [swapDecisions_decisions]
    exact h.rows.swap hs hsw
  have hsame := swapping_same undone.id (restored.map ApplicationDecision.id) d.now
  split
  next hk =>
    subst hk
    refine Option.ext fun v => ?_
    rw [valid_iff hrows, swapDecisions_decisions, Option.map_eq_some_iff, mem_map]
    constructor
    · rintro ⟨⟨r, hr, rfl⟩, happ, hn⟩
      rw [(hsame r).2.1] at happ
      rcases h.rows.swapping_cases (s := d.now) hsw hr with ⟨hback, _⟩ | ⟨_, hnow⟩ | ⟨_, hne, hkept⟩
      · refine ⟨r, hback, ?_⟩
        rw [swapping, if_pos (by rw [hback]; rfl)]
      · rw [hnow] at hn
        cases hn
      · rw [hkept] at hn
        exact absurd (h.rows.one r hr undone hsw.mem happ hn hsw.valid) hne
    · rintro ⟨r, hback, rfl⟩
      obtain ⟨hr, happ, _⟩ := hsw.back r hback
      refine ⟨⟨r, hr, ?_⟩, happ, rfl⟩
      rw [swapping, if_pos (by rw [hback]; rfl)]
  next hk =>
    refine valid_congr h.rows hrows fun v happ hn => ?_
    rw [swapDecisions_decisions, mem_map]
    have hkeep : ∀ r ∈ d.decisions, r.applicationId ≠ undone.applicationId →
        swapping undone.id (restored.map ApplicationDecision.id) d.now r = r := by
      intro r hr hother
      rw [swapping, if_neg, if_neg]
      · intro hid
        exact hother (by rw [h.rows.id_inj hr hsw.mem hid])
      · intro hid
        obtain ⟨p, hp, hpid⟩ := Option.map_eq_some_iff.mp hid.symm
        obtain ⟨hmem, hpa, _⟩ := hsw.back p hp
        exact hother (by rw [← h.rows.id_inj hmem hr hpid, hpa])
    have hother : v.applicationId ≠ undone.applicationId := happ ▸ hk
    constructor
    · rintro ⟨r, hr, rfl⟩
      rwa [hkeep r hr ((hsame r).2.1 ▸ hother)]
    · exact fun hv => ⟨v, hv, hkeep v hv hother⟩

theorem Inv.swap (h : Inv d) (hs : Older d.decisions d.now) (hsw : Swappable d.decisions undone restored) :
    Inv (swapDecisions undone.applicationId (some undone) restored d).1 where
  apps := setApp_ids h.apps undone.applicationId fun _ => rfl
  rows := by
    rw [swapDecisions_decisions]
    exact h.rows.swap hs hsw
  ids := by
    rw [swapDecisions_decisions]
    refine forall_mem_map.mpr fun r hr => ?_
    rw [(swapping_same _ _ _ r).1]
    exact h.ids r hr
  events := by
    rw [swapDecisions_decisions]
    refine forall_mem_map.mpr fun r hr e he => ?_
    rw [swapping_event] at he
    exact h.events r hr e he
  entries := h.entries
  amounts := by
    refine forall_mem_map.mpr fun a ha => ?_
    split
    next hid =>
      show amountOf restored = amountOf ((swapDecisions undone.applicationId (some undone) restored d).1.valid a.id)
      rw [h.valid_swap hs hsw, if_pos hid]
      cases restored <;> rfl
    next hid =>
      rw [h.valid_swap hs hsw, if_neg hid]
      exact h.amounts a ha
  swaps := by
    intro entry he s hswap
    obtain ⟨hfresh, r, hr, hid, hretired⟩ := h.swaps entry he s hswap
    rw [swapDecisions_decisions]
    refine ⟨forall_mem_map.mpr fun q hq => ?_, _, mem_map_of_mem hr, ?_, hretired.swap h.rows hsw hr⟩
    · rw [swapping_event]
      exact hfresh q hq
    · rw [(swapping_same _ _ _ r).1]
      exact hid

theorem Inv.logged (h : Inv d) (entry : StatusChange) (hevent : entry.statusEventId < d.next)
    (hswap : ∀ s, entry.swap = some s → (∀ r ∈ d.decisions, r.statusEventId ≠ some entry.statusEventId) ∧
      ∃ r ∈ d.decisions, s.undoneId = some r.id ∧ Retired d.decisions r) :
    Inv { d with log := d.log ++ [entry] } where
  apps := h.apps
  rows := h.rows
  ids := h.ids
  events := h.events
  entries := by
    intro x hx
    rcases mem_append.mp hx with hx | hx
    · exact h.entries x hx
    · rw [mem_singleton.mp hx]
      exact hevent
  amounts := h.amounts
  swaps := by
    intro x hx s hs
    rcases mem_append.mp hx with hx | hx
    · exact h.swaps x hx s hs
    · rw [mem_singleton.mp hx] at hs ⊢
      exact hswap s hs

theorem Inv.advance (h : Inv d) {n : Uuid} (hn : d.next ≤ n) : Inv { d with next := n } where
  apps := h.apps
  rows := h.rows
  ids r hr := lt_of_lt_of_le (h.ids r hr) hn
  events r hr e he := lt_of_lt_of_le (h.events r hr e he) hn
  entries x hx := lt_of_lt_of_le (h.entries x hx) hn
  amounts := h.amounts
  swaps := h.swaps

theorem Inv.elsewhere (h : Inv d) (votes : List Vote) (now : Time) : Inv { d with votes := votes, now := now } :=
  ⟨h.apps, h.rows, h.ids, h.events, h.entries, h.amounts, h.swaps⟩

theorem withEvent_same (row : Option Uuid) (event : Uuid) (r : ApplicationDecision) :
    (withEvent row event r).id = r.id ∧ (withEvent row event r).applicationId = r.applicationId ∧
      (withEvent row event r).decidedAt = r.decidedAt ∧ (withEvent row event r).before = r.before ∧
        (withEvent row event r).supersededAt = r.supersededAt ∧
          (withEvent row event r).approvedAmount = r.approvedAmount := by
  unfold withEvent
  split <;> exact ⟨rfl, rfl, rfl, rfl, rfl, rfl⟩

theorem retired_withEvent {row : Option Uuid} {r : ApplicationDecision} :
    Retired (rows.map (withEvent row event)) (withEvent row event r) ↔ Retired rows r := by
  have hsame := withEvent_same row event
  rw [Retired, Retired, (hsame r).2.2.2.2.1]
  simp only [forall_mem_map, fun x => (hsame x).2.2.1]

theorem Sound.withEvent (h : Sound rows) (row : Option Uuid) (event : Uuid) : Sound (rows.map (withEvent row event)) := by
  have hsame := withEvent_same row event
  constructor
  case ids =>
    rw [map_map, show _ ∘ _ = ApplicationDecision.id from funext fun r => (hsame r).1]
    exact h.ids
  case times =>
    rw [map_map, show _ ∘ _ = ApplicationDecision.decidedAt from funext fun r => (hsame r).2.2.1]
    exact h.times
  case dated =>
    refine forall_mem_map.mpr fun r hr t ht => ?_
    rw [(hsame r).2.2.1]
    exact h.dated r hr t ((hsame r).2.2.2.2.1 ▸ ht)
  case one =>
    refine forall_mem_map.mpr fun x hx => forall_mem_map.mpr fun y hy happ hxn hyn => ?_
    rw [(hsame x).2.1, (hsame y).2.1] at happ
    rw [(hsame x).2.2.2.2.1] at hxn
    rw [(hsame y).2.2.2.2.1] at hyn
    rw [h.one x hx y hy happ hxn hyn]
  case link =>
    refine forall_mem_map.mpr fun x hx hlive => forall_mem_map.mpr fun r hr happ => ?_
    rw [(hsame r).2.1, (hsame x).2.1] at happ
    rw [(hsame r).2.2.2.2.1, (hsame x).2.2.1, (hsame x).2.2.2.1, (hsame r).1]
    exact h.link x hx (fun hret => hlive (retired_withEvent.mpr hret)) r hr happ
  case before =>
    refine forall_mem_map.mpr fun x hx k hk => ?_
    rw [(hsame x).2.2.2.1] at hk
    obtain ⟨r, hr, hrid, happ⟩ := h.before x hx k hk
    refine ⟨_, mem_map_of_mem hr, (hsame r).1.trans hrid, ?_⟩
    rw [(hsame r).2.1, (hsame x).2.1]
    exact happ

theorem Inv.branch (h : Inv d) {row : Option Uuid} (hevent : event < d.next)
    (hfree : ∀ entry ∈ d.log, ∀ s, entry.swap = some s → entry.statusEventId ≠ event) :
    Inv (d.setDecisions (Decision.withEvent row event)) where
  apps := h.apps
  rows := h.rows.withEvent row event
  ids := forall_mem_map.mpr fun r hr => (withEvent_same row event r).1 ▸ h.ids r hr
  events := by
    refine forall_mem_map.mpr fun r hr e he => ?_
    unfold Decision.withEvent at he
    split at he
    · cases he
      exact hevent
    · exact h.events r hr e he
  entries := h.entries
  amounts := by
    intro a ha
    have hsame := withEvent_same row event
    have hvalid : (d.setDecisions (Decision.withEvent row event)).valid a.id = (d.valid a.id).map (Decision.withEvent row event) := by
      refine Option.ext fun v => ?_
      rw [valid_iff (h.rows.withEvent row event), Option.map_eq_some_iff]
      constructor
      · rintro ⟨hv, happ, hn⟩
        obtain ⟨r, hr, rfl⟩ := mem_map.mp hv
        exact ⟨r, (valid_iff h.rows).mpr ⟨hr, (hsame r).2.1 ▸ happ, (hsame r).2.2.2.2.1 ▸ hn⟩, rfl⟩
      · rintro ⟨r, hr, rfl⟩
        obtain ⟨hr, happ, hn⟩ := (valid_iff h.rows).mp hr
        exact ⟨mem_map_of_mem hr, (hsame r).2.1.trans happ, (hsame r).2.2.2.2.1.trans hn⟩
    rw [hvalid, h.amounts a ha]
    cases d.valid a.id with
    | none => rfl
    | some r => exact (hsame r).2.2.2.2.2.symm
  swaps := by
    intro entry he s hs
    obtain ⟨hfresh, r, hr, hid, hretired⟩ := h.swaps entry he s hs
    refine ⟨forall_mem_map.mpr fun q hq => ?_, _, mem_map_of_mem hr, ?_, retired_withEvent.mpr hretired⟩
    · unfold Decision.withEvent
      split
      · exact fun heq => hfree entry he s hs (Option.some.inj heq).symm
      · exact hfresh q hq
    · rw [(withEvent_same row event r).1]
      exact hid

end Tables

section Reverts

variable {d : Db}

theorem revertDecision_none (h : Inv d) {app ev : Uuid}
    (hv : ∀ v, d.valid app = some v → v.statusEventId ≠ some ev) : revertDecisionForEvent app ev d = (d, none) := by
  have hfind : ((d.marked app none).find? fun r => r.statusEventId = some ev) = none := by
    rw [find?_eq_none]
    intro r hr hev
    exact hv r ((valid_iff h.rows).mpr (mem_marked.mp hr)) (by simpa using hev)
  rw [revertDecisionForEvent, hfind]

theorem revertDecision_some (h : Inv d) {app ev : Uuid} {v : ApplicationDecision} (hv : d.valid app = some v)
    (hev : v.statusEventId = some ev) : ∃ previous, Swappable d.decisions v previous ∧
      previous.map ApplicationDecision.id = v.before ∧
        revertDecisionForEvent app ev d = ((swapDecisions v.applicationId (some v) previous d).1,
          some ⟨some v.id, previous.map ApplicationDecision.id⟩) := by
  obtain ⟨hmem, happ, hn⟩ := (valid_iff h.rows).mp hv
  have hlive : ¬ Retired d.decisions v := by
    rintro ⟨t, ht, _⟩
    rw [hn] at ht
    cases ht
  have hlink := h.rows.link v hmem hlive
  let found := (d.marked app (some v.decidedAt)).filter fun r => r.id ≠ v.id
  have hfound : ∀ {r}, r ∈ found ↔ r ∈ d.decisions ∧ r.applicationId = v.applicationId ∧ v.before = some r.id := by
    intro r
    rw [mem_filter, mem_marked, happ]
    constructor
    · rintro ⟨⟨hr, hra, hmark⟩, _⟩
      exact ⟨hr, hra, (hlink r hr (hra.trans happ.symm)).mp hmark⟩
    · rintro ⟨hr, hra, hbefore⟩
      have hmark := (hlink r hr (hra.trans happ.symm)).mpr hbefore
      refine ⟨⟨hr, hra, hmark⟩, decide_eq_true fun hid => ?_⟩
      rw [h.rows.id_inj hr hmem hid, hn] at hmark
      cases hmark
  have hone : ∀ x ∈ found, ∀ y ∈ found, x = y := by
    intro x hx y hy
    obtain ⟨hx, _, hxb⟩ := hfound.mp hx
    obtain ⟨hy, _, hyb⟩ := hfound.mp hy
    exact h.rows.id_inj hx hy (Option.some.inj (hxb.symm.trans hyb))
  refine ⟨newest found, ⟨hmem, hn, fun p hp => ?_⟩, ?_, ?_⟩
  · obtain ⟨hp, hpa, hpb⟩ := hfound.mp (newest_mem hp)
    exact ⟨hp, hpa, (hlink p hp hpa).mpr hpb⟩
  · cases hbefore : v.before with
    | none =>
      rw [Option.map_eq_none_iff, newest_none, eq_nil_iff_forall_not_mem]
      intro r hr
      have := (hfound.mp hr).2.2
      rw [hbefore] at this
      cases this
    | some k =>
      obtain ⟨r, hr, hrid, hra⟩ := h.rows.before v hmem k hbefore
      rw [Option.map_eq_some_iff]
      exact ⟨r, (newest_iff hone).mpr (hfound.mpr ⟨hr, hra, by rw [hbefore, hrid]⟩), hrid⟩
  · have hfind : ((d.marked app none).find? fun r => r.statusEventId = some ev) = some v := by
      cases hf : (d.marked app none).find? fun r => r.statusEventId = some ev with
      | none =>
        have := find?_eq_none.mp hf v (mem_marked.mpr ⟨hmem, happ, hn⟩)
        simp [hev] at this
      | some x =>
        obtain ⟨hx, hxa, hxn⟩ := mem_marked.mp (mem_of_find?_eq_some hf)
        rw [h.rows.one x hx v hmem (hxa.trans happ.symm) hxn hn]
    rw [revertDecisionForEvent, hfind, ← happ]
    subst happ
    rfl

/-- The swap that the revert service rebuilds names the undone decision as the one that
must be valid, which it never is. -/
theorem redo_never (h : Inv d) {entry : StatusChange} (he : entry ∈ d.log) {s : DecisionSwap} (hs : entry.swap = some s)
    (app : Uuid) : redoDecisionSwap app ⟨s.restoredId, s.undoneId⟩ d = (d, none) := by
  obtain ⟨_, r, hr, hid, t, ht, _⟩ := h.swaps entry he s hs
  rw [redoDecisionSwap, if_pos]
  rw [hid]
  intro heq
  obtain ⟨v, hv, hvid⟩ := Option.map_eq_some_iff.mp heq
  obtain ⟨hmem, _, hn⟩ := (valid_iff h.rows).mp hv
  rw [h.rows.id_inj hmem hr hvid, ht] at hn
  cases hn

end Reverts

section Operations

variable {env : Env} {d d' : Db}
variable {rows : List ApplicationDecision} {app t event voteId : Uuid} {actor : Text} {decision : Option DecisionIn}
  {passed : Bool}

theorem Older.mono {s t : Time} (h : Older rows s) (hst : s ≤ t) : Older rows t :=
  fun r hr => ⟨lt_of_lt_of_le (h r hr).1 hst, fun m hm => lt_of_lt_of_le ((h r hr).2 m hm) hst⟩

theorem Older.record {s : Time} (h : Older rows s) (app : Uuid) {row : ApplicationDecision} (hdecided : row.decidedAt = s)
    (hvalid : row.supersededAt = none) : Older (rows.map (superseding app s) ++ [row]) (s + 1) := by
  intro q hq
  rcases mem_append.mp hq with hq | hq
  · obtain ⟨r, hr, rfl⟩ := mem_map.mp hq
    refine ⟨?_, fun t ht => ?_⟩
    · rw [(superseding_same app s r).2.2.1]
      exact Nat.lt_succ_of_lt (h r hr).1
    · by_cases hts : t = s
      · rw [hts]
        exact Nat.lt_succ_self _
      · exact Nat.lt_succ_of_lt ((h r hr).2 t ((superseding_mark hts).mp ht))
  · rw [mem_singleton.mp hq, hdecided, hvalid]
    exact ⟨Nat.lt_succ_self _, by simp⟩

theorem Older.swap {s : Time} (h : Older rows s) (undoneId : Uuid) (restoredId : Option Uuid) :
    Older (rows.map (swapping undoneId restoredId s)) (s + 1) := by
  refine forall_mem_map.mpr fun r hr => ⟨?_, fun t ht => ?_⟩
  · rw [(swapping_same _ _ s r).2.2.1]
    exact Nat.lt_succ_of_lt (h r hr).1
  · unfold swapping at ht
    split at ht
    · cases ht
    · split at ht
      · cases ht
        exact Nat.lt_succ_self _
      · exact Nat.lt_succ_of_lt ((h r hr).2 t ht)

/-- The rows after a request: sound, and nothing in them is later than its time. -/
structure Settled (now : Time) (d : Db) : Prop where
  inv : Inv d
  older : Older d.decisions (now + 1)
  now : d.now = now

theorem loadApp_ok {k : Uuid} {a : Application} (h : d.loadApp k = .ok a) : d.app k = some a := by
  rw [Db.loadApp] at h
  cases happ : d.app k with
  | none => simp [happ] at h
  | some x =>
    simp only [happ, Option.map_some, Option.getD_some, Except.ok.injEq] at h
    rw [h]

theorem Inv.changeStatus (h : Inv d) (app fromStateId toStateId : Uuid) : Inv (d.changeStatus app fromStateId toStateId) := by
  have hnext := h.advance (Nat.le_succ d.next)
  exact (hnext.logged ⟨app, fromStateId, toStateId, d.next, none⟩ (Nat.lt_succ_self _) (by simp)).setApp
    (fun _ => rfl) (fun _ => rfl)

theorem stageFire_ok {manual : Bool} (hop : stageFire env app t manual actor decision d = .ok (d', event)) :
    ∃ a fromStateId toStateId, d.app app = some a ∧ event = d.next ∧
      (∀ p, decision = some p → checkApprovedAmount a.amount p.approvedAmount = .ok ()) ∧
        d' = match decision with
          | none => d.changeStatus app fromStateId toStateId
          | some p => recordDecision app p (some actor) none (some d.next) (d.changeStatus app fromStateId toStateId) := by
  obtain ⟨a, ha, hop⟩ := bind_ok.mp hop
  cases htr : env.transitions.find? fun x => x.id = t with
  | none => simp [htr] at hop
  | some tr =>
    simp only [htr] at hop
    obtain ⟨_, _, hop⟩ := bind_ok.mp hop
    obtain ⟨_, _, hop⟩ := bind_ok.mp hop
    obtain ⟨_, _, hop⟩ := bind_ok.mp hop
    obtain ⟨_, _, hop⟩ := bind_ok.mp hop
    obtain ⟨a', happly, hop⟩ := bind_ok.mp hop
    obtain ⟨_, _, hop⟩ := bind_ok.mp hop
    obtain ⟨_, _, hop⟩ := bind_ok.mp hop
    refine ⟨a, tr.fromStateId, tr.toStateId, loadApp_ok ha, ?_, ?_, ?_⟩
    · cases decision <;> exact (Prod.mk.inj (pure_ok.mp hop)).2.symm
    · rintro p rfl
      obtain ⟨_, _, happly⟩ := bind_ok.mp happly
      obtain ⟨_, hcheck, _⟩ := bind_ok.mp happly
      exact hcheck
    · cases decision <;> exact (Prod.mk.inj (pure_ok.mp hop)).1.symm

theorem Inv.event_free (h : Inv d) : ∀ entry ∈ d.log, ∀ s, entry.swap = some s → entry.statusEventId ≠ d.next :=
  fun entry he _ _ => (h.entries entry he).ne

theorem changeStatus_free (h : Inv d) (app fromStateId toStateId : Uuid) :
    ∀ entry ∈ (d.changeStatus app fromStateId toStateId).log, ∀ s, entry.swap = some s → entry.statusEventId ≠ d.next := by
  intro entry he s hs
  rcases mem_append.mp he with he | he
  · exact h.event_free entry he s hs
  · rw [mem_singleton.mp he] at hs
    cases hs

theorem fire_settled (h : Inv d) (hs : Older d.decisions d.now) (hop : fire env app t actor decision d = .ok d') :
    Settled d.now d' := by
  obtain ⟨decision', _, hop⟩ := bind_ok.mp hop
  obtain ⟨⟨d₁, event⟩, hstage, hop⟩ := bind_ok.mp hop
  obtain rfl := pure_ok.mp hop
  obtain ⟨a, from', to', _, _, _, rfl⟩ := stageFire_ok hstage
  cases decision' with
  | none => exact ⟨h.changeStatus app from' to', hs.mono (Nat.le_succ _), rfl⟩
  | some p =>
    have hinv := h.changeStatus app from' to'
    refine ⟨hinv.record hs app p (some actor) none ?_ ?_, hs.record app rfl rfl, rfl⟩
    · rintro e he
      cases he
      exact Nat.lt_succ_self _
    · intro entry he s hswap heq
      exact changeStatus_free h app from' to' entry he s hswap (Option.some.inj heq).symm

theorem openVote_settled {proposal : Option DecisionIn} (h : Inv d) (hs : Older d.decisions d.now)
    (hop : openVote app proposal d = .ok d') : Settled d.now d' := by
  obtain ⟨_, _, hop⟩ := bind_ok.mp hop
  obtain ⟨_, _, hop⟩ := bind_ok.mp hop
  obtain ⟨_, _, hop⟩ := bind_ok.mp hop
  obtain rfl := pure_ok.mp hop
  exact ⟨(h.advance (Nat.le_succ d.next)).elsewhere _ _, hs.mono (Nat.le_succ _), rfl⟩

theorem patch_settled {newAmount : Option ℚ} (h : Inv d) (hs : Older d.decisions d.now) (hop : patch app newAmount d = .ok d') :
    Settled d.now d' := by
  obtain ⟨_, _, hop⟩ := bind_ok.mp hop
  obtain ⟨_, _, hop⟩ := bind_ok.mp hop
  obtain ⟨_, _, hop⟩ := bind_ok.mp hop
  obtain rfl := pure_ok.mp hop
  exact ⟨h.setApp (fun _ => rfl) (fun _ => rfl), hs.mono (Nat.le_succ _), rfl⟩

theorem recordPassed_ok {v : Vote} {row : Option Uuid} (hop : recordPassed passed v d = .ok (d', row)) :
    (d' = d ∧ row = none) ∨ ∃ p a, v.proposal = some p ∧ d.app v.applicationId = some a ∧ row = some d.next ∧
      d' = recordDecision v.applicationId (bindingOf a p) none (some v.id) none d := by
  cases passed with
  | false =>
    cases hop
    exact .inl ⟨rfl, rfl⟩
  | true =>
    simp only [recordPassed, if_true, recordProposal] at hop
    cases hp : v.proposal with
    | none =>
      simp only [hp, Except.ok.injEq, Prod.mk.injEq] at hop
      exact .inl ⟨hop.1.symm, hop.2.symm⟩
    | some p =>
      simp only [hp] at hop
      obtain ⟨a, ha, hop⟩ := bind_ok.mp hop
      obtain ⟨hd, hrow⟩ := Prod.mk.inj (pure_ok.mp hop)
      exact .inr ⟨p, a, rfl, loadApp_ok ha, hrow.symm, hd.symm⟩

theorem tryStage_ok {branch : Text} (hop : tryStage env app branch actor d = some (d', event)) :
    ∃ fromStateId toStateId, d' = d.changeStatus app fromStateId toStateId ∧ event = d.next := by
  obtain ⟨_, _, hop⟩ := Option.bind_eq_some_iff.mp hop
  obtain ⟨_, _, hop⟩ := Option.bind_eq_some_iff.mp hop
  obtain ⟨_, from', to', _, hevent, _, hd⟩ := stageFire_ok (toOption_some.mp hop)
  exact ⟨from', to', hd, hevent⟩

theorem closeVote_ok (hop : closeVote env voteId passed actor d = .ok d') :
    ∃ v votes, v ∈ d.votes ∧ votes = Table.modify Vote.id voteId (fun v => { v with status := .closed }) d.votes ∧
      (d' = { d with votes := votes } ∨ ∃ d₂ row, recordPassed passed v { d with votes := votes } = .ok (d₂, row) ∧
        (d' = d₂ ∨ ∃ from' to', d' = (d₂.changeStatus v.applicationId from' to').setDecisions (withEvent row d₂.next))) := by
  rw [closeVote] at hop
  cases hv : d.votes.find? fun v => v.id = voteId with
  | none => simp [hv] at hop
  | some v =>
    simp only [hv] at hop
    obtain ⟨_, _, hop⟩ := bind_ok.mp hop
    refine ⟨v, _, mem_of_find?_eq_some hv, rfl, ?_⟩
    split at hop
    · exact .inl (pure_ok.mp hop).symm
    · obtain ⟨⟨d₂, row⟩, hrec, hop⟩ := bind_ok.mp hop
      refine .inr ⟨d₂, row, hrec, ?_⟩
      cases hstage : tryStage env v.applicationId (text (if passed then "pass" else "fail")) actor d₂ with
      | none =>
        simp only [hstage] at hop
        exact .inl (pure_ok.mp hop).symm
      | some staged =>
        obtain ⟨d₃, event⟩ := staged
        obtain ⟨from', to', rfl, rfl⟩ := tryStage_ok hstage
        simp only [hstage] at hop
        exact .inr ⟨from', to', (pure_ok.mp hop).symm⟩

theorem closeVote_settled (h : Inv d) (hs : Older d.decisions d.now) (hop : closeVote env voteId passed actor d = .ok d') :
    Settled d.now d' := by
  obtain ⟨v, votes, _, _, hrest⟩ := closeVote_ok hop
  have hvotes : Inv { d with votes := votes } := h.elsewhere votes d.now
  rcases hrest with rfl | ⟨d₂, row, hrec, hrest⟩
  · exact ⟨hvotes, hs.mono (Nat.le_succ _), rfl⟩
  · have hsettled : Settled d.now d₂ := by
      rcases recordPassed_ok hrec with ⟨rfl, _⟩ | ⟨p, a, _, _, _, rfl⟩
      · exact ⟨hvotes, hs.mono (Nat.le_succ _), rfl⟩
      · exact ⟨hvotes.record hs v.applicationId (bindingOf a p) none (some v.id) (by simp) (by simp),
          Older.record hs v.applicationId rfl rfl, rfl⟩
    rcases hrest with rfl | ⟨from', to', rfl⟩
    · exact hsettled
    · have hchanged := hsettled.inv.changeStatus v.applicationId from' to'
      refine ⟨hchanged.branch (Nat.lt_succ_self _) ?_, ?_, hsettled.now⟩
      · exact changeStatus_free hsettled.inv v.applicationId from' to'
      · refine forall_mem_map.mpr fun r hr => ?_
        have hsame := withEvent_same row d₂.next r
        rw [hsame.2.2.1, hsame.2.2.2.2.1]
        exact hsettled.older r hr

def revertedTo (d : Db) (entry : StatusChange) (swap : Option DecisionSwap) : Db :=
  { d with log := d.log ++ [⟨entry.applicationId, entry.toStateId, entry.fromStateId, d.next - 1, swap⟩] }

def WroteValid (d : Db) (entry : StatusChange) (v : ApplicationDecision) : Prop :=
  d.valid entry.applicationId = some v ∧ v.statusEventId = some entry.statusEventId

/-- A revert leaves the decisions as they are, or it undoes the valid decision that the
entry wrote. -/
inductive Reverted (d : Db) (entry : StatusChange) : Db → Prop where
  | kept (h : entry.swap ≠ none ∨ ∀ v, ¬ WroteValid d entry v) :
      Reverted d entry (revertedTo (d.restoreStatus entry.applicationId entry.fromStateId) entry none)
  | swapped (v : ApplicationDecision) (previous : Option ApplicationDecision) (hnone : entry.swap = none)
      (hv : WroteValid d entry v) (hsw : Swappable d.decisions v previous)
      (hbefore : previous.map ApplicationDecision.id = v.before) :
      Reverted d entry (revertedTo (swapDecisions v.applicationId (some v) previous
        (d.restoreStatus entry.applicationId entry.fromStateId)).1 entry
          (some ⟨some v.id, previous.map ApplicationDecision.id⟩))

theorem Inv.restoreStatus (h : Inv d) (app stateId : Uuid) : Inv (d.restoreStatus app stateId) :=
  (h.advance (Nat.le_succ d.next)).setApp (fun _ => rfl) (fun _ => rfl)

theorem revertAudit_ok {n : ℕ} (h : Inv d) (hop : revertAudit env n d = .ok d') :
    ∃ entry, d.log[n]? = some entry ∧ Reverted d entry d' := by
  rw [revertAudit] at hop
  cases hentry : d.log[n]? with
  | none => simp [hentry] at hop
  | some entry =>
    refine ⟨entry, rfl, ?_⟩
    simp only [hentry] at hop
    obtain ⟨_, _, hop⟩ := bind_ok.mp hop
    obtain ⟨_, _, hop⟩ := bind_ok.mp hop
    obtain ⟨_, _, hop⟩ := bind_ok.mp hop
    have hrestored := h.restoreStatus entry.applicationId entry.fromStateId
    cases hswap : entry.swap with
    | some s =>
      have hredo := redo_never hrestored (mem_of_getElem? hentry) hswap entry.applicationId
      simp only [StatusChange.rebuiltSwap, hswap, Option.map_some, hredo] at hop
      rw [← pure_ok.mp hop]
      exact .kept (.inl (by simp [hswap]))
    | none =>
      simp only [StatusChange.rebuiltSwap, hswap, Option.map_none] at hop
      by_cases hwrote : ∃ v, WroteValid d entry v
      · obtain ⟨v, hv⟩ := hwrote
        obtain ⟨previous, hsw, hbefore, hrevert⟩ := revertDecision_some hrestored hv.1 hv.2
        rw [hrevert] at hop
        rw [← pure_ok.mp hop]
        exact .swapped v previous hswap hv hsw hbefore
      · have hnot : ∀ v, ¬ WroteValid d entry v := fun v hv => hwrote ⟨v, hv⟩
        have hnone := revertDecision_none hrestored fun v hv hev => hnot v ⟨hv, hev⟩
        rw [hnone] at hop
        rw [← pure_ok.mp hop]
        exact .kept (.inr hnot)

theorem Reverted.settled {entry : StatusChange} (h : Inv d) (hs : Older d.decisions d.now) (hr : Reverted d entry d') :
    Settled d.now d' := by
  have hrestored := h.restoreStatus entry.applicationId entry.fromStateId
  cases hr with
  | kept _ => exact ⟨hrestored.logged _ (Nat.lt_succ_self _) (by simp), hs.mono (Nat.le_succ _), rfl⟩
  | swapped v previous _ _ hsw _ =>
    have hinv := hrestored.swap hs hsw
    have hrows := swapDecisions_decisions v.applicationId v previous
      (d.restoreStatus entry.applicationId entry.fromStateId)
    refine ⟨hinv.logged _ (Nat.lt_succ_self _) ?_, ?_, rfl⟩
    · rintro s hswap
      cases hswap
      refine ⟨?_, ?_⟩
      · rw [hrows]
        refine forall_mem_map.mpr fun r hr heq => ?_
        rw [swapping_event] at heq
        exact absurd (h.events r hr _ heq) (lt_irrefl _)
      · rw [hrows]
        exact ⟨_, mem_map_of_mem hsw.mem, by rw [(swapping_same _ _ _ v).1], hsw.retires h.rows hs⟩
    · show Older (swapDecisions v.applicationId (some v) previous _).1.decisions (d.now + 1)
      rw [hrows]
      exact Older.swap hs _ _

theorem operate_settled {r : Request} (h : Inv d) (hs : Older d.decisions d.now) (hop : r.operate env d = .ok d') :
    Settled d.now d' := by
  cases r with
  | fire app t actor decision => exact fire_settled h hs hop
  | openVote app proposal => exact openVote_settled h hs hop
  | closeVote v passed actor => exact closeVote_settled h hs hop
  | patch app newAmount => exact patch_settled h hs hop
  | revertAudit n =>
    obtain ⟨entry, _, hr⟩ := revertAudit_ok h hop
    exact hr.settled h hs

end Operations

section Runs

variable {d d' : Db}

/-- Between two requests: the rows are sound and no later than the clock. -/
structure Between (d : Db) : Prop where
  inv : Inv d
  older : Older d.decisions (d.now + 1)

theorem Undecided.between (h : Undecided d) : Between d where
  inv :=
    { apps := h.ids
      rows := by
        rw [h.decisions]
        exact ⟨nodup_nil, nodup_nil, by simp, by simp, by simp, by simp⟩
      ids := by simp [h.decisions]
      events := by simp [h.decisions]
      entries := by simp [h.log]
      amounts := by
        intro a ha
        rw [h.amounts a ha, show d.valid a.id = none by rw [Db.valid, Db.marked, h.decisions]; rfl]
        rfl
      swaps := by simp [h.log] }
  older := by
    rw [h.decisions]
    simp [Older]

def Db.at (d : Db) (env : Env) : Db := { d with now := d.now + 1 + env.pause }

theorem Between.found (h : Between d) (env : Env) : Inv (d.at env) ∧ Older (d.at env).decisions (d.at env).now :=
  ⟨h.inv.elsewhere d.votes _, h.older.mono (Nat.le_add_right _ _)⟩

theorem handle_between {env : Env} {r : Request} (h : Between d) (hop : r.handle env d = .ok d') : Between d' := by
  obtain ⟨hinv, holder⟩ := h.found env
  have hsettled := operate_settled hinv holder hop
  exact ⟨hsettled.inv, hsettled.now ▸ hsettled.older⟩

theorem after_between {env : Env} {r : Request} (h : Between d) : Between (r.after env d) := by
  rw [Request.after]
  cases hop : r.handle env d with
  | error e => exact h
  | ok d' => exact handle_between h hop

/-- A revert of the status change that wrote the valid decision makes the decision valid that was
valid directly before, a revert of such a revert makes the undone one valid again, and each
amount is the one of the valid decision. -/
structure StepMeets (d : Db) (r : Request) (d' : Db) : Prop where
  undo : ∀ n entry v, r = .revertAudit n → d.log[n]? = some entry → WroteValid d entry v →
    (d'.valid entry.applicationId).map ApplicationDecision.id = v.before
  redo : ∀ n entry s k, r = .revertAudit n → d.log[n]? = some entry → entry.swap = some s → s.undoneId = some k →
    (d'.valid entry.applicationId).map ApplicationDecision.id = some k
  amounts : AmountsCopied d'

def Redoes (d : Db) : Request → Prop
  | .revertAudit n => ∃ entry ∈ d.log[n]?, entry.swap ≠ none
  | _ => False

instance (d : Db) : (r : Request) → Decidable (Redoes d r)
  | .revertAudit n => inferInstanceAs (Decidable (∃ entry ∈ d.log[n]?, entry.swap ≠ none))
  | .fire _ _ _ _ | .openVote _ _ | .closeVote _ _ _ | .patch _ _ => isFalse id

theorem Reverted.undo {entry : StatusChange} {v : ApplicationDecision} (h : Inv d) (hs : Older d.decisions d.now)
    (hentry : entry ∈ d.log) (hr : Reverted d entry d') (hv : WroteValid d entry v) :
    (d'.valid entry.applicationId).map ApplicationDecision.id = v.before := by
  obtain ⟨hmem, happ, _⟩ := (valid_iff h.rows).mp hv.1
  cases hr with
  | kept hnot =>
    rcases hnot with hswap | hnot
    · -- the event of a revert has written no decision
      obtain ⟨s, hs⟩ := Option.ne_none_iff_exists'.mp hswap
      exact absurd hv.2 ((h.swaps entry hentry s hs).1 v hmem)
    · exact absurd hv (hnot v)
  | swapped v' previous _ hv' hsw hbefore =>
    obtain rfl : v' = v := Option.some.inj (hv'.1.symm.trans hv.1)
    have hrestored := h.restoreStatus entry.applicationId entry.fromStateId
    have hvalid := hrestored.valid_swap hs hsw entry.applicationId
    rw [if_pos happ.symm] at hvalid
    have hvalid' : (revertedTo (swapDecisions v'.applicationId (some v') previous
        (d.restoreStatus entry.applicationId entry.fromStateId)).1 entry
          (some ⟨some v'.id, previous.map ApplicationDecision.id⟩)).valid entry.applicationId =
            previous.map fun r => { r with supersededAt := none } := hvalid
    rw [hvalid', ← hbefore]
    cases previous <;> rfl

/-- A revert of a revert leaves the valid decision as it is, and this is not the
undone one. -/
theorem Reverted.redo {entry : StatusChange} {s : DecisionSwap} {k : Uuid} (h : Inv d) (hentry : entry ∈ d.log)
    (hr : Reverted d entry d') (hswap : entry.swap = some s) (hk : s.undoneId = some k) :
    d'.valid entry.applicationId = d.valid entry.applicationId ∧
      (d.valid entry.applicationId).map ApplicationDecision.id ≠ some k := by
  cases hr with
  | swapped v previous hnone _ _ _ =>
    rw [hnone] at hswap
    cases hswap
  | kept _ =>
    refine ⟨rfl, fun hvalid => ?_⟩
    obtain ⟨v, hv, hid⟩ := Option.map_eq_some_iff.mp hvalid
    obtain ⟨hmem, _, hn⟩ := (valid_iff h.rows).mp hv
    obtain ⟨_, r, hr, hundone, t, ht, _⟩ := h.swaps entry hentry s hswap
    rw [hk, Option.some.injEq] at hundone
    rw [h.rows.id_inj hmem hr (hid.trans hundone), ht] at hn
    cases hn

/-- A request does what it should exactly when it is no revert of a revert. -/
theorem stepMeets_iff {env : Env} {r : Request} (h : Between d) (hop : r.handle env d = .ok d') :
    StepMeets d r d' ↔ ¬ Redoes d r := by
  obtain ⟨hinv, holder⟩ := h.found env
  constructor
  · intro hmeets hredoes
    cases r with
    | fire app t actor decision => exact hredoes
    | openVote app proposal => exact hredoes
    | closeVote v passed actor => exact hredoes
    | patch app newAmount => exact hredoes
    | revertAudit n =>
      obtain ⟨entry, hentry, hswap⟩ := hredoes
      obtain ⟨s, hs⟩ := Option.ne_none_iff_exists'.mp hswap
      have hmem := mem_of_getElem? hentry
      obtain ⟨_, q, _, hundone, _⟩ := h.inv.swaps entry hmem s hs
      obtain ⟨entry', hentry', hr⟩ := revertAudit_ok hinv hop
      obtain rfl : entry' = entry := Option.some.inj (hentry'.symm.trans hentry)
      obtain ⟨hkept, hnot⟩ := hr.redo hinv hmem hs hundone
      have hback := hmeets.redo n entry' s q.id rfl hentry hs hundone
      rw [hkept] at hback
      exact hnot hback
  · intro hnot
    refine ⟨?_, ?_, (handle_between h hop).inv.amounts⟩
    · rintro n entry v rfl hentry hv
      obtain ⟨entry', hentry', hr⟩ := revertAudit_ok hinv hop
      obtain rfl : entry' = entry := Option.some.inj (hentry'.symm.trans hentry)
      exact hr.undo hinv holder (mem_of_getElem? hentry) hv
    · rintro n entry s k rfl hentry hs _
      exact absurd ⟨entry, hentry, by simp [hs]⟩ hnot

def RunMeets : List (Env × Request) → Db → Prop
  | [], _ => True
  | (env, r) :: rest, d => (∀ d' ∈ (r.handle env d).toOption, StepMeets d r d') ∧ RunMeets rest (r.after env d)

def RedoFree : List (Env × Request) → Db → Prop
  | [], _ => True
  | (env, r) :: rest, d => ((r.handle env d).toOption.isSome → ¬ Redoes d r) ∧ RedoFree rest (r.after env d)

instance decidableRedoFree : (rs : List (Env × Request)) → (d : Db) → Decidable (RedoFree rs d)
  | [], _ => isTrue trivial
  | (env, r) :: rest, d =>
    haveI := decidableRedoFree rest (r.after env d)
    inferInstanceAs (Decidable (_ ∧ _))

theorem runMeets_between {rs : List (Env × Request)} (h : Between d) : RunMeets rs d ↔ RedoFree rs d := by
  induction rs generalizing d with
  | nil => exact Iff.rfl
  | cons p rest ih =>
    obtain ⟨env, r⟩ := p
    refine and_congr ?_ (ih (after_between h))
    cases hop : r.handle env d with
    | error e => simp [Except.toOption]
    | ok d' => simpa [Except.toOption] using stepMeets_iff h hop

/-- From applications without a decision, a run undoes and redoes as it should exactly
when nothing is redone: the revert of a revert never brings the undone decision back. -/
theorem runMeets_iff {rs : List (Env × Request)} (h : Undecided d) : RunMeets rs d ↔ RedoFree rs d :=
  runMeets_between h.between

section Samples

def asked : Db := ⟨[⟨1, 1, 10, some 100, none⟩], [], [], [], 0, 0⟩

def twoStates : Env where
  transitions := [⟨1, 1, 10, 11, none, false⟩, ⟨2, 1, 11, 12, none, false⟩]
  guard _ _ := true
  accepted _ _ := true
  enterable _ _ := true
  gremiumMismatch _ := false
  pause := 0

theorem asked_undecided : Undecided asked :=
  ⟨by decide, by decide, rfl, rfl, rfl⟩

def undoing : List (Env × Request) :=
  [(twoStates, .fire 1 1 (text "chair") (some ⟨some 80, []⟩)), (twoStates, .fire 1 2 (text "chair") (some ⟨some 60, []⟩)),
    (twoStates, .revertAudit 1)]

theorem undoing_meets : RunMeets undoing asked ∧ ((run undoing asked).valid 1).map ApplicationDecision.id = some 1 :=
  ⟨(runMeets_iff asked_undecided).mpr (by decide +kernel), by decide +kernel⟩

/-- The revert is reverted too: the application is back in its last state, but with the
eighty of the first decision. -/
theorem redoing_not_meets : ¬ RunMeets (undoing ++ [(twoStates, .revertAudit 2)]) asked ∧
    (run (undoing ++ [(twoStates, .revertAudit 2)]) asked).applications = [⟨1, 1, 12, some 100, some 80⟩] := by
  refine ⟨fun hmeets => ?_, by decide +kernel⟩
  have hfree := (runMeets_between asked_undecided.between).mp hmeets
  revert hfree
  decide +kernel

end Samples

end Runs

end Decision
