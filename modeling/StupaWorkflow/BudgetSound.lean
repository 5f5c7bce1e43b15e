import StupaWorkflow.BudgetYears

/-!
The bookings as their table admits them.
-/
namespace Budget
open Py Decimals List

/-- Each row passes its checks, a sub-booking is no leg of a transfer and its parent no sub-booking,
and the sub-bookings of a booking fit into the column, up to one parent. -/
structure Sound (stale : Option Uuid) (d : Db) : Prop where
  ids : (d.bookings.map BudgetExpense.id).Nodup
  checked : ∀ r ∈ d.bookings, r.checked = .ok r
  described : ∀ r ∈ d.bookings, descriptionField r.description = .ok ()
  leg : ∀ r ∈ d.bookings, r.parentExpenseId ≠ none → r.transferId = none
  flat : ∀ r ∈ d.bookings, ∀ q ∈ d.bookings, r.parentExpenseId = some q.id → q.parentExpenseId = none
  fits : ∀ q ∈ d.bookings, stale ≠ some q.id → d.total q.id ≤ maxAmount

section Statements

variable {env : Env} {stale : Option Uuid} {d d' : Db}
variable {r r' : BudgetExpense}

theorem checked_iff : r.checked = .ok r' ↔
    (0 < r.stored.amount ∧ r.stored.amount ≤ maxAmount ∧ r.currency = text "EUR") ∧ r.stored = r' := by
  rw [BudgetExpense.checked, bind_ok]
  simp only [raiseUnless_ok, Bool.and_eq_true, decide_eq_true_eq, beq_iff_eq, pure_ok, exists_const, and_assoc]

theorem checked_stored (h : r.checked = .ok r') : r'.checked = .ok r' := by
  obtain ⟨hbounds, rfl⟩ := checked_iff.mp h
  have hidem : r.stored.stored = r.stored := by simp only [BudgetExpense.stored, cents_idem]
  exact checked_iff.mpr ⟨hidem.symm ▸ hbounds, hidem⟩

theorem Sound.stored (h : Sound stale d) (hr : r ∈ d.bookings) : r.stored = r :=
  (checked_ok (h.checked r hr)).symm

theorem Sound.amount_pos (h : Sound stale d) (hr : r ∈ d.bookings) : 0 < r.amount := by
  obtain ⟨⟨hpos, _⟩, heq⟩ := checked_iff.mp (h.checked r hr)
  rwa [heq] at hpos

theorem Sound.weaken (h : Sound none d) : Sound stale d :=
  ⟨h.ids, h.checked, h.described, h.leg, h.flat, fun q hq _ => h.fits q hq (Option.some_ne_none q.id).symm⟩

theorem Sound.audit (h : Sound stale d) (entry : AuditEntry) : Sound stale (d.audit entry) :=
  ⟨h.ids, h.checked, h.described, h.leg, h.flat, h.fits⟩

theorem Sound.unique (h : Sound stale d) {x y : BudgetExpense} (hx : x ∈ d.bookings) (hy : y ∈ d.bookings)
    (hid : x.id = y.id) : x = y := inj_on_of_nodup_map h.ids hx hy hid

theorem total_map {g : BudgetExpense → BudgetExpense} {k : Uuid}
    (hg : ∀ r ∈ d.bookings, (g r).parentExpenseId = r.parentExpenseId ∧ (r.parentExpenseId = some k → (g r).amount = r.amount)) :
    Db.total { d with bookings := d.bookings.map g } k = d.total k := by
  have hchildren : Db.children { d with bookings := d.bookings.map g } k = (d.children k).map g := by
    rw [Db.children, Db.children, filter_map]
    congr 1
    exact filter_congr fun r hr => by simp [(hg r hr).1]
  rw [Db.total, hchildren, map_map, Db.total]
  congr 1
  refine map_congr_left fun r hr => ?_
  obtain ⟨hmem, hp⟩ := mem_children.mp hr
  exact (hg r hmem).2 hp

/-- Rows get new versions; only sub-bookings of the stale parent get a new amount. -/
theorem Sound.rewrite (h : Sound stale d) {g : BudgetExpense → BudgetExpense} (hversion : ∀ r ∈ d.bookings, Version r (g r))
    (hg : ∀ r ∈ d.bookings, (g r).checked = .ok (g r) ∧ descriptionField (g r).description = .ok ())
    (hamount : ∀ r ∈ d.bookings, r.parentExpenseId = none ∨ r.parentExpenseId = stale ∨ (g r).amount = r.amount) :
    Sound stale { d with bookings := d.bookings.map g } := by
  constructor
  case ids =>
    have hids : (d.bookings.map g).map BudgetExpense.id = d.bookings.map BudgetExpense.id := by
      rw [map_map]
      exact map_congr_left fun r hr => (hversion r hr).id
    exact hids ▸ h.ids
  case checked => exact forall_mem_map.mpr fun r hr => (hg r hr).1
  case described => exact forall_mem_map.mpr fun r hr => (hg r hr).2
  case leg =>
    refine forall_mem_map.mpr fun r hr hp => ?_
    rw [(hversion r hr).transfer]
    exact h.leg r hr ((hversion r hr).parent ▸ hp)
  case flat =>
    refine forall_mem_map.mpr fun r hr => forall_mem_map.mpr fun q hq hp => ?_
    rw [(hversion q hq).parent]
    rw [(hversion r hr).parent, (hversion q hq).id] at hp
    exact h.flat r hr q hq hp
  case fits =>
    refine forall_mem_map.mpr fun q hq hstale => ?_
    rw [(hversion q hq).id] at hstale ⊢
    rw [total_map fun r hr => ⟨(hversion r hr).parent, fun hp => ?_⟩]
    · exact h.fits q hq hstale
    · rcases hamount r hr with hnone | hold | hsame
      · exact absurd (hnone.symm.trans hp) (Option.some_ne_none q.id).symm
      · exact absurd (hold.symm.trans hp) hstale
      · exact hsame

theorem Sound.filter (h : Sound stale d) (keep : BudgetExpense → Bool) :
    Sound stale { d with bookings := d.bookings.filter keep } := by
  have hmem : ∀ {x}, x ∈ d.bookings.filter keep → x ∈ d.bookings := mem_of_mem_filter
  refine ⟨h.ids.sublist (filter_sublist.map _), fun r hr => h.checked r (hmem hr), fun r hr => h.described r (hmem hr), fun r hr => h.leg r (hmem hr),
    fun r hr q hq => h.flat r (hmem hr) q (hmem hq), fun q hq hstale => le_trans ?_ (h.fits q (hmem hq) hstale)⟩
  have hsub : (Db.children { d with bookings := d.bookings.filter keep } q.id).Sublist (d.children q.id) :=
    filter_sublist.filter _
  refine List.Sublist.sum_le_sum (hsub.map _) fun a ha => ?_
  obtain ⟨c, hc, rfl⟩ := mem_map.mp ha
  exact (h.amount_pos (mem_children.mp hc).1).le

theorem Sound.insert (h : Sound none d) {r : BudgetExpense} {n : Uuid} (hins : d.insert r = .ok d')
    (hfresh : ∀ x ∈ d.bookings, x.id ≠ r.id ∧ x.parentExpenseId ≠ some r.id)
    (hdescribed : descriptionField r.description = .ok ()) (hleg : r.parentExpenseId ≠ none → r.transferId = none)
    (hflat : ∀ q ∈ d.bookings, r.parentExpenseId = some q.id → q.parentExpenseId = none)
    (hown : r.parentExpenseId ≠ some r.id) : Sound r.parentExpenseId { d' with next := n } := by
  have hchecked : r.stored.checked = .ok r.stored := by
    obtain ⟨r', hr', _⟩ := bind_ok.mp hins
    exact checked_ok hr' ▸ checked_stored hr'
  rw [insert_ok hins]
  have hmem : ∀ {x}, x ∈ d.bookings ++ [r.stored] → x ∈ d.bookings ∨ x = r.stored := by simp
  constructor
  case ids => exact Table.nodup_insert h.ids fun x hx => (hfresh x hx).1
  case checked =>
    intro x hx
    rcases hmem hx with hx | rfl
    · exact h.checked x hx
    · exact hchecked
  case described =>
    intro x hx
    rcases hmem hx with hx | rfl
    · exact h.described x hx
    · exact hdescribed
  case leg =>
    intro x hx
    rcases hmem hx with hx | rfl
    · exact h.leg x hx
    · exact hleg
  case flat =>
    intro x hx q hq hp
    rcases hmem hx with hx | rfl <;> rcases hmem hq with hq | rfl
    · exact h.flat x hx q hq hp
    · exact absurd hp (hfresh x hx).2
    · exact hflat q hq hp
    · exact absurd hp hown
  case fits =>
    intro q hq hstale
    have hchildren : (⟨d.bookings ++ [r.stored], d.log, n⟩ : Db).children q.id = d.children q.id := by
      simp [children_insert, BudgetExpense.stored, hstale]
    rw [Db.total, hchildren]
    rcases hmem hq with hq | rfl
    · exact h.fits q hq (Option.some_ne_none q.id).symm
    · have hnil : d.children r.id = [] :=
        filter_eq_nil_iff.mpr fun x hx => by simpa using (hfresh x hx).2
      rw [show r.stored.id = r.id from rfl, hnil]
      norm_num [maxAmount]

theorem Sound.save (h : Sound stale d) {e : BudgetExpense} (he : e ∈ d.bookings) (hsave : d.save r = .ok d')
    (hversion : Version e r) (hdescribed : descriptionField r.description = .ok ())
    (hamount : e.parentExpenseId = none ∨ e.parentExpenseId = stale ∨ r.amount = e.amount) : Sound stale d' := by
  have hchecked : r.stored.checked = .ok r.stored := by
    obtain ⟨r', hr', _⟩ := bind_ok.mp hsave
    exact checked_ok hr' ▸ checked_stored hr'
  have hself : ∀ x ∈ d.bookings, x.id = r.id → x = e := fun x hx hid => h.unique hx he (hid.trans hversion.id)
  rw [save_ok hsave]
  refine h.rewrite (fun x hx => ?_) (fun x hx => ?_) (fun x hx => ?_)
  · split
    next hid =>
      rw [hself x hx hid]
      exact ⟨hversion.id, hversion.transfer, hversion.parent, hversion.year⟩
    next => exact ⟨rfl, rfl, rfl, rfl⟩
  · split
    next => exact ⟨hchecked, hdescribed⟩
    next => exact ⟨h.checked x hx, h.described x hx⟩
  · split
    next hid =>
      rw [hself x hx hid]
      refine hamount.imp_right (.imp_right fun hsame => ?_)
      exact (congrArg cents hsame).trans (congrArg BudgetExpense.amount (h.stored he))
    next => exact .inr (.inr rfl)

theorem recompute_cases {p : Uuid} (hrec : d.recomputeParentAmount p = .ok d') :
    (d' = d ∧ (d.total p ≤ 0 ∨ d.get p = none)) ∨
      ∃ q, d.get p = some q ∧ 0 < d.total p ∧ d.save { q with amount := d.total p } = .ok d' := by
  rw [Db.recomputeParentAmount] at hrec
  by_cases hpos : 0 < ((d.children p).map BudgetExpense.amount).sum
  · simp only [if_pos hpos] at hrec
    cases hget : d.get p with
    | none =>
      rw [hget] at hrec
      cases hrec
      exact .inl ⟨rfl, .inr rfl⟩
    | some q =>
      rw [hget] at hrec
      exact .inr ⟨q, rfl, hpos, hrec⟩
  · simp only [if_neg hpos] at hrec
    cases hrec
    exact .inl ⟨rfl, .inl (not_lt.mp hpos)⟩

theorem Sound.top_of_total (h : Sound stale d) {q : BudgetExpense} (hq : q ∈ d.bookings) (hpos : 0 < d.total q.id) :
    q.parentExpenseId = none := by
  cases hrows : d.children q.id with
  | nil => simp [Db.total, hrows] at hpos
  | cons c rest =>
    obtain ⟨hc, hp⟩ := mem_children.mp (hrows ▸ mem_cons_self : c ∈ d.children q.id)
    exact h.flat c hc q hq hp

theorem Sound.total_stored (h : Sound stale d) (k : Uuid) : cents (d.total k) = d.total k := by
  refine cents_sum fun a ha => ?_
  obtain ⟨c, hc, rfl⟩ := mem_map.mp ha
  exact congrArg BudgetExpense.amount (h.stored (mem_children.mp hc).1)

theorem Sound.recompute {p : Uuid} (h : Sound (some p) d) (hrec : d.recomputeParentAmount p = .ok d') : Sound none d' := by
  have hrest : ∀ {d₁ : Db}, Sound (some p) d₁ → (∀ q ∈ d₁.bookings, q.id = p → d₁.total p ≤ maxAmount) → Sound none d₁ := by
    intro d₁ h₁ hp
    refine ⟨h₁.ids, h₁.checked, h₁.described, h₁.leg, h₁.flat, fun q hq _ => ?_⟩
    by_cases hid : q.id = p
    · exact hid ▸ hp q hq hid
    · exact h₁.fits q hq fun heq => hid (Option.some.inj heq).symm
  rcases recompute_cases hrec with ⟨rfl, hstop⟩ | ⟨q, hget, hpos, hsave⟩
  · refine hrest h fun q hq hid => ?_
    rcases hstop with hnone | hnone
    · exact hnone.trans (by norm_num [maxAmount])
    · exact absurd hid (by simpa using List.find?_eq_none.mp hnone q hq)
  · obtain ⟨hq, rfl⟩ := get_some hget
    have htop := h.top_of_total hq hpos
    refine hrest (h.save hq hsave ⟨rfl, rfl, rfl, rfl⟩ (h.described q hq) (.inl htop)) fun _ _ _ => ?_
    obtain ⟨r', hr', _⟩ := bind_ok.mp hsave
    obtain ⟨⟨_, hmax, _⟩, _⟩ := checked_iff.mp hr'
    rw [save_ok hsave, total_map fun x hx => ?_]
    · exact (h.total_stored q.id).symm.trans_le hmax
    · split
      next hid =>
        obtain rfl := h.unique hx hq hid
        exact ⟨rfl, fun hp => absurd (htop.symm.trans hp) (Option.some_ne_none _).symm⟩
      next => exact ⟨rfl, fun _ => rfl⟩

end Statements

section Operations

variable {env : Env} {d d' : Db}
variable {payload : ExpenseUpdate} {actor : Text}

theorem descriptionField_update (h : payload.check = .ok ()) : optionalField payload.description descriptionField = .ok () := by
  obtain ⟨_, _, h⟩ := bind_ok.mp h
  exact (bind_ok.mp h).choose_spec.1

theorem createExpense_sound {payload : ExpenseCreate} (h : Sound none d) (hone : OneYear d)
    (hop : createExpense env payload actor d = .ok d') : Sound none d' := by
  obtain ⟨node, fy, r, d₁, hcheck, _, hins, ⟨hid, ht, hp⟩, _, _, hdescription, rfl⟩ := createExpense_ok hop
  obtain ⟨_, _, hcheck⟩ := bind_ok.mp hcheck
  obtain ⟨_, hdescribed, _⟩ := bind_ok.mp hcheck
  have hinsert : Sound r.parentExpenseId { d₁ with next := d.next + 1 } :=
    h.insert hins (fun x hx => hid ▸ ⟨(hone.id x hx).ne, fun hxp => (hone.parent x hx _ hxp).ne rfl⟩)
      (hdescription ▸ hdescribed) (fun _ => ht) (by simp [hp]) (by simp [hp])
  exact (hp ▸ hinsert).audit _

theorem createSubBooking_sound {parentId : Uuid} {payload : SubBookingCreate} (h : Sound none d) (hone : OneYear d)
    (hop : createSubBooking env parentId payload actor d = .ok d') : Sound none d' := by
  obtain ⟨parent, r, d₁, d₂, hdescribed, hget, ⟨htop, _⟩, hopen, hins, ⟨hid, ht, hp⟩, ⟨hcentre, hyear, _⟩, hdescription, hrec, rfl⟩ :=
    createSubBooking_ok hop
  obtain ⟨hmem, rfl⟩ := get_some hget
  have hinsert : Sound r.parentExpenseId { d₁ with next := d.next + 1 } := by
    refine h.insert hins (fun x hx => hid ▸ ⟨(hone.id x hx).ne, fun hxp => (hone.parent x hx _ hxp).ne rfl⟩)
      (hdescription ▸ hdescribed) (fun _ => ht) (fun q hq hqp => ?_) (fun hself => ?_)
    · obtain rfl := h.unique hmem hq (Option.some.inj (hp.symm.trans hqp))
      exact htop
    · exact (hone.id parent hmem).ne ((Option.some.inj (hp.symm.trans hself)).trans hid)
  exact ((hp ▸ hinsert).recompute hrec).audit _

theorem updateExpense_sound {k : Uuid} (h : Sound none d) (hop : updateExpense env k payload d = .ok d') : Sound none d' := by
  obtain ⟨e, target, d₁, hcheck, hget, _, _, _, _, hsave, hrest⟩ := updateExpense_ok hop
  obtain ⟨he, rfl⟩ := get_some hget
  have hversion : Version e (e.patched payload target) := ⟨rfl, rfl, rfl, rfl⟩
  have hdescribed := writeRequired_checked (descriptionField_update hcheck) (h.described e he)
  rcases hrest with ⟨p, _, hp, _, hrec⟩ | ⟨hkeep, rfl⟩
  · exact ((h.weaken.save he hsave hversion hdescribed (.inr (.inl hp))).audit _).recompute hrec
  · refine (h.save he hsave hversion hdescribed ?_).audit _
    rcases hparent : e.parentExpenseId with _ | p
    · exact .inl rfl
    · have hamount : payload.amount = none := Option.eq_none_iff_forall_ne_some.mpr (hkeep p · hparent)
      exact .inr (.inr (by rw [BudgetExpense.patched, hamount]; rfl))

theorem deleteExpense_sound {k : Uuid} (h : Sound none d) (hop : deleteExpense env k d = .ok d') : Sound none d' := by
  obtain ⟨e, d₁, _, _, hdeleted, hrest⟩ := deleteExpense_ok hop
  have h₁ : Sound none d₁ := by
    rcases hdeleted with ⟨t, _, rfl⟩ | ⟨_, rfl⟩
    · exact deleteAll_bookings d _ ▸ h.filter _
    · exact h.filter _
  rcases hrest with ⟨p, _, hrec⟩ | ⟨_, rfl⟩
  · exact (h₁.weaken.audit _).recompute hrec
  · exact h₁.audit _

theorem createTransfer_sound {payload : TransferCreate} (h : Sound none d) (hone : OneYear d)
    (hop : createTransfer env payload actor d = .ok d') : Sound none d' := by
  obtain ⟨src, dst, fy, d₁, d₂, hcheck, _, _, hout, hincome, rfl⟩ := createTransfer_ok hop
  obtain ⟨_, _, hcheck⟩ := bind_ok.mp hcheck
  obtain ⟨_, hdescribed, _⟩ := bind_ok.mp hcheck
  have hnew : ∀ x ∈ d.bookings, ∀ n, x.id ≠ d.next + n ∧ x.parentExpenseId ≠ some (d.next + n) := fun x hx n =>
    ⟨((hone.id x hx).trans_le (Nat.le_add_right _ n)).ne, fun hxp =>
      ((hone.parent x hx _ hxp).trans_le (Nat.le_add_right _ n)).ne rfl⟩
  have hleg : ∀ {k kind node}, (transferLeg payload actor d.next k kind node fy).parentExpenseId = none := rfl
  have hfirst : Sound none d₁ :=
    h.insert (n := d₁.next) hout (fun x hx => hnew x hx 1) hdescribed (fun hne => absurd hleg hne) (by simp [hleg]) (by simp [hleg])
  have hsecond : Sound none { d₂ with next := d.next + 3 } := by
    refine hfirst.insert hincome (fun x hx => ?_) hdescribed (fun hne => absurd hleg hne) (by simp [hleg]) (by simp [hleg])
    rw [insert_ok hout] at hx
    rcases mem_append.mp hx with hx | hx
    · exact hnew x hx 2
    · rw [mem_singleton.mp hx]
      exact ⟨(Nat.lt_succ_self _).ne, (Option.some_ne_none _).symm⟩
  exact hsecond.audit _

theorem updateTransfer_sound {t : Uuid} {payload : TransferUpdate} (h : Sound none d)
    (hop : updateTransfer env t payload d = .ok d') : Sound none d' := by
  obtain ⟨out, income, out', income', d₁, d₂, hcheck, hlegs, _, hout', hincome', hsave, hsave', rfl⟩ := updateTransfer_ok hop
  obtain ⟨⟨hout, ht⟩, ⟨hincome, ht'⟩, hkind⟩ := transferLegs_mem hlegs
  obtain ⟨_, _, hcheck⟩ := bind_ok.mp hcheck
  have hdescribed := (bind_ok.mp hcheck).choose_spec.1
  have hpatched := transferPatched_ok hout'
  have hpatched' := transferPatched_ok hincome'
  have htop : ∀ r ∈ d.bookings, r.transferId = some t → r.parentExpenseId = none := fun r hr hrt =>
    Classical.not_not.mp fun hne => absurd (hrt.symm.trans (h.leg r hr hne)) (Option.some_ne_none t)
  have hfirst : Sound none d₁ := h.save hout hsave hpatched.version
    (hpatched.description ▸ writeRequired_checked hdescribed (h.described out hout)) (.inl (htop out hout ht))
  have hincome₁ : income ∈ d₁.bookings := by
    rw [save_ok hsave]
    refine mem_map.mpr ⟨income, hincome, if_neg fun heq => hkind ?_⟩
    rw [h.unique hincome hout (heq.trans hpatched.id)]
  exact (hfirst.save hincome₁ hsave' hpatched'.version
    (hpatched'.description ▸ writeRequired_checked hdescribed (h.described income hincome))
    (.inl (htop income hincome ht'))).audit _

theorem handle_sound {r : Request} (h : Sound none d) (hone : OneYear d) (hop : r.handle env d = .ok d') : Sound none d' := by
  cases r with
  | createTransfer payload actor => exact createTransfer_sound h hone hop
  | updateTransfer t payload => exact updateTransfer_sound h hop
  | deleteTransfer t =>
    obtain ⟨out, income, _, _, rfl⟩ := deleteTransfer_ok hop
    exact (deleteAll_bookings d _ ▸ h.filter _ : Sound none (d.deleteAll _)).audit _
  | createExpense payload actor => exact createExpense_sound h hone hop
  | updateExpense k payload => exact updateExpense_sound h hop
  | deleteExpense k => exact deleteExpense_sound h hop
  | createSubBooking k payload actor => exact createSubBooking_sound h hone hop
  | revertAudit n =>
    rcases revertAudit_cases hop with ⟨k, _, _, _, _, rfl⟩ | ⟨t, _, _, _, _, rfl⟩ | ⟨k, before, _, _, _, _, _, hop⟩
    · exact (h.filter _).audit _
    · exact (deleteAll_bookings d _ ▸ h.filter _ : Sound none (d.deleteAll _)).audit _
    · exact updateExpense_sound h hop

end Operations

theorem emptyDb_sound : Sound none emptyDb where
  ids := nodup_nil
  checked := by simp [emptyDb]
  described := by simp [emptyDb]
  leg := by simp [emptyDb]
  flat := by simp [emptyDb]
  fits := by simp [emptyDb]

end Budget
