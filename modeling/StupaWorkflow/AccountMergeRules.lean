import StupaWorkflow.AccountMergeCounts

/-!
An account merge keeps the rules of votes and delegations. The conflict check looks at exactly the
pairs of rows that the rewrite would bring under one key.
-/
namespace AccountMerge
open Py Columns
open List hiding count swap

structure Rules (d : Db) : Prop where
  markers : ((d .votedMarker).map fun r => (r .voteId, r .voterSub)).Nodup
  delegators : ((d .meetingDelegation).map fun r => (r .meetingId, r .delegatorPrincipalId)).Nodup
  delegates : (((d .meetingDelegation).filter fun r => r .delegateVoting = .bool true).map fun r =>
    (r .meetingId, r .delegatePrincipalId)).Nodup
  noChain : ∀ r ∈ d .meetingDelegation, ∀ x ∈ d .meetingDelegation, r .meetingId = x .meetingId →
    r .delegatorPrincipalId ≠ x .delegatePrincipalId

/-- Primary and foreign keys of the tables that the rules read. -/
structure Keys (d : Db) : Prop where
  ids : ((d .principal).map fun p => p .id).Nodup
  subs : ((d .principal).map fun p => p .sub).Nodup
  typed : ∀ p ∈ d .principal, ∃ s, p .sub = .text s
  votes : ∀ r ∈ d .votedMarker, r .voteId ≠ .null ∧ ∃ v ∈ d .vote, v .id = r .voteId
  meetings : ∀ r ∈ d .meetingDelegation, r .meetingId ≠ .null ∧ ∃ m ∈ d .meeting, m .id = r .meetingId

/-- `pool_seat_clause`: claimed by the substitute itself. -/
def poolSeat (d : Db) (r : Row) : Bool :=
  r .viaPool = .bool true && (d .principal).any fun p => p .id = r .delegatePrincipalId && r .createdBy = p .sub

/-- What a merge keeps: nothing refers to the source, each vote has its markers, the rules
hold, and each delegation row is a pool seat as before. -/
structure KeptBy (source : Row) (d d' : Db) : Prop where
  subs : ∀ x ∈ subColumns, Absent x.2 (source .sub) d'
  ids : ∀ x ∈ idColumns, Absent x.2 (source .id) d'
  combined : ∀ c ∈ combinedColumns, Absent c (source .id) d'
  markers : ∀ v, (count d' .votedMarker fun r => r .voteId = v) = count d .votedMarker fun r => r .voteId = v
  rules : Rules d'
  seats : ((d' .meetingDelegation).map fun r => (r .id, poolSeat d' r)) =
    (d .meetingDelegation).map fun r => (r .id, poolSeat d r)

def CrossSeat (source target : Row) (r : Row) : Prop :=
  r .viaPool = .bool true ∧ ((r .createdBy = target .sub ∧ r .delegatePrincipalId = source .id) ∨
    (r .createdBy = source .sub ∧ r .delegatePrincipalId = target .id))

section Absence

variable {d : Db} {c : Column} {v : Value}

def Keeps (c : Column) (v : Value) (s : Step) : Prop := ∀ d, Absent c v d → Absent c v (s d).1

theorem inOrder_keeps {xs : List Step} (h : ∀ s ∈ xs, Keeps c v s) : Keeps c v (inOrder xs) := by
  induction xs with
  | nil => exact fun _ hd => hd
  | cons s xs ih =>
    intro d hd
    exact ih (fun s' hs' => h s' (mem_cons_of_mem _ hs')) _ (h s mem_cons_self d hd)

theorem inOrder_absent {xs : List Step} (h : ∀ s ∈ xs, Keeps c v s) (hout : ∃ s ∈ xs, ∀ d, Absent c v (s d).1) :
    Absent c v (inOrder xs d).1 := by
  induction xs generalizing d with
  | nil =>
    obtain ⟨_, hs, _⟩ := hout
    cases hs
  | cons s xs ih =>
    have hrest : ∀ s' ∈ xs, Keeps c v s' := fun s' hs' => h s' (mem_cons_of_mem _ hs')
    obtain ⟨s', hs', hd⟩ := hout
    rcases mem_cons.mp hs' with rfl | hs'
    · exact inOrder_keeps hrest _ (hd d)
    · exact ih hrest ⟨s', hs', hd⟩

theorem combine_keeps {area : Area} {c' : Column} {new : Value} {duplicate : Db → Row → Bool} {extra : Row → Row}
    (hne : v ≠ new) (hextra : ∀ r, extra r c.field = r c.field) : Keeps c v (combine area c' v new duplicate extra true) := by
  intro d hd
  refine hd.delete.change fun _ r => ?_
  by_cases hf : c.field = c'.field
  · right
    rw [Column.set, hf, Function.update_self]
    exact hne.symm
  · left
    rw [Column.set, Function.update_of_ne hf, hextra]

theorem combine_absent {area : Area} {new : Value} {duplicate : Db → Row → Bool} {extra : Row → Row} (hne : v ≠ new)
    (d : Db) : Absent c v (combine area c v new duplicate extra true d).1 := by
  refine absent_change fun r => ?_
  rw [Column.set, Function.update_self]
  exact hne.symm

theorem dropSelfEntries_keeps {old new : Value} : Keeps c v (dropSelfEntries old new true) := fun _ hd => hd.delete

theorem leadEntry_other {f : Field} (hf : f ≠ .source) (r : Row) : leadEntry r f = r f := by
  rw [leadEntry]
  split
  · exact Function.update_of_ne hf ..
  · rfl

theorem combinedTables_absent {source target : Row} (hne : source .id ≠ target .id) (hc : c ∈ combinedColumns) :
    Absent c (source .id) (combinedTables source target true d).1 := by
  have hsource : c.field ≠ .source := by
    revert c
    decide
  refine inOrder_absent (fun s hs => ?_) ?_
  · simp only [mem_cons, not_mem_nil, or_false] at hs
    rcases hs with rfl | rfl | rfl | rfl | rfl | rfl | rfl
    · exact combine_keeps hne fun _ => rfl
    · exact combine_keeps hne (leadEntry_other hsource)
    · exact dropSelfEntries_keeps
    · exact combine_keeps hne fun _ => rfl
    · exact combine_keeps hne fun _ => rfl
    · exact combine_keeps hne fun _ => rfl
    · exact combine_keeps hne fun _ => rfl
  · simp only [combinedColumns, mem_cons, not_mem_nil, or_false] at hc
    rcases hc with rfl | rfl | rfl | rfl | rfl | rfl
    · exact ⟨_, .head _, combine_absent hne⟩
    · exact ⟨_, .tail _ (.head _), combine_absent hne⟩
    · exact ⟨_, .tail _ (.tail _ (.tail _ (.head _))), combine_absent hne⟩
    · exact ⟨_, .tail _ (.tail _ (.tail _ (.tail _ (.tail _ (.tail _ (.head _)))))), combine_absent hne⟩
    · exact ⟨_, .tail _ (.tail _ (.tail _ (.tail _ (.head _)))), combine_absent hne⟩
    · exact ⟨_, .tail _ (.tail _ (.tail _ (.tail _ (.tail _ (.head _))))), combine_absent hne⟩

section Final

variable {source target : Row} {env : Env} {d' : Db}

theorem withoutRemoved_keeps {old : Value} (h : Absent c v d) : Absent c v (withoutRemoved old d) := by
  simp only [withoutRemoved, removedRows, foldl_cons, foldl_nil]
  exact h.delete.delete.delete.delete

theorem rewritten_subs (hne : source .sub ≠ target .sub) (hid : target .id ≠ source .sub) {x : Area × Column}
    (hx : x ∈ subColumns) : Absent x.2 (source .sub) (rewritten source target d) := by
  rw [rewritten_eq]
  exact (absent_rewriteAll hne (mem_map_of_mem hx)).rewriteAll hid _

theorem rewritten_ids (hne : source .id ≠ target .id) {x : Area × Column} (hx : x ∈ idColumns) :
    Absent x.2 (source .id) (rewritten source target d) := by
  rw [rewritten_eq]
  exact absent_rewriteAll hne (mem_map_of_mem hx)

theorem rewritten_combined (hne : source .id ≠ target .id) (hsub : target .sub ≠ source .id) (hc : c ∈ combinedColumns) :
    Absent c (source .id) (rewritten source target d) := by
  rw [rewritten_eq]
  exact ((withoutRemoved_keeps (combinedTables_absent hne hc)).rewriteAll hsub _).rewriteAll hne.symm _

def laterFields : List Field := [.mentions, .ownerId, .boardId, .columnId]

theorem mentions_keeps {area : Area} {t : Table} {old new : Value} (hf : c.field ∉ laterFields) :
    Keeps c v (rewriteMentions area t old new true) := by
  intro d hd
  refine Absent.change hd fun _ r => .inl ?_
  exact Function.update_of_ne (fun heq => hf (by rw [heq]; decide)) ..

theorem fold_keeps {mine theirs : Value} {r : Db × ℕ} (hf : c.field ∉ laterFields) (hd : Absent c v d)
    (h : foldPersonalBoard mine theirs d = some r) : Absent c v r.1 := by
  rw [foldPersonalBoard] at h
  obtain ⟨⟨first, done⟩, _, h⟩ := Option.bind_eq_some_iff.mp h
  cases h
  refine Absent.delete (Absent.delete (Absent.change hd fun _ x => .inl ?_))
  rw [Function.update_of_ne fun heq => hf (by rw [heq]; decide), Function.update_of_ne fun heq => hf (by rw [heq]; decide)]

theorem todos_keeps {tl : Tally} (hf : c.field ∉ laterFields) (hd : Absent c v d)
    (h : todos source target true d = some (d', tl)) : Absent c v d' := by
  have hmentions : Absent c v (rewriteMentions .todos .todoComment (source .id) (target .id) true d).1 :=
    mentions_keeps hf d hd
  unfold todos at h
  dsimp only at h
  split at h
  · cases h
    exact hmentions
  · cases h
    refine Absent.change hmentions fun _ r => .inl ?_
    exact Function.update_of_ne (fun heq => hf (by rw [heq]; decide)) ..
  · rw [if_pos rfl] at h
    obtain ⟨r, hr, h⟩ := Option.bind_eq_some_iff.mp h
    cases h
    exact fold_keeps hf hmentions hr

theorem chat_keeps (hf : c.field ∉ laterFields) : Keeps c v (chatMentions source target true) := by
  refine inOrder_keeps fun s hs => ?_
  simp only [mem_cons, not_mem_nil, or_false] at hs
  rcases hs with rfl | rfl <;> exact mentions_keeps hf

theorem sourceRow_other {t : Table} {now : ℕ} (hp : t ≠ .principal) (hm : t ≠ .gremiumMembership) :
    (sourceRow source target now true d).1 t = d t :=
  (delete_other hm).trans ((change_other hp).trans (change_other hp))

theorem mergeTables_keeps {tl : Tally} (h : mergeTables source target env d = some (d', tl)) (hf : c.field ∉ laterFields)
    (hp : c.table ≠ .principal) (hm : c.table ≠ .gremiumMembership) (hd : Absent c v (rewritten source target d)) :
    Absent c v d' := by
  obtain ⟨d₃, t₃, htodos, _, rfl⟩ := mergeTables_ok h
  exact (chat_keeps hf _ (todos_keeps hf hd htodos)).congr (sourceRow_other hp hm)

end Final

end Absence

section Rows

variable {source target : Row} {env : Env} {d d' : Db} {tl : Tally}

theorem mergeTables_rows {t : Table} (h : mergeTables source target env d = some (d', tl)) (hcombined : t ∉ combinedTableList)
    (hremoved : t ∉ removedRows.map fun x => x.2.table)
    (hlater : t ∉ todoTableList ++ [.comment, .ticketNote, .principal, .gremiumMembership]) :
    d' t = (d t).map (moveRow source target t) := by
  obtain ⟨d₃, t₃, htodos, _, rfl⟩ := mergeTables_ok h
  simp only [mem_append, mem_cons, not_mem_nil, or_false, not_or] at hlater
  rw [sourceRow_other hlater.2.2.2.1 hlater.2.2.2.2, chat_other hlater.2.1 hlater.2.2.1, todos_other htodos hlater.1,
    rewritten_rows hcombined hremoved]

theorem sourceRow_principals (now : ℕ) :
    ((sourceRow source target now true d).1 .principal).map (fun p => (p .id, p .sub)) =
      (d .principal).map fun p => (p .id, p .sub) := by
  simp only [sourceRow, if_true]
  rw [delete_other (by decide), change_self, change_self, map_map, map_map]
  refine map_congr_left fun r _ => ?_
  simp only [Function.comp_apply]
  split <;> split <;> simp

theorem mergeTables_principals (h : mergeTables source target env d = some (d', tl)) :
    ((d' .principal).map fun p => (p .id, p .sub)) = (d .principal).map fun p => (p .id, p .sub) := by
  obtain ⟨d₃, t₃, htodos, _, rfl⟩ := mergeTables_ok h
  have hbefore : (chatMentions source target true d₃).1 .principal = d .principal :=
    (chat_other (by decide) (by decide)).trans ((todos_other htodos (by decide)).trans
      (rewritten_other (by decide) (by decide) (by decide) (by decide)))
  rw [sourceRow_principals, hbefore]

end Rows

section Conflicts

variable {source target : Row} {d : Db}
variable {p : Row → Bool}

theorem ofMeetings_nil {kind : ConflictKind} (h : ofMeetings d kind p = []) : ∀ m ∈ d .meeting, p m = false := by
  intro m hm
  have hnone := filter_eq_nil_iff.mp (map_eq_nil_iff.mp h) m hm
  simpa using hnone

theorem hasRow_of {t : Table} {r : Row} (hr : r ∈ d t) (hp : p r = true) : hasRow d t p = true :=
  any_eq_true.mpr ⟨r, hr, hp⟩

theorem deleg_of {m r : Row} (hr : r ∈ d .meetingDelegation) (hm : m .id = r .meetingId) (hnull : r .meetingId ≠ .null)
    (hp : p r = true) : deleg d m p = true :=
  hasRow_of hr (by rw [eqSql_iff.mpr ⟨hm.symm, hnull⟩, hp]; rfl)

theorem no_ballot_pair (hkeys : Keys d) (h : conflicts source target d = []) :
    ∀ x ∈ d .votedMarker, ∀ y ∈ d .votedMarker, x .voteId = y .voteId →
      ¬ (x .voterSub = source .sub ∧ y .voterSub = target .sub) := by
  rintro x hx y hy hvote ⟨hxs, hyt⟩
  obtain ⟨hnull, v, hv, hvid⟩ := hkeys.votes x hx
  have hballots := (append_eq_nil_iff.mp (append_eq_nil_iff.mp (append_eq_nil_iff.mp
    (append_eq_nil_iff.mp (append_eq_nil_iff.mp h).1).1).1).1).1
  have hnone := filter_eq_nil_iff.mp (map_eq_nil_iff.mp hballots) v hv
  refine hnone (Bool.and_eq_true_iff.mpr ⟨hasRow_of hx ?_, hasRow_of hy ?_⟩)
  · rw [eqSql_iff.mpr ⟨hvid.symm, hnull⟩]
    simp [hxs]
  · rw [eqSql_iff.mpr ⟨(hvid.trans hvote).symm, hvote ▸ hnull⟩]
    simp [hyt]

theorem no_delegator_pair (hkeys : Keys d) (h : conflicts source target d = []) :
    ∀ x ∈ d .meetingDelegation, ∀ y ∈ d .meetingDelegation, x .meetingId = y .meetingId →
      ¬ (x .delegatorPrincipalId = source .id ∧ y .delegatorPrincipalId = target .id) := by
  rintro x hx y hy hmeeting ⟨hxs, hyt⟩
  obtain ⟨hnull, m, hm, hmid⟩ := hkeys.meetings x hx
  have hnone := ofMeetings_nil (append_eq_nil_iff.mp (append_eq_nil_iff.mp (append_eq_nil_iff.mp
    (append_eq_nil_iff.mp (append_eq_nil_iff.mp h).1).1).1).1).2 m hm
  rw [deleg_of hx hmid hnull (by simp [hxs]), deleg_of hy (hmid.trans hmeeting) (hmeeting ▸ hnull) (by simp [hyt])] at hnone
  cases hnone

theorem no_delegate_pair (hkeys : Keys d) (h : conflicts source target d = []) :
    ∀ x ∈ (d .meetingDelegation).filter fun r => r .delegateVoting = .bool true,
      ∀ y ∈ (d .meetingDelegation).filter fun r => r .delegateVoting = .bool true, x .meetingId = y .meetingId →
        ¬ (x .delegatePrincipalId = source .id ∧ y .delegatePrincipalId = target .id) := by
  rintro x hx y hy hmeeting ⟨hxs, hyt⟩
  obtain ⟨hx, hxv⟩ := mem_filter.mp hx
  obtain ⟨hy, hyv⟩ := mem_filter.mp hy
  obtain ⟨hnull, m, hm, hmid⟩ := hkeys.meetings x hx
  have hnone := ofMeetings_nil (append_eq_nil_iff.mp (append_eq_nil_iff.mp (append_eq_nil_iff.mp
    (append_eq_nil_iff.mp h).1).1).1).2 m hm
  rw [deleg_of hx hmid hnull (by simpa [hxs] using hxv),
    deleg_of hy (hmid.trans hmeeting) (hmeeting ▸ hnull) (by simpa [hyt] using hyv)] at hnone
  cases hnone

theorem no_chain_pair (hkeys : Keys d) (h : conflicts source target d = []) :
    ∀ x ∈ d .meetingDelegation, ∀ y ∈ d .meetingDelegation, x .meetingId = y .meetingId →
      ¬ (x .delegatorPrincipalId = source .id ∧ y .delegatePrincipalId = target .id) ∧
        ¬ (x .delegatorPrincipalId = target .id ∧ y .delegatePrincipalId = source .id) := by
  intro x hx y hy hmeeting
  obtain ⟨hnull, m, hm, hmid⟩ := hkeys.meetings x hx
  have hnone := ofMeetings_nil (append_eq_nil_iff.mp (append_eq_nil_iff.mp (append_eq_nil_iff.mp h).1).1).2 m hm
  rw [Bool.or_eq_false_iff] at hnone
  have hnull' : y .meetingId ≠ .null := hmeeting ▸ hnull
  constructor
  · rintro ⟨hxs, hyt⟩
    have hone := hnone.1
    rw [deleg_of hx hmid hnull (by simp [hxs]), deleg_of hy (hmid.trans hmeeting) hnull' (by simp [hyt])] at hone
    cases hone
  · rintro ⟨hxt, hys⟩
    have htwo := hnone.2
    rw [deleg_of hx hmid hnull (by simp [hxt]), deleg_of hy (hmid.trans hmeeting) hnull' (by simp [hys])] at htwo
    cases htwo

end Conflicts

section Rules

variable {source target : Row} {env : Env} {d d' : Db} {tl : Tally}

theorem marker_rows (h : mergeTables source target env d = some (d', tl)) :
    d' .votedMarker = (d .votedMarker).map (moveRow source target .votedMarker) :=
  mergeTables_rows h (by decide) (by decide) (by decide)

theorem delegation_rows (h : mergeTables source target env d = some (d', tl)) :
    d' .meetingDelegation = (d .meetingDelegation).map (moveRow source target .meetingDelegation) :=
  mergeTables_rows h (by decide) (by decide) (by decide)

theorem moved_marker (source target r : Row) :
    moveRow source target .votedMarker r .voteId = r .voteId ∧
      moveRow source target .votedMarker r .voterSub = swap (source .sub) (target .sub) (r .voterSub) :=
  ⟨moveRow_other (by decide) (by decide) r, moveRow_sub (by decide) (by decide) r⟩

structure MovedDelegation (source target r x : Row) : Prop where
  id : x .id = r .id
  meetingId : x .meetingId = r .meetingId
  voting : x .delegateVoting = r .delegateVoting
  viaPool : x .viaPool = r .viaPool
  delegator : x .delegatorPrincipalId = swap (source .id) (target .id) (r .delegatorPrincipalId)
  delegate : x .delegatePrincipalId = swap (source .id) (target .id) (r .delegatePrincipalId)
  createdBy : x .createdBy = swap (source .sub) (target .sub) (r .createdBy)

theorem moved_delegation (source target r : Row) :
    MovedDelegation source target r (moveRow source target .meetingDelegation r) where
  id := moveRow_other (by decide) (by decide) r
  meetingId := moveRow_other (by decide) (by decide) r
  voting := moveRow_other (by decide) (by decide) r
  viaPool := moveRow_other (by decide) (by decide) r
  delegator := moveRow_id (by decide) (by decide) r
  delegate := moveRow_id (by decide) (by decide) r
  createdBy := moveRow_sub (by decide) (by decide) r

theorem merge_markers (h : mergeTables source target env d = some (d', tl)) (v : Value) :
    (count d' .votedMarker fun r => r .voteId = v) = count d .votedMarker fun r => r .voteId = v := by
  rw [count, count, marker_rows h, countP_map]
  exact countP_congr fun r _ => by rw [Function.comp_apply, (moved_marker source target r).1]

theorem merge_rules (hkeys : Keys d) (hrules : Rules d) (hconflicts : conflicts source target d = [])
    (h : mergeTables source target env d = some (d', tl)) : Rules d' where
  markers := by
    have hmap : ((d' .votedMarker).map fun r => (r .voteId, r .voterSub)) =
        (d .votedMarker).map fun r => (r .voteId, swap (source .sub) (target .sub) (r .voterSub)) := by
      rw [marker_rows h, map_map]
      exact map_congr_left fun r _ => Prod.ext (moved_marker source target r).1 (moved_marker source target r).2
    rw [hmap]
    exact nodup_swap hrules.markers (no_ballot_pair hkeys hconflicts)
  delegators := by
    have hmap : ((d' .meetingDelegation).map fun r => (r .meetingId, r .delegatorPrincipalId)) =
        (d .meetingDelegation).map fun r => (r .meetingId, swap (source .id) (target .id) (r .delegatorPrincipalId)) := by
      rw [delegation_rows h, map_map]
      exact map_congr_left fun r _ => Prod.ext (moved_delegation source target r).meetingId (moved_delegation source target r).delegator
    rw [hmap]
    exact nodup_swap hrules.delegators (no_delegator_pair hkeys hconflicts)
  delegates := by
    have hmap : (((d' .meetingDelegation).filter fun r => r .delegateVoting = .bool true).map fun r =>
        (r .meetingId, r .delegatePrincipalId)) =
          ((d .meetingDelegation).filter fun r => r .delegateVoting = .bool true).map fun r =>
            (r .meetingId, swap (source .id) (target .id) (r .delegatePrincipalId)) := by
      rw [delegation_rows h, filter_map, map_map]
      have hvoting : ((fun r : Row => decide (r .delegateVoting = .bool true)) ∘ moveRow source target .meetingDelegation) =
          fun r => decide (r .delegateVoting = .bool true) := by
        funext r
        rw [Function.comp_apply, (moved_delegation source target r).voting]
      rw [hvoting]
      exact map_congr_left fun r _ => Prod.ext (moved_delegation source target r).meetingId (moved_delegation source target r).delegate
    rw [hmap]
    exact nodup_swap hrules.delegates (no_delegate_pair hkeys hconflicts)
  noChain := by
    rw [delegation_rows h]
    intro x' hx' y' hy' hmeeting
    obtain ⟨x, hx, rfl⟩ := mem_map.mp hx'
    obtain ⟨y, hy, rfl⟩ := mem_map.mp hy'
    rw [(moved_delegation source target x).meetingId, (moved_delegation source target y).meetingId] at hmeeting
    rw [(moved_delegation source target x).delegator, (moved_delegation source target y).delegate]
    intro heq
    rcases swap_eq heq with hsame | hboth | hboth
    · exact hrules.noChain x hx y hy hmeeting hsame
    · exact (no_chain_pair hkeys hconflicts x hx y hy hmeeting).1 hboth
    · exact (no_chain_pair hkeys hconflicts x hx y hy hmeeting).2 hboth

end Rules

section Seats

variable {source target : Row} {env : Env} {d d' : Db} {tl : Tally}
variable {k sub : Value}

/-- An account with the id has the `sub`. -/
def HasSub (d : Db) (k sub : Value) : Prop := ∃ p ∈ d .principal, p .id = k ∧ p .sub = sub

theorem poolSeat_iff {r : Row} :
    poolSeat d r = true ↔ r .viaPool = .bool true ∧ HasSub d (r .delegatePrincipalId) (r .createdBy) := by
  simp only [poolSeat, HasSub, Bool.and_eq_true, decide_eq_true_eq, any_eq_true]
  exact and_congr_right fun _ => exists_congr fun p => and_congr_right fun _ => and_congr_right fun _ => eq_comm

theorem hasSub_congr (h : ((d' .principal).map fun p => (p .id, p .sub)) = (d .principal).map fun p => (p .id, p .sub)) :
    HasSub d' k sub ↔ HasSub d k sub := by
  have hiff (e : Db) : HasSub e k sub ↔ (k, sub) ∈ (e .principal).map fun p => (p .id, p .sub) := by
    simp [HasSub]
  rw [hiff, hiff, h]

theorem hasSub_of (hkeys : Keys d) {p : Row} (hp : p ∈ d .principal) : HasSub d (p .id) sub ↔ sub = p .sub := by
  constructor
  · rintro ⟨q, hq, hid, rfl⟩
    rw [inj_on_of_nodup_map hkeys.ids hq hp hid]
  · rintro rfl
    exact ⟨p, hp, rfl, rfl⟩

/-- Another account has another `sub`. -/
theorem hasSub_other (hkeys : Keys d) {p : Row} (hp : p ∈ d .principal) (hk : k ≠ p .id) : ¬ HasSub d k (p .sub) := by
  rintro ⟨q, hq, hid, hsub⟩
  exact hk (hid.symm.trans (congrArg (fun r : Row => r .id) (inj_on_of_nodup_map hkeys.subs hq hp hsub)))

theorem hasSub_swap (hkeys : Keys d) (hsource : source ∈ d .principal) (htarget : target ∈ d .principal)
    (hne : source .sub ≠ target .sub) :
    (HasSub d (swap (source .id) (target .id) k) (swap (source .sub) (target .sub) sub) ↔ HasSub d k sub) ↔
      ¬ ((sub = target .sub ∧ k = source .id) ∨ (sub = source .sub ∧ k = target .id)) := by
  by_cases hks : k = source .id
  · have hkt : k ≠ target .id := fun heq => hne (congrArg (fun r : Row => r .sub)
      (inj_on_of_nodup_map hkeys.ids hsource htarget (hks.symm.trans heq)))
    rw [hks, swap_old, hasSub_of hkeys htarget, hasSub_of hkeys hsource]
    by_cases hsub : sub = source .sub
    · simp [hsub, hne, hks ▸ hkt]
    · simp [swap, hsub]
  · by_cases hkt : k = target .id
    · have hswap : swap (source .id) (target .id) k = target .id := (if_neg hks).trans hkt
      rw [hswap, hkt, hasSub_of hkeys htarget, hasSub_of hkeys htarget]
      by_cases hsub : sub = source .sub
      · simp [hsub, hne]
      · simp [swap, hsub, hkt ▸ hks]
    · have hswap : swap (source .id) (target .id) k = k := if_neg hks
      rw [hswap]
      by_cases hsub : sub = source .sub
      · rw [hsub, swap_old]
        simp [hasSub_other hkeys hsource hks, hasSub_other hkeys htarget hkt, hks, hkt]
      · simp [swap, hsub, hks]

theorem seat_kept (hkeys : Keys d) (hsource : source ∈ d .principal) (htarget : target ∈ d .principal)
    (hne : source .sub ≠ target .sub)
    (hprincipals : ((d' .principal).map fun p => (p .id, p .sub)) = (d .principal).map fun p => (p .id, p .sub)) (r : Row) :
    poolSeat d' (moveRow source target .meetingDelegation r) = poolSeat d r ↔ ¬ CrossSeat source target r := by
  have hmoved := moved_delegation source target r
  rw [Bool.eq_iff_iff, poolSeat_iff, poolSeat_iff, hasSub_congr hprincipals, hmoved.viaPool, hmoved.delegate,
    hmoved.createdBy, CrossSeat, not_and, ← hasSub_swap hkeys hsource htarget hne]
  by_cases hvia : r .viaPool = .bool true <;> simp [hvia]

end Seats

section Results

variable {source target : Row} {sourceId targetId : Uuid} {env : Env} {d d' : Db} {out : List AreaOut}

/-- The merge keeps the rules, and the pool seats exactly where no account created a pool
delegation to the other one. -/
theorem merge_keeps (hkeys : Keys d) (hrules : Rules d) (hload : load sourceId targetId d = .ok (source, target))
    (hmerge : merge sourceId targetId env d = .ok (d', out)) :
    KeptBy source d d' ↔ ∀ r ∈ d .meetingDelegation, ¬ CrossSeat source target r := by
  obtain ⟨s, t, tl, hload', hconflicts, htables, rfl⟩ := merge_ok hmerge
  obtain ⟨rfl, rfl⟩ := Prod.mk.inj (Except.ok.inj (hload.symm.trans hload'))
  obtain ⟨hsource, htarget, hsid, htid, hne⟩ := load_ok hload
  obtain ⟨ssub, hssub⟩ := hkeys.typed source hsource
  obtain ⟨tsub, htsub⟩ := hkeys.typed target htarget
  have hsubs : source .sub ≠ target .sub := fun heq => hne (congrArg (fun r : Row => r .id)
    (inj_on_of_nodup_map hkeys.subs hsource htarget heq))
  have hseats : ((d' .meetingDelegation).map fun r => (r .id, poolSeat d' r)) =
      ((d .meetingDelegation).map fun r => (r .id, poolSeat d r)) ↔
        ∀ r ∈ d .meetingDelegation, ¬ CrossSeat source target r := by
    rw [delegation_rows htables, map_map, map_inj_left]
    refine forall₂_congr fun r _ => ?_
    rw [← seat_kept hkeys hsource htarget hsubs (mergeTables_principals htables) r, Function.comp_apply, Prod.mk.injEq,
      (moved_delegation source target r).id]
    exact and_iff_right rfl
  constructor
  · exact fun h => hseats.mp h.seats
  · intro hcross
    refine ⟨fun x hx => ?_, fun x hx => ?_, fun c hc => ?_, merge_markers htables, merge_rules hkeys hrules hconflicts htables,
      hseats.mpr hcross⟩
    · have hplain : x.2.field ∉ laterFields ∧ x.2.table ≠ .principal ∧ x.2.table ≠ .gremiumMembership := by
        revert x
        decide
      exact mergeTables_keeps htables hplain.1 hplain.2.1 hplain.2.2
        (rewritten_subs hsubs (by rw [htid, hssub]; exact fun h => nomatch h) hx)
    · have hplain : x.2.field ∉ laterFields ∧ x.2.table ≠ .principal ∧ x.2.table ≠ .gremiumMembership := by
        revert x
        decide
      exact mergeTables_keeps htables hplain.1 hplain.2.1 hplain.2.2 (rewritten_ids hne hx)
    · have hplain : c.field ∉ laterFields ∧ c.table ≠ .principal ∧ c.table ≠ .gremiumMembership := by
        revert c
        decide
      exact mergeTables_keeps htables hplain.1 hplain.2.1 hplain.2.2
        (rewritten_combined hne (by rw [hsid, htsub]; exact fun h => nomatch h) hc)

section Samples

instance (source target r : Row) : Decidable (CrossSeat source target r) :=
  inferInstanceAs (Decidable (r .viaPool = .bool true ∧
    ((r .createdBy = target .sub ∧ r .delegatePrincipalId = source .id) ∨
      (r .createdBy = source .sub ∧ r .delegatePrincipalId = target .id))))

def member : Row := rowOf [(.id, .id 3), (.sub, .text (text "member")), (.active, .bool true)]

/-- A substitute from the pool has the seat of a member; `creator` entered it. -/
def represented (creator : String) : Db :=
  dbOf [(.principal, [oldAccount, newAccount, member]), (.vote, [rowOf [(.id, .id 5)]]),
    (.votedMarker, [rowOf [(.voteId, .id 5), (.voterSub, .text (text "old"))]]),
    (.meeting, [rowOf [(.id, .id 6), (.title, .text (text "Sitzung"))]]),
    (.meetingDelegation, [rowOf [(.id, .id 7), (.meetingId, .id 6), (.delegatorPrincipalId, .id 3),
      (.delegatePrincipalId, .id 1), (.delegateVoting, .bool true), (.viaPool, .bool true),
      (.createdBy, .text (text creator))]])]

theorem represented_keys (creator : String) : Keys (represented creator) := by
  constructor
  · change ([.id 1, .id 2, .id 3] : List Value).Nodup
    decide
  · change ([.text (text "old"), .text (text "new"), .text (text "member")] : List Value).Nodup
    decide
  · intro p hp
    change p ∈ [oldAccount, newAccount, member] at hp
    simp only [mem_cons, not_mem_nil, or_false] at hp
    rcases hp with rfl | rfl | rfl <;> exact ⟨_, rfl⟩
  · intro r hr
    cases mem_singleton.mp hr
    exact ⟨fun h => Value.noConfusion h, _, mem_singleton_self _, rfl⟩
  · intro r hr
    cases mem_singleton.mp hr
    exact ⟨fun h => Value.noConfusion h, _, mem_singleton_self _, rfl⟩

theorem represented_rules (creator : String) : Rules (represented creator) := by
  constructor
  · exact nodup_singleton _
  · exact nodup_singleton _
  · exact nodup_singleton _
  · intro r hr x hx _
    cases mem_singleton.mp hr
    cases mem_singleton.mp hx
    change Value.id 3 ≠ Value.id 1
    decide

/-- The seat that the old account claimed itself is a seat of the new one. -/
theorem ownSeat_kept : ∃ d' out, merge 1 2 admin (represented "old") = .ok (d', out) ∧
    KeptBy oldAccount (represented "old") d' := by
  have hsome : (merge 1 2 admin (represented "old")).toOption.isSome := by decide +kernel
  obtain ⟨⟨d', out⟩, hmerge⟩ := Option.isSome_iff_exists.mp hsome
  have hload : load 1 2 (represented "old") = .ok (oldAccount, newAccount) := rfl
  exact ⟨d', out, toOption_some.mp hmerge,
    (merge_keeps (represented_keys _) (represented_rules _) hload (toOption_some.mp hmerge)).mpr (by decide)⟩

/-- A lead entry of the new account for the old one becomes a pool seat. -/
theorem leadSeat_claimed : Keys (represented "new") ∧ Rules (represented "new") ∧
    ∃ d' out, merge 1 2 admin (represented "new") = .ok (d', out) ∧ ¬ KeptBy oldAccount (represented "new") d' := by
  refine ⟨represented_keys _, represented_rules _, ?_⟩
  have hrun : (merge 1 2 admin (represented "new")).toOption.map (fun r =>
      ((r.1 .meetingDelegation).map fun x => (x .id, poolSeat r.1 x))) = some [(.id 7, true)] := by decide +kernel
  obtain ⟨⟨d', out⟩, hmerge, hseats⟩ := Option.map_eq_some_iff.mp hrun
  refine ⟨d', out, toOption_some.mp hmerge, fun hkept => ?_⟩
  have hbefore : ((represented "new") .meetingDelegation).map (fun x => (x .id, poolSeat (represented "new") x)) =
      [(.id 7, false)] := by decide +kernel
  have heq := hseats.symm.trans (hkept.seats.trans hbefore)
  cases heq

end Samples

end Results

end AccountMerge
