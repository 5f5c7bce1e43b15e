import StupaWorkflow.AccessPolicy

/-!
Read access to the votes: the check of one vote and the clause of the vote list. A vote of a
meeting follows the meeting.
-/
namespace Auth
open Py StorageKeys List

inductive Problem where
  | unauthorized (detail : Text)
  | forbidden (detail : Text)
  | notFound (detail : Text)
  deriving DecidableEq

inductive VoteKind where
  | motion
  | election
  | poll
  deriving DecidableEq

structure MeetingRow where
  id : Uuid
  gremium : Uuid

structure DelegationRow where
  meeting : Uuid
  delegate : Uuid

structure VoteRow where
  application : Option Uuid
  meeting : Option Uuid
  kind : VoteKind
  eligibleGroup : Text
  deriving DecidableEq

/-- The people, the meetings and the votes. The foreign key of a vote names a meeting. -/
structure Assembly where
  people : People
  meetings : List MeetingRow
  delegations : List DelegationRow
  votes : List VoteRow
  meeting_exists : ∀ v ∈ votes, ∀ id ∈ v.meeting, ∃ m ∈ meetings, m.id = id

section Meetings

variable (s : Assembly) (p : Principal)

def Assembly.meetingRow (id : Uuid) : Option MeetingRow := s.meetings.find? (·.id = id)

def delegatedMeetingIds (sub : Text) : List Uuid :=
  (s.delegations.filter fun d => principalIdOf s.people sub = some d.delegate).map (·.meeting)

/-- The Gremien whose meetings the principal sees; `none` is every Gremium. -/
def visibleGremiumIds : Option (List Uuid) :=
  if p.has .meetingViewAll || adminBypass p .sessionManage then none
  else some (gremiumMemberIds s.people p.sub ++ substituteGremienForSub s.people p.sub)

def meetingReadScope : Option (List Uuid) × List Uuid :=
  match visibleGremiumIds s p with
  | none => (none, [])
  | some visible => (some visible, delegatedMeetingIds s p.sub)

/-- `MeetingService.assert_can_read`. -/
def assertCanReadMeeting (meeting : Uuid) : Except Problem Unit :=
  match s.meetingRow meeting with
  | none => .error (.notFound (text "meeting " ++ Uuid.text meeting ++ text " not found"))
  | some row =>
    match visibleGremiumIds s p with
    | none => .ok ()
    | some visible =>
      if visible.contains row.gremium || (delegatedMeetingIds s p.sub).contains meeting then .ok ()
      else .error (.forbidden (text "not allowed to view this meeting"))

end Meetings

section Single

/-- `_may_cast`: a text that is no UUID names no Gremium. -/
def mayCast (p : Principal) (eligibleGroup : Text) : Bool :=
  (Uuid.ofText eligibleGroup).isSome && p.inGroup (voteGroupKey eligibleGroup)

def holdsGremiumVoteRole (t : People) (gremium : Uuid) (p : Principal) : Bool :=
  holdsGremiumPermission t p .voteManage gremium || holdsGremiumPermission t p .sessionManage gremium

def globalRight (p : Principal) (v : VoteRow) : Bool :=
  if v.kind = .poll then adminBypass p .applicationRead
  else p.has .applicationRead || p.has .applicationReadAll

def assertCanRead (s : Assembly) (v : VoteRow) (p : Principal) : Except Problem Unit :=
  match v.meeting with
  | some meeting => assertCanReadMeeting s p meeting
  | none =>
    if globalRight p v || mayCast p v.eligibleGroup then .ok ()
    else match Uuid.ofText v.eligibleGroup with
      | some gremium =>
        if holdsGremiumVoteRole s.people gremium p then .ok ()
        else .error (.forbidden (text "not allowed to view this vote"))
      | none => .error (.forbidden (text "not allowed to view this vote"))

end Single

section List

def standaloneKeys (t : People) (p : Principal) : List Text :=
  (p.groups.filter voteGroupPrefix.isPrefixOf).map (·.drop voteGroupPrefix.length) ++
    (heldGremiumIds t p .voteManage ++ heldGremiumIds t p .sessionManage).map Uuid.text

/-- `_standalone_scope`: the clauses of a vote without a meeting. -/
def standaloneScope (t : People) (p : Principal) (v : VoteRow) : Bool :=
  v.meeting.isNone &&
    ((v.kind ≠ .poll && (p.has .applicationRead || p.has .applicationReadAll)) ||
      (standaloneKeys t p).contains v.eligibleGroup)

def meetingClause (s : Assembly) (p : Principal) (v : VoteRow) : Bool :=
  match v.meeting with
  | none => false
  | some id =>
    match meetingReadScope s p with
    | (none, _) => true
    | (some visible, delegated) =>
      (s.meetingRow id).any (visible.contains ·.gremium) || delegated.contains id

def readScope (s : Assembly) (p : Principal) (v : VoteRow) : Bool :=
  meetingClause s p v ||
    (if adminBypass p .applicationRead then v.meeting.isNone else standaloneScope s.people p v)

end List

section Meeting

variable {s : Assembly} {p : Principal}

theorem meetingRow_isSome {v : VoteRow} {id : Uuid} (hv : v ∈ s.votes) (hid : v.meeting = some id) :
    ∃ row, s.meetingRow id = some row := by
  obtain ⟨m, hm, rfl⟩ := s.meeting_exists v hv id hid
  refine Option.isSome_iff_exists.mp (List.find?_isSome.mpr ⟨m, hm, ?_⟩)
  exact decide_eq_true rfl

theorem meetingClause_iff {v : VoteRow} {id : Uuid} (hv : v ∈ s.votes) (hid : v.meeting = some id) :
    meetingClause s p v = true ↔ assertCanReadMeeting s p id = .ok () := by
  obtain ⟨row, hrow⟩ := meetingRow_isSome hv hid
  cases hvis : visibleGremiumIds s p with
  | none => simp [meetingClause, assertCanReadMeeting, meetingReadScope, hid, hrow, hvis]
  | some visible =>
    simp only [meetingClause, assertCanReadMeeting, meetingReadScope, hid, hrow, hvis, Option.any_some]
    split <;> simp_all

end Meeting

section Standalone

variable {t : People} {row : PrincipalRow} {scope : Option (List Permission)} {p : Principal} {v : VoteRow}

theorem adminBypass_has {perm : Permission} (h : adminBypass p perm = true) : p.has perm = true := by
  rw [adminBypass, Bool.and_eq_true] at h
  simp [Principal.has, h.1, h.2]

theorem mem_standaloneKeys {e : Text} : e ∈ standaloneKeys t p ↔
    voteGroupKey e ∈ p.groups ∨ ∃ g, e = Uuid.text g ∧ holdsGremiumVoteRole t g p = true := by
  have hgroups : e ∈ (p.groups.filter voteGroupPrefix.isPrefixOf).map (·.drop voteGroupPrefix.length) ↔
      voteGroupKey e ∈ p.groups := by
    constructor
    · intro h
      obtain ⟨g, hg, rfl⟩ := mem_map.mp h
      obtain ⟨hmem, hpre⟩ := mem_filter.mp hg
      obtain ⟨rest, rfl⟩ := isPrefixOf_iff_prefix.mp hpre
      simpa [voteGroupKey] using hmem
    · intro h
      refine mem_map.mpr ⟨voteGroupKey e, mem_filter.mpr ⟨h, ?_⟩, ?_⟩
      · exact isPrefixOf_iff_prefix.mpr (prefix_append _ _)
      · simp [voteGroupKey]
  have hheld : e ∈ (heldGremiumIds t p .voteManage ++ heldGremiumIds t p .sessionManage).map Uuid.text ↔
      ∃ g, e = Uuid.text g ∧ holdsGremiumVoteRole t g p = true := by
    simp only [mem_map, mem_append, holdsGremiumVoteRole, holdsGremiumPermission, Bool.or_eq_true,
      contains_iff_mem]
    exact ⟨fun ⟨g, hg, he⟩ => ⟨g, he.symm, hg⟩, fun ⟨g, he, hg⟩ => ⟨g, hg, he.symm⟩⟩
  rw [standaloneKeys, mem_append, hgroups, hheld]

/-- A vote key is the text of a Gremium id, so the parse of `_may_cast` never refuses it. -/
theorem mayCast_iff {e : Text} :
    mayCast (requestPrincipal t row scope) e = true ↔ voteGroupKey e ∈ (requestPrincipal t row scope).groups := by
  simp only [mayCast, Principal.inGroup, Bool.and_eq_true, contains_iff_mem, and_iff_right_iff_imp]
  intro h
  obtain ⟨g, htext⟩ := voteKey_canonical h
  rw [htext, Uuid.ofText_text, Option.isSome_some]

theorem readScope_standalone {s : Assembly} (hm : v.meeting = none) :
    readScope s p v = true ↔ globalRight p v = true ∨ v.eligibleGroup ∈ standaloneKeys s.people p := by
  unfold readScope globalRight standaloneScope
  by_cases hadmin : adminBypass p .applicationRead = true
  · have hread := adminBypass_has hadmin
    split <;> simp [hm, hadmin, hread]
  · by_cases hpoll : v.kind = .poll <;> simp [meetingClause, hm, hadmin, hpoll]

theorem assertCanRead_standalone {s : Assembly} (hm : v.meeting = none) :
    assertCanRead s v p = .ok () ↔ (globalRight p v = true ∨ mayCast p v.eligibleGroup = true) ∨
      ∃ g, Uuid.ofText v.eligibleGroup = some g ∧ holdsGremiumVoteRole s.people g p = true := by
  simp only [assertCanRead, hm]
  by_cases hor : (globalRight p v || mayCast p v.eligibleGroup) = true
  · rw [if_pos hor]
    simpa using .inl (Bool.or_eq_true _ _ ▸ hor)
  · rw [if_neg hor]
    rw [Bool.or_eq_true] at hor
    cases hparse : Uuid.ofText v.eligibleGroup with
    | none => simp [hor]
    | some g => by_cases hg : holdsGremiumVoteRole s.people g p = true <;> simp [hor, hg]

end Standalone

section Agreement

/-- The list misses the vote: only a role in the Gremium lets the principal read it,
and the column spells the id of the Gremium in another way than `str` does. -/
def Missed (s : Assembly) (p : Principal) (v : VoteRow) : Prop :=
  v.meeting = none ∧ globalRight p v = false ∧
    ∃ g, Uuid.ofText v.eligibleGroup = some g ∧ v.eligibleGroup ≠ Uuid.text g ∧
      holdsGremiumVoteRole s.people g p = true

/-- The list and the check agree on a vote unless the list misses it. -/
theorem readScope_agrees_iff (s : Assembly) (row : PrincipalRow) (scope : Option (List Permission)) (v : VoteRow)
    (hv : v ∈ s.votes) :
    (readScope s (requestPrincipal s.people row scope) v = true ↔
      assertCanRead s v (requestPrincipal s.people row scope) = .ok ()) ↔
    ¬ Missed s (requestPrincipal s.people row scope) v := by
  generalize hp : requestPrincipal s.people row scope = p
  cases hm : v.meeting with
  | some id =>
    have hlist : readScope s p v = meetingClause s p v := by simp [readScope, standaloneScope, hm]
    rw [hlist, meetingClause_iff hv hm]
    simp [assertCanRead, Missed, hm]
  | none =>
    rw [readScope_standalone hm, assertCanRead_standalone hm, mem_standaloneKeys, ← hp, mayCast_iff, hp]
    constructor
    · rintro hiff ⟨-, hglobal, g, hparse, hne, hrole⟩
      rcases hiff.mpr (.inr ⟨g, hparse, hrole⟩) with h | h | ⟨g', htext, -⟩
      · rw [hglobal] at h
        cases h
      · obtain ⟨g', htext⟩ := voteKey_canonical (hp ▸ h)
        rw [htext, Uuid.ofText_text, Option.some_inj] at hparse
        exact hne (hparse ▸ htext)
      · rw [htext, Uuid.ofText_text, Option.some_inj] at hparse
        exact hne (hparse ▸ htext)
    · intro hmissed
      constructor
      · rintro (h | h | ⟨g, htext, hrole⟩)
        · exact .inl (.inl h)
        · exact .inl (.inr h)
        · exact .inr ⟨g, htext ▸ Uuid.ofText_text g, hrole⟩
      · rintro ((h | h) | ⟨g, hparse, hrole⟩)
        · exact .inl h
        · exact .inr (.inl h)
        · by_cases hglobal : globalRight p v = true
          · exact .inl hglobal
          · refine .inr (.inr ⟨g, ?_, hrole⟩)
            by_contra hne
            exact hmissed ⟨hm, by simpa using hglobal, g, hparse, hne, hrole⟩

def boardId : Uuid := 0xabcdef00abcdef00abcdef00abcdef00

def chairRow : PrincipalRow := ⟨1, text "chair", []⟩

def chairPeople : People where
  principals := [chairRow]
  roles := []
  assignments := []
  groupMaps := []
  gremiumRoles := [⟨2, [.voteManage]⟩]
  memberships := [⟨1, boardId, 2⟩]
  substitutes := []

/-- One motion without a meeting, with the text of its Gremium as the column holds it. -/
def boardAssembly (eligibleGroup : Text) : Assembly where
  people := chairPeople
  meetings := []
  delegations := []
  votes := [⟨none, none, .motion, eligibleGroup⟩]
  meeting_exists := by simp

/-- A column in the spelling of `str`: the list holds the vote that the chair reads. -/
theorem boardVote_listed :
    let s := boardAssembly (Uuid.text boardId)
    let p := requestPrincipal s.people chairRow none
    let v : VoteRow := ⟨none, none, .motion, Uuid.text boardId⟩
    (readScope s p v = true ∧ assertCanRead s v p = .ok ()) ∧ ¬ Missed s p v := by
  intro s p v
  have hlist : readScope s p v = true := by decide +kernel
  have hread : assertCanRead s v p = .ok () := by decide +kernel
  exact ⟨⟨hlist, hread⟩,
    (readScope_agrees_iff s chairRow none v (mem_singleton.mpr rfl)).mp ⟨fun _ => hread, fun _ => hlist⟩⟩

/-- A column in capitals: the chair reads the vote and the list does not hold it. -/
theorem capitals_not_listed :
    ¬ ∀ (s : Assembly) (row : PrincipalRow) (scope : Option (List Permission)) (v : VoteRow), v ∈ s.votes →
      (readScope s (requestPrincipal s.people row scope) v = true ↔
        assertCanRead s v (requestPrincipal s.people row scope) = .ok ()) := by
  intro h
  have hiff := h (boardAssembly (text "ABCDEF00-ABCD-EF00-ABCD-EF00ABCDEF00")) chairRow none
    ⟨none, none, .motion, text "ABCDEF00-ABCD-EF00-ABCD-EF00ABCDEF00"⟩ (mem_singleton.mpr rfl)
  exact absurd (hiff.mpr (by decide +kernel)) (by decide +kernel)

end Agreement

end Auth
