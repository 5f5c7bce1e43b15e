import StupaWorkflow.PrivacyModel
import StupaWorkflow.Runs

/-!
What is left of a person. Nothing that is anonymized keeps an address, in every state that the
requests reach.
-/
namespace Privacy
open Py List

/-- What is anonymized has no address, and an applicant has an application. -/
structure Wf (d : Db) : Prop where
  ids : (d.principals.map Principal.id).Nodup
  below : ∀ p ∈ d.principals, p.id < d.next
  applicants : ∀ a ∈ d.applicants, a.anonymizedAt.isSome → a.email = none
  tickets : ∀ t ∈ d.tickets, t.anonymizedAt.isSome → t.reporterEmail = none
  owned : ∀ a ∈ d.applicants, a.applicationId ∈ d.applications.map Application.id

section Tickets

variable {env : Env} {now : Time} {d : Db} {k : Option Uuid} {email : Option Text}

def clearedTickets (now : Time) (ids : List Uuid) : List Ticket → List Ticket :=
  Table.modifyAll Ticket.id ids (Ticket.anonymized now)

theorem clearedTickets_modify (now : Time) (k : Uuid) (ids : List Uuid) (ts : List Ticket) :
    clearedTickets now ids (Table.modify Ticket.id k (Ticket.anonymized now) ts) = clearedTickets now (k :: ids) ts := by
  rw [clearedTickets, clearedTickets]
  refine Table.modifyAll_modify ?_ ?_ k ids ts
  · exact fun _ => rfl
  · exact fun _ => rfl

theorem anonymizeTickets_eq (now : Time) (ts : List Ticket) (d : Db) :
    ∃ s, ts.foldl (fun d t => d.anonymizeTicket now t) d =
      { d with tickets := clearedTickets now (ts.map Ticket.id) d.tickets, satellites := s } := by
  induction ts generalizing d with
  | nil =>
    refine ⟨d.satellites, ?_⟩
    rw [foldl_nil, map_nil, clearedTickets, Table.modifyAll_nil]
  | cons t ts ih =>
    obtain ⟨s, hs⟩ := ih (d.anonymizeTicket now t)
    refine ⟨s, ?_⟩
    rw [foldl_cons, hs, map_cons, ← clearedTickets_modify]
    rfl

theorem anonymizeReportedTickets_eq (env : Env) (now : Time) (d : Db) (k : Option Uuid) (email : Option Text) :
    ∃ s, d.anonymizeReportedTickets env now k email =
      { d with tickets := clearedTickets now ((d.reportedBy env k email).map Ticket.id) d.tickets, satellites := s } :=
  anonymizeTickets_eq now _ d

theorem anonymizeReportedTickets_frame :
    (d.anonymizeReportedTickets env now k email).principals = d.principals ∧
      (d.anonymizeReportedTickets env now k email).applicants = d.applicants ∧
      (d.anonymizeReportedTickets env now k email).applications = d.applications ∧
      (d.anonymizeReportedTickets env now k email).next = d.next := by
  obtain ⟨s, hs⟩ := anonymizeReportedTickets_eq env now d k email
  rw [hs]
  exact ⟨rfl, rfl, rfl, rfl⟩

theorem Wf.clearedTickets (h : Wf d) (now : Time) (ids : List Uuid) {s : Satellites} :
    Wf { d with tickets := Privacy.clearedTickets now ids d.tickets, satellites := s } :=
  ⟨h.ids, h.below, h.applicants, Table.forall_mem_modifyAll (fun t ht _ => h.tickets t ht) fun _ _ _ _ => rfl, h.owned⟩

theorem Wf.anonymizeReportedTickets (h : Wf d) : Wf (d.anonymizeReportedTickets env now k email) := by
  obtain ⟨s, hs⟩ := anonymizeReportedTickets_eq env now d k email
  rw [hs]
  exact h.clearedTickets now _

theorem no_reporter (h : Wf d) {e : Text} (he : e ≠ []) :
    ∀ t ∈ (d.anonymizeReportedTickets env now k (some e)).tickets, sameAddress env t.reporterEmail e = false := by
  obtain ⟨s, hs⟩ := anonymizeReportedTickets_eq env now d k (some e)
  rw [hs]
  refine Table.forall_mem_modifyAll (fun t ht hout => ?_) fun _ _ _ => rfl
  by_contra hsame
  rw [Bool.not_eq_false] at hsame
  -- a ticket with the address that was not read is anonymized, so it has none
  have hanonymous : t.anonymizedAt.isSome := by
    by_contra hopen
    refine hout (mem_map_of_mem ((mem_insertionSort _).mpr (mem_filter.mpr ⟨ht, ?_⟩)))
    simp [he, hsame, Option.not_isSome_iff_eq_none.mp hopen]
  rw [h.tickets t ht hanonymous] at hsame
  cases hsame

theorem Wf.eraseSenderBlocks (h : Wf d) : Wf (d.eraseSenderBlocks env k email) :=
  ⟨h.ids, h.below, h.applicants, h.tickets, h.owned⟩

theorem Wf.satellites (h : Wf d) (s : Satellites) : Wf { d with satellites := s } :=
  ⟨h.ids, h.below, h.applicants, h.tickets, h.owned⟩

end Tickets

section Applicants

variable {env : Env} {now : Time} {d d' : Db} {k : Uuid}

theorem getApplication_of_mem (hk : k ∈ d.applications.map Application.id) : ∃ app, d.getApplication k = .ok app := by
  obtain ⟨app, happ, hid⟩ := mem_map.mp hk
  cases hfind : d.applications.find? fun a => a.id = k with
  | none => exact absurd (decide_eq_true hid) (List.find?_eq_none.mp hfind app happ)
  | some found =>
    refine ⟨found, ?_⟩
    rw [Db.getApplication, hfind]
    rfl

theorem mem_of_getApplication {app : Application} (h : d.getApplication k = .ok app) :
    k ∈ d.applications.map Application.id := mem_map.mpr ⟨app, Table.of_find (foundOr_ok h)⟩

def clearedApplicants (now : Time) (ids : List Uuid) : List Applicant → List Applicant :=
  Table.modifyAll Applicant.applicationId ids (Applicant.blank now)

theorem clearedApplicants_modify (now : Time) (k : Uuid) (ids : List Uuid) (rows : List Applicant) :
    clearedApplicants now ids (Table.modify Applicant.applicationId k (Applicant.blank now) rows) =
      clearedApplicants now (k :: ids) rows := by
  rw [clearedApplicants, clearedApplicants]
  refine Table.modifyAll_modify ?_ ?_ k ids rows
  · exact fun _ => rfl
  · exact fun _ => rfl

variable (env now) in
theorem anonymize_eq (hk : k ∈ d.applications.map Application.id) : ∃ apps s,
    apps.map Application.id = d.applications.map Application.id ∧
      anonymize env now k d = .ok { d with
        applicants := Table.modify Applicant.applicationId k (Applicant.blank now) d.applicants
        applications := apps, satellites := s } := by
  obtain ⟨app, happ⟩ := getApplication_of_mem hk
  have hids : ∀ f : Application → Application, (∀ a, (f a).id = a.id) →
      (Table.modify Application.id k f d.applications).map Application.id = d.applications.map Application.id :=
    fun f hf => Table.modify_keys hf d.applications
  refine ⟨_, d.satellites.anonymizeApplication k (env.piiKeys app),
    hids (fun a => { a with content := a.content.blank (env.piiKeys app) }) fun _ => rfl, ?_⟩
  rw [anonymize, happ]
  rfl

variable (env now) in
theorem anonymizeAll_eq (ids : List Uuid) (d : Db) (hids : ∀ k ∈ ids, k ∈ d.applications.map Application.id) : ∃ apps s,
    apps.map Application.id = d.applications.map Application.id ∧
      ids.foldlM (fun d k => anonymize env now k d) d = .ok { d with
        applicants := clearedApplicants now ids d.applicants, applications := apps, satellites := s } := by
  induction ids generalizing d with
  | nil =>
    refine ⟨d.applications, d.satellites, rfl, ?_⟩
    rw [clearedApplicants, Table.modifyAll_nil]
    rfl
  | cons k ids ih =>
    obtain ⟨apps, s, happs, hone⟩ := anonymize_eq env now (hids k mem_cons_self)
    obtain ⟨apps', s', happs', hrest⟩ := ih
      { d with
        applicants := Table.modify Applicant.applicationId k (Applicant.blank now) d.applicants
        applications := apps, satellites := s }
      fun j hj => happs ▸ hids j (mem_cons_of_mem k hj)
    refine ⟨apps', s', happs'.trans happs, ?_⟩
    rw [foldlM_cons, hone]
    rw [← clearedApplicants_modify]
    exact hrest

theorem Wf.clearedApplicants (h : Wf d) (now : Time) (ids : List Uuid) {apps : List Application} {s : Satellites}
    (happs : apps.map Application.id = d.applications.map Application.id) :
    Wf { d with
      applicants := Privacy.clearedApplicants now ids d.applicants, applications := apps, satellites := s } where
  ids := h.ids
  below := h.below
  applicants := Table.forall_mem_modifyAll (fun a ha _ => h.applicants a ha) fun _ _ _ _ => rfl
  tickets := h.tickets
  owned := by
    refine Table.forall_mem_modifyAll (fun a ha _ => ?_) fun a ha _ => ?_
    · exact happs ▸ h.owned a ha
    · exact happs ▸ h.owned a ha

theorem Wf.anonymize (h : Wf d) (hop : anonymize env now k d = .ok d') : Wf d' := by
  obtain ⟨app, happ, _⟩ := bind_ok.mp hop
  obtain ⟨apps, s, happs, hone⟩ := anonymize_eq env now (mem_of_getApplication happ)
  rw [hop, Except.ok.injEq] at hone
  have hwf := h.clearedApplicants now [k] (s := s) happs
  rw [← clearedApplicants_modify, Privacy.clearedApplicants, Table.modifyAll_nil] at hwf
  exact hone ▸ hwf

variable (env now) in
/-- After the erasure of an address no applicant has it, no ticket, and no block. -/
theorem eraseEmail_eq (h : Wf d) (e : Text) : ∃ d', eraseEmail env now e d = .ok d' ∧ Wf d' ∧ d'.principals = d.principals ∧
    (∀ a ∈ d'.applicants, sameAddress env a.email e = false) ∧
      (e ≠ [] → (∀ t ∈ d'.tickets, sameAddress env t.reporterEmail e = false) ∧
        ∀ b ∈ d'.blocks, b.email ≠ some (normalizeEmail env e)) := by
  obtain ⟨apps, s, happs, hall⟩ := anonymizeAll_eq env now
    ((d.applicants.filter fun a => sameAddress env a.email e && a.anonymizedAt.isNone).map fun a => a.applicationId) d
    (forall_mem_map.mpr fun a ha => h.owned a (mem_filter.mp ha).1)
  have hwf := h.clearedApplicants now
    ((d.applicants.filter fun a => sameAddress env a.email e && a.anonymizedAt.isNone).map fun a => a.applicationId)
    (s := s) happs
  refine ⟨_, bind_ok.mpr ⟨_, hall, rfl⟩, hwf.anonymizeReportedTickets.eraseSenderBlocks, ?_, ?_, fun he => ⟨?_, ?_⟩⟩
  · exact anonymizeReportedTickets_frame.1
  · rw [Db.eraseSenderBlocks, anonymizeReportedTickets_frame.2.1]
    refine Table.forall_mem_modifyAll (fun a ha hout => ?_) fun _ _ _ => rfl
    by_contra hsame
    rw [Bool.not_eq_false] at hsame
    have hanonymous : a.anonymizedAt.isSome := by
      by_contra hopen
      refine hout (mem_map_of_mem (mem_filter.mpr ⟨ha, ?_⟩))
      simp [hsame, Option.not_isSome_iff_eq_none.mp hopen]
    rw [h.applicants a ha hanonymous] at hsame
    cases hsame
  · exact no_reporter hwf he
  · intro b hb hemail
    have hkept := (mem_filter.mp hb).2
    simp [he, hemail] at hkept

end Applicants

end Privacy
