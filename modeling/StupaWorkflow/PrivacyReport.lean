import StupaWorkflow.PrivacyErasure

/-!
The access report after an erasure. Every request keeps what is anonymized without an address, and
the erasure of an account touches nothing else that the report finds by the address.
-/
namespace Privacy
open Py List

section Requests

variable {env : Env} {now : Time} {d d' : Db} {k : Uuid}
variable {email : Option Text}

theorem Wf.principals (h : Wf d) {rows : List Principal} (hrows : rows.map Principal.id = d.principals.map Principal.id)
    {s : Satellites} : Wf { d with principals := rows, satellites := s } where
  ids := hrows ▸ h.ids
  below := by
    intro p hp
    obtain ⟨q, hq, hid⟩ := mem_map.mp (hrows ▸ mem_map_of_mem (f := Principal.id) hp)
    exact hid ▸ h.below q hq
  applicants := h.applicants
  tickets := h.tickets
  owned := h.owned

theorem Wf.tickets_of (h : Wf d) {ts : List Ticket} (hts : ∀ t ∈ ts, t.anonymizedAt.isSome → t.reporterEmail = none)
    {bs : List TicketSenderBlock} {s : Satellites} {n : Uuid} (hn : d.next ≤ n) :
    Wf { d with tickets := ts, blocks := bs, satellites := s, next := n } :=
  ⟨h.ids, fun p hp => (h.below p hp).trans_le hn, h.applicants, hts, h.owned⟩

theorem Wf.newPrincipal (h : Wf d) (p : Principal) (hp : p.id = d.next) :
    Wf { d with principals := d.principals ++ [p], next := d.next + 1 } where
  ids := by
    have hfresh : p.id ∉ d.principals.map Principal.id := by
      intro hmem
      obtain ⟨q, hq, hid⟩ := mem_map.mp hmem
      exact absurd (hid.trans hp) (h.below q hq).ne
    rw [map_append, map_singleton]
    exact List.Nodup.append h.ids (nodup_singleton _) (disjoint_singleton.mpr hfresh)
  below := by
    intro q hq
    rcases mem_append.mp hq with hold | hnew
    · exact (h.below q hold).trans (Nat.lt_succ_self _)
    · rw [mem_singleton.mp hnew, hp]
      exact Nat.lt_succ_self _
  applicants := h.applicants
  tickets := h.tickets
  owned := h.owned

theorem Wf.login {sub : Text} {name : Option Text} {groups : List Text} (h : Wf d)
    (hop : Privacy.login d sub email name groups now = .ok d') : Wf d' := by
  rw [Privacy.login] at hop
  split at hop
  next => exact Except.ok.inj hop ▸ h.newPrincipal _ rfl
  next p _ =>
    obtain ⟨_, _, hd⟩ := bind_ok.mp hop
    refine Except.ok.inj hd ▸ h.principals (Table.modify_keys ?_ d.principals) (s := d.satellites)
    exact fun _ => rfl

theorem Wf.setActive {active : Bool} {actor : Text} (h : Wf d) (hop : Privacy.setActive d k active actor = .ok d') : Wf d' := by
  obtain ⟨p, _, hop⟩ := bind_ok.mp hop
  obtain ⟨_, _, hop⟩ := bind_ok.mp hop
  obtain ⟨_, _, hd⟩ := bind_ok.mp hop
  refine Except.ok.inj hd ▸ h.principals (Table.modify_keys ?_ d.principals)
  exact fun _ => rfl

theorem mergedRow_id (source target : Uuid) (p : Principal) : (p.mergedRow source target).id = p.id := by
  rw [Principal.mergedRow]
  split <;> rfl

theorem Wf.merge {source target : Uuid} {actor : Text} {erased : Bool} {refused : Option Problem} (h : Wf d)
    (hop : Privacy.merge d source target actor erased refused = .ok d') : Wf d' := by
  obtain ⟨_, _, hop⟩ := bind_ok.mp hop
  obtain ⟨s, _, hop⟩ := bind_ok.mp hop
  obtain ⟨t, _, hop⟩ := bind_ok.mp hop
  -- the other checks before the writes
  iterate 6 obtain ⟨_, _, hop⟩ := bind_ok.mp hop
  have hids : (d.principals.map (Principal.mergedRow s.id t.id)).map Principal.id = d.principals.map Principal.id := by
    rw [map_map]
    exact map_congr_left fun p _ => mergedRow_id s.id t.id p
  rw [← Except.ok.inj hop]
  refine (h.principals hids (s := d.satellites.merged s t)).tickets_of ?_ le_rfl
  exact forall_mem_map.mpr fun x hx => h.tickets x hx

theorem Wf.submit (h : Wf d) (email : Text) (name : Option Text) (content : ApplicationContent) (actor : Option Text) :
    Wf (Privacy.submit d email name content actor) where
  ids := h.ids
  below := fun p hp => (h.below p hp).trans (Nat.lt_succ_self _)
  applicants := by
    intro a ha
    rcases mem_append.mp ha with hold | hnew
    · exact h.applicants a hold
    · rw [mem_singleton.mp hnew]
      exact fun hnever => absurd hnever (by simp)
  tickets := h.tickets
  owned := by
    intro a ha
    rw [Privacy.submit, map_append, map_singleton]
    rcases mem_append.mp ha with hold | hnew
    · exact mem_append_left _ (h.owned a hold)
    · rw [mem_singleton.mp hnew]
      exact mem_append_right _ mem_cons_self

theorem Wf.deleteApplication (h : Wf d) (k : Uuid) : Wf (Privacy.deleteApplication d k) where
  ids := h.ids
  below := h.below
  applicants := fun a ha => h.applicants a (mem_filter.mp ha).1
  tickets := h.tickets
  owned := by
    intro a ha
    obtain ⟨hmem, hk⟩ := mem_filter.mp ha
    obtain ⟨app, happ, hid⟩ := mem_map.mp (h.owned a hmem)
    exact mem_map.mpr ⟨app, mem_filter.mpr ⟨happ, by simpa [hid] using hk⟩, hid⟩

theorem Wf.report {reporterId : Option Uuid} {number : ℕ} {content : TicketContent} {context : List (Text × Text)} (h : Wf d)
    (hop : Privacy.report env d reporterId email number content context now = .ok d') : Wf d' := by
  rw [Privacy.report] at hop
  split at hop
  next b _ =>
    exact Except.ok.inj hop ▸ h.tickets_of h.tickets (s := d.satellites) le_rfl
  next =>
    obtain ⟨_, _, hd⟩ := bind_ok.mp hop
    rw [← Except.ok.inj hd]
    refine h.tickets_of (fun t ht => ?_) (Nat.le_succ _)
    rcases mem_append.mp ht with hold | hnew
    · exact h.tickets t hold
    · rw [mem_singleton.mp hnew]
      exact fun hnever => absurd hnever (by simp)

theorem Wf.anonymizeTicket (h : Wf d) (hop : Privacy.anonymizeTicket now k d = .ok d') : Wf d' := by
  obtain ⟨t, _, hd⟩ := bind_ok.mp hop
  have hwf := h.clearedTickets now [t.id] (s := d.satellites.withoutReporter t)
  rw [← clearedTickets_modify, Privacy.clearedTickets, Table.modifyAll_nil] at hwf
  exact Except.ok.inj hd ▸ hwf

theorem Wf.blockSender {me : Option Uuid} (h : Wf d) (hop : Privacy.blockSender env d k me now = .ok d') : Wf d' := by
  obtain ⟨t, _, hop⟩ := bind_ok.mp hop
  obtain ⟨target, _, hop⟩ := bind_ok.mp hop
  obtain ⟨_, _, hd⟩ := bind_ok.mp hop
  exact Except.ok.inj hd ▸ h.tickets_of h.tickets (s := d.satellites) (Nat.le_succ _)

theorem Wf.unblockSender (h : Wf d) (hop : Privacy.unblockSender env d k = .ok d') : Wf d' := by
  obtain ⟨t, _, hop⟩ := bind_ok.mp hop
  obtain ⟨target, _, hd⟩ := bind_ok.mp hop
  exact Except.ok.inj hd ▸ h.tickets_of h.tickets (s := d.satellites) le_rfl

theorem Wf.eraseApplicant (h : Wf d) (hop : Privacy.eraseApplicant env now k email d = .ok d') : Wf d' := by
  obtain ⟨d₁, hone, hd⟩ := bind_ok.mp hop
  exact Except.ok.inj hd ▸ (h.anonymize hone).anonymizeReportedTickets.eraseSenderBlocks

theorem Wf.eraseEmail {e : Text} (h : Wf d) (hop : Privacy.eraseEmail env now e d = .ok d') : Wf d' := by
  obtain ⟨d₁, hone, hwf, _⟩ := eraseEmail_eq env now h e
  rw [hop, Except.ok.injEq] at hone
  exact hone ▸ hwf

end Requests

section Accounts

variable {env : Env} {now : Time} {d d' : Db} {k : Uuid} {actor : Text}

variable (env now) in
theorem erase_ok {p : Principal} (h : Wf d) (hp : d.getPrincipal k = .ok p) (hself : p.sub ≠ actor)
    (hlive : p.mergedInto = none) : ∃ d', erase env now k actor d = .ok d' ∧ Wf d' ∧
      d'.principals = Table.modify Principal.id k Principal.erased d.principals := by
  have hids : (Table.modify Principal.id k Principal.erased d.principals).map Principal.id =
      d.principals.map Principal.id := by
    refine Table.modify_keys ?_ d.principals
    exact fun _ => rfl
  have hwf := h.principals hids (s := d.satellites.withoutExcuses k)
  have hchecked : erase env now k actor d = .ok _ :=
    bind_ok.mpr ⟨p, hp, bind_ok.mpr ⟨(), raiseUnless_ok.mpr (decide_eq_true hself),
      bind_ok.mpr ⟨(), raiseUnless_ok.mpr (Option.isNone_iff_eq_none.mpr hlive), rfl⟩⟩⟩
  exact ⟨_, hchecked, hwf.anonymizeReportedTickets.eraseSenderBlocks.satellites _, anonymizeReportedTickets_frame.1⟩

theorem Wf.erase (h : Wf d) (hop : Privacy.erase env now k actor d = .ok d') : Wf d' := by
  obtain ⟨p, hp, hrest⟩ := bind_ok.mp hop
  obtain ⟨_, hself, hrest⟩ := bind_ok.mp hrest
  obtain ⟨_, hlive, _⟩ := bind_ok.mp hrest
  obtain ⟨d₁, hone, hwf, _⟩ := erase_ok env now h hp
    (of_decide_eq_true (raiseUnless_ok.mp hself)) (Option.isNone_iff_eq_none.mp (raiseUnless_ok.mp hlive))
  rw [hop, Except.ok.injEq] at hone
  exact hone ▸ hwf

theorem Wf.handle {op : Request} (h : Wf d) (hop : op.handle env d = .ok d') : Wf d' := by
  cases op with
  | login sub email name groups now => exact h.login hop
  | setActive k active actor => exact h.setActive hop
  | merge source target actor erased refused => exact h.merge hop
  | submit email name content actor => exact Except.ok.inj hop ▸ h.submit email name content actor
  | editApplication k content =>
    have hids : (Table.modify Application.id k (fun a => { a with content := content }) d.applications).map
        Application.id = d.applications.map Application.id := by
      refine Table.modify_keys ?_ d.applications
      exact fun _ => rfl
    exact Except.ok.inj hop ▸ ⟨h.ids, h.below, h.applicants, h.tickets, fun a ha => hids ▸ h.owned a ha⟩
  | deleteApplication k => exact Except.ok.inj hop ▸ h.deleteApplication k
  | anonymize k now => exact h.anonymize hop
  | report reporterId email number content context now => exact h.report hop
  | editTicket k content =>
    rw [← Except.ok.inj hop]
    refine h.tickets_of (forall_mem_map.mpr fun t ht => ?_) le_rfl
    split
    next => exact h.tickets t ht
    next => exact h.tickets t ht
  | anonymizeTicket k now => exact h.anonymizeTicket hop
  | blockSender ticket me now => exact h.blockSender hop
  | unblockSender ticket => exact h.unblockSender hop
  | deleteBlock k => exact Except.ok.inj hop ▸ h.tickets_of h.tickets (s := d.satellites) le_rfl
  | erase k actor now => exact h.erase hop
  | eraseApplicant k email now => exact h.eraseApplicant hop
  | eraseEmail email now => exact h.eraseEmail hop
  | others satellites => exact Except.ok.inj hop ▸ h.satellites satellites

theorem wf_empty : Wf {} := by
  constructor <;> simp

theorem run_wf {ops : List (Env × Request)} (hrun : Runs.run step {} ops = some d) : Wf d := by
  refine Runs.run_keeps (fun {op s s'} h hop => ?_) wf_empty hrun
  exact h.handle (toOption_some.mp hop)

end Accounts

section Erasures

variable {env : Env} {d : Db}

structure Erasure where
  account : Uuid
  actor : Text
  now : Time
  deriving DecidableEq

def eraseAll (env : Env) (erasures : List Erasure) (d : Db) : Except Problem Db :=
  erasures.foldlM (fun d x => erase env x.now x.account x.actor d) d

def Db.Erasable (d : Db) (x : Erasure) : Prop :=
  ∃ p ∈ d.principals, p.id = x.account ∧ p.mergedInto = none ∧ p.sub ≠ x.actor

theorem Db.Erasable.modify {x : Erasure} {k : Uuid} {d' : Db} (hx : d.Erasable x)
    (hd' : d'.principals = Table.modify Principal.id k Principal.erased d.principals) : d'.Erasable x := by
  obtain ⟨p, hp, hid, hlive, hactor⟩ := hx
  rw [Db.Erasable, hd']
  refine ⟨if p.id = k then p.erased else p, mem_map_of_mem hp, ?_⟩
  split
  next => exact ⟨hid, hlive, hactor⟩
  next => exact ⟨hid, hlive, hactor⟩

variable (env) in
theorem eraseAll_eq (erasures : List Erasure) (h : Wf d) (hall : ∀ x ∈ erasures, d.Erasable x) :
    ∃ d', eraseAll env erasures d = .ok d' ∧ Wf d' ∧
      d'.principals = Table.modifyAll Principal.id (erasures.map Erasure.account) Principal.erased d.principals := by
  induction erasures generalizing d with
  | nil =>
    refine ⟨d, rfl, h, ?_⟩
    rw [map_nil, Table.modifyAll_nil]
  | cons x erasures ih =>
    obtain ⟨p, hp, hid, hlive, hactor⟩ := hall x mem_cons_self
    have hget : d.getPrincipal x.account = .ok p := by
      rw [Db.getPrincipal, Table.find_of_mem h.ids hp hid]
      rfl
    obtain ⟨d₁, hone, hwf, hrows⟩ := erase_ok env x.now h hget hactor hlive
    obtain ⟨d₂, hrest, hwf₂, hrows₂⟩ := ih hwf fun y hy => (hall y (mem_cons_of_mem x hy)).modify hrows
    refine ⟨d₂, bind_ok.mpr ⟨d₁, hone, hrest⟩, hwf₂, ?_⟩
    rw [hrows₂, hrows, map_cons]
    refine Table.modifyAll_modify ?_ ?_ x.account _ d.principals
    · exact fun _ => rfl
    · exact fun _ => rfl

end Erasures

section Emptied

variable {env : Env} {d : Db} {e : Text}

theorem accountOf_none : d.accountOf env e = none ↔ ∀ p ∈ d.principals, sameAddress env p.email e = false := by
  rw [Db.accountOf, List.head?_eq_none_iff, ← length_eq_zero_iff, length_insertionSort, length_eq_zero_iff,
    filter_eq_nil_iff]
  refine forall₂_congr fun p _ => ?_
  rw [Bool.not_eq_true]

@[simp] theorem orderBy_nil {α : Type} (key : α → List ℕ) : orderBy key [] = [] := rfl

theorem any_contains_nil (k : Option Uuid) : k.any ([] : List Uuid).contains = false := by
  cases k <;> rfl

theorem filesOf_nil (s : Satellites) (ownerId : Owner → Option Uuid) : s.filesOf ownerId [] = [] := by
  have hrows : (s.attachments.filterMap fun a =>
      ((ownerId a.owner).filter ([] : List Uuid).contains).map fun k => (k, a)) = [] := by
    refine filterMap_eq_nil_iff.mpr fun a _ => ?_
    cases ownerId a.owner <;> rfl
  rw [Satellites.filesOf, hrows, orderBy_nil]

/-- Without an applicant, a ticket and a block of the address the report is about its
account only. -/
theorem collect_empty_iff (ha : ∀ a ∈ d.applicants, sameAddress env a.email e = false)
    (ht : ∀ t ∈ d.tickets, sameAddress env t.reporterEmail e = false)
    (hb : ∀ b ∈ d.blocks, b.email ≠ some (normalizeEmail env e)) :
    (collect env d e).Empty ↔ ∀ p ∈ d.principals, sameAddress env p.email e = false := by
  constructor
  · intro hempty
    exact accountOf_none.mp (Option.map_eq_none_iff.mp hempty.principal)
  · intro hnone
    have haccount := accountOf_none.mpr hnone
    have happlicants : (d.applicants.filter fun a => sameAddress env a.email e) = [] :=
      filter_eq_nil_iff.mpr fun a hmem => by simp [ha a hmem]
    have htickets : d.reportTickets env none e = [] := by
      have hrows : (d.tickets.filter fun t => sameAddress env t.reporterEmail e ||
          ((none : Option Uuid).isSome && t.reporterPrincipalId = none)) = [] :=
        filter_eq_nil_iff.mpr fun t hmem => by simp [ht t hmem]
      rw [Db.reportTickets, hrows, orderBy_nil]
    have hblocks : d.senderBlocksOf env none e = [] := by
      have hrows : (d.blocks.filter fun b => b.email = some (normalizeEmail env e) ||
          ((none : Option Uuid).isSome && b.principalId = none)) = [] :=
        filter_eq_nil_iff.mpr fun b hmem => by simp [hb b hmem]
      rw [Db.senderBlocksOf, hrows, orderBy_nil]
    have hreport : collect env d e = ⟨e, [], [], [], [], [], [], [], [], [], [], none⟩ := by
      simp [collect, haccount, happlicants, htickets, hblocks, Db.reportApplications, Db.reportVersions, Db.reportComments,
        Db.reportApplicationFiles, Db.reportTicketFiles, filesOf_nil, Satellites.exportCards, Satellites.exportComments,
        any_contains_nil]
    rw [hreport]
    exact ⟨rfl, rfl, rfl, rfl, rfl, rfl, rfl, rfl, rfl, rfl, rfl⟩

/-- The erased accounts have no address; a merged one keeps its own. -/
theorem erased_address (hids : (d.principals.map Principal.id).Nodup) {accounts : List Uuid}
    (hlive : ∀ k ∈ accounts, ∃ p ∈ d.principals, p.id = k ∧ p.mergedInto = none)
    (hcover : ∀ p ∈ d.principals, p.mergedInto = none → sameAddress env p.email e = true → p.id ∈ accounts) :
    (∀ p ∈ Table.modifyAll Principal.id accounts Principal.erased d.principals, sameAddress env p.email e = false) ↔
      ∀ p ∈ d.principals, p.mergedInto.isSome → sameAddress env p.email e = false := by
  constructor
  · intro hnone p hp hmerged
    have hout : p.id ∉ accounts := by
      intro hmem
      obtain ⟨q, hq, hid, hlive⟩ := hlive p.id hmem
      rw [inj_on_of_nodup_map hids hq hp hid] at hlive
      simp [hlive] at hmerged
    exact hnone p (mem_map.mpr ⟨p, hp, if_neg hout⟩)
  · intro hmerged
    refine Table.forall_mem_modifyAll (fun p hp hout => ?_) fun _ _ _ => rfl
    cases hinto : p.mergedInto with
    | some k => exact hmerged p hp (by rw [hinto, Option.isSome_some])
    | none =>
      by_contra hsame
      exact hout (hcover p hp hinto (Bool.not_eq_false _ ▸ hsame))

/-- The erasure of the accounts of an address that are not merged, and then of the
address, empties the access report exactly when no merged account has the address. -/
theorem report_emptied (env : Env) {ops : List (Env × Request)} {d : Db} (hrun : Runs.run step {} ops = some d) {e : Text}
    (he : e ≠ []) (erasures : List Erasure) (now : Time)
    (hown : ∀ x ∈ erasures, ∃ p ∈ d.principals,
      p.id = x.account ∧ p.mergedInto = none ∧ sameAddress env p.email e = true ∧ p.sub ≠ x.actor)
    (hcover : ∀ p ∈ d.principals, p.mergedInto = none → sameAddress env p.email e = true →
      p.id ∈ erasures.map Erasure.account) :
    ∃ d₁ d₂, eraseAll env erasures d = .ok d₁ ∧ eraseEmail env now e d₁ = .ok d₂ ∧
      ((collect env d₂ e).Empty ↔ ∀ p ∈ d.principals, p.mergedInto.isSome → sameAddress env p.email e = false) := by
  have hwf := run_wf hrun
  obtain ⟨d₁, hall, hwf₁, hrows⟩ := eraseAll_eq env erasures hwf fun x hx => by
    obtain ⟨p, hp, hid, hlive, _, hactor⟩ := hown x hx
    exact ⟨p, hp, hid, hlive, hactor⟩
  obtain ⟨d₂, hemail, _, hsame, happlicants, hrest⟩ := eraseEmail_eq env now hwf₁ e
  obtain ⟨htickets, hblocks⟩ := hrest he
  refine ⟨d₁, d₂, hall, hemail, ?_⟩
  rw [collect_empty_iff happlicants htickets hblocks, hsame, hrows]
  refine erased_address hwf.ids (forall_mem_map.mpr fun x hx => ?_) hcover
  obtain ⟨p, hp, hid, hlive, _⟩ := hown x hx
  exact ⟨p, hp, hid, hlive⟩

def asciiLower (s : Text) : Text := s.map fun c => if 65 ≤ c ∧ c ≤ 90 then c + 32 else c

def asciiEnv : Env := { fold := asciiLower, lower := asciiLower, piiKeys := fun _ => [text "name"] }

def annaContent : ApplicationContent :=
  { typeName := text "Antrag", status := text "Neu", createdAt := 1, data := [(text "name", text "Anna")] }

def annaOps : List (Env × Request) :=
  [(asciiEnv, .login (text "anna") (some (text "Anna@x.org")) (some (text "Anna")) [] 1),
    (asciiEnv, .report (some 0) none 1 ⟨text "Printer", text "It is broken.", text "open", 2⟩ [] 2),
    (asciiEnv, .submit (text "anna@x.org") (some (text "Anna")) annaContent none)]

theorem anna_emptied : ∃ d d₁ d₂, Runs.run step {} annaOps = some d ∧ eraseAll asciiEnv [⟨0, text "admin", 3⟩] d = .ok d₁ ∧
    eraseEmail asciiEnv 4 (text "anna@x.org") d₁ = .ok d₂ ∧ (collect asciiEnv d₂ (text "anna@x.org")).Empty := by
  have hrun : ∃ d, Runs.run step {} annaOps = some d ∧ d.principals =
      [{ id := 0, sub := text "anna", email := some (text "Anna@x.org"), displayName := some (text "Anna")
         oidcGroups := some [], lastLogin := some 1 }] := ⟨_, by rfl, by rfl⟩
  obtain ⟨d, hrun, hrows⟩ := hrun
  obtain ⟨d₁, d₂, hall, hemail, hempty⟩ := report_emptied asciiEnv hrun (e := text "anna@x.org") (by decide)
    [⟨0, text "admin", 3⟩] 4 (by rw [hrows]; decide +kernel) (by rw [hrows]; decide +kernel)
  exact ⟨d, d₁, d₂, hrun, hall, hemail, hempty.mpr (by rw [hrows]; decide +kernel)⟩

def mergedOps : List (Env × Request) :=
  [(asciiEnv, .login (text "old") (some (text "anna@x.org")) (some (text "Anna")) [] 1),
    (asciiEnv, .login (text "new") (some (text "anna@x.org")) (some (text "Anna")) [] 2),
    (asciiEnv, .merge 0 1 (text "admin") false none)]

/-- The only account that is not merged is erased, and then the address; the report still
has the merged account with its address and its name. -/
theorem merged_reported : ∃ d d₁ d₂, Runs.run step {} mergedOps = some d ∧
    (∀ p ∈ d.principals, p.mergedInto = none → sameAddress asciiEnv p.email (text "anna@x.org") = true → p.id = 1) ∧
    erase asciiEnv 3 1 (text "admin") d = .ok d₁ ∧ eraseEmail asciiEnv 4 (text "anna@x.org") d₁ = .ok d₂ ∧
    (collect asciiEnv d₂ (text "anna@x.org")).principal =
      some ⟨text "old", some (text "anna@x.org"), some (text "Anna"), false, some 1⟩ ∧
    ¬(collect asciiEnv d₂ (text "anna@x.org")).Empty := by
  have hreport : ∃ d d₁ d₂, Runs.run step {} mergedOps = some d ∧
      (∀ p ∈ d.principals, p.mergedInto = none → sameAddress asciiEnv p.email (text "anna@x.org") = true → p.id = 1) ∧
      erase asciiEnv 3 1 (text "admin") d = .ok d₁ ∧ eraseEmail asciiEnv 4 (text "anna@x.org") d₁ = .ok d₂ ∧
      (collect asciiEnv d₂ (text "anna@x.org")).principal =
        some ⟨text "old", some (text "anna@x.org"), some (text "Anna"), false, some 1⟩ :=
    ⟨_, _, _, by rfl, by decide +kernel, by rfl, by rfl, by decide +kernel⟩
  obtain ⟨d, d₁, d₂, hrun, hcover, hone, hemail, hprincipal⟩ := hreport
  refine ⟨d, d₁, d₂, hrun, hcover, hone, hemail, hprincipal, fun hempty => ?_⟩
  rw [hempty.principal] at hprincipal
  cases hprincipal

end Emptied

end Privacy
