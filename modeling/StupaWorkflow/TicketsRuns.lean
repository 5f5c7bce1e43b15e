import StupaWorkflow.TicketsModel

/-!
What the interleavings of tickets keep. The personal data of an anonymized ticket stay away in
every run, because the job and a note with files lock the ticket.
-/
namespace Tickets
open Py StorageKeys ReadCommitted List

section Rows

variable {d : Db} {t u : Uuid} {f : Ticket → Ticket}

theorem ticket_some {row : Ticket} (h : d.ticket t = some row) : row ∈ d.tickets ∧ row.id = t := Table.of_find h

theorem ticket_setTicket (hf : ∀ row, row.id = t → (f row).id = t) (u : Uuid) :
    (d.setTicket t f).ticket u = if u = t then (d.ticket t).map f else d.ticket u := Table.find_modify hf u

theorem note_none (h : d.note u = none) {n : Note} (hn : n ∈ d.notes) : n.id ≠ u := by
  intro hid
  exact absurd (find?_eq_none.mp h n hn) (by simp [hid])

theorem ofTicket_iff {a : Files.Attachment} : d.ofTicket t a = true ↔
    a.ticketId = some t ∨ ∃ n ∈ d.notes, n.ticket = t ∧ a.ticketNoteId = some n.id := by
  simp [Db.ofTicket]

def SamePersonal (row row' : Ticket) : Prop :=
  row'.id = row.id ∧ row'.reporter = row.reporter ∧ row'.reporterEmail = row.reporterEmail ∧
    row'.context = row.context ∧ row'.anonymizedAt = row.anonymizedAt

theorem patchTicket_personal (row : Ticket) (p : Patch) (duplicate : Option Ticket) (cur : Ticket) :
    SamePersonal cur (patchTicket row p duplicate cur) := by
  unfold patchTicket
  cases newStatus row p duplicate <;> cases newAssignee row p <;> cases newKind row p <;>
    simp [setStatus, SamePersonal]

theorem ticket_before {e : Db} (htickets : e.tickets = (d.setTicket t f).tickets) (hf : ∀ row, SamePersonal row (f row))
    {row : Ticket} (hrow : e.ticket u = some row) : ∃ row', d.ticket u = some row' ∧ SamePersonal row' row := by
  have hticket : e.ticket u = if u = t then (d.ticket t).map f else d.ticket u := by
    rw [Db.ticket, htickets]
    exact ticket_setTicket (fun row hrow => (hf row).1.trans hrow) u
  rw [hticket] at hrow
  split at hrow
  next hu =>
    obtain ⟨row', hrow', rfl⟩ := Option.map_eq_some_iff.mp hrow
    exact ⟨row', hu ▸ hrow', hf row'⟩
  next => exact ⟨row, hrow, rfl, rfl, rfl, rfl, rfl⟩

end Rows

section Contract

structure Cleaned (d : Db) (row : Ticket) : Prop where
  reporter : row.reporter = none
  email : row.reporterEmail = none
  context : row.context = []
  files : ∀ a ∈ d.attachments, d.ofTicket row.id a = false

/-- The note of a file exists, and an anonymized ticket is clean. -/
structure Inv (d : Db) : Prop where
  noteExists : ∀ a ∈ d.attachments, ∀ n ∈ a.ticketNoteId, (d.note n).isSome
  cleaned : ∀ t row, d.ticket t = some row → row.anonymizedAt.isSome → Cleaned d row

/-- The row of the ticket stays and it gets no file. -/
def SameTicket (d e : Db) (t : Uuid) : Prop :=
  e.ticket t = d.ticket t ∧ ∀ a ∈ e.attachments, e.ofTicket t a = true → ∃ b ∈ d.attachments, b.id = a.id ∧ d.ofTicket t b = true

def Effect (r : Request) (d e : Db) : Prop :=
  e = d ∨ match r with
    | .patch p => ∃ row duplicate, row.id = p.ticket ∧ (duplicate.isSome → p.status = some .rejected) ∧
        e = d.applyPatch row p duplicate
    | .addNote n => ∃ author token, e = d.insertNote n author token
    | .retention r => ∃ t row files cutoff closedAt, d.ticket t = some row ∧ row.anonymizedAt = none ∧
        r.cutoff = some cutoff ∧ closedAt < cutoff ∧
        e = d.anonymize t (some closedAt) row.reporter files r.moment

def KeepsAnonymized (d e : Db) : Prop :=
  ∀ t row, d.ticket t = some row → row.anonymizedAt.isSome → ∃ row', e.ticket t = some row' ∧ row'.anonymizedAt.isSome

def contract : Contract Request Db Key where
  inv := Inv
  rely held d e := (∀ t, Key.ticket t ∈ held → SameTicket d e t) ∧
    ∀ n, Key.note n ∈ held → d.note n = none → e.note n = none
  guar r held d e := (∀ t, Key.ticket t ∉ held → SameTicket d e t) ∧
    (∀ n, Key.note n ∉ held → d.note n = none → e.note n = none) ∧ KeepsAnonymized d e ∧ Effect r d e
  refl _ _ := ⟨fun _ _ => ⟨rfl, fun a ha h => ⟨a, ha, rfl, h⟩⟩, fun _ _ h => h⟩
  trans h h' := by
    refine ⟨fun t ht => ⟨(h'.1 t ht).1.trans (h.1 t ht).1, fun a ha hof => ?_⟩, fun n hn hnone => h'.2 n hn (h.2 n hn hnone)⟩
    obtain ⟨b, hb, hid, hbof⟩ := (h'.1 t ht).2 a ha hof
    obtain ⟨c, hc, hid', hcof⟩ := (h.1 t ht).2 b hb hbof
    exact ⟨c, hc, hid'.trans hid, hcof⟩
  compat _ hguar hfree := ⟨fun t ht => hguar.1 t (hfree.not_mem ht), fun n hn => hguar.2.1 n (hfree.not_mem hn)⟩

theorem sameTicket_refl (d : Db) (t : Uuid) : SameTicket d d t := (contract.refl [Key.ticket t] d).1 t mem_cons_self

theorem guar_same (r : Request) (held : List Key) (d : Db) : contract.guar r held d d :=
  ⟨fun t _ => sameTicket_refl d t, fun _ _ h => h, fun _ row h hrow => ⟨row, h, hrow⟩, .inl rfl⟩

end Contract

section Writes

variable {d : Db} {held : List Key}

theorem Cleaned.of_same {row row' : Ticket} (h : Cleaned d row') (hsame : SamePersonal row' row) {e : Db}
    (hfiles : ∀ a ∈ e.attachments, e.ofTicket row'.id a = false) : Cleaned e row := by
  obtain ⟨h0, h1, h2, h3, -⟩ := hsame
  exact ⟨h1.trans h.reporter, h2.trans h.email, h3.trans h.context, h0 ▸ hfiles⟩

theorem inv_setTicket (h : Inv d) {t : Uuid} {f : Ticket → Ticket} (hf : ∀ row, SamePersonal row (f row)) {e : Db}
    (htickets : e.tickets = (d.setTicket t f).tickets) (hnotes : e.notes = d.notes)
    (hfiles : e.attachments = d.attachments) : Inv e := by
  have hof : ∀ u a, e.ofTicket u a = d.ofTicket u a := fun u a => by rw [Db.ofTicket, hnotes]; rfl
  refine ⟨fun a ha n hn => ?_, fun u row hrow hanon => ?_⟩
  · rw [Db.note, hnotes]
    exact h.noteExists a (hfiles ▸ ha) n hn
  · obtain ⟨row', hrow', hsame⟩ := ticket_before htickets hf hrow
    have hclean := h.cleaned u row' hrow' (hsame.2.2.2.2 ▸ hanon)
    refine hclean.of_same hsame fun a ha => ?_
    rw [hof]
    exact hclean.files a (hfiles ▸ ha)

theorem keepsAnonymized_setTicket {t : Uuid} {f : Ticket → Ticket} (hid : ∀ row, row.id = t → (f row).id = t)
    (hanon : ∀ row, row.anonymizedAt.isSome → (f row).anonymizedAt.isSome) {e : Db}
    (htickets : e.tickets = (d.setTicket t f).tickets) : KeepsAnonymized d e := by
  intro u row hrow hsome
  have hticket : e.ticket u = if u = t then (d.ticket t).map f else d.ticket u := by
    rw [Db.ticket, htickets]
    exact ticket_setTicket hid u
  by_cases hu : u = t
  · rw [hticket, if_pos hu, ← hu, hrow]
    exact ⟨f row, rfl, hanon row hsome⟩
  · rw [hticket, if_neg hu]
    exact ⟨row, hrow, hsome⟩

theorem ticket_other {t u : Uuid} {f : Ticket → Ticket} (hid : ∀ row, row.id = t → (f row).id = t) {e : Db}
    (htickets : e.tickets = (d.setTicket t f).tickets) (hu : u ≠ t) : e.ticket u = d.ticket u := by
  rw [Db.ticket, htickets]
  exact (ticket_setTicket hid u).trans (if_neg hu)

theorem applyPatch_inv (h : Inv d) (row : Ticket) (p : Patch) (duplicate : Option Ticket) :
    Inv (d.applyPatch row p duplicate) :=
  inv_setTicket h (patchTicket_personal row p duplicate) rfl rfl rfl

theorem applyPatch_guar (row : Ticket) (p : Patch) (duplicate : Option Ticket) (hrow : row.id = p.ticket)
    (hduplicate : duplicate.isSome → p.status = some .rejected) (hheld : Key.ticket p.ticket ∈ held) :
    contract.guar (.patch p) held d (d.applyPatch row p duplicate) := by
  have hid : ∀ cur : Ticket, cur.id = p.ticket → (patchTicket row p duplicate cur).id = p.ticket :=
    fun cur hcur => (patchTicket_personal row p duplicate cur).1.trans hcur
  refine ⟨fun t ht => ⟨?_, fun a ha hof => ⟨a, ha, rfl, hof⟩⟩, fun n _ hn => hn, ?_, .inr ⟨row, duplicate, hrow, hduplicate, rfl⟩⟩
  · exact ticket_other hid rfl fun htp => ht (htp ▸ hheld)
  · refine keepsAnonymized_setTicket hid (fun cur hcur => ?_) rfl
    rw [(patchTicket_personal row p duplicate cur).2.2.2.2]
    exact hcur

theorem insertNote_ofTicket {n : NoteCreate} {author : Uuid} {token : Option Files.Digest} (h : Inv d)
    (hfresh : d.note n.note = none) {t : Uuid} {a : Files.Attachment}
    (ha : a ∈ (d.insertNote n author token).attachments) (hof : (d.insertNote n author token).ofTicket t a = true) :
    (a ∈ d.attachments ∧ d.ofTicket t a = true) ∨ (token.isSome ∧ t = n.ticket) := by
  obtain ⟨b, hb, hab⟩ := mem_map.mp ha
  split at hab
  case isTrue hbind =>
    -- a draft that the note takes: it had no owner, so only the new note can give the ticket
    obtain ⟨hash, htoken, hbindable⟩ := (Option.any_eq_true _ _).mp hbind
    rw [Files.Attachment.bindable, Bool.and_eq_true, Bool.and_eq_true] at hbindable
    have hnone : b.ticketId = none := by
      have := all_eq_true.mp hbindable.1.2 b.ticketId (by simp [Files.Attachment.ownerIds])
      simpa using this
    refine .inr ⟨by simp [htoken], ?_⟩
    rw [ofTicket_iff, ← hab] at hof
    rcases hof with hticket | ⟨m, hm, hmt, hnote⟩
    · simp [Files.Attachment.bind, hnone] at hticket
    · have hid : n.note = m.id := by simpa [Files.Attachment.bind] using hnote
      rcases mem_append.mp hm with hold | hnew
      · exact absurd hid.symm (note_none hfresh hold)
      · rw [mem_singleton.mp hnew] at hmt
        exact hmt.symm
  case isFalse =>
    subst hab
    rw [ofTicket_iff] at hof
    refine .inl ⟨hb, ofTicket_iff.mpr ?_⟩
    rcases hof with hticket | ⟨m, hm, hmt, hnote⟩
    · exact .inl hticket
    · rcases mem_append.mp hm with hold | hnew
      · exact .inr ⟨m, hold, hmt, hnote⟩
      · have hsome := h.noteExists b hb m.id hnote
        rw [mem_singleton.mp hnew, hfresh] at hsome
        cases hsome

theorem note_insertNote {n : NoteCreate} {author : Uuid} {token : Option Files.Digest} (u : Uuid) :
    (d.insertNote n author token).note u =
      (d.note u).or (if n.note = u then some ⟨n.note, n.ticket, some author, n.visibility⟩ else none) := by
  simp only [Db.note, Db.insertNote, find?_append]
  by_cases hu : n.note = u <;> simp [hu]

theorem insertNote_inv {n : NoteCreate} {author : Uuid} {token : Option Files.Digest} (h : Inv d)
    (hfresh : d.note n.note = none)
    (hopen : token.isSome → ∀ row, d.ticket n.ticket = some row → row.anonymizedAt = none) :
    Inv (d.insertNote n author token) := by
  refine ⟨fun a ha m hm => ?_, fun t row hrow hanon => ?_⟩
  · rw [note_insertNote]
    obtain ⟨b, hb, hab⟩ := mem_map.mp ha
    split at hab
    case isTrue =>
      have hid : n.note = m := by simpa [← hab, Files.Attachment.bind] using hm
      simp [hid]
    case isFalse =>
      have hsome := h.noteExists b hb m (hab ▸ hm)
      simp [Option.isSome_or, hsome]
  · obtain ⟨row', hrow', hsame⟩ :=
      ticket_before (f := ({ · with updatedAt := n.now })) rfl (fun _ => ⟨rfl, rfl, rfl, rfl, rfl⟩) hrow
    have hclean := h.cleaned t row' hrow' (hsame.2.2.2.2 ▸ hanon)
    refine hclean.of_same hsame fun a ha => ?_
    by_contra hof
    rw [Bool.not_eq_false, (ticket_some hrow').2] at hof
    rcases insertNote_ofTicket h hfresh ha hof with ⟨hmem, hof⟩ | ⟨htoken, ht⟩
    · have := hclean.files a hmem
      rw [(ticket_some hrow').2, hof] at this
      cases this
    · have := hopen htoken row' (ht ▸ hrow')
      rw [hsame.2.2.2.2, this] at hanon
      cases hanon

theorem insertNote_guar {n : NoteCreate} {author : Uuid} {token : Option Files.Digest} (h : Inv d)
    (hfresh : d.note n.note = none) (hticket : Key.ticket n.ticket ∈ held) (hnote : Key.note n.note ∈ held) :
    contract.guar (.addNote n) held d (d.insertNote n author token) := by
  refine ⟨fun t ht => ⟨?_, fun a ha hof => ?_⟩, fun m hm hnone => ?_, ?_, .inr ⟨author, token, rfl⟩⟩
  · exact ticket_other (f := ({ · with updatedAt := n.now })) (fun row hrow => hrow) rfl fun htn => ht (htn ▸ hticket)
  · rcases insertNote_ofTicket h hfresh ha hof with ⟨hmem, hof⟩ | ⟨-, htn⟩
    · exact ⟨a, hmem, rfl, hof⟩
    · exact absurd (htn ▸ hticket) ht
  · rw [note_insertNote, hnone, Option.none_or, if_neg]
    rintro rfl
    exact hm hnote
  · exact keepsAnonymized_setTicket (f := ({ · with updatedAt := n.now })) (fun row hrow => hrow) (fun row hrow => hrow) rfl

def cleared (moment : Time) (row : Ticket) : Ticket :=
  { row with reporter := none, reporterEmail := none, context := [], anonymizedAt := some moment }

section Anonymize

variable (t : Uuid) (closedAt : Option Time) (reporter : Option Uuid) (files : List Uuid) (moment : Time)

theorem ticket_anonymize (u : Uuid) : (d.anonymize t closedAt reporter files moment).ticket u =
    if u = t then (d.ticket t).map (cleared moment) else d.ticket u :=
  ticket_setTicket (f := cleared moment) (fun _ hrow => hrow) u

theorem anonymize_ofTicket (u : Uuid) (a : Files.Attachment) :
    (d.anonymize t closedAt reporter files moment).ofTicket u a = d.ofTicket u a := by
  simp only [Db.ofTicket, Db.anonymize, any_map]
  congr 2
  funext n
  simp only [Function.comp]
  split <;> rfl

theorem note_anonymize (u : Uuid) :
    ((d.anonymize t closedAt reporter files moment).note u).isSome = (d.note u).isSome := by
  simp only [Db.note, Db.anonymize, find?_map, Option.isSome_map]
  congr 2
  funext n
  simp only [Function.comp]
  split <;> rfl

end Anonymize

theorem anonymize_inv {t : Uuid} {closedAt : Option Time} {reporter : Option Uuid} {files : List Uuid} {moment : Time}
    (h : Inv d) (hfiles : ∀ a ∈ d.attachments, d.ofTicket t a = true → a.id ∈ files) :
    Inv (d.anonymize t closedAt reporter files moment) := by
  refine ⟨fun a ha n hn => ?_, fun u row hrow hanon => ?_⟩
  · rw [note_anonymize]
    exact h.noteExists a (mem_filter.mp ha).1 n hn
  · rw [ticket_anonymize] at hrow
    split at hrow
    next hu =>
      obtain ⟨row', hrow', rfl⟩ := Option.map_eq_some_iff.mp hrow
      refine ⟨rfl, rfl, rfl, fun a ha => ?_⟩
      obtain ⟨hmem, hkeep⟩ := mem_filter.mp ha
      rw [anonymize_ofTicket, show (cleared moment row').id = t from (ticket_some hrow').2]
      by_contra htrue
      rw [Bool.not_eq_false] at htrue
      simp [hfiles a hmem htrue] at hkeep
    next =>
      have hclean := h.cleaned u row hrow hanon
      refine ⟨hclean.reporter, hclean.email, hclean.context, fun a ha => ?_⟩
      rw [anonymize_ofTicket]
      exact hclean.files a (mem_filter.mp ha).1

theorem anonymize_guar {r : Retention} {t : Uuid} {row : Ticket} {files : List Uuid} {cutoff closedAt : Time}
    (hrow : d.ticket t = some row) (hopen : row.anonymizedAt = none) (hcutoff : r.cutoff = some cutoff)
    (hdue : closedAt < cutoff) (hheld : Key.ticket t ∈ held) :
    contract.guar (.retention r) held d (d.anonymize t (some closedAt) row.reporter files r.moment) := by
  refine ⟨fun u hu => ⟨?_, fun a ha hof => ?_⟩, fun n _ hn => ?_, fun u row' hrow' hanon => ?_,
    .inr ⟨t, row, files, cutoff, closedAt, hrow, hopen, hcutoff, hdue, rfl⟩⟩
  · rw [ticket_anonymize, if_neg fun h : u = t => hu (h ▸ hheld)]
  · rw [anonymize_ofTicket] at hof
    exact ⟨a, (mem_filter.mp ha).1, rfl, hof⟩
  · rw [← Option.not_isSome_iff_eq_none, note_anonymize, hn]
    simp
  · by_cases hut : u = t
    · rw [hut, hrow, Option.some_inj] at hrow'
      rw [← hrow', hopen] at hanon
      cases hanon
    · rw [ticket_anonymize, if_neg hut]
      exact ⟨row', hrow', hanon⟩

end Writes

section Programs

variable {r : Request} {l : Loc Db Key} {d : Db}

theorem wp_getTicket {id : Uuid} {Q : Ticket → Loc Db Key → Db → Prop}
    (h : ∀ e row, contract.rely l.held d e → (l.pend e).ticket id = some row → Q row l e) :
    wp contract r (getTicket id) Q l d := by
  rw [getTicket, wp_do, wp_query]
  intro e hrely _
  rw [wp_ofOption]
  exact fun row hrow => h e row hrely hrow

theorem wp_writeTicket {id : Uuid} {w : Db → Db} {Q : Unit → Loc Db Key → Db → Prop}
    (h : ∀ e, contract.rely l.held d e → Q () ⟨w ∘ l.pend, .ticket id :: l.held⟩ e) :
    wp contract r (writeTicket id w) Q l d := by
  rw [writeTicket, wp_do, wp_lockRow]
  intro e hrely _
  cases hrow : (l.pend e).ticket id with
  | none => simp
  | some row =>
    simp only [Option.map_some, Option.isSome_some, wp_do, wp_require, wp_update]
    exact fun _ => h e hrely

theorem wp_lockAll (ids : List Uuid) {A : List Key → Db → Prop}
    (hstable : ∀ held d e, A held d → contract.rely held d e → A held e)
    (hlock : ∀ held k d, A held d → A (k :: held) d) (hpend : l.pend = id) (h : A l.held d) :
    wp contract r (Prog.forEach ids fun i => (do let _ ← Prog.lockRow fun _ => some (.attachment i) : P Unit))
      (fun _ l d => l.pend = id ∧ A l.held d) l d := by
  refine wp_forEach _ (fun _ l d => l.pend = id ∧ A l.held d) ?_ ids ⟨hpend, h⟩
  rintro i _ ⟨pend, held⟩ d ⟨hpend, h⟩
  rw [wp_do, wp_lockRow]
  intro e hrely _
  exact ⟨hpend, hlock _ _ _ (hstable _ _ _ h hrely)⟩

theorem storePatch_wp {p : Patch} {row : Ticket} {duplicate : Option Ticket} (hrow : row.id = p.ticket)
    (hduplicate : duplicate.isSome → p.status = some .rejected) :
    wp contract (.patch p) (storePatch p row duplicate) (fun _ _ _ => True) .fresh d := by
  simp only [storePatch, wp_do, wp_require]
  intro _ _
  split
  · rw [wp_do]
    apply wp_writeTicket
    intro f _
    rw [wp_publish]
    intro g _ hinv
    exact ⟨applyPatch_inv hinv row p duplicate,
      applyPatch_guar row p duplicate hrow hduplicate mem_cons_self, trivial⟩
  · rw [wp_publish]
    exact fun f _ hinv => ⟨hinv, guar_same _ _ f, trivial⟩

theorem patch_keeps (p : Patch) : Keeps contract (.patch p) (patch p) := by
  intro d _
  rw [patch, wp_do]
  apply wp_getTicket
  intro e row _ hrow
  have hid := (ticket_some hrow).2
  rw [wp_do, duplicateTarget]
  cases hdup : p.duplicateOf with
  | none => exact storePatch_wp hid (by simp)
  | some other =>
    dsimp only
    split
    next hstatus =>
      rw [Bool.and_eq_true, decide_eq_true_eq] at hstatus
      rw [wp_do, wp_query]
      intro f _ _
      simp only [wp_do, wp_ofOption, wp_return]
      intro target _
      exact storePatch_wp hid fun _ => hstatus.1
    next => trivial

def HoldsOpen (n : NoteCreate) (held : List Key) (d : Db) : Prop :=
  n.attachments ≠ [] → Key.ticket n.ticket ∈ held ∧ ∀ row, d.ticket n.ticket = some row → row.anonymizedAt = none

theorem holdsOpen_stable (n : NoteCreate) (held : List Key) (d e : Db) (h : HoldsOpen n held d)
    (hrely : contract.rely held d e) : HoldsOpen n held e := by
  intro hne
  obtain ⟨hheld, hopen⟩ := h hne
  rw [(hrely.1 n.ticket hheld).1]
  exact ⟨hheld, hopen⟩

theorem holdsOpen_lock (n : NoteCreate) (held : List Key) (k : Key) (d : Db) (h : HoldsOpen n held d) :
    HoldsOpen n (k :: held) d := fun hne => ⟨mem_cons_of_mem k (h hne).1, (h hne).2⟩

theorem wp_checkMessageDrafts {n : NoteCreate} (hpend : l.pend = id) (h : HoldsOpen n l.held d) :
    wp contract r (checkMessageDrafts n)
      (fun token l d => l.pend = id ∧ HoldsOpen n l.held d ∧ (token.isSome → n.attachments ≠ [])) l d := by
  rw [checkMessageDrafts]
  split
  · exact ⟨hpend, h, by simp⟩
  next hne =>
    have hne : n.attachments ≠ [] := by simpa using hne
    simp only [wp_do, wp_ofOption, checkDrafts, wp_query, wp_return]
    intro hash _ e hrely _
    have hlocks := wp_lockAll (r := r) (((l.pend e).attachments.filter (·.listedDraft n.attachments hash)).map (·.id))
      (holdsOpen_stable n) (holdsOpen_lock n) hpend (holdsOpen_stable n _ _ _ h hrely)
    refine wp_mono ?_ hlocks
    rintro _ ⟨pend, held⟩ f ⟨hpend, hopen⟩ g hg _
    rw [wp_require]
    exact fun _ => ⟨hpend, holdsOpen_stable n _ _ _ hopen hg, fun _ => hne⟩

theorem insertNote_wp {n : NoteCreate} {row : Ticket} {author : Uuid} (hpend : l.pend = id)
    (hheld : n.attachments ≠ [] → Key.ticket n.ticket ∈ l.held ∧ d.ticket n.ticket = some row) :
    wp contract (.addNote n) (insertNote n row author) (fun _ _ _ => True) l d := by
  simp only [insertNote, wp_do, wp_require]
  intro hcheck
  have hopen : HoldsOpen n l.held d := by
    intro hne
    obtain ⟨hmem, hrow⟩ := hheld hne
    refine ⟨hmem, fun row' hrow' => ?_⟩
    rw [hrow, Option.some_inj] at hrow'
    rw [Bool.or_eq_true] at hcheck
    rcases hcheck with hempty | hnone
    · exact absurd (isEmpty_iff.mp hempty) hne
    · exact hrow' ▸ Option.isNone_iff_eq_none.mp hnone
  refine wp_mono ?_ (wp_checkMessageDrafts hpend hopen)
  rintro token ⟨pend, held⟩ e ⟨hpend, hopen, htoken⟩
  cases hpend
  rw [wp_lockRow]
  intro f hf _ hfresh
  apply wp_writeTicket
  intro g hg
  rw [wp_publish]
  intro x hx hinv
  -- the locks keep the ticket open and the id of the note free up to the commit
  have hnone : x.note n.note = none := by
    refine hx.2 n.note (by simp) (hg.2 n.note mem_cons_self ?_)
    exact Option.isNone_iff_eq_none.mp hfresh
  have hx : HoldsOpen n held x :=
    holdsOpen_stable n held g x (holdsOpen_stable n held f g (holdsOpen_stable n held e f hopen hf)
      ⟨fun t ht => hg.1 t (mem_cons_of_mem _ ht), fun m hm => hg.2 m (mem_cons_of_mem _ hm)⟩)
      ⟨fun t ht => hx.1 t (mem_cons_of_mem _ (mem_cons_of_mem _ ht)),
        fun m hm => hx.2 m (mem_cons_of_mem _ (mem_cons_of_mem _ hm))⟩
  exact ⟨insertNote_inv hinv hnone fun hsome => (hx (htoken hsome)).2,
    insertNote_guar hinv hnone mem_cons_self (by simp), trivial⟩

theorem addNote_keeps (n : NoteCreate) : Keeps contract (.addNote n) (addNote n) := by
  intro d _
  rw [addNote, wp_do, readTicket]
  split
  next hempty =>
    rw [wp_query]
    intro e _ _
    simp only [wp_do, wp_ofOption, wp_require]
    intro row _ author _ _
    exact insertNote_wp rfl fun hne => absurd (isEmpty_iff.mp hempty) hne
  next =>
    rw [wp_lockRow]
    intro e _ _
    cases hrow : e.ticket n.ticket with
    | none =>
      simp only [Loc.fresh, id, hrow, Option.map_none, wp_do, wp_ofOption]
      exact fun row h => by cases h
    | some row =>
      simp only [Loc.fresh, id, hrow, Option.map_some, wp_do, wp_ofOption, wp_require]
      intro row' hrow' author _ _
      exact insertNote_wp rfl fun _ => ⟨mem_cons_self, hrow.trans hrow'⟩

def HoldsFiles (t : Uuid) (row : Ticket) (files : List Uuid) (held : List Key) (d : Db) : Prop :=
  Key.ticket t ∈ held ∧ d.ticket t = some row ∧ ∀ a ∈ d.attachments, d.ofTicket t a = true → a.id ∈ files

theorem holdsFiles_stable (t : Uuid) (row : Ticket) (files : List Uuid) (held : List Key) (d e : Db)
    (h : HoldsFiles t row files held d) (hrely : contract.rely held d e) : HoldsFiles t row files held e := by
  obtain ⟨hheld, hrow, hfiles⟩ := h
  obtain ⟨hsame, hgrow⟩ := hrely.1 t hheld
  refine ⟨hheld, hsame.trans hrow, fun a ha hof => ?_⟩
  obtain ⟨b, hb, hid, hbof⟩ := hgrow a ha hof
  exact hid ▸ hfiles b hb hbof

theorem anonymizeOne_wp {r : Retention} {due : Uuid × Option Time} {cutoff closedAt : Time}
    (hcutoff : r.cutoff = some cutoff) (hclosed : due.2 = some closedAt) (hdue : closedAt < cutoff) :
    wp contract (.retention r) (anonymizeOne r due) (fun _ l _ => l = .fresh) .fresh d := by
  have hnothing : ∀ (held : List Key) (e : Db), wp contract (.retention r) (Prog.publish : P Unit)
      (fun _ l _ => l = .fresh) ⟨id, held⟩ e := by
    intro held e
    rw [wp_publish]
    exact fun f _ hinv => ⟨hinv, guar_same _ _ f, rfl⟩
  rw [anonymizeOne, wp_do, wp_lockRow]
  intro e _ _
  cases hrow : e.ticket due.1 with
  | none =>
    simp only [Loc.fresh, id, hrow, Option.map_none]
    exact hnothing [] e
  | some row =>
    simp only [Loc.fresh, id, hrow, Option.map_some]
    split
    · exact hnothing _ e
    next hcheck =>
      have hopen : row.anonymizedAt = none := by
        rw [Bool.or_eq_true, not_or] at hcheck
        simpa using hcheck.1
      rw [wp_do, wp_query]
      intro f hf _
      have hholds : HoldsFiles due.1 row ((f.attachments.filter (f.ofTicket due.1)).map (·.id)) [.ticket due.1] f := by
        refine ⟨mem_cons_self, (hf.1 due.1 mem_cons_self).1.trans hrow, fun a ha hof => ?_⟩
        exact mem_map_of_mem (mem_filter.mpr ⟨ha, hof⟩)
      rw [wp_do]
      refine wp_mono ?_ (wp_lockAll _ (holdsFiles_stable due.1 row _)
        (fun held k d h => ⟨mem_cons_of_mem k h.1, h.2⟩) rfl hholds)
      rintro _ ⟨pend, held⟩ g ⟨hpend, hholds⟩
      cases hpend
      rw [wp_do, wp_update, wp_publish]
      intro x hx hinv
      obtain ⟨hheld, hrow, hfiles⟩ := holdsFiles_stable _ _ _ _ _ _ hholds hx
      rw [hclosed]
      exact ⟨anonymize_inv hinv hfiles, anonymize_guar hrow hopen hcutoff hdue hheld, rfl⟩

theorem anonymizeTickets_keeps (r : Retention) : Keeps contract (.retention r) (anonymizeTickets r) := by
  intro d _
  unfold anonymizeTickets
  cases hcutoff : r.cutoff with
  | none => trivial
  | some cutoff =>
    rw [wp_do, wp_query]
    intro e _ _
    -- every entry that is still to come was due when the list was read
    refine wp_mono (fun _ _ _ _ => trivial) (wp_forEach _ (fun entries l _ => l = .fresh ∧
      ∀ due ∈ entries, ∃ closedAt, due.2 = some closedAt ∧ closedAt < cutoff) ?_ _ ⟨rfl, ?_⟩)
    · rintro due entries l f ⟨rfl, hentries⟩
      obtain ⟨closedAt, hclosed, hdue⟩ := hentries due mem_cons_self
      refine wp_mono (fun _ l _ hl => ⟨hl, fun b hb => hentries b (mem_cons_of_mem due hb)⟩) ?_
      exact anonymizeOne_wp hcutoff hclosed hdue
    · intro due hmem
      obtain ⟨t, ht, rfl⟩ := mem_map.mp hmem
      have hfilter := (mem_filter.mp (mem_mergeSort.mp ht)).2
      rw [Bool.and_eq_true] at hfilter
      obtain ⟨closedAt, hclosed, hlt⟩ := (Option.any_eq_true _ _).mp hfilter.2
      exact ⟨closedAt, hclosed, of_decide_eq_true hlt⟩

theorem script_keeps (r : Request) : Keeps contract r (script r) := by
  cases r with
  | patch p => exact patch_keeps p
  | addNote n => exact addNote_keeps n
  | retention r => exact anonymizeTickets_keeps r

end Programs

section Laws

variable {d e : Db}
variable {row : Ticket} {p : Patch} {duplicate : Option Ticket} {s : Status}

def statusChanges (t : Uuid) (events : List TicketEvent) : List (Status × Status) :=
  events.filterMap fun ev =>
    match ev.payload with
    | .status before after _ => if ev.ticket = t then some (before, after) else none
    | .created | .assignee _ _ | .kind _ _ => none

/-- The status that a chain of changes ends in; `none` when a change does not follow on. -/
def chainEnd : Status → List (Status × Status) → Option Status
  | s, [] => some s
  | s, (before, after) :: rest => if before = s then chainEnd after rest else none

/-- A closing time goes with a closed status and a duplicate link with a rejection,
and the status events lead from `new` to the status. -/
structure TicketOk (events : List TicketEvent) (row : Ticket) : Prop where
  closed : row.closedAt.isSome = row.status.isClosed
  duplicate : row.duplicateOf.isSome → row.status = .rejected
  chain : chainEnd .new (statusChanges row.id events) = some row.status

def Closing (d : Db) : Prop := ∀ t row, d.ticket t = some row → TicketOk d.events row

/-- The ticket as the transaction had read it: a patch that writes the status finds it, open or
closed as before and without a new duplicate link; the job finds the closing time of its list. -/
def StillSeen (d : Db) : Seen → Prop
  | .patch row target => ∀ cur ∈ d.ticket row.id, cur.status = row.status ∧
      cur.closedAt.isSome = row.closedAt.isSome ∧
      (cur.duplicateOf.isSome → row.duplicateOf.isSome ∨ target = .rejected)
  | .due t closedAt => ∀ cur ∈ d.ticket t, cur.closedAt = closedAt

instance (d : Db) : (seen : Seen) → Decidable (StillSeen d seen)
  | .patch row target => inferInstanceAs (Decidable (∀ cur ∈ d.ticket row.id, cur.status = row.status ∧
      cur.closedAt.isSome = row.closedAt.isSome ∧ (cur.duplicateOf.isSome → row.duplicateOf.isSome ∨ target = .rejected)))
  | .due t closedAt => inferInstanceAs (Decidable (∀ cur ∈ d.ticket t, cur.closedAt = closedAt))

def InTime (_ : Request) (d e : Db) : Prop := e = d ∨ ∀ seen ∈ e.seen, StillSeen d seen

instance (r : Request) (d e : Db) : Decidable (InTime r d e) := inferInstanceAs (Decidable (_ ∨ _))

theorem chainEnd_append (s : Status) (xs ys : List (Status × Status)) :
    chainEnd s (xs ++ ys) = (chainEnd s xs).bind fun s' => chainEnd s' ys := by
  induction xs generalizing s with
  | nil => rfl
  | cons x xs ih =>
    obtain ⟨before, after⟩ := x
    rw [cons_append, chainEnd, chainEnd]
    split
    · exact ih after
    · rfl

theorem statusChanges_append (t : Uuid) (xs ys : List TicketEvent) :
    statusChanges t (xs ++ ys) = statusChanges t xs ++ statusChanges t ys := filterMap_append

theorem statusChanges_patch (row : Ticket) (p : Patch) (duplicate : Option Ticket) (t : Uuid) :
    statusChanges t (patchEvents row p duplicate) =
      if t = p.ticket then ((newStatus row p duplicate).map fun s => (row.status, s)).toList else [] := by
  unfold statusChanges patchEvents
  by_cases ht : t = p.ticket
  · cases newStatus row p duplicate <;> cases newAssignee row p <;> cases newKind row p <;> simp [ht]
  · cases newStatus row p duplicate <;> cases newAssignee row p <;> cases newKind row p <;> simp [ht, Ne.symm ht]

theorem patchTicket_unchanged (cur : Ticket) (h : newStatus row p duplicate = none) :
    (patchTicket row p duplicate cur).status = cur.status ∧
      (patchTicket row p duplicate cur).closedAt = cur.closedAt ∧
      (patchTicket row p duplicate cur).duplicateOf = cur.duplicateOf := by
  unfold patchTicket
  cases newAssignee row p <;> cases newKind row p <;> simp [h]

theorem patchTicket_status (cur : Ticket) (h : newStatus row p duplicate = some s) :
    (patchTicket row p duplicate cur).status = written row.status s cur.status ∧
    (patchTicket row p duplicate cur).closedAt = written row.closedAt (closedAtAfter row s p.now) cur.closedAt ∧
    (patchTicket row p duplicate cur).duplicateOf = written row.duplicateOf (duplicate.map (·.id)) cur.duplicateOf := by
  unfold patchTicket
  cases newAssignee row p <;> cases newKind row p <;> simp [h, setStatus]

/-- A status write on a ticket that is as the patch read it. -/
theorem setStatus_ok (now : Time) {cur : Ticket} {duplicate : Option Uuid} (hclosed : cur.closedAt.isSome = cur.status.isClosed)
    (hstatus : cur.status = row.status) (hsame : cur.closedAt.isSome = row.closedAt.isSome)
    (hlink : cur.duplicateOf.isSome → row.duplicateOf.isSome ∨ s = .rejected) (hduplicate : duplicate.isSome → s = .rejected) :
    written row.status s cur.status = s ∧
      (written row.closedAt (closedAtAfter row s now) cur.closedAt).isSome = s.isClosed ∧
      ((written row.duplicateOf duplicate cur.duplicateOf).isSome → s = .rejected) := by
  refine ⟨?_, ?_, fun hsome => ?_⟩
  · unfold written
    split
    next hs => rw [hs, hstatus]
    next => rfl
  · unfold closedAtAfter written
    cases hs : s.isClosed with
    | false =>
      simp only [Bool.not_false, if_true]
      split
      next hnone =>
        rw [hsame, ← hnone]
        rfl
      next => rfl
    | true =>
      cases hrow : row.status.isClosed with
      | false =>
        simp only [Bool.not_true, Bool.false_eq_true, if_false, Bool.not_false, if_true]
        split
        next hnow =>
          rw [hsame, ← hnow]
          rfl
        next => rfl
      | true => simp [hclosed, hstatus, hrow]
  · unfold written at hsome
    split at hsome
    next heq =>
      rcases hlink hsome with hrow | hs
      · exact hduplicate (heq ▸ hrow)
      · exact hs
    next => exact hduplicate hsome

theorem newStatus_eq (h : newStatus row p duplicate = some s) : p.status = some s := (Option.filter_eq_some_iff.mp h).1

theorem applyPatch_closing (h : Closing d) (hrow : row.id = p.ticket) (hduplicate : duplicate.isSome → p.status = some .rejected)
    (hseen : ∀ seen ∈ (d.applyPatch row p duplicate).seen, StillSeen d seen) : Closing (d.applyPatch row p duplicate) := by
  intro t cur' hcur'
  have hticket : (d.applyPatch row p duplicate).ticket t =
      if t = p.ticket then (d.ticket p.ticket).map (patchTicket row p duplicate) else d.ticket t :=
    ticket_setTicket (fun cur hcur => (patchTicket_personal row p duplicate cur).1.trans hcur) t
  have hevents : ∀ u, statusChanges u (d.applyPatch row p duplicate).events =
      statusChanges u d.events ++ statusChanges u (patchEvents row p duplicate) := fun u => statusChanges_append u _ _
  rw [hticket] at hcur'
  split at hcur'
  case isFalse ht =>
    have hok := h t cur' hcur'
    refine ⟨hok.closed, hok.duplicate, ?_⟩
    rw [hevents, statusChanges_patch, if_neg ((ticket_some hcur').2 ▸ ht), append_nil]
    exact hok.chain
  case isTrue ht =>
    obtain ⟨cur, hcur, rfl⟩ := Option.map_eq_some_iff.mp hcur'
    have hok := h p.ticket cur hcur
    have hid : (patchTicket row p duplicate cur).id = cur.id := (patchTicket_personal row p duplicate cur).1
    have hcid : cur.id = p.ticket := (ticket_some hcur).2
    cases hnew : newStatus row p duplicate with
    | none =>
      obtain ⟨h1, h2, h3⟩ := patchTicket_unchanged cur hnew
      refine ⟨by rw [h1, h2]; exact hok.closed, by rw [h1, h3]; exact hok.duplicate, ?_⟩
      rw [hevents, statusChanges_patch, hnew, hid, h1]
      simpa using hok.chain
    | some s =>
      obtain ⟨h1, h2, h3⟩ := patchTicket_status cur hnew
      obtain ⟨hstatus, hsame, hlink⟩ := hseen (.patch row s) (by simp [Db.applyPatch, hnew]) cur (hrow ▸ hcur)
      have hrejected : (duplicate.map (·.id)).isSome → s = .rejected := by
        intro hsome
        have := hduplicate (by simpa using hsome)
        rw [newStatus_eq hnew, Option.some_inj] at this
        exact this
      obtain ⟨g1, g2, g3⟩ := setStatus_ok p.now hok.closed hstatus hsame hlink hrejected
      refine ⟨by rw [h1, h2, g1]; exact g2, fun hsome => ?_, ?_⟩
      · rw [h1, g1]
        exact g3 (h3 ▸ hsome)
      · rw [hevents, statusChanges_patch, hid, hcid, if_pos rfl, hnew, h1, g1, chainEnd_append, ← hcid, hok.chain]
        simp [chainEnd, hstatus]

theorem statusChanges_anonymize (t u : Uuid) (closedAt : Option Time) (reporter : Option Uuid) (files : List Uuid)
    (moment : Time) :
    statusChanges u (d.anonymize t closedAt reporter files moment).events = statusChanges u d.events := by
  simp only [statusChanges, Db.anonymize, filterMap_map]
  congr 1
  funext ev
  -- only the actor of an event changes
  by_cases hcreated : (decide (ev.ticket = t) && decide (ev.payload = .created)) = true
  · simp only [Function.comp, if_pos hcreated]
  · simp only [Function.comp, if_neg hcreated]

theorem commit_closing {r : Request} (h : Closing d) (heffect : Effect r d e) (htime : InTime r d e) : Closing e := by
  rcases heffect with rfl | heffect
  · exact h
  rcases htime with rfl | hseen
  · exact h
  cases r with
  | patch p =>
    obtain ⟨row, duplicate, hrow, hduplicate, rfl⟩ := heffect
    exact applyPatch_closing h hrow hduplicate hseen
  | addNote n =>
    obtain ⟨author, token, rfl⟩ := heffect
    intro t row hrow
    have hticket : (d.insertNote n author token).ticket t =
        if t = n.ticket then (d.ticket n.ticket).map ({ · with updatedAt := n.now }) else d.ticket t :=
      ticket_setTicket (f := ({ · with updatedAt := n.now })) (fun _ hid => hid) t
    rw [hticket] at hrow
    split at hrow
    · obtain ⟨cur, hcur, rfl⟩ := Option.map_eq_some_iff.mp hrow
      have hok := h n.ticket cur hcur
      exact ⟨hok.closed, hok.duplicate, hok.chain⟩
    · have hok := h t row hrow
      exact ⟨hok.closed, hok.duplicate, hok.chain⟩
  | retention r =>
    obtain ⟨u, row, files, cutoff, closedAt, -, -, -, -, rfl⟩ := heffect
    intro t cur' hcur'
    rw [ticket_anonymize] at hcur'
    split at hcur'
    · obtain ⟨cur, hcur, rfl⟩ := Option.map_eq_some_iff.mp hcur'
      have hok := h u cur hcur
      refine ⟨hok.closed, hok.duplicate, ?_⟩
      rw [statusChanges_anonymize]
      exact hok.chain
    · have hok := h t cur' hcur'
      refine ⟨hok.closed, hok.duplicate, ?_⟩
      rw [statusChanges_anonymize]
      exact hok.chain

theorem KeepsAnonymized.refl (d : Db) : KeepsAnonymized d d := fun _ row hrow hanon => ⟨row, hrow, hanon⟩

theorem KeepsAnonymized.trans {d e f : Db} (h : KeepsAnonymized d e) (h' : KeepsAnonymized e f) : KeepsAnonymized d f := by
  intro t row hrow hanon
  obtain ⟨row', hrow', hanon'⟩ := h t row hrow hanon
  exact h' t row' hrow' hanon'

theorem retention_due {r : Retention} (h : Closing d) (heffect : Effect (.retention r) d e) (htime : InTime (.retention r) d e)
    {t : Uuid} {row' : Ticket} (hrow : d.ticket t = some row) (hopen : row.anonymizedAt = none) (hrow' : e.ticket t = some row')
    (hanon : row'.anonymizedAt.isSome) :
    ∃ cutoff closedAt, r.cutoff = some cutoff ∧ row.closedAt = some closedAt ∧ closedAt < cutoff ∧
      row.status.isClosed = true := by
  have hchanged : e ≠ d := by
    rintro rfl
    rw [hrow, Option.some_inj] at hrow'
    rw [← hrow', hopen] at hanon
    cases hanon
  obtain ⟨u, cur, files, cutoff, closedAt, hcur, -, hcutoff, hlt, rfl⟩ := heffect.resolve_left hchanged
  have hseen := htime.resolve_left hchanged (.due u (some closedAt)) rfl cur hcur
  have htu : t = u := by
    by_contra hne
    rw [ticket_anonymize, if_neg hne, hrow, Option.some_inj] at hrow'
    rw [← hrow', hopen] at hanon
    cases hanon
  rw [htu, hcur, Option.some_inj] at hrow
  subst hrow
  refine ⟨cutoff, closedAt, hcutoff, hseen, hlt, ?_⟩
  rw [← (h u cur hcur).closed, hseen]
  rfl

/-- In a run whose commits are all in time the closing rules hold in every committed
state and the job takes only closed tickets past the cutoff. In every run the
personal data of an anonymized ticket stay away. -/
theorem tickets_closing {d : Db} (hinv : Inv d) (hclosing : Closing d) {es : List (Event Request)}
    {s : Sys Request Db Key Problem} (hrun : run script ⟨d, []⟩ es = some s)
    (htime : Guarded InTime script ⟨d, []⟩ es) :
    Closing s.db ∧
    (∀ ev r e, commitOf s ev = some (.retention r, e) → InTime (.retention r) s.db e →
      ∀ t row row', s.db.ticket t = some row → row.anonymizedAt = none → e.ticket t = some row' →
        row'.anonymizedAt.isSome → ∃ cutoff closedAt, r.cutoff = some cutoff ∧ row.closedAt = some closedAt ∧
          closedAt < cutoff ∧ row.status.isClosed = true) ∧
    ∀ fs s', run script s fs = some s' → ∀ t row, s.db.ticket t = some row → row.anonymizedAt.isSome →
      ∃ row', s'.db.ticket t = some row' ∧ row'.anonymizedAt.isSome ∧ Cleaned s'.db row' := by
  have hsound : Sound contract s := run_sound script_keeps hinv ⟨es, hrun⟩
  have hs : Closing s.db :=
    guarded_run (J := Closing) script_keeps (fun _ _ h hguar => commit_closing h hguar.2.2.2)
      (sound_start (C := contract) hinv) hclosing htime hrun
  refine ⟨hs, fun ev r e hcommit hin t row row' hrow hopen hrow' hanon => ?_, fun fs s' hrun' t row hrow hanon => ?_⟩
  · obtain ⟨-, held, hguar⟩ := hsound.of_commitOf hcommit
    exact retention_due hs hguar.2.2.2 hin hrow hopen hrow' hanon
  · obtain ⟨hsound', hkeeps⟩ := sound_run_keeps script_keeps KeepsAnonymized.refl KeepsAnonymized.trans
      (fun _ hguar => hguar.2.2.1) hsound hrun'
    obtain ⟨row', hrow', hanon'⟩ := hkeeps t row hrow hanon
    exact ⟨row', hrow', hanon', hsound'.inv.cleaned t row' hrow' hanon'⟩

def newTicket : Ticket :=
  ⟨1, 1, .bug, .new, some 9, none, [(text "url", text "/")], none, none, none, none, 0⟩

def oneTicket : Db := ⟨[newTicket], [], [⟨1, some 9, .created⟩], [], [], none⟩

theorem ticket_oneTicket {t : Uuid} (h : oneTicket.ticket t = some row) : row = newTicket :=
  mem_singleton.mp (ticket_some h).1

theorem oneTicket_inv : Inv oneTicket where
  noteExists a ha := by cases ha
  cleaned t row hrow hanon := by
    rw [ticket_oneTicket hrow] at hanon
    cases hanon

theorem oneTicket_closing : Closing oneTicket := by
  intro t row hrow
  rw [ticket_oneTicket hrow]
  exact ⟨rfl, by simp [newTicket], rfl⟩

def setStatusTo (status : Status) (now : Time) : Request :=
  .patch ⟨1, some status, none, false, none, true, none, some 7, now⟩

def nightlyJob : Request := .retention ⟨some 50, 90, []⟩

def closedInTime : List (Event Request) :=
  [.start (setStatusTo .done 10), .step 0, .step 0, .step 0, .step 0,
   .start nightlyJob, .step 1, .step 1, .step 1, .step 1, .step 1]

theorem closedInTime_cleaned :
    ∃ s, run script ⟨oneTicket, []⟩ closedInTime = some s ∧ Closing s.db ∧
      ∃ row, s.db.ticket 1 = some row ∧ row.closedAt = some 10 ∧ Cleaned s.db row := by
  have htime : Guarded InTime script ⟨oneTicket, []⟩ closedInTime := by decide +kernel
  have hrun : (run script ⟨oneTicket, []⟩ closedInTime).map (fun s => (s.db.ticket 1).map fun row =>
      (row.closedAt, row.anonymizedAt.isSome)) = some (some (some 10, true)) := by decide +kernel
  obtain ⟨s, hs, hrow⟩ := Option.map_eq_some_iff.mp hrun
  obtain ⟨row, hrow, heq⟩ := Option.map_eq_some_iff.mp hrow
  simp only [Prod.mk.injEq] at heq
  obtain ⟨hclosing, -, hclean⟩ := tickets_closing oneTicket_inv oneTicket_closing hs htime
  obtain ⟨row', hrow', -, hcleaned⟩ := hclean [] s rfl 1 row hrow heq.2
  rw [hrow, Option.some_inj] at hrow'
  exact ⟨s, hs, hclosing, row, hrow, heq.1, hrow' ▸ hcleaned⟩

def latePatch : List (Event Request) :=
  [.start (setStatusTo .inProgress 10), .step 0, .start (setStatusTo .done 20), .step 1, .step 1, .step 1, .step 1,
   .step 0, .step 0, .step 0]

def reopened : List (Event Request) :=
  [.start (setStatusTo .done 10), .step 0, .step 0, .step 0, .step 0, .start nightlyJob, .step 1,
   .start (setStatusTo .inProgress 60), .step 2, .step 2, .step 2, .step 2, .step 1, .step 1, .step 1, .step 1]

theorem latePatch_not_closing :
    (∃ s row, run script ⟨oneTicket, []⟩ latePatch = some s ∧ s.db.ticket 1 = some row ∧ row.status = .inProgress ∧
      row.closedAt = some 20 ∧ ¬ Closing s.db) ∧
    ∃ s row, run script ⟨oneTicket, []⟩ reopened = some s ∧ s.db.ticket 1 = some row ∧ row.status = .inProgress ∧
      row.closedAt = none ∧ row.anonymizedAt = some 90 := by
  have hrun : (run script ⟨oneTicket, []⟩ latePatch).map (fun s => (s.db.ticket 1).map fun row =>
      (row.status, row.closedAt)) = some (some (.inProgress, some 20)) := by decide +kernel
  have hrun' : (run script ⟨oneTicket, []⟩ reopened).map (fun s => (s.db.ticket 1).map fun row =>
      (row.status, row.closedAt, row.anonymizedAt)) = some (some (.inProgress, none, some 90)) := by decide +kernel
  constructor
  · obtain ⟨s, hs, hrow⟩ := Option.map_eq_some_iff.mp hrun
    obtain ⟨row, hrow, heq⟩ := Option.map_eq_some_iff.mp hrow
    simp only [Prod.mk.injEq] at heq
    refine ⟨s, row, hs, hrow, heq.1, heq.2, fun h => ?_⟩
    have hclosed := (h 1 row hrow).closed
    rw [heq.1, heq.2] at hclosed
    cases hclosed
  · obtain ⟨s, hs, hrow⟩ := Option.map_eq_some_iff.mp hrun'
    obtain ⟨row, hrow, heq⟩ := Option.map_eq_some_iff.mp hrow
    simp only [Prod.mk.injEq] at heq
    exact ⟨s, row, hs, hrow, heq.1, heq.2.1, heq.2.2⟩

end Laws

end Tickets
