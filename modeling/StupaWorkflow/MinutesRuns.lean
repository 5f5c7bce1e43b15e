import StupaWorkflow.MinutesModel

/-!
What the interleavings of the minutes keep. The start of a finalization holds the protocol row, so
what it freezes is what it read.
-/
namespace Minutes
open Py ReadCommitted Option

section Contract

def Edits (d e : Db) : Prop :=
  e.frozen = d.frozen ∧ ∀ p, e.protocol = some p → ∃ q, d.protocol = some q ∧ p.status = q.status

def Effect (r : Request) (d e : Db) : Prop :=
  match r with
  | .updateMarkdown _ | .deleteProtocol | .embedVotes _ _ | .setBody _ _ _ _ _ => Edits d e
  | .startFinalize withheld => d.meeting = .closed ∧ d.isDraft = true ∧ e = d.freeze withheld
  | .finalize now => e = d.finish now
  | .revertToDraft => e = d.thaw

/-- The protocol row changes only under its lock, and the meeting stays closed. -/
def contract : Contract Request Db Key where
  inv _ := True
  rely held d e := (Key.protocol ∈ held → e.protocol = d.protocol) ∧ e.meeting = d.meeting
  guar r held d e := (Key.protocol ∉ held → e.protocol = d.protocol) ∧ e.meeting = d.meeting ∧ Effect r d e
  refl _ _ := ⟨fun _ => rfl, rfl⟩
  trans h h' := ⟨fun hk => (h'.1 hk).trans (h.1 hk), h'.2.trans h.2⟩
  compat _ hguar hfree := ⟨fun hk => hguar.1 (hfree.not_mem hk), hguar.2.1⟩

variable {r : Request} {l : Loc Db Key} {d : Db} {held : List Key}
variable {w : Db → Db}

theorem wp_getProtocol {Q : Protocol → Loc Db Key → Db → Prop}
    (h : ∀ e p, contract.rely l.held d e → (l.pend e).protocol = some p → Q p l e) : wp contract r getProtocol Q l d := by
  rw [getProtocol, wp_do, wp_query]
  intro e hrely _
  rw [wp_ofOption]
  exact fun p hp => h e p hrely hp

theorem wp_writeProtocol {Q : Unit → Loc Db Key → Db → Prop}
    (h : ∀ e, contract.rely l.held d e → Q () ⟨w ∘ l.pend, .protocol :: l.held⟩ e) : wp contract r (writeProtocol w) Q l d := by
  rw [writeProtocol, wp_do, wp_lockRow]
  intro e hrely _
  cases hp : (l.pend e).protocol with
  | none => simp
  | some p =>
    simp only [map_some, isSome_some, wp_do, wp_require, wp_update]
    exact fun _ => h e hrely

def KeepsProtocol (w : Db → Db) : Prop :=
  ∀ x, (w x).protocol = x.protocol ∧ (w x).meeting = x.meeting ∧ (w x).frozen = x.frozen

theorem edits_setProtocol (hw : KeepsProtocol w) {f : Protocol → Protocol} (hf : ∀ p, (f p).status = p.status) (x : Db) :
    Edits x ((w x).setProtocol f) := by
  obtain ⟨hprotocol, _, hfrozen⟩ := hw x
  refine ⟨hfrozen, fun p hp => ?_⟩
  obtain ⟨q, hq, rfl⟩ := map_eq_some_iff.mp hp
  exact ⟨q, hprotocol ▸ hq, hf q⟩

theorem edits_of_keeps (hw : KeepsProtocol w) (x : Db) : Edits x (w x) := by
  obtain ⟨hprotocol, _, hfrozen⟩ := hw x
  exact ⟨hfrozen, fun p hp => ⟨p, hprotocol ▸ hp, rfl⟩⟩

end Contract

section Programs

variable {d : Db}

theorem publish_edit {r : Request} (hr : ∀ d e, Edits d e → Effect r d e) {w : Db → Db} (hw : KeepsProtocol w)
    {held : List Key} {f : Protocol → Protocol} (hf : ∀ p, (f p).status = p.status) (hheld : Key.protocol ∈ held) :
    wp contract r (Prog.publish : P Unit) (fun _ _ _ => True) ⟨(·.setProtocol f) ∘ w, held⟩ d := by
  rw [wp_publish]
  intro e _ _
  exact ⟨trivial, ⟨fun hnot => absurd hheld hnot, (hw e).2.1, hr _ _ (edits_setProtocol hw hf e)⟩, trivial⟩

theorem publish_keeps {r : Request} (hr : ∀ d e, Edits d e → Effect r d e) {w : Db → Db} (hw : KeepsProtocol w)
    {held : List Key} : wp contract r (Prog.publish : P Unit) (fun _ _ _ => True) ⟨w, held⟩ d := by
  rw [wp_publish]
  intro e _ _
  exact ⟨trivial, ⟨fun _ => (hw e).1, (hw e).2.1, hr _ _ (edits_of_keeps hw e)⟩, trivial⟩

theorem keepsProtocol_id : KeepsProtocol id := fun _ => ⟨rfl, rfl, rfl⟩

theorem updateMarkdown_keeps (markdown : Text) :
    Keeps contract (.updateMarkdown markdown) (updateMarkdown markdown) := by
  intro d _
  have hr : ∀ d e, Edits d e → Effect (.updateMarkdown markdown) d e := fun _ _ h => h
  rw [updateMarkdown, wp_do]
  apply wp_getProtocol
  intro e p _ _
  simp only [wp_do, wp_ofExcept]
  intro _ _
  split
  · rw [wp_do]
    apply wp_writeProtocol
    intro f _
    exact publish_edit hr keepsProtocol_id (fun _ => rfl) List.mem_cons_self
  · exact publish_keeps hr keepsProtocol_id

theorem deleteProtocol_keeps : Keeps contract .deleteProtocol deleteProtocol := by
  intro d _
  have hr : ∀ d e, Edits d e → Effect .deleteProtocol d e := fun _ _ h => h
  rw [deleteProtocol, wp_do]
  apply wp_getProtocol
  intro e p _ _
  simp only [wp_do, wp_ofExcept, wp_lockRow]
  intro _ _ f _ _
  cases hf : f.protocol with
  | none =>
    simp only [Loc.fresh, id_eq, hf, map_none, isSome_none, Bool.false_eq_true, if_false]
    exact publish_keeps hr keepsProtocol_id
  | some q =>
    simp only [Loc.fresh, id_eq, hf, map_some, isSome_some, if_true, wp_do, wp_update, wp_publish]
    intro g _ _
    exact ⟨trivial, ⟨fun hnot => absurd List.mem_cons_self hnot, rfl, rfl, fun p hp => by cases hp⟩, trivial⟩

theorem embedVotes_keeps (votes : List ℕ) (snippet : ℕ → Except Problem Text) :
    Keeps contract (.embedVotes votes snippet) (embedVotes votes snippet) := by
  intro d _
  have hr : ∀ d e, Edits d e → Effect (.embedVotes votes snippet) d e := fun _ _ h => h
  rw [embedVotes, wp_do]
  apply wp_getProtocol
  intro e p _ _
  simp only [wp_do, wp_ofExcept, wp_query]
  intro _ _ f _ _
  -- the references so far leave the protocol row alone
  refine wp_mono ?_ (wp_collect _ (fun _ _ l _ => KeepsProtocol l.pend) ?_ _ [] keepsProtocol_id)
  · rintro snippets ⟨w, held⟩ g hw
    split
    · rw [wp_do]
      apply wp_writeProtocol
      intro g' _
      exact publish_edit hr hw (fun _ => rfl) List.mem_cons_self
    · exact publish_keeps hr hw
  · rintro vote rest acc ⟨w, held⟩ g hw
    rw [embedOne]
    simp only [wp_do, wp_ofExcept, wp_lockRow]
    intro s _ g' _ _
    split
    · exact hw
    · simp only [wp_do, wp_require, wp_update, wp_return]
      intro _ x
      exact ⟨(hw x).1, (hw x).2.1, (hw x).2.2⟩

theorem setBody_keeps (item : ℕ) (body title : Option Text) (nonPublic : Option Bool) (guestVote : Bool) :
    Keeps contract (.setBody item body title nonPublic guestVote) (setBody item body title nonPublic guestVote) := by
  intro d _
  have hr : ∀ d e, Edits d e → Effect (.setBody item body title nonPublic guestVote) d e := fun _ _ h => h
  have hrest : ∀ (row : Item) (e : Db), wp contract (.setBody item body title nonPublic guestVote)
      (storeItem item row body title nonPublic guestVote) (fun _ _ _ => True) .fresh e := by
    intro row e
    simp only [storeItem, wp_do, wp_require]
    intro _
    split
    · rw [wp_do, wp_lockRow]
      intro f _ _
      cases (Loc.fresh.pend f).item item with
      | none => simp
      | some i =>
        simp only [map_some, isSome_some, wp_do, wp_require, wp_update]
        intro _
        exact publish_keeps hr fun _ => ⟨rfl, rfl, rfl⟩
    · exact publish_keeps hr keepsProtocol_id
  rw [setBody, wp_do, wp_query]
  intro e _ _
  simp only [wp_do, wp_query]
  intro f _ _
  simp only [wp_ofOption, wp_require]
  intro row _ _
  split
  · rw [wp_do, assertMinutesOpen]
    split
    · simp only [wp_do, wp_query, wp_require]
      intro g _ _ _
      exact hrest row g
    · exact hrest row f
  · exact hrest row f

theorem startFinalize_keeps (withheld : Option Bool) :
    Keeps contract (.startFinalize withheld) (startFinalize withheld) := by
  intro d _
  rw [startFinalize, wp_do, wp_lockRow]
  intro e _ _
  cases hp : e.protocol with
  | none =>
    simp only [Loc.fresh, id_eq, hp, map_none, wp_do, wp_ofOption]
    exact fun p h => by cases h
  | some p =>
    simp only [Loc.fresh, id_eq, hp, map_some, wp_do, wp_ofOption, wp_query, wp_require, wp_update, wp_publish]
    intro q hq f hf _ hclosed hdraft g hg _
    obtain rfl := Option.some.inj hq
    -- the lock keeps the row from the read to the commit
    have hrow : g.protocol = some p := by
      rw [hg.1 List.mem_cons_self, hf.1 List.mem_cons_self, hp]
    refine ⟨trivial, ⟨fun hnot => absurd List.mem_cons_self hnot, rfl, ?_, ?_, rfl⟩, trivial⟩
    · rw [hg.2]
      exact of_decide_eq_true hclosed
    · simpa [Db.isDraft, hrow] using hdraft

theorem finalize_keeps (now : Time) : Keeps contract (.finalize now) (finalize now) := by
  intro d _
  rw [finalize, wp_do]
  apply wp_getProtocol
  intro e p _ _
  split
  · trivial
  · rw [wp_do]
    apply wp_writeProtocol
    intro f _
    rw [wp_publish]
    intro g _ _
    exact ⟨trivial, ⟨fun hnot => absurd List.mem_cons_self hnot, rfl, rfl⟩, trivial⟩

theorem revertToDraft_keeps : Keeps contract .revertToDraft revertToDraft := by
  intro d _
  rw [revertToDraft, wp_do]
  apply wp_getProtocol
  intro e p _ _
  split
  · rw [wp_do]
    apply wp_writeProtocol
    intro f _
    rw [wp_publish]
    intro g _ _
    exact ⟨trivial, ⟨fun hnot => absurd List.mem_cons_self hnot, rfl, rfl⟩, trivial⟩
  · trivial

theorem script_keeps (r : Request) : Keeps contract r (script r) := by
  cases r with
  | updateMarkdown markdown => exact updateMarkdown_keeps markdown
  | deleteProtocol => exact deleteProtocol_keeps
  | embedVotes votes snippet => exact embedVotes_keeps votes snippet
  | setBody item body title nonPublic guestVote => exact setBody_keeps item body title nonPublic guestVote
  | startFinalize withheld => exact startFinalize_keeps withheld
  | finalize now => exact finalize_keeps now
  | revertToDraft => exact revertToDraft_keeps

end Programs

section Laws

def Gate : Request → Db → Bool
  | .updateMarkdown _, d | .deleteProtocol, d | .embedVotes _ _, d => d.isDraft
  | .setBody _ _ _ _ _, d => d.meeting ≠ .closed || d.isDraft
  | .startFinalize _, _ => true
  | .finalize _, d => d.protocol.any (·.status ≠ .draft)
  | .revertToDraft, d => d.protocol.any (·.status = .rendering)

def InTime (r : Request) (d e : Db) : Prop := e = d ∨ Gate r d = true

instance (r : Request) (d e : Db) : Decidable (InTime r d e) := inferInstanceAs (Decidable (_ ∨ _))

def FrozenOk (d : Db) : Prop :=
  (d.frozen = none ∧ ∀ p, d.protocol = some p → p.status = .draft) ∨
    ∃ p, d.protocol = some p ∧ p.status ≠ .draft ∧ d.frozen = some (d.contents p) ∧ d.meeting = .closed

variable {d e : Db}

theorem isDraft_iff : d.isDraft = true ↔ ∃ p, d.protocol = some p ∧ p.status = .draft := by
  simp [Db.isDraft, any_eq_true]

theorem FrozenOk.of_draft (h : FrozenOk d) (hdraft : d.isDraft = true) :
    d.frozen = none ∧ ∀ p, d.protocol = some p → p.status = .draft := by
  refine h.resolve_right ?_
  rintro ⟨p, hp, hne, _⟩
  obtain ⟨q, hq, hstatus⟩ := isDraft_iff.mp hdraft
  rw [hp] at hq
  exact hne (Option.some.inj hq ▸ hstatus)

theorem FrozenOk.of_frozen (h : FrozenOk d) {p : Protocol} (hp : d.protocol = some p) (hne : p.status ≠ .draft) :
    d.frozen = some (d.contents p) ∧ d.meeting = .closed := by
  rcases h with ⟨_, hdraft⟩ | ⟨q, hq, _, hfrozen, hclosed⟩
  · exact absurd (hdraft p hp) hne
  · obtain rfl := Option.some.inj (hp.symm.trans hq)
    exact ⟨hfrozen, hclosed⟩

theorem Edits.frozenOk (h : Edits d e) (hdraft : d.frozen = none ∧ ∀ p, d.protocol = some p → p.status = .draft) :
    FrozenOk e := by
  refine .inl ⟨h.1.trans hdraft.1, fun p hp => ?_⟩
  obtain ⟨q, hq, hstatus⟩ := h.2 p hp
  rw [hstatus]
  exact hdraft.2 q hq

theorem freeze_frozenOk {withheld : Option Bool} (hclosed : d.meeting = .closed) (hdraft : d.isDraft = true) :
    FrozenOk (d.freeze withheld) := by
  obtain ⟨p, hp, _⟩ := isDraft_iff.mp hdraft
  exact .inr ⟨_, by rw [Db.freeze, hp]; rfl, by simp, by simp [Db.freeze, hp, Db.contents], hclosed⟩

theorem finish_frozenOk {now : Time} (h : FrozenOk d) {p : Protocol} (hp : d.protocol = some p)
    (hne : p.status ≠ .draft) : FrozenOk (d.finish now) := by
  obtain ⟨hfrozen, hclosed⟩ := h.of_frozen hp hne
  exact .inr ⟨{ p with status := .final, sentAt := some now }, by rw [Db.finish, Db.setProtocol, hp]; rfl, by simp,
    hfrozen, hclosed⟩

theorem thaw_frozenOk (d : Db) : FrozenOk d.thaw := by
  refine .inl ⟨rfl, fun p hp => ?_⟩
  obtain ⟨q, _, rfl⟩ := map_eq_some_iff.mp hp
  rfl

theorem commit_frozenOk {r : Request} (h : FrozenOk d) (heffect : Effect r d e) (htime : InTime r d e) : FrozenOk e := by
  rcases htime with rfl | hgate
  · exact h
  cases r with
  | updateMarkdown markdown => exact Edits.frozenOk heffect (h.of_draft hgate)
  | deleteProtocol => exact Edits.frozenOk heffect (h.of_draft hgate)
  | embedVotes votes snippet => exact Edits.frozenOk heffect (h.of_draft hgate)
  | setBody item body title nonPublic guestVote =>
    refine Edits.frozenOk heffect ?_
    simp only [Gate, Bool.or_eq_true, decide_eq_true_eq] at hgate
    rcases hgate with hopen | hdraft
    · exact h.resolve_right fun ⟨_, _, _, _, hclosed⟩ => hopen hclosed
    · exact h.of_draft hdraft
  | startFinalize withheld =>
    obtain ⟨hclosed, hdraft, rfl⟩ := heffect
    exact freeze_frozenOk hclosed hdraft
  | finalize now =>
    obtain ⟨p, hp, hne⟩ := (any_eq_true _ _).mp hgate
    rw [show e = d.finish now from heffect]
    exact finish_frozenOk h hp (of_decide_eq_true hne)
  | revertToDraft =>
    rw [show e = d.thaw from heffect]
    exact thaw_frozenOk d

def Db.isFinal (d : Db) : Bool := d.protocol.any (·.status = .final)

theorem commit_final {r : Request} (h : FrozenOk d) (hfinal : d.isFinal = true) (heffect : Effect r d e)
    (htime : InTime r d e) : e.isFinal = true := by
  obtain ⟨p, hp, hstatus⟩ := (any_eq_true _ _).mp hfinal
  have hstatus : p.status = .final := of_decide_eq_true hstatus
  have hnotDraft : d.isDraft ≠ true := by simp [Db.isDraft, hp, hstatus]
  rcases htime with rfl | hgate
  · exact hfinal
  cases r with
  | updateMarkdown markdown => exact absurd hgate hnotDraft
  | deleteProtocol => exact absurd hgate hnotDraft
  | embedVotes votes snippet => exact absurd hgate hnotDraft
  | setBody item body title nonPublic guestVote =>
    simp only [Gate, Bool.or_eq_true, decide_eq_true_eq] at hgate
    rcases hgate with hopen | hdraft
    · exact absurd (h.of_frozen hp (by simp [hstatus])).2 hopen
    · exact absurd hdraft hnotDraft
  | startFinalize withheld => exact absurd heffect.2.1 hnotDraft
  | finalize now =>
    rw [show e = d.finish now from heffect]
    simp [Db.isFinal, Db.finish, Db.setProtocol, hp]
  | revertToDraft => simp [Gate, hp, hstatus] at hgate

def draftMinutes (meeting : MeetingStatus) (markdown : Text) (items : List Item) : Db :=
  ⟨meeting, some ⟨.draft, markdown, false, none⟩, items, [], none⟩

/-- In a run whose commits are all in time, every committed state has the contents
that the start of its finalization froze, and a final protocol stays final. -/
theorem minutes_frozen (meeting : MeetingStatus) (markdown : Text) (items : List Item) {es fs : List (Event Request)}
    {s s' : Sys Request Db Key Problem} (hrun : run script ⟨draftMinutes meeting markdown items, []⟩ es = some s)
    (htime : Guarded InTime script ⟨draftMinutes meeting markdown items, []⟩ es) (hrun' : run script s fs = some s')
    (htime' : Guarded InTime script s fs) :
    FrozenOk s.db ∧ FrozenOk s'.db ∧ (s.db.isFinal = true → s'.db.isFinal = true) := by
  have hinit : FrozenOk (draftMinutes meeting markdown items) := .inl ⟨rfl, by simp [draftMinutes]⟩
  have hsound : Sound contract s := run_sound script_keeps trivial ⟨es, hrun⟩
  have hs : FrozenOk s.db :=
    guarded_run (J := FrozenOk) script_keeps (fun _ _ h hguar => commit_frozenOk h hguar.2.2) (sound_start (C := contract) trivial)
      hinit htime hrun
  have hs' : FrozenOk s'.db :=
    guarded_run (J := FrozenOk) script_keeps (fun _ _ h hguar => commit_frozenOk h hguar.2.2) hsound hs htime' hrun'
  refine ⟨hs, hs', fun hfinal => ?_⟩
  have hboth : FrozenOk s'.db ∧ s'.db.isFinal = true :=
    guarded_run (J := fun d => FrozenOk d ∧ d.isFinal = true) script_keeps
      (fun _ _ h hguar htime => ⟨commit_frozenOk h.1 hguar.2.2 htime, commit_final h.1 h.2 hguar.2.2 htime⟩)
      hsound ⟨hs, hfinal⟩ htime' hrun'
  exact hboth.2

def calmMinutes : List (Event Request) :=
  [.start (.updateMarkdown (text "b")), .step 0, .step 0, .step 0, .step 0,
   .start (.startFinalize none), .step 1, .step 1, .step 1, .step 1]

def renderJob : List (Event Request) := [.start (.finalize 5), .step 2, .step 2, .step 2, .step 2]

theorem calmMinutes_frozen :
    ∃ s s', run script ⟨draftMinutes .closed (text "a") [], []⟩ calmMinutes = some s ∧
      run script s renderJob = some s' ∧ FrozenOk s'.db ∧ s'.db.isFinal = true ∧
      s'.db.frozen = some ⟨text "b", []⟩ := by
  have htime : Guarded InTime script ⟨draftMinutes .closed (text "a") [], []⟩ calmMinutes := by decide +kernel
  have hrun : ((run script ⟨draftMinutes .closed (text "a") [], []⟩ calmMinutes).bind fun s =>
      (run script s renderJob).map fun s' =>
        (decide (Guarded InTime script s renderJob), s'.db.isFinal, s'.db.frozen)) =
          some (true, true, some ⟨text "b", []⟩) := by decide +kernel
  obtain ⟨s, hs, hrest⟩ := bind_eq_some_iff.mp hrun
  obtain ⟨s', hs', heq⟩ := map_eq_some_iff.mp hrest
  simp only [Prod.mk.injEq, decide_eq_true_eq] at heq
  exact ⟨s, s', hs, hs', (minutes_frozen .closed (text "a") [] hs htime hs' heq.1).2.1, heq.2.1, heq.2.2⟩

def lateEdit : List (Event Request) :=
  [.start (.updateMarkdown (text "b")), .step 0, .start (.startFinalize none), .step 1, .step 1, .step 1, .step 1,
   .step 0, .step 0, .step 0]

theorem lateEdit_not_frozen :
    ∃ s, run script ⟨draftMinutes .closed (text "a") [], []⟩ lateEdit = some s ∧
      s.db.protocol = some ⟨.rendering, text "b", false, none⟩ ∧ s.db.frozen = some ⟨text "a", []⟩ ∧ ¬ FrozenOk s.db := by
  have hrun : (run script ⟨draftMinutes .closed (text "a") [], []⟩ lateEdit).map (fun s => (s.db.protocol, s.db.frozen)) =
      some (some ⟨.rendering, text "b", false, none⟩, some ⟨text "a", []⟩) := by decide +kernel
  obtain ⟨s, hs, heq⟩ := map_eq_some_iff.mp hrun
  simp only [Prod.mk.injEq] at heq
  refine ⟨s, hs, heq.1, heq.2, ?_⟩
  rintro (⟨hnone, _⟩ | ⟨p, hp, _, hfrozen, _⟩)
  · rw [heq.2] at hnone
    cases hnone
  · rw [heq.1] at hp
    rw [heq.2, ← Option.some.inj hp] at hfrozen
    have hmarkdown : text "a" = text "b" := congrArg Contents.markdown (Option.some.inj hfrozen)
    revert hmarkdown
    decide

end Laws

end Minutes
