import StupaWorkflow.GuestVotesModel

/-!
What the interleavings of the votes of the guests keep. A ballot of a guest holds the row of the
guest until its commit, so the guest is admitted at that moment in every run.
-/
namespace GuestVotes
open Py StorageKeys ReadCommitted List
open Prog hiding bind pure
open Attendance (MeetingStatus VoteStatus)

section Contract

def OnlyPublic (d : Db) : Prop :=
  ∀ row ∈ d.items, row.nonPublic = true → ∀ v ∈ d.votes, v.agendaItem = some row.id → v.seenByGuests = false

def HidesUnseen (item : Uuid) (d e : Db) : Prop :=
  ∀ row ∈ e.items, row.id = item → row.nonPublic = true → d.hasGuestVote item = false

def OpensPublic (v : Uuid) (d e : Db) : Prop :=
  ∀ vote ∈ e.votes, vote.id = v → vote.status = .open → vote.guestsVote = true →
    ∀ row ∈ d.items, vote.agendaItem = some row.id → row.nonPublic = false

instance (item : Uuid) (d e : Db) : Decidable (HidesUnseen item d e) :=
  inferInstanceAs (Decidable (∀ row ∈ e.items, row.id = item → row.nonPublic = true → d.hasGuestVote item = false))

instance (v : Uuid) (d e : Db) : Decidable (OpensPublic v d e) :=
  inferInstanceAs (Decidable (∀ vote ∈ e.votes, vote.id = v → vote.status = .open → vote.guestsVote = true →
    ∀ row ∈ d.items, vote.agendaItem = some row.id → row.nonPublic = false))

/-- The commit of an edit or of an open finds the other table as its check read it. -/
def InOrder : Request → Db → Db → Prop
  | .setBody b, d, e => HidesUnseen b.item d e
  | .openVote o, d, e => OpensPublic o.vote d e
  | .createVote c, d, e => OpensPublic c.id d e
  | _, _, _ => True

instance (r : Request) (d e : Db) : Decidable (InOrder r d e) :=
  match r with
  | .setBody b => inferInstanceAs (Decidable (HidesUnseen b.item d e))
  | .openVote o => inferInstanceAs (Decidable (OpensPublic o.vote d e))
  | .createVote c => inferInstanceAs (Decidable (OpensPublic c.id d e))
  | .updateVote _ | .closeVote _ _ | .cancelVote _ | .cast _ | .join _ | .joinElsewhere _ _ | .decide _ _ _
  | .admitAll _ | .leave _ _ _ | .patch _ | .protocol _ => isTrue trivial

def BallotOfAdmitted (d e : Db) : Prop :=
  (e.markers = d.markers ∧ e.ballots = d.ballots) ∨
    ∃ g ∈ d.guests, g.status = .admitted ∧ ∃ v choice,
      e.markers = d.markers ++ [(v, guestVoterSub g.id)] ∧ e.ballots = d.ballots ++ [(v, choice)]

instance (d : Db) : Decidable (OnlyPublic d) :=
  inferInstanceAs (Decidable (∀ row ∈ d.items, row.nonPublic = true → ∀ v ∈ d.votes, v.agendaItem = some row.id →
    v.seenByGuests = false))

def Inv (d : Db) : Prop := (d.votes.map (·.id)).Nodup

structure Frame (votes guests : Uuid → Prop) (d e : Db) : Prop where
  votes : ∀ row : Vote, votes row.id → (row ∈ e.votes ↔ row ∈ d.votes)
  guests : ∀ row : Guest, guests row.id → (row ∈ e.guests ↔ row ∈ d.guests)

structure Effect (r : Request) (d e : Db) : Prop where
  ballots : BallotOfAdmitted d e
  inOrder : OnlyPublic d → (InOrder r d e ↔ OnlyPublic e)

theorem Frame.refl (votes guests : Uuid → Prop) (d : Db) : Frame votes guests d d := ⟨fun _ _ => Iff.rfl, fun _ _ => Iff.rfl⟩

theorem Frame.trans {votes guests : Uuid → Prop} {d e f : Db} (h : Frame votes guests d e) (h' : Frame votes guests e f) :
    Frame votes guests d f :=
  ⟨fun row hrow => (h'.votes row hrow).trans (h.votes row hrow), fun row hrow => (h'.guests row hrow).trans (h.guests row hrow)⟩

theorem Frame.imp {votes votes' guests guests' : Uuid → Prop} {d e : Db} (h : Frame votes guests d e)
    (hvotes : ∀ id, votes' id → votes id) (hguests : ∀ id, guests' id → guests id) : Frame votes' guests' d e :=
  ⟨fun row hrow => h.votes row (hvotes _ hrow), fun row hrow => h.guests row (hguests _ hrow)⟩

def contract : Contract Request Db Key where
  inv := Inv
  rely held := Frame (Key.vote · ∈ held) (Key.guest · ∈ held)
  guar r held d e := Frame (Key.vote · ∉ held) (Key.guest · ∉ held) d e ∧ Effect r d e
  refl _ _ := Frame.refl _ _ _
  trans := Frame.trans
  compat _ hguar hfree := hguar.1.imp (fun _ hk => hfree.not_mem hk) fun _ hk => hfree.not_mem hk

def Ready (r : Request) (l : Loc Db Key) (d : Db) : Prop :=
  ∀ e, contract.rely l.held d e → Inv e → Inv (l.pend e) ∧ contract.guar r l.held e (l.pend e)

theorem wp_ready {r : Request} {l : Loc Db Key} {d : Db} (h : Ready r l d) :
    wp contract r (publish : P Unit) (fun _ _ _ => True) l d :=
  fun e hrely hinv => ⟨(h e hrely hinv).1, (h e hrely hinv).2, trivial⟩

end Contract

section Effects

variable {r : Request} {d e : Db}

theorem opensPublic_of_items (hitems : e.items = d.items) (h : OnlyPublic e) (v : Uuid) : OpensPublic v d e := by
  intro vote hvote _ hopen hguests row hrow hitem
  cases hpublic : row.nonPublic with
  | false => rfl
  | true =>
    have hseen := h row (hitems ▸ hrow) hpublic vote hvote hitem
    simp [Vote.seenByGuests, hopen, hguests] at hseen

theorem hidesUnseen_of_votes (hvotes : e.votes = d.votes) (h : OnlyPublic e) (item : Uuid) : HidesUnseen item d e := by
  intro row hrow hsame hnonPublic
  rw [Db.hasGuestVote, any_eq_false]
  intro v hv
  by_cases hitem : v.agendaItem = some item
  · simp [h row hrow hnonPublic v (hvotes ▸ hv) (hsame ▸ hitem)]
  · simp [hitem]

theorem inOrder_of_items (hr : ∀ b, r ≠ .setBody b) (hitems : e.items = d.items) (h : OnlyPublic e) : InOrder r d e := by
  cases r with
  | setBody b => exact absurd rfl (hr b)
  | openVote o => exact opensPublic_of_items hitems h o.vote
  | createVote c => exact opensPublic_of_items hitems h c.id
  | _ => trivial

theorem Effect.of_items (hr : ∀ b, r ≠ .setBody b) (hitems : e.items = d.items) (hballots : BallotOfAdmitted d e)
    (hseen : InOrder r d e → ∀ v ∈ e.votes, v.seenByGuests = true →
      (∃ w ∈ d.votes, w.agendaItem = v.agendaItem ∧ w.seenByGuests = true) ∨
        ∀ row ∈ d.items, v.agendaItem = some row.id → row.nonPublic = false) : Effect r d e where
  ballots := hballots
  inOrder hpublic := by
    refine ⟨fun hin row hrow hnonPublic v hv hitem => ?_, inOrder_of_items hr hitems⟩
    have hrow : row ∈ d.items := hitems ▸ hrow
    cases hv' : v.seenByGuests with
    | false => rfl
    | true =>
      rcases hseen hin v hv hv' with ⟨w, hw, hsame, hwseen⟩ | hitems
      · rw [hpublic row hrow hnonPublic w hw (hsame.trans hitem)] at hwseen
        cases hwseen
      · rw [hitems row hrow hitem] at hnonPublic
        cases hnonPublic

theorem Effect.of_setItem {b : SetBody} {f : AgendaItem → AgendaItem} (hid : ∀ row, (f row).id = row.id) :
    Effect (.setBody b) d (d.setItem b.item f) where
  ballots := .inl ⟨rfl, rfl⟩
  inOrder hpublic := by
    constructor
    · intro hin row hrow hnonPublic v hv hitem
      by_cases hsame : row.id = b.item
      · have hnone := hin row hrow hsame hnonPublic
        rw [Db.hasGuestVote, any_eq_false] at hnone
        have := hnone v hv
        rw [← hsame] at this
        simpa [hitem] using this
      · obtain ⟨old, hold, hrow⟩ := mem_map.mp hrow
        split at hrow
        case isTrue heq =>
          rw [← hrow, hid] at hsame
          exact absurd heq hsame
        case isFalse => exact hpublic row (hrow ▸ hold) hnonPublic v hv hitem
    · exact fun h => hidesUnseen_of_votes rfl h b.item

theorem Effect.of_noEdit (b : SetBody) : Effect (.setBody b) d d :=
  ⟨.inl ⟨rfl, rfl⟩, fun hpublic => ⟨fun _ => hpublic, fun h => hidesUnseen_of_votes rfl h b.item⟩⟩

end Effects

section Quiet

variable {α β : Type} {r : Request} {held : List Key} {need : List Key}
variable {w : Db → Db} {key : Db → Option Key} {f : α → P Unit}

/-- Pending writes that touch no item and no ballot, show no further vote to the guests and
change rows under their locks only. -/
structure Quiet (held : List Key) (w : Db → Db) : Prop where
  items : ∀ x, (w x).items = x.items
  markers : ∀ x, (w x).markers = x.markers
  ballots : ∀ x, (w x).ballots = x.ballots
  ids : ∀ x, (w x).votes.map (·.id) = x.votes.map (·.id)
  seen : ∀ x, ∀ v ∈ (w x).votes, v.seenByGuests = true → v ∈ x.votes
  frame : ∀ x, Frame (Key.vote · ∉ held) (Key.guest · ∉ held) x (w x)

theorem Quiet.id : Quiet held id :=
  ⟨fun _ => rfl, fun _ => rfl, fun _ => rfl, fun _ => rfl, fun _ _ hv _ => hv, fun _ => Frame.refl _ _ _⟩

theorem Quiet.mono {held' : List Key} (h : Quiet held w) (hsub : held ⊆ held') : Quiet held' w :=
  { h with frame := fun x => (h.frame x).imp (fun _ hk hmem => hk (hsub hmem)) fun _ hk hmem => hk (hsub hmem) }

theorem Quiet.comp {w' : Db → Db} (h : Quiet held w) (h' : Quiet held w') : Quiet held (w' ∘ w) where
  items x := (h'.items (w x)).trans (h.items x)
  markers x := (h'.markers (w x)).trans (h.markers x)
  ballots x := (h'.ballots (w x)).trans (h.ballots x)
  ids x := (h'.ids (w x)).trans (h.ids x)
  seen x v hv hseen := h.seen x v (h'.seen (w x) v hv hseen) hseen
  frame x := (h.frame x).trans (h'.frame (w x))

theorem Quiet.ready {l : Loc Db Key} {d : Db} (h : Quiet l.held l.pend) (hr : ∀ b, r ≠ .setBody b) : Ready r l d := by
  intro e _ hinv
  refine ⟨?_, h.frame e, ?_⟩
  · rw [Inv, h.ids]
    exact hinv
  · exact Effect.of_items hr (h.items e) (.inl ⟨h.markers e, h.ballots e⟩)
      fun _ v hv hseen => .inl ⟨v, h.seen e v hv hseen, rfl, hseen⟩

theorem Quiet.of_guests (hitems : ∀ x, (w x).items = x.items) (hvotes : ∀ x, (w x).votes = x.votes)
    (hmarkers : ∀ x, (w x).markers = x.markers) (hballots : ∀ x, (w x).ballots = x.ballots)
    (hguests : ∀ x, ∀ row : Guest, .guest row.id ∉ held → (row ∈ (w x).guests ↔ row ∈ x.guests)) : Quiet held w where
  items := hitems
  markers := hmarkers
  ballots := hballots
  ids x := by rw [hvotes]
  seen x v hv _ := hvotes x ▸ hv
  frame x := ⟨fun row _ => by rw [hvotes], hguests x⟩

theorem mem_modify {Row : Type} {key : Row → Uuid} {k : Uuid} {f : Row → Row} (hf : ∀ r, key (f r) = key r)
    {rows : List Row} {row : Row} (hk : key row ≠ k) : row ∈ Table.modify key k f rows ↔ row ∈ rows := by
  rw [Table.modify, mem_map]
  constructor
  · rintro ⟨old, hold, rfl⟩
    split at hk
    case isTrue heq => exact absurd ((hf old).trans heq) hk
    case isFalse hne =>
      rw [if_neg hne]
      exact hold
  · exact fun hrow => ⟨row, hrow, if_neg hk⟩

theorem Quiet.setGuest {id : Uuid} {f : Guest → Guest} (hf : ∀ g, (f g).id = g.id) (hheld : .guest id ∈ held) :
    Quiet held (·.setGuest id f) := by
  refine .of_guests (fun _ => rfl) (fun _ => rfl) (fun _ => rfl) (fun _ => rfl) fun x row hrow => ?_
  exact mem_modify hf fun h : row.id = id => hrow (h ▸ hheld)

theorem Quiet.deleteGuest {id : Uuid} (hheld : .guest id ∈ held) : Quiet held (·.deleteGuest id) := by
  refine .of_guests (fun _ => rfl) (fun _ => rfl) (fun _ => rfl) (fun _ => rfl) fun x row hrow => ?_
  have hne : row.id ≠ id := fun h => hrow (h ▸ hheld)
  simp [Db.deleteGuest, hne]

theorem Quiet.insertGuest {g : Guest} (hheld : .guest g.id ∈ held) : Quiet held (·.insertGuest g) := by
  refine .of_guests (fun _ => rfl) (fun _ => rfl) (fun _ => rfl) (fun _ => rfl) fun x row hrow => ?_
  have hne : row ≠ g := fun h => hrow (h ▸ hheld)
  simp [Db.insertGuest, hne]

theorem Quiet.setMeeting (f : Meeting → Meeting) : Quiet held (·.setMeeting f) :=
  .of_guests (fun _ => rfl) (fun _ => rfl) (fun _ => rfl) (fun _ => rfl) fun _ _ _ => Iff.rfl

theorem Quiet.setProtocol (draft : Bool) : Quiet held (·.setProtocol draft) :=
  .of_guests (fun _ => rfl) (fun _ => rfl) (fun _ => rfl) (fun _ => rfl) fun _ _ _ => Iff.rfl

theorem Quiet.cancelVote {id : Uuid} (hheld : .vote id ∈ held) :
    Quiet held (·.setVote id (Vote.withStatus .cancelled)) where
  items _ := rfl
  markers _ := rfl
  ballots _ := rfl
  ids x := Table.modify_keys (f := Vote.withStatus .cancelled) (fun _ => rfl) x.votes
  seen x v hv hseen := by
    obtain ⟨old, hold, rfl⟩ := mem_map.mp hv
    split at hseen
    case isTrue => cases hseen
    case isFalse hne =>
      rw [if_neg hne]
      exact hold
  frame x := by
    refine ⟨fun row hrow => ?_, fun _ _ => Iff.rfl⟩
    exact mem_modify (f := Vote.withStatus .cancelled) (fun _ => rfl) fun h : row.id = id => hrow (h ▸ hheld)

/-- A part of a program that only adds quiet writes, with the locks that it starts from. -/
def Quietly (need : List Key) (p : P α) : Prop :=
  ∀ (r : Request) (l : Loc Db Key) (d : Db), Inv d → Quiet l.held l.pend → need ⊆ l.held →
    wp contract r p (fun _ l' e => Inv e ∧ Quiet l'.held l'.pend ∧ l.held ⊆ l'.held) l d

theorem Quietly.pure (a : α) : Quietly need (.pure a) := fun _ _ _ hinv hquiet _ => ⟨hinv, hquiet, List.Subset.refl _⟩

theorem Quietly.fail (e : Problem) : Quietly need (.fail e : P α) := fun _ _ _ _ _ _ => trivial

theorem Quietly.query : Quietly need (query : P Db) :=
  fun _ _ _ _ hquiet _ _ _ hinv => ⟨hinv, hquiet, List.Subset.refl _⟩

theorem Quietly.require (b : Bool) (e : Problem) : Quietly need (require b e : P Unit) := by
  cases b with
  | false => exact Quietly.fail e
  | true => exact Quietly.pure ()

theorem Quietly.ofOption (x : Option α) (e : Problem) : Quietly need (ofOption x e : P α) := by
  cases x with
  | none => exact Quietly.fail e
  | some a => exact Quietly.pure a

theorem Quietly.raiseAny (problem : Option Problem) : Quietly need (raiseAny problem) := by
  cases problem with
  | none => exact Quietly.pure ()
  | some e => exact Quietly.fail e

theorem Quietly.bind {p : P α} {f : α → P β} (hp : Quietly need p) (hf : ∀ a, Quietly need (f a)) :
    Quietly need (p >>= f) := by
  intro r l d hinv hquiet hneed
  rw [wp_do]
  refine wp_mono (fun a l' e h => ?_) (hp r l d hinv hquiet hneed)
  obtain ⟨hinv', hquiet', hsub⟩ := h
  refine wp_mono (fun b l'' f h => ?_) (hf a r l' e hinv' hquiet' fun k hk => hsub (hneed hk))
  exact ⟨h.1, h.2.1, fun k hk => h.2.2 (hsub hk)⟩

theorem Quietly.update (hw : ∀ held, need ⊆ held → Quiet held w) : Quietly need (update w) :=
  fun _ _ _ hinv hquiet hneed => ⟨hinv, hquiet.comp (hw _ hneed), List.Subset.refl _⟩

theorem Quietly.lock {f : Db → P α} (hf : ∀ db, Quietly ((key db).toList ++ need) (f db)) :
    Quietly need (lockRow key >>= f) := by
  intro r l d _ hquiet hneed
  rw [wp_do, wp_lockRow]
  intro e _ hinv
  cases hkey : key (l.pend e) with
  | none =>
    have := hf (l.pend e) r l e hinv hquiet
    rw [hkey] at this
    exact this hneed
  | some k =>
    have := hf (l.pend e) r ⟨l.pend, k :: l.held⟩ e hinv (hquiet.mono (subset_cons_self _ _))
    rw [hkey] at this
    have hsub : [k] ++ need ⊆ k :: l.held := cons_subset_cons k hneed
    exact wp_mono (fun _ _ _ h => ⟨h.1, h.2.1, fun k' hk' => h.2.2 (mem_cons_of_mem _ hk')⟩) (this hsub)

theorem Quietly.forEach {ids : List α} (hf : ∀ a, Quietly need (f a)) : Quietly need (forEach ids f) := by
  induction ids with
  | nil => exact Quietly.pure ()
  | cons a ids ih => exact Quietly.bind (hf a) fun _ => ih

def Ends (r : Request) (need : List Key) (p : P Unit) : Prop :=
  ∀ (l : Loc Db Key) (d : Db), Inv d → Quiet l.held l.pend → need ⊆ l.held → wp contract r p (fun _ _ _ => True) l d

theorem Ends.publish (hr : ∀ b, r ≠ .setBody b) : Ends r need publish :=
  fun _ _ _ hquiet _ => wp_ready (hquiet.ready hr)

theorem Ends.of_quietly {p : P Unit} (hp : Quietly need p) : Ends r need p :=
  fun l d hinv hquiet hneed => wp_mono (fun _ _ _ _ => trivial) (hp r l d hinv hquiet hneed)

theorem Ends.bind {p : P α} (hp : Quietly need p) (hf : ∀ a, Ends r need (f a)) : Ends r need (p >>= f) := by
  intro l d hinv hquiet hneed
  rw [wp_do]
  refine wp_mono (fun a l' e h => ?_) (hp r l d hinv hquiet hneed)
  exact hf a l' e h.1 h.2.1 fun k hk => h.2.2 (hneed hk)

theorem Ends.lock {f : Db → P Unit} (hf : ∀ db, Ends r ((key db).toList ++ need) (f db)) :
    Ends r need (lockRow key >>= f) := by
  intro l d _ hquiet hneed
  rw [wp_do, wp_lockRow]
  intro e _ hinv
  have hrest := hf (l.pend e)
  cases hkey : key (l.pend e) with
  | none =>
    rw [hkey] at hrest
    exact hrest l e hinv hquiet hneed
  | some k =>
    rw [hkey] at hrest
    exact hrest ⟨l.pend, k :: l.held⟩ e hinv (hquiet.mono (subset_cons_self _ _)) (cons_subset_cons k hneed)

theorem Ends.ofOption {x : Option α} {e : Problem} (hf : ∀ a, x = some a → Ends r need (f a)) :
    Ends r need (ofOption x e >>= f) := by
  cases x with
  | none => exact Ends.of_quietly (Quietly.fail e)
  | some a => exact hf a rfl

theorem Ends.keeps {p : P Unit} (hp : Ends r [] p) : Keeps contract r p :=
  fun d hinv => hp .fresh d hinv Quiet.id (nil_subset _)

end Quiet

section GuestPrograms

variable {r : Request} {need : List Key}

theorem release_id (now : Time) (g : Guest) : (g.release now).id = g.id := by
  rw [Guest.release]
  split
  · rfl
  · rfl

theorem checkRetry_quietly (g : Guest) (now : Time) : Quietly need (checkRetry g now) := by
  rw [checkRetry]
  cases retryAfter g now with
  | none => exact Quietly.pure ()
  | some wait => exact Quietly.fail _

theorem setGuest_quietly {id : Uuid} {f : Guest → Guest} (hf : ∀ g, (f g).id = g.id) (hmem : .guest id ∈ need) :
    Quietly need (update (·.setGuest id f) : P Unit) :=
  Quietly.update fun _ hsub => Quiet.setGuest hf (hsub hmem)

theorem rejoin_quietly (g : Guest) (now : Time) (hmem : .guest g.id ∈ need) : Quietly need (rejoin g now) := by
  refine Quietly.bind (Quietly.require _ _) fun _ => Quietly.bind (checkRetry_quietly g now) fun _ => ?_
  exact setGuest_quietly (fun _ => rfl) hmem

theorem joinNew_quietly (existing : Option Guest) (j : Join) (hmem : ∀ g, existing = some g → .guest g.id ∈ need) :
    Quietly need (joinNew existing j) := by
  have hinsert : Quietly need ((lockRow fun _ => some (.guest j.id)) >>= fun db : Db =>
      (require (db.guest j.id).isNone .integrityError : P Unit) >>= fun _ =>
        update (·.insertGuest ⟨j.id, .pending, some j.newToken, none, none⟩)) := by
    refine Quietly.lock fun db => Quietly.bind (Quietly.require _ _) fun _ => Quietly.update fun held hsub => ?_
    exact Quiet.insertGuest (hsub (by simp))
  cases existing with
  | none => exact hinsert
  | some g =>
    refine Quietly.bind (checkRetry_quietly g j.now) fun _ => ?_
    exact Quietly.bind (setGuest_quietly (fun _ => rfl) (hmem g rfl)) fun _ => hinsert

theorem join_keeps (j : Join) : Keeps contract (.join j) (join j) := by
  refine Ends.keeps (Ends.lock fun _ => Ends.bind (Quietly.require _ _) fun _ => Ends.lock fun db => ?_)
  have hend : ∀ need, Ends (.join j) need publish := fun need => Ends.publish fun b => by simp
  cases hguest : db.guestOf j.tokenHash with
  | none => exact Ends.bind (joinNew_quietly none j (by simp)) fun _ => hend _
  | some g =>
    dsimp only
    split
    · exact Ends.bind (rejoin_quietly g j.now (by simp)) fun _ => hend _
    · exact Ends.bind (joinNew_quietly (some g) j (by simp)) fun _ => hend _

theorem joinElsewhere_keeps (tokenHash : Option Text) (now : Time) :
    Keeps contract (.joinElsewhere tokenHash now) (joinElsewhere tokenHash now) := by
  refine Ends.keeps (Ends.lock fun db => ?_)
  cases db.guestOf tokenHash with
  | none => exact Ends.of_quietly (Quietly.pure ())
  | some g =>
    refine Ends.bind (setGuest_quietly (release_id now) (by simp)) fun _ => ?_
    exact Ends.publish fun b => by simp

theorem assertOpen_quietly (m : Meeting) : Quietly need (assertOpen m) :=
  Quietly.bind (Quietly.require _ _) fun _ => Quietly.require _ _

theorem decideGuest_keeps (id : Uuid) (verdict : Decision) (now : Time) :
    Keeps contract (.decide id verdict now) (decideGuest id verdict now) := by
  refine Ends.keeps (Ends.lock fun _ => Ends.bind (assertOpen_quietly _) fun _ => Ends.lock fun db => ?_)
  refine Ends.ofOption fun g hguest => Ends.bind (Quietly.require _ _) fun _ => ?_
  refine Ends.bind (setGuest_quietly (fun _ => rfl) (by simp [hguest])) fun _ => ?_
  exact Ends.publish fun b => by simp

theorem eachGuest_quietly (status : GuestStatus) {w : Uuid → Db → Db}
    (hw : ∀ id held, .guest id ∈ held → Quiet held (w id)) : Quietly need (eachGuest status w) := by
  refine Quietly.bind Quietly.query fun db => Quietly.forEach fun id => Quietly.lock fun db => ?_
  split
  · exact Quietly.update fun held hsub => hw id held (hsub (by simp))
  · exact Quietly.pure ()

theorem decided_quiet (status : GuestStatus) (now : Time) (id : Uuid) (held : List Key) (hmem : .guest id ∈ held) :
    Quiet held (·.setGuest id (Guest.decided status now)) := Quiet.setGuest (fun _ => rfl) hmem

theorem admitAll_keeps (now : Time) : Keeps contract (.admitAll now) (admitAll now) := by
  refine Ends.keeps (Ends.lock fun _ => Ends.bind (assertOpen_quietly _) fun _ => ?_)
  exact Ends.bind (eachGuest_quietly .pending (decided_quiet .admitted now)) fun _ => Ends.publish fun b => by simp

theorem wp_resolve {code : Text} {tokenHash : Option Text} {d : Db} {Q : Meeting × Guest → Loc Db Key → Db → Prop}
    (h : ∀ e m g, Inv e → g ∈ e.guests → Q (m, g) ⟨id, [.guest g.id]⟩ e) :
    wp contract r (resolve code tokenHash) Q .fresh d := by
  rw [resolve]
  simp only [wp_do, wp_require, wp_lockRow, wp_ofOption, wp_query]
  intro _ e _ hinv
  cases hguest : e.guestOf tokenHash with
  | none => simp [Loc.fresh, hguest]
  | some g =>
    simp only [Loc.fresh, id_eq, hguest, Option.map_some]
    rintro g' hg' f hrely hinv' _ _
    obtain rfl := Option.some.inj hg'
    refine h f f.meeting g hinv' ((hrely.guests g mem_cons_self).mpr ?_)
    obtain ⟨hash, _, hfind⟩ := Option.bind_eq_some_iff.mp hguest
    exact mem_of_find?_eq_some hfind

theorem leave_keeps (code : Text) (tokenHash : Option Text) (now : Time) :
    Keeps contract (.leave code tokenHash now) (leave code tokenHash now) := by
  intro d _
  rw [leave, wp_do]
  refine wp_resolve fun e m g hinv _ => ?_
  have hend : Ends (.leave code tokenHash now) [.guest g.id]
      ((update (·.setGuest g.id (Guest.release now)) : P Unit) >>= fun _ => publish) :=
    Ends.bind (setGuest_quietly (release_id now) (by simp)) fun _ => Ends.publish fun b => by simp
  exact hend _ e hinv Quiet.id (List.Subset.refl _)

end GuestPrograms

section VotePrograms

variable {r : Request} {held : List Key} {d : Db}

theorem wp_lockVote {v : Uuid} {Q : Vote → Loc Db Key → Db → Prop}
    (h : ∀ e vote, contract.rely held d e → Inv e → e.vote v = some vote → Q vote ⟨id, .vote v :: held⟩ e) :
    wp contract r (lockVote v) Q ⟨id, held⟩ d := by
  rw [lockVote, wp_do, wp_lockRow]
  intro e hrely hinv
  cases hvote : e.vote v with
  | none => simp [hvote]
  | some vote =>
    simp only [id_eq, hvote, Option.map_some, wp_ofOption]
    rintro vote' hvote'
    obtain rfl := Option.some.inj hvote'
    exact h e vote hrely hinv hvote

theorem eq_of_vote (hinv : Inv d) {v : Uuid} {vote : Vote} (h : d.vote v = some vote) {row : Vote} (hrow : row ∈ d.votes)
    (hid : row.id = v) : row = vote := by
  have hfind : vote ∈ d.votes := mem_of_find?_eq_some h
  have hsame : vote.id = v := by simpa using find?_some h
  exact inj_on_of_nodup_map hinv hrow hfind (hid.trans hsame.symm)

theorem locked_vote {v : Uuid} {vote : Vote} {e : Db} (hinv : Inv d) (hvote : d.vote v = some vote)
    (hrely : contract.rely held d e) (hheld : .vote v ∈ held) {row : Vote} (hrow : row ∈ e.votes) (hid : row.id = v) :
    row = vote := by
  have hheld : Key.vote row.id ∈ held := hid ▸ hheld
  exact eq_of_vote hinv hvote ((hrely.votes row hheld).mp hrow) hid

theorem setVote_ready {v : Uuid} {f : Vote → Vote} (hr : ∀ b, r ≠ .setBody b) (hheld : .vote v ∈ held)
    (hid : ∀ w, (f w).id = w.id) (hitem : ∀ w, (f w).agendaItem = w.agendaItem)
    (h : ∀ e, contract.rely held d e → InOrder r e (e.setVote v f) → ∀ w ∈ e.votes, w.id = v →
      (f w).seenByGuests = true →
        w.seenByGuests = true ∨ ∀ row ∈ e.items, w.agendaItem = some row.id → row.nonPublic = false) :
    Ready r ⟨(·.setVote v f), held⟩ d := by
  intro e hrely hinv
  refine ⟨?_, ⟨fun row hrow => ?_, fun _ _ => Iff.rfl⟩, ?_⟩
  · show ((Table.modify (·.id) v f e.votes).map (·.id)).Nodup
    rw [Table.modify_keys hid]
    exact hinv
  · exact mem_modify hid fun h : row.id = v => hrow (h ▸ hheld)
  · refine Effect.of_items hr rfl (.inl ⟨rfl, rfl⟩) fun hin w hw hseen => ?_
    obtain ⟨old, hold, rfl⟩ := mem_map.mp hw
    split at hseen
    case isTrue hsame =>
      rw [if_pos hsame, hitem]
      rcases h e hrely hin old hold hsame hseen with hwas | hpublic
      · exact .inl ⟨old, hold, rfl, hwas⟩
      · exact .inr hpublic
    case isFalse hne =>
      rw [if_neg hne]
      exact .inl ⟨old, hold, rfl, hseen⟩

theorem insertVote_ready {v : Vote} (hr : ∀ b, r ≠ .setBody b) (hheld : .vote v.id ∈ held) (hnew : d.vote v.id = none)
    (hdraft : v.status = .draft) : Ready r ⟨(·.insertVote v), held⟩ d := by
  intro e hrely hinv
  have hfresh : v.id ∉ e.votes.map (·.id) := by
    intro hmem
    obtain ⟨row, hrow, hid⟩ := mem_map.mp hmem
    have hold : row ∈ d.votes := (hrely.votes row (show Key.vote row.id ∈ held from hid ▸ hheld)).mp hrow
    have hnone := find?_eq_none.mp hnew row hold
    simp [hid] at hnone
  refine ⟨?_, ⟨fun row hrow => ?_, fun _ _ => Iff.rfl⟩, ?_⟩
  · exact Table.nodup_insert hinv fun w hw heq => hfresh (heq ▸ mem_map_of_mem hw)
  · have hne : row ≠ v := fun h => hrow (h ▸ hheld)
    simp [Db.insertVote, hne]
  · refine Effect.of_items hr rfl (.inl ⟨rfl, rfl⟩) fun _ w hw hseen => ?_
    rcases mem_append.mp hw with hold | hlast
    · exact .inl ⟨w, hold, rfl, hseen⟩
    · rw [mem_singleton.mp hlast] at hseen
      simp [Vote.seenByGuests, hdraft] at hseen

/-- A part of a program that reads only. -/
def Reads {α : Type} (p : P α) : Prop :=
  ∀ (r : Request) (Q : α → Loc Db Key → Db → Prop) (l : Loc Db Key) (d : Db), Inv d →
    (∀ a e, contract.rely l.held d e → Inv e → Q a l e) → wp contract r p Q l d

section Reads

variable {α β : Type}

theorem Reads.pure (a : α) : Reads (.pure a) := fun _ _ _ d hinv h => h a d (contract.refl _ _) hinv

theorem Reads.fail (e : Problem) : Reads (.fail e : P α) := fun _ _ _ _ _ _ => trivial

theorem Reads.query : Reads (query : P Db) := fun _ _ _ _ _ h e hrely hinv => h _ e hrely hinv

theorem Reads.require (b : Bool) (e : Problem) : Reads (require b e : P Unit) := by
  cases b with
  | false => exact Reads.fail e
  | true => exact Reads.pure ()

theorem Reads.ofOption (x : Option α) (e : Problem) : Reads (ofOption x e : P α) := by
  cases x with
  | none => exact Reads.fail e
  | some a => exact Reads.pure a

theorem Reads.ofExcept (x : Except Problem α) : Reads (ofExcept x : P α) := by
  cases x with
  | ok a => exact Reads.pure a
  | error e => exact Reads.fail e

theorem Reads.raiseAny (problem : Option Problem) : Reads (raiseAny problem) := by
  cases problem with
  | none => exact Reads.pure ()
  | some e => exact Reads.fail e

theorem Reads.bind {p : P α} {f : α → P β} (hp : Reads p) (hf : ∀ a, Reads (f a)) : Reads (p >>= f) := by
  intro r Q l d hinv h
  rw [wp_do]
  refine hp r _ l d hinv fun a e hrely hinv' => ?_
  exact hf a r Q l e hinv' fun b f hrely' => h b f (contract.trans hrely hrely')

theorem Reads.wp_then {p : P α} (hp : Reads p) {f : α → P β} {Q : β → Loc Db Key → Db → Prop} {l : Loc Db Key}
    (hinv : Inv d) (h : ∀ a e, contract.rely l.held d e → Inv e → wp contract r (f a) Q l e) :
    wp contract r (p >>= f) Q l d := by
  rw [wp_do]
  exact hp r _ l d hinv h

theorem agendaItem_reads (id : Uuid) : Reads (agendaItem id) := Reads.query.bind fun _ => Reads.ofOption _ _

theorem assertVoteWindow_reads (m : Meeting) (draft : Bool) : Reads (assertVoteWindow m draft) :=
  (Reads.require _ _).bind fun _ => Reads.require _ _

theorem buildMeetingVote_reads (m : Meeting) (item : AgendaItem) (b : VoteBody) : Reads (buildMeetingVote m item b) :=
  (Reads.require _ _).bind fun _ => (Reads.require _ _).bind fun _ => (Reads.require _ _).bind fun _ =>
    (Reads.require _ _).bind fun _ => (Reads.raiseAny _).bind fun _ => Reads.pure _

theorem publicItem_reads (item : Option Uuid) : Reads (publicItem item) := by
  cases item with
  | none => exact Reads.pure false
  | some id => exact Reads.query.bind fun _ => Reads.pure _

theorem newTitle_reads (row : AgendaItem) (title : Option Text) : Reads (newTitle row title) := by
  cases title with
  | none => exact Reads.pure _
  | some title =>
    rw [newTitle, ownTitle]
    cases row.application with
    | none => exact Reads.pure _
    | some application => exact Reads.query.bind fun _ => Reads.pure _

theorem assertMinutesOpen_reads (edits : Bool) (m : Meeting) : Reads (assertMinutesOpen edits m) := by
  rw [assertMinutesOpen]
  split
  · exact Reads.query.bind fun _ => Reads.require _ _
  · exact Reads.pure ()

theorem assertUnseen_reads (hides : Bool) (item : Uuid) : Reads (assertUnseen hides item) := by
  rw [assertUnseen]
  split
  · exact Reads.query.bind fun _ => Reads.require _ _
  · exact Reads.pure ()

theorem assertGuestsVote_reads (m : Meeting) (vote : Vote) : Reads (assertGuestsVote m vote) := by
  rw [assertGuestsVote]
  split
  · exact Reads.pure ()
  · cases vote.agendaItem with
    | none => exact Reads.require _ _
    | some id => exact (agendaItem_reads id).bind fun _ => Reads.require _ _

end Reads

theorem wp_lockLiveMeeting {item : Option Uuid} {plannedOk : Bool} {Q : Unit → Loc Db Key → Db → Prop}
    (h : ∀ e, Inv e → Q () ⟨id, [.meeting]⟩ e) : wp contract r (lockLiveMeeting item plannedOk) Q .fresh d := by
  unfold lockLiveMeeting
  rw [wp_do, wp_lockRow]
  intro e _ hinv
  have hreads : ∀ {p : P Unit}, Reads p → ∀ l, (∀ f, Inv f → Q () l f) → wp contract r p Q l e :=
    fun hp l hQ => hp r Q l e hinv fun _ f _ hinv' => hQ f hinv'
  refine hreads ((Reads.require _ _).bind fun _ => (Reads.require _ _).bind fun _ => ?_) _ h
  cases item with
  | none => exact Reads.pure ()
  | some id => exact (agendaItem_reads id).bind fun _ => Reads.pure ()

theorem wp_openMeetingVote {v : Uuid} (hr : ∀ b, r ≠ .setBody b) (hopens : ∀ e f, InOrder r e f → OpensPublic v e f)
    (refused : Option Problem) : wp contract r (openMeetingVote v refused) (fun _ _ _ => True) .fresh d := by
  rw [openMeetingVote, wp_do]
  refine wp_lockLiveMeeting fun e _ => ?_
  rw [wp_do]
  refine wp_lockVote fun f vote _ hinv _ => ?_
  refine (Reads.require _ _).wp_then hinv fun _ g _ hinv => (Reads.raiseAny refused).wp_then hinv fun _ g _ _ => ?_
  refine wp_ready (setVote_ready hr mem_cons_self (fun _ => rfl) (fun _ => rfl) fun x _ hin w hw hid hseen => .inr ?_)
  have hguests : w.guestsVote = true := by
    simpa [Vote.seenByGuests, Vote.withStatus] using hseen
  exact hopens _ _ hin (w.withStatus .open)
    (mem_map.mpr ⟨w, hw, if_pos hid⟩) hid rfl hguests

theorem endVote_keeps (v : Uuid) {status : VoteStatus} (verb : Text) (refused : Option Problem) (hr : ∀ b, r ≠ .setBody b) :
    Keeps contract r (endVote v status verb refused) := by
  intro d hinv
  rw [endVote, wp_do]
  refine wp_lockVote fun e vote _ hinv hvote => ?_
  rw [wp_do, wp_require]
  intro hopen
  have hopen : vote.status = .open := of_decide_eq_true hopen
  refine (Reads.raiseAny refused).wp_then hinv fun _ f hrely _ => ?_
  refine wp_ready (setVote_ready hr mem_cons_self (fun _ => rfl) (fun _ => rfl) fun x hrely' _ w hw hid hseen => .inl ?_)
  obtain rfl := locked_vote hinv hvote (contract.trans hrely hrely') mem_cons_self hw hid
  have hguests : w.guestsVote = true := by
    simp only [Vote.seenByGuests, Vote.withStatus, Bool.and_eq_true] at hseen
    exact hseen.2
  simp [Vote.seenByGuests, hopen, hguests]

theorem updateVote_keeps (u : UpdateVote) : Keeps contract (.updateVote u) (updateVote u) := by
  intro d hinv
  rw [updateVote, wp_do, wp_query]
  intro e _ hinv
  refine (Reads.raiseAny _).wp_then hinv fun _ e _ hinv => (assertVoteWindow_reads _ _).wp_then hinv fun _ e _ hinv => ?_
  refine (Reads.ofOption _ _).wp_then hinv fun current e _ hinv => (Reads.require _ _).wp_then hinv fun _ e _ hinv => ?_
  refine (agendaItem_reads _).wp_then hinv fun item e _ hinv => ?_
  refine (buildMeetingVote_reads _ _ _).wp_then hinv fun guestsVote e _ hinv => ?_
  rw [wp_do]
  refine wp_lockVote fun f vote _ hinv hvote => ?_
  rw [wp_do, wp_require]
  intro hdraft
  have hdraft : vote.status = .draft := of_decide_eq_true hdraft
  refine wp_ready (setVote_ready (by simp) mem_cons_self (fun _ => rfl) (fun _ => rfl) fun x hrely _ w hw hid hseen => ?_)
  obtain rfl := locked_vote hinv hvote hrely mem_cons_self hw hid
  simp [Vote.seenByGuests, Vote.withGuests, hdraft] at hseen

theorem wp_reopen {reopens : Bool} {Q : Unit → Loc Db Key → Db → Prop} (hr : ∀ b, r ≠ .setBody b) (hinv : Inv d)
    (h : ∀ e, Inv e → Q () .fresh e) : wp contract r (reopenApplication reopens) Q .fresh d := by
  cases reopens with
  | false => exact h d hinv
  | true =>
    intro e _ hinv
    have hready : Ready r .fresh e := Quiet.id.ready hr
    obtain ⟨hinv', hguar⟩ := hready e (contract.refl _ _) hinv
    exact ⟨hinv', hguar, h e hinv⟩

theorem createInternal_wp {v item : Uuid} {guestsVote plannedOk : Bool} {Q : Unit → Loc Db Key → Db → Prop}
    (hr : ∀ b, r ≠ .setBody b) (h : ∀ e, Inv e → Q () .fresh e) :
    wp contract r (createInternal v item guestsVote plannedOk) Q .fresh d := by
  rw [createInternal, wp_do]
  refine wp_lockLiveMeeting fun e _ => ?_
  rw [wp_do, wp_lockRow]
  intro f _ _
  dsimp only
  rw [wp_do, wp_require]
  intro hnone g hrely hinv
  have hnone : f.vote v = none := Option.isNone_iff_eq_none.mp hnone
  have hready : Ready r ⟨(·.insertVote ⟨v, some item, .draft, guestsVote, none⟩), [.vote v, .meeting]⟩ f :=
    insertVote_ready hr mem_cons_self hnone rfl
  obtain ⟨hinv', hguar⟩ := hready g hrely hinv
  exact ⟨hinv', hguar, h _ hinv'⟩

theorem createVote_keeps (c : CreateVote) : Keeps contract (.createVote c) (createVote c) := by
  intro d hinv
  rw [createVote, wp_do, wp_query]
  intro e _ hinv
  refine (Reads.raiseAny _).wp_then hinv fun _ e _ hinv => (assertVoteWindow_reads _ _).wp_then hinv fun _ e _ hinv => ?_
  refine (agendaItem_reads _).wp_then hinv fun item e _ hinv => ?_
  refine (buildMeetingVote_reads _ _ _).wp_then hinv fun guestsVote e _ hinv => ?_
  rw [wp_do]
  refine wp_reopen (by simp) hinv fun e hinv => (Reads.raiseAny _).wp_then hinv fun _ e _ hinv => ?_
  rw [wp_do]
  refine createInternal_wp (by simp) fun f _ => ?_
  split
  · exact wp_openMeetingVote (r := .createVote c) (v := c.id) (by simp) (fun _ _ h => h) c.openRefused
  · trivial

theorem openVote_keeps (o : OpenVote) : Keeps contract (.openVote o) (openVote o) := by
  intro d hinv
  rw [openVote, wp_do, wp_query]
  intro e _ hinv
  refine (Reads.raiseAny _).wp_then hinv fun _ e _ hinv => ?_
  rw [draftOpenChecks, wp_do]
  refine (assertVoteWindow_reads _ _).wp_then hinv fun _ e _ hinv => ?_
  refine (Reads.ofOption _ _).wp_then hinv fun vote e _ hinv => (Reads.require _ _).wp_then hinv fun _ e _ hinv => ?_
  refine (assertGuestsVote_reads _ _).wp_then hinv fun _ e _ hinv => ?_
  rw [wp_do]
  refine wp_reopen (by simp) hinv fun e hinv => (Reads.raiseAny _) _ _ _ e hinv fun _ f _ _ => ?_
  exact wp_openMeetingVote (r := .openVote o) (v := o.vote) (by simp) (fun _ _ h => h) o.openRefused

end VotePrograms

section AgendaPrograms

theorem apply_id (b : SetBody) (row : AgendaItem) (own : Option Text) (stored : AgendaItem) :
    (b.apply row own stored).id = stored.id := rfl

theorem setBody_keeps (b : SetBody) : Keeps contract (.setBody b) (setBody b) := by
  intro d hinv
  rw [setBody, wp_do, wp_query]
  intro e _ _
  rw [wp_do, agendaItem, wp_do, wp_query]
  intro e _ hinv
  rw [wp_ofOption]
  intro row hrow
  have hid : row.id = b.item := by simpa using find?_some hrow
  refine (Reads.require _ _).wp_then hinv fun _ e _ hinv => (assertMinutesOpen_reads _ _).wp_then hinv fun _ e _ hinv => ?_
  refine (newTitle_reads _ _).wp_then hinv fun own e _ hinv => (assertUnseen_reads _ _).wp_then hinv fun _ e _ hinv => ?_
  rw [wp_do, flushItem, hid]
  -- without a change the commit publishes nothing
  split
  · rw [wp_do, wp_lockRow]
    intro f _ _ g _ hinv
    exact ⟨hinv, ⟨⟨fun _ _ => Iff.rfl, fun _ _ => Iff.rfl⟩, Effect.of_setItem (apply_id b row own)⟩, trivial⟩
  · exact fun f _ hinv => ⟨hinv, ⟨Frame.refl _ _ f, Effect.of_noEdit b⟩, trivial⟩

end AgendaPrograms

section MeetingPrograms

variable {need : List Key}

theorem switchOff_quietly (now : Time) : Quietly need (switchOff now) :=
  (eachGuest_quietly .pending fun _ _ hmem => Quiet.deleteGuest hmem).bind fun _ =>
    eachGuest_quietly .admitted (decided_quiet .removed now)

theorem refusePublic_quietly (m : Meeting) (newPublic : Bool) (newMode : GuestsMode) (hasQuorum : Bool) :
    Quietly need (refusePublic m newPublic newMode hasQuorum) :=
  Quietly.query.bind fun _ => (Quietly.require _ _).bind fun _ => Quietly.require _ _

theorem applyPublic_quietly (m : Meeting) (p : PatchMeeting) : Quietly need (applyPublic m p) := by
  rw [applyPublic]
  split
  · exact Quietly.pure ()
  · refine (refusePublic_quietly _ _ _ _).bind fun _ => ?_
    refine (Quietly.update fun held _ => Quiet.setMeeting _).bind fun _ => ?_
    split
    · exact switchOff_quietly p.now
    · exact Quietly.pure ()

theorem cancelDrafts_quietly : Quietly need cancelDrafts := by
  refine Quietly.query.bind fun db => Quietly.forEach fun id => Quietly.lock fun db => ?_
  split
  · exact Quietly.update fun held hsub => Quiet.cancelVote (hsub (by simp))
  · exact Quietly.pure ()

theorem purgeOnClose_quietly : Quietly need purgeOnClose := by
  refine Quietly.query.bind fun db => Quietly.forEach fun id => Quietly.lock fun db => ?_
  split
  · exact Quietly.update fun held hsub => Quiet.deleteGuest (hsub (by simp))
  · exact setGuest_quietly (fun _ => rfl) (by simp)

theorem refuseClose_quietly (closing : Bool) : Quietly need (refuseClose closing) := by
  cases closing with
  | false => exact Quietly.pure ()
  | true => exact Quietly.query.bind fun _ => Quietly.require _ _

theorem closeMeeting_quietly (closing : Bool) : Quietly need (closeMeeting closing) := by
  cases closing with
  | false => exact Quietly.pure ()
  | true => exact cancelDrafts_quietly.bind fun _ => purgeOnClose_quietly

theorem patch_keeps (p : PatchMeeting) : Keeps contract (.patch p) (patch p) := by
  refine Ends.keeps (Ends.lock fun db => Ends.bind (Quietly.raiseAny _) fun _ => ?_)
  refine Ends.bind (Quietly.require _ _) fun _ => Ends.bind (refuseClose_quietly _) fun _ => ?_
  refine Ends.bind (Quietly.require _ _) fun _ => Ends.bind (applyPublic_quietly _ p) fun _ => ?_
  refine Ends.bind (Quietly.raiseAny _) fun _ => Ends.bind (closeMeeting_quietly _) fun _ => ?_
  refine Ends.bind (Quietly.update fun held _ => Quiet.setMeeting _) fun _ => ?_
  exact Ends.publish (by simp)

theorem setProtocol_keeps (draft : Bool) : Keeps contract (.protocol draft) (setProtocol draft) :=
  Ends.keeps (Ends.bind (Quietly.update fun _ _ => Quiet.setProtocol draft) fun _ => Ends.publish (by simp))

end MeetingPrograms

section BallotPrograms

variable {d : Db}

theorem insertBallot_ready {r : Request} {held : List Key} {g : Guest} {v : Uuid} {choice : Text}
    (hr : ∀ b, r ≠ .setBody b) (hheld : .guest g.id ∈ held) (hmem : g ∈ d.guests) (hadmitted : g.status = .admitted) :
    Ready r ⟨(·.insertBallot v (guestVoterSub g.id) choice), held⟩ d := by
  intro e hrely hinv
  refine ⟨hinv, ⟨fun _ _ => Iff.rfl, fun _ _ => Iff.rfl⟩, Effect.of_items hr rfl ?_ fun _ w hw hseen => ?_⟩
  · exact .inr ⟨g, (hrely.guests g hheld).mpr hmem, hadmitted, v, choice, rfl, rfl⟩
  · exact .inl ⟨w, hw, rfl, hseen⟩

theorem cast_keeps (c : Cast) : Keeps contract (.cast c) (cast c) := by
  intro d _
  rw [cast, wp_do]
  refine wp_resolve fun e m g hinv hmem => ?_
  rw [wp_do, wp_require]
  intro hadmitted
  have hadmitted : g.status = .admitted := of_decide_eq_true hadmitted
  have hkeep {held : List Key} {e f : Db} (hheld : .guest g.id ∈ held) (hrely : contract.rely held e f)
      (hmem : g ∈ e.guests) : g ∈ f.guests := (hrely.guests g hheld).mpr hmem
  refine (Reads.require _ _).wp_then hinv fun _ e hrely hinv => ?_
  replace hmem := hkeep mem_cons_self hrely hmem
  refine Reads.query.wp_then hinv fun db e hrely hinv => (Reads.ofOption _ _).wp_then hinv fun vote f hrely' hinv => ?_
  replace hmem := hkeep mem_cons_self (contract.trans hrely hrely') hmem
  refine (publicItem_reads _).wp_then hinv fun _ e hrely hinv => (Reads.require _ _).wp_then hinv fun _ f hrely' hinv => ?_
  replace hmem := hkeep mem_cons_self (contract.trans hrely hrely') hmem
  rw [castGuest, wp_do]
  refine wp_lockVote fun e vote hrely hinv _ => ?_
  replace hmem := hkeep mem_cons_self hrely hmem
  have hheld : Key.guest g.id ∈ [Key.vote c.vote, .guest g.id] := by simp
  refine (Reads.require _ _).wp_then hinv fun _ e hrely hinv => (Reads.require _ _).wp_then hinv fun _ f hrely' hinv => ?_
  replace hmem := hkeep hheld (contract.trans hrely hrely') hmem
  refine (Reads.require _ _).wp_then hinv fun _ e hrely hinv => (Reads.ofExcept _).wp_then hinv fun choice f hrely' hinv => ?_
  replace hmem := hkeep hheld (contract.trans hrely hrely') hmem
  rw [castSecret]
  refine Reads.query.wp_then hinv fun db e hrely hinv => (Reads.require _ _).wp_then hinv fun _ f hrely' _ => ?_
  replace hmem := hkeep hheld (contract.trans hrely hrely') hmem
  exact wp_ready (insertBallot_ready (by simp) hheld hmem hadmitted)

end BallotPrograms

section Laws

theorem script_keeps (r : Request) : Keeps contract r (script r) := by
  cases r with
  | setBody b => exact setBody_keeps b
  | createVote c => exact createVote_keeps c
  | updateVote u => exact updateVote_keeps u
  | openVote o => exact openVote_keeps o
  | closeVote v refused => exact endVote_keeps v (text "close") refused (by simp)
  | cancelVote v => exact endVote_keeps v (text "cancel") none (by simp)
  | cast c => exact cast_keeps c
  | join j => exact join_keeps j
  | joinElsewhere tokenHash now => exact joinElsewhere_keeps tokenHash now
  | decide g verdict now => exact decideGuest_keeps g verdict now
  | admitAll now => exact admitAll_keeps now
  | leave code tokenHash now => exact leave_keeps code tokenHash now
  | patch p => exact patch_keeps p
  | protocol draft => exact setProtocol_keeps draft

/-- Every ballot of a guest is inserted for a guest who is admitted at that moment. The
items with votes that guests saw are public all along a run exactly when each commit of an
edit or of an open finds what its check of the other table asked for. -/
theorem guest_votes_stay_public {d : Db} (hinv : Inv d) (hpublic : OnlyPublic d) :
    (∀ es s, run script ⟨d, []⟩ es = some s → ∀ ev r e, commitOf s ev = some (r, e) → BallotOfAdmitted s.db e) ∧
    ∀ es, Guarded InOrder script ⟨d, []⟩ es ↔
      ∀ fs s, fs <+: es → run script ⟨d, []⟩ fs = some s → OnlyPublic s.db := by
  refine ⟨fun es s hrun ev r e hcommit => ?_, fun es => ?_⟩
  · have hsound : Sound contract s := run_sound script_keeps hinv ⟨es, hrun⟩
    obtain ⟨-, held, hguar⟩ := hsound.of_commitOf hcommit
    exact hguar.2.ballots
  · exact guarded_iff (J := OnlyPublic) script_keeps (fun _ h hguar => hguar.2.inOrder h)
      (sound_start (C := contract) hinv) hpublic

/-- A live public meeting with one item, a prepared vote with guests on it and one admitted guest. -/
def openMeeting : Db where
  meeting := ⟨.live, true, .vote, some (text "7KQ4MP")⟩
  protocolDraft := false
  applications := []
  items := [⟨5, none, some (text "Budget"), none, false⟩]
  votes := [⟨7, some 5, .draft, true, none⟩]
  guests := [⟨9, .admitted, some (text "hash"), some 10, some 10⟩]
  markers := []
  ballots := []

theorem openMeeting_inv : Inv openMeeting := by
  rw [Inv]
  decide

def openIt : Request := .openVote ⟨7, none, none, false, none⟩

def guestCasts : Request := .cast ⟨text "7KQ4MP", some (text "hash"), 7, .ok (text "yes"), 20⟩

def hideItem : Request := .setBody ⟨5, none, none, some true⟩

/-- The request starts as transaction `i` and takes its first `n` steps. -/
def alone (r : Request) (i n : ℕ) : List (Event Request) := .start r :: List.replicate n (.step i)

def openThenHide : List (Event Request) := alone openIt 0 6 ++ alone guestCasts 1 8 ++ alone hideItem 2 4

theorem openThenHide_public :
    ∃ s, run script ⟨openMeeting, []⟩ openThenHide = some s ∧ OnlyPublic s.db ∧ s.db.ballots = [(7, text "yes")] := by
  have hguarded : Guarded InOrder script ⟨openMeeting, []⟩ openThenHide := by decide +kernel
  have hrun : (run script ⟨openMeeting, []⟩ openThenHide).map (fun s => s.db.ballots) = some [(7, text "yes")] := by
    decide +kernel
  obtain ⟨s, hs, hballots⟩ := Option.map_eq_some_iff.mp hrun
  obtain ⟨-, hall⟩ := guest_votes_stay_public openMeeting_inv (by decide)
  exact ⟨s, hs, (hall openThenHide).mp hguarded openThenHide s (prefix_refl _) hs, hballots⟩

/-- The open finds the item public, the edit finds no open vote and commits, the vote opens. -/
def crossedChecks : List (Event Request) := alone openIt 0 2 ++ alone hideItem 1 6 ++ List.replicate 4 (.step 0)

theorem crossedChecks_hidden :
    Inv openMeeting ∧ OnlyPublic openMeeting ∧
      ∃ s, run script ⟨openMeeting, []⟩ crossedChecks = some s ∧ ¬ OnlyPublic s.db := by
  refine ⟨openMeeting_inv, by decide, ?_⟩
  have hrun : (run script ⟨openMeeting, []⟩ crossedChecks).map (fun s => decide (OnlyPublic s.db)) = some false := by
    decide +kernel
  obtain ⟨s, hs, hhidden⟩ := Option.map_eq_some_iff.mp hrun
  exact ⟨s, hs, of_decide_eq_false hhidden⟩

end Laws

end GuestVotes
