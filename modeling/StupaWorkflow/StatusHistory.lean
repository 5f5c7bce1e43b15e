import StupaWorkflow.StatusRuns

/-!
The status events of an application in the order of their commits: every state change
that commits adds the event from the state before it to the state after it, and nothing
else writes an event or the state.
-/
namespace Status
open ReadCommitted List

section Chain

def Db.Chained (d : Db) : Prop :=
  d.events.IsChain (fun ev next => next.source = some ev.target) ∧ ∀ ev ∈ d.events.getLast?, d.app.state = some ev.target

def Recorded (d e : Db) (ev : StatusEvent) : Prop :=
  e.events = d.events ++ [ev] ∧ ev.source = d.app.state ∧ e.app.state = some ev.target

def Unmoved (d e : Db) : Prop := e.events = d.events ∧ e.app.state = d.app.state

def Accounted (c : Commit Request Db) : Prop :=
  match c.req with
  | .fire .. | .advance .. | .force .. | .revert .. => ∃ ev, Recorded c.before c.after ev
  | .closeVote _ => (∃ ev, Recorded c.before c.after ev) ∨ Unmoved c.before c.after
  | .openVote .. | .cancelVote _ => Unmoved c.before c.after

def added (c : Commit Request Db) : List StatusEvent := c.after.events.drop c.before.events.length

variable {d e : Db} {ev : StatusEvent}
variable {c : Commit Request Db}

theorem Db.Chained.record (h : d.Chained) (hrec : Recorded d e ev) : e.Chained := by
  obtain ⟨hevents, hsource, htarget⟩ := hrec
  rw [Db.Chained, hevents]
  refine ⟨isChain_append.mpr ⟨h.1, isChain_singleton ev, fun last hlast first hfirst => ?_⟩, fun x hx => ?_⟩
  · rw [head?_cons, Option.mem_some] at hfirst
    rw [← hfirst, hsource, h.2 last hlast]
  · rw [getLast?_concat, Option.mem_some] at hx
    rw [htarget, hx]

theorem Db.Chained.unmoved (h : d.Chained) (hsame : Unmoved d e) : e.Chained := by
  rw [Db.Chained, hsame.1, hsame.2]
  exact h

theorem move_recorded {m : Move} (h : d.app.state = some m.source) {e : Db} (happ : e.app = (d.move m).app)
    (hevents : e.events = (d.move m).events) : Recorded d e m.event := by
  refine ⟨hevents, h.symm, ?_⟩
  rw [happ]
  rfl

theorem guar_accounted {r : Request} {held : List Key} (h : Guar r held d e) : Accounted ⟨r, d, e⟩ := by
  obtain ⟨c, rfl, hlegal, hmakes, -⟩ := h
  cases c with
  | moved m orphans =>
    have hrec : Recorded d (d.apply (.moved m orphans)) m.event := move_recorded hlegal.1 rfl rfl
    cases r <;> first | exact ⟨_, hrec⟩ | cases hmakes
  | opened id visit => cases r <;> first | exact ⟨rfl, rfl⟩ | cases hmakes
  | closed id m =>
    cases r with
    | closeVote c =>
      cases m with
      | none => exact .inr ⟨rfl, rfl⟩
      | some m => exact .inl ⟨_, move_recorded (hlegal.2 m rfl).1 rfl rfl⟩
    | _ => cases hmakes
  | cancelled id => cases r <;> first | exact ⟨rfl, rfl⟩ | cases hmakes

theorem Accounted.moves (h : Accounted c) : (∃ ev, Recorded c.before c.after ev) ∨ Unmoved c.before c.after := by
  obtain ⟨r, d, e⟩ := c
  cases r with
  | closeVote c => exact h
  | openVote vote live => exact .inr h
  | cancelVote vote => exact .inr h
  | fire transition answers => exact .inl h
  | advance answers => exact .inl h
  | force target answers => exact .inl h
  | revert source target answers => exact .inl h

theorem Accounted.added (h : Accounted c) : c.after.events = c.before.events ++ added c := by
  rw [Status.added]
  rcases h.moves with ⟨ev, hrec⟩ | hsame
  · rw [hrec.1, drop_left]
  · rw [hsame.1, drop_length, append_nil]

theorem Accounted.chained (h : Accounted c) (hchain : c.before.Chained) : c.after.Chained := by
  rcases h.moves with ⟨ev, hrec⟩ | hsame
  · exact hchain.record hrec
  · exact hchain.unmoved hsame

end Chain

section Runs

variable {G : Graph} {d : Db}

/-- In every interleaving the history of an application is a chain that ends in its state. It holds
one event for each state change that committed, in the order of the commits. -/
theorem history_chained (hids : (d.votes.map Vote.id).Nodup) (hchain : d.Chained) {es : List (Event Request)}
    {s : Sys Request Db Key Problem} (hrun : run (script G) ⟨d, []⟩ es = some s) :
    s.db.Chained ∧ s.db.events = d.events ++ (commits (script G) ⟨d, []⟩ es).flatMap added ∧
      ∀ c ∈ commits (script G) ⟨d, []⟩ es, Accounted c := by
  have hstart : Sound contract (⟨d, []⟩ : Sys Request Db Key Problem) := sound_start hids
  have haccounted : ∀ c ∈ commits (script G) ⟨d, []⟩ es, Accounted c := by
    intro c hc
    obtain ⟨-, held, hguar⟩ := commits_guar script_keeps hstart es c hc
    exact guar_accounted hguar
  refine ⟨?_, run_appends (f := Db.events) (fun c hc => (haccounted c hc).added) hrun, haccounted⟩
  obtain ⟨-, hkeeps⟩ := sound_run_keeps (R := fun d e => d.Chained → e.Chained) script_keeps (fun _ h => h)
    (fun h h' hd => h' (h hd)) (fun {r held d e} _ hguar => (guar_accounted hguar).chained) hstart hrun
  exact hkeeps hchain

def voteFlow : Graph where
  states := [⟨1, 5, false, false⟩, ⟨2, 5, true, false⟩, ⟨3, 5, false, false⟩, ⟨4, 5, false, false⟩]
  transitions := [⟨10, 5, 1, 2, none, false⟩, ⟨11, 5, 2, 3, some .pass, false⟩, ⟨12, 5, 2, 4, some .fail, false⟩,
    ⟨13, 5, 2, 1, none, false⟩]
  branches := by decide

def granted : Answers := ⟨fun _ => true, fun _ => some 6, true⟩

def proposal : Db := ⟨⟨5, some 1, none, none⟩, [⟨none, 1, none, none⟩], []⟩

def steps (i n : ℕ) : List (Event Request) := List.replicate n (.step i)

/-- Two clients read the first state and fire from it; one of them wins. Then the application is
forced on, and the change is undone. -/
def racingFires : List (Event Request) :=
  [.start (.fire 10 granted), .start (.fire 10 granted), .step 0, .step 1] ++ steps 0 5 ++ steps 1 2 ++
    .start (.force 4 granted) :: steps 2 6 ++ .start (.revert 2 4 granted) :: steps 3 6

theorem racingFires_chained : ∃ s, run (script voteFlow) ⟨proposal, []⟩ racingFires = some s ∧
    s.db.events = [⟨none, 1, none, none⟩, ⟨some 1, 2, some 10, none⟩, ⟨some 2, 4, none, none⟩, ⟨some 4, 2, none, none⟩] ∧
      s.db.Chained ∧ s.db.events = proposal.events ++ (commits (script voteFlow) ⟨proposal, []⟩ racingFires).flatMap added ∧
        ∀ c ∈ commits (script voteFlow) ⟨proposal, []⟩ racingFires, Accounted c := by
  have hrun : (run (script voteFlow) ⟨proposal, []⟩ racingFires).map (fun s => s.db.events) =
      some [⟨none, 1, none, none⟩, ⟨some 1, 2, some 10, none⟩, ⟨some 2, 4, none, none⟩, ⟨some 4, 2, none, none⟩] := by
    decide +kernel
  obtain ⟨s, hs, hevents⟩ := Option.map_eq_some_iff.mp hrun
  have hchain : proposal.Chained := ⟨isChain_singleton _, fun ev hev => by cases hev; rfl⟩
  exact ⟨s, hs, hevents, history_chained (by decide) hchain hs⟩

end Runs

end Status
