import StupaWorkflow.DepthFirst
import StupaWorkflow.FlowOffers

/-!
The automatic transitions of a flow. The save gate searches them for a cycle, and the engine
fires them one after the other; without a cycle each run comes to an end, and no state comes
twice in it.
-/
namespace Flow
open Py DepthFirst List
open Config (FlowRows StateRow TransitionRow FlowGraph StateDef TransitionDef)
open Guards (Members Builtins GuardContext Raised evalGuard)

section Bounded

variable {next : Text → List Text} {all nodes trail done : List Text} {depth : ℕ}

/-- One node of the loop in `_first_cycle`. -/
def visit (next : Text → List Text) (depth : ℕ) (trail : List Text) (found : CycleSearch) (node : Text) : CycleSearch :=
  if found.1.isSome then found
  else if node ∈ trail then (some (trail.drop (trail.idxOf node) ++ [node]), found.2)
  else if node ∈ found.2 then found
  else
    let inner := firstCycle next depth (next node) (trail ++ [node]) found.2
    (inner.1, inner.2 ++ [node])

theorem firstCycle_succ (next : Text → List Text) (depth : ℕ) (nodes trail done : List Text) :
    firstCycle next (depth + 1) nodes trail done = nodes.foldl (visit next depth trail) (none, done) := rfl

theorem visit_found (cycle : List Text) (done nodes : List Text) :
    nodes.foldl (visit next depth trail) (some cycle, done) = (some cycle, done) := by
  induction nodes with
  | nil => rfl
  | cons node nodes ih => exact ih

/-- A path without repetition is no longer than the list of all nodes, so a depth of as many is enough. -/
theorem firstCycle_search (hclosed : ∀ a ∈ all, next a ⊆ all) (htrail : trail.Nodup) (hpath : trail ⊆ all)
    (hnodes : nodes ⊆ all) (hdepth : all.length < depth + trail.length) :
    Search next nodes trail done (firstCycle next depth nodes trail done).1 (firstCycle next depth nodes trail done).2 := by
  induction depth generalizing nodes trail done with
  | zero =>
    have hlength := (subperm_of_subset htrail hpath).length_le
    omega
  | succ depth ih =>
    rw [firstCycle_succ]
    induction nodes generalizing done with
    | nil => exact .done trail done
    | cons node nodes ihnodes =>
      obtain ⟨hnode, hrest⟩ := cons_subset.mp hnodes
      rw [foldl_cons]
      by_cases hon : node ∈ trail
      · have hvisit : visit next depth trail (none, done) node = (some (trail.drop (trail.idxOf node) ++ [node]), done) := by
          simp [visit, hon]
        rw [hvisit, visit_found]
        exact .closes done hon
      · by_cases hfinished : node ∈ done
        · have hvisit : visit next depth trail (none, done) node = (none, done) := by
            simp [visit, hon, hfinished]
          rw [hvisit]
          exact .passes hon hfinished (ihnodes hrest)
        · have hinner : Search next (next node) (trail ++ [node]) done
              (firstCycle next depth (next node) (trail ++ [node]) done).1
              (firstCycle next depth (next node) (trail ++ [node]) done).2 := ih
            (nodup_append_comm.mp (nodup_cons.mpr ⟨hon, htrail⟩))
            (append_subset.mpr ⟨hpath, cons_subset.mpr ⟨hnode, nil_subset _⟩⟩) (hclosed node hnode)
            (by rw [length_append, length_singleton]; omega)
          have hvisit : visit next depth trail (none, done) node =
              ((firstCycle next depth (next node) (trail ++ [node]) done).1,
                (firstCycle next depth (next node) (trail ++ [node]) done).2 ++ [node]) := by
            simp [visit, hon, hfinished]
          rw [hvisit]
          cases hcycle : (firstCycle next depth (next node) (trail ++ [node]) done).1 with
          | none => exact .finishes hon hfinished (hcycle ▸ hinner) (ihnodes hrest)
          | some cycle =>
            rw [visit_found]
            exact .finds hon hfinished (hcycle ▸ hinner)

end Bounded

section Graph

variable {B : Builtins} {g : FlowGraph}

def stateKeys (g : FlowGraph) : List Text := g.states.map StateDef.key

/-- The automatic transitions lead to states of the graph, so that the search finds the neighbours of each node. -/
def Known (g : FlowGraph) : Prop := ∀ t ∈ g.transitions, t.automatic = true → t.target ∈ stateKeys g

theorem edge_iff {a b : Text} :
    Edge (automaticTargets g) a b ↔ ∃ t ∈ g.transitions, t.automatic = true ∧ t.source = a ∧ t.target = b := by
  simp only [Edge, automaticTargets, outgoingDefs, mem_map, mem_filter, decide_eq_true_eq]
  constructor
  · rintro ⟨t, ⟨⟨ht, hsource⟩, hautomatic⟩, htarget⟩
    exact ⟨t, ht, hautomatic, hsource, htarget⟩
  · rintro ⟨t, ht, hautomatic, hsource, htarget⟩
    exact ⟨t, ⟨⟨ht, hsource⟩, hautomatic⟩, htarget⟩

theorem Known.target (h : Known g) {a b : Text} (hedge : Edge (automaticTargets g) a b) : b ∈ stateKeys g := by
  obtain ⟨t, ht, hautomatic, -, rfl⟩ := edge_iff.mp hedge
  exact h t ht hautomatic

/-- The search through the states in an order: it has one result, every depth above the number of states gives it,
and it is a cycle exactly when there is one. -/
def SearchDecides (g : FlowGraph) (nodes : List Text) : Prop :=
  ∃ cycle found, (∀ c f, Search (automaticTargets g) nodes [] [] c f ↔ c = cycle ∧ f = found) ∧
    (∀ depth, g.states.length < depth → firstCycle (automaticTargets g) depth nodes [] [] = (cycle, found)) ∧
    (cycle = none ↔ Acyclic (automaticTargets g)) ∧ ∀ c, cycle = some c → IsCycle (automaticTargets g) c

theorem Known.decides (h : Known g) {nodes : List Text} (hnodes : ∀ k, k ∈ nodes ↔ k ∈ stateKeys g) : SearchDecides g nodes := by
  have hsearch {depth : ℕ} (hdepth : g.states.length < depth) :
      Search (automaticTargets g) nodes [] [] (firstCycle (automaticTargets g) depth nodes [] []).1
        (firstCycle (automaticTargets g) depth nodes [] []).2 := by
    refine firstCycle_search (fun a _ b hb => h.target hb) nodup_nil (nil_subset _) (fun k hk => (hnodes k).mp hk) ?_
    simpa [stateKeys] using hdepth
  have hone := hsearch (Nat.lt_succ_self g.states.length)
  refine ⟨_, _, fun c f => ⟨fun hother => hother.unique hone, ?_⟩, fun depth hdepth => ?_, ?_, ?_⟩
  · rintro ⟨rfl, rfl⟩
    exact hone
  · exact Prod.ext_iff.mpr ((hsearch hdepth).unique hone)
  · exact hone.none_iff fun a b hedge => (hnodes b).mpr (h.target hedge)
  · exact hone.isCycle nodup_nil fun _ _ => .singleton _

theorem known_of_accepted (h : validateFlowGraph B g = .ok ()) : Known g := fun t ht _ => (wired_of_accepted h).target t ht

theorem acyclic_of_accepted (h : validateFlowGraph B g = .ok ()) : Acyclic (automaticTargets g) := by
  have hnone : automaticCycle g = none := by
    obtain ⟨_, _, h⟩ := bind_ok.mp h
    obtain ⟨_, _, h⟩ := bind_ok.mp h
    obtain ⟨_, _, h⟩ := bind_ok.mp h
    obtain ⟨_, _, h⟩ := bind_ok.mp h
    obtain ⟨_, _, h⟩ := bind_ok.mp h
    obtain ⟨_, _, h⟩ := bind_ok.mp h
    obtain ⟨_, _, h⟩ := bind_ok.mp h
    simpa using h
  obtain ⟨cycle, found, -, hdepth, hacyclic, -⟩ := (known_of_accepted h).decides fun _ => Iff.rfl
  rw [automaticCycle, show g.states.map StateDef.key = stateKeys g from rfl, hdepth _ (Nat.lt_succ_self _)] at hnone
  exact hacyclic.mp hnone

theorem states_of_accepted (h : validateFlowGraph B g = .ok ()) : 0 < g.states.length := by
  obtain ⟨_, hkeys, _⟩ := bind_ok.mp h
  simpa [length_pos_iff] using hkeys

end Graph

section Advance

variable (B : Builtins) (W : World)

/-- The first automatic transition whose guard holds and whose target takes the application. -/
def World.firstAutomatic (ctx : GuardContext) : List Transition → Except Raised (Option Transition)
  | [] => .ok none
  | t :: ts => do
      let holds ← holdsFor B ctx (·.automatic) t.row
      if holds && W.enterable (W.state t.target) then return some t
      else World.firstAutomatic ctx ts

def World.autoAdvance (p : Principal) : Except FireProblem (Option Application) :=
  match W.app.state with
  | none => .ok none
  | some current =>
    if isVote (W.state current) then .ok none
    else
      match W.firstAutomatic B (W.buildContext p false false) W.outgoing with
      | .error r => .error (.raised r)
      | .ok none => .ok none
      | .ok (some t) => (W.stageFire B t.ref p false false).map some

/-- One call fires a transition, and the next one finds the application where it left it. The answers, the cost
center and the roles can be others by then. -/
def World.Advances (W' : World) : Prop :=
  ∃ p app, W.autoAdvance B p = .ok (some app) ∧ W'.app.state = app.state ∧ W'.app.version = app.version ∧
    W'.versions app.version = W.versions app.version

variable {B W}

theorem firstAutomatic_mem {ctx : GuardContext} {ts : List Transition} {t : Transition}
    (h : W.firstAutomatic B ctx ts = .ok (some t)) : t ∈ ts ∧ t.row.automatic = true := by
  induction ts with
  | nil => cases h
  | cons u us ih =>
    obtain ⟨holds, hholds, h⟩ := bind_ok.mp h
    split at h
    · next hpasses =>
        cases h
        refine ⟨mem_cons_self, ?_⟩
        by_contra hmanual
        rw [holdsFor, if_neg hmanual] at hholds
        cases hholds
        cases hpasses
    · exact ⟨mem_cons_of_mem u (ih h).1, (ih h).2⟩

theorem stageFire_result {ref : TransitionRef} {p : Principal} {manual asApplicant : Bool} {app : Application}
    (h : W.stageFire B ref p manual asApplicant = .ok app) :
    ∃ t, W.transition ref = some t ∧ app.state = some t.target ∧ app.version = W.app.version := by
  obtain ⟨t, hload, h⟩ := bind_ok.mp h
  obtain ⟨_, _, h⟩ := bind_ok.mp h
  obtain ⟨_, _, h⟩ := bind_ok.mp h
  obtain ⟨_, _, h⟩ := bind_ok.mp h
  obtain ⟨_, _, h⟩ := bind_ok.mp h
  obtain ⟨_, _, h⟩ := bind_ok.mp h
  obtain ⟨_, _, h⟩ := bind_ok.mp h
  cases h
  refine ⟨t, ?_, rfl, rfl⟩
  unfold World.loadTransition at hload
  split at hload
  · next u htransition => rw [htransition, Except.ok.inj hload]
  · cases hload

theorem autoAdvance_fires {p : Principal} {app : Application} (h : W.autoAdvance B p = .ok (some app)) :
    ∃ t ∈ W.outgoing, t.row.automatic = true ∧ app.state = some t.target ∧ app.version = W.app.version := by
  unfold World.autoAdvance at h
  split at h
  · cases h
  · split at h
    · cases h
    · split at h
      · cases h
      · cases h
      · next t hfirst =>
          obtain ⟨hout, hautomatic⟩ := firstAutomatic_mem hfirst
          cases hfire : W.stageFire B t.ref p false false with
          | error e =>
            rw [hfire] at h
            cases h
          | ok fired =>
            rw [hfire] at h
            cases h
            obtain ⟨u, hu, hstate, hversion⟩ := stageFire_result hfire
            rw [(mem_outgoing.mp hout).1] at hu
            cases hu
            exact ⟨t, hout, hautomatic, hstate, hversion⟩

end Advance

section Runs

variable {B : Builtins} {W W' : World} {g : FlowGraph} {rest : List World}

def World.On (W : World) (g : FlowGraph) : Prop := W.versions W.app.version = g.rows

def World.currentKey (W : World) : Text := (W.app.state.map StateRef.key).getD []

theorem World.On.row (hon : W.On g) {t : Transition} (ht : t ∈ W.outgoing) : ∃ d ∈ g.transitions, d.row t.ref.position = t.row := by
  obtain ⟨hload, hversion, -⟩ := mem_outgoing.mp ht
  obtain ⟨row, hrow, hsame⟩ := Option.map_eq_some_iff.mp hload
  rw [hversion, hon, FlowGraph.rows, List.getElem?_mapIdx] at hrow
  obtain ⟨d, hd, hrow⟩ := Option.map_eq_some_iff.mp hrow
  exact ⟨d, mem_of_getElem? hd, hrow.trans (congrArg Transition.row hsame)⟩

theorem World.Advances.edge (h : W.Advances B W') (hon : W.On g) :
    Edge (automaticTargets g) W.currentKey W'.currentKey ∧ W'.On g := by
  obtain ⟨p, app, hfires, hstate, hversion, hrows⟩ := h
  obtain ⟨t, hout, hautomatic, htarget, hsame⟩ := autoAdvance_fires hfires
  obtain ⟨d, hd, hrow⟩ := hon.row hout
  have hkey : W.currentKey = d.source := by
    rw [World.currentKey, ← (mem_outgoing.mp hout).2.2]
    exact congrArg TransitionRow.fromState hrow.symm
  have hkey' : W'.currentKey = d.target := by
    rw [World.currentKey, hstate, htarget]
    exact congrArg TransitionRow.toState hrow.symm
  constructor
  · rw [hkey, hkey']
    exact edge_iff.mpr ⟨d, hd, (congrArg TransitionRow.automatic hrow).trans hautomatic, rfl, rfl⟩
  · rw [World.On, hversion, hrows, hsame]
    exact hon

theorem chain_path (hon : W.On g) (hchain : (W :: rest).IsChain (World.Advances B)) :
    ((W :: rest).map World.currentKey).IsChain (Edge (automaticTargets g)) := by
  induction rest generalizing W with
  | nil => exact .singleton _
  | cons W' rest ih =>
    obtain ⟨hstep, hrest⟩ := isChain_cons_cons.mp hchain
    obtain ⟨hedge, hon'⟩ := hstep.edge hon
    exact isChain_cons_cons.mpr ⟨hedge, ih hon' hrest⟩

theorem path_known (hknown : Known g) {a b : Text} {path : List Text} (ha : a ∈ stateKeys g)
    (hpath : (a :: b :: path).IsChain (Edge (automaticTargets g))) : a :: b :: path ⊆ stateKeys g := by
  induction path generalizing a b with
  | nil =>
    have hedge := isChain_pair.mp hpath
    exact cons_subset.mpr ⟨ha, cons_subset.mpr ⟨hknown.target hedge, nil_subset _⟩⟩
  | cons c path ih =>
    obtain ⟨hedge, hrest⟩ := isChain_cons_cons.mp hpath
    exact cons_subset.mpr ⟨ha, ih (hknown.target hedge) hrest⟩

/-- Every chain of calls from here visits each state at most once, and it is no longer than the number of states. -/
def RunsEnd (B : Builtins) (W : World) (states : ℕ) : Prop :=
  ∀ rest : List World, (W :: rest).IsChain (World.Advances B) →
    ((W :: rest).map fun w => w.app.state).Nodup ∧ (W :: rest).length ≤ states

theorem runsEnd_of_accepted (h : validateFlowGraph B g = .ok ()) (hon : W.On g) : RunsEnd B W g.states.length := by
  intro rest hchain
  have hpath := chain_path hon hchain
  have hkeys : ((W :: rest).map World.currentKey).Nodup := (acyclic_of_accepted h).nodup hpath
  constructor
  · have hfactor : (W :: rest).map World.currentKey =
        ((W :: rest).map fun w => w.app.state).map fun s => (s.map StateRef.key).getD [] := by
      rw [map_map]
      rfl
    rw [hfactor] at hkeys
    exact hkeys.of_map
  · cases rest with
    | nil => exact states_of_accepted h
    | cons W' rest =>
      have hedge : Edge (automaticTargets g) W.currentKey W'.currentKey := (isChain_cons_cons.mp hpath).1
      obtain ⟨t, ht, -, hsource, -⟩ := edge_iff.mp hedge
      have hstart : W.currentKey ∈ stateKeys g := hsource ▸ (wired_of_accepted h).source t ht
      have hlength := (subperm_of_subset hkeys (path_known (known_of_accepted h) hstart hpath)).length_le
      simpa [stateKeys] using hlength

/-- The search through the states in any order decides whether the automatic transitions have a cycle, and on a graph
that the save gate accepts the engine comes to an end. -/
theorem automatic_cycles_decided (g : FlowGraph) :
    (Known g → ∀ nodes, (∀ k, k ∈ nodes ↔ k ∈ stateKeys g) → SearchDecides g nodes) ∧
      ∀ B W, validateFlowGraph B g = .ok () → W.On g → RunsEnd B W g.states.length :=
  ⟨fun hknown _ hnodes => hknown.decides hnodes, fun _ _ haccepted hon => runsEnd_of_accepted haccepted hon⟩

def automaticTo (source target : String) : TransitionDef :=
  { manualTo target none with source := text source, automatic := true }

def relay : FlowGraph where
  states := [normalState "draft" true, normalState "sent" false, normalState "accepted" false]
  transitions := [automaticTo "draft" "sent", automaticTo "sent" "accepted"]
  layout := none

def relayWorld : World := { limitWorld "500" with versions := fun _ => relay.rows }

theorem relay_accepted : validateFlowGraph plainBuiltins relay = .ok () := by decide +kernel

theorem automatic_cycles_relay :
    SearchDecides relay (stateKeys relay).reverse ∧ RunsEnd plainBuiltins relayWorld relay.states.length :=
  ⟨(automatic_cycles_decided relay).1 (known_of_accepted relay_accepted) (stateKeys relay).reverse fun _ => mem_reverse,
    (automatic_cycles_decided relay).2 plainBuiltins relayWorld relay_accepted rfl⟩

/-- The first call sends the draft. -/
example : (relayWorld.autoAdvance plainBuiltins manager).map (Option.map fun app => app.state) =
    .ok (some (some ⟨1, text "sent"⟩)) := by decide +kernel

end Runs

end Flow
