import StupaWorkflow.AllocationRuns
import StupaWorkflow.Transactions

/-!
Concurrent sets. A set locks the row of its cost centre and then the row of the parent, whether or
not they have an allocation yet.
-/
namespace Allocation
open Py Decimals ReadCommitted List
open Budget (Uuid Problem FiscalYear refuseClosed)

structure SetRequest where
  env : Env
  budgetId : Uuid
  fiscalYearId : Uuid
  payload : AllocationSet

section Programs

/-- `SELECT … FOR UPDATE` of the row of a cost centre. -/
def lockBudget (k : Uuid) : Prog Db Uuid Problem Db :=
  Prog.lockRow fun d => (d.budgets.find? fun b => b.id = k).map Node.id

def checkRoom (node : Node) (fiscalYearId : Uuid) (new : ℚ) : Prog Db Uuid Problem Unit :=
  match node.parentId with
  | none => pure ()
  | some p => do
      let _ ← lockBudget p
      let d ← Prog.query
      let siblings := d.childrenAllocSum p fiscalYearId (some node.id)
      let d' ← Prog.query
      let parentValue := (d'.allocation p fiscalYearId).map BudgetAllocation.allocated
      Prog.require (!childrenAllocationExceedsParent parentValue siblings new) (.validation (text "allocated"))

/-- `set_allocation` with its locks. -/
def script (r : SetRequest) : Prog Db Uuid Problem Unit := do
  let new := r.payload.allocated
  Prog.ofExcept r.payload.check
  let d₀ ← Prog.query
  let node ← Prog.ofExcept (d₀.getNode r.budgetId)
  let d₁ ← Prog.query
  Prog.ofExcept (d₁.checkFiscalYear r.env node r.fiscalYearId)
  let _ ← lockBudget node.id
  checkRoom node r.fiscalYearId new
  let d₂ ← Prog.query
  Prog.ofExcept (d₂.checkChildren node r.fiscalYearId new)
  let d₃ ← Prog.query
  Prog.update fun d => d.record (d₃.allocation r.budgetId r.fiscalYearId) r.budgetId r.fiscalYearId new
  Prog.publish

end Programs

section Agreement

def SameRows (d e : Db) (k : Uuid) : Prop := ∀ fy, e.allocation k fy = d.allocation k fy

/-- What the lock of a node keeps: its allocations and those of its children. -/
structure Rely (held : List Uuid) (d e : Db) : Prop where
  budgets : e.budgets = d.budgets
  own : ∀ k ∈ held, SameRows d e k
  children : ∀ k ∈ held, ∀ c ∈ d.budgets, c.parentId = some k → SameRows d e c.id

/-- A commit changes the allocations of a node under its lock and the lock of its parent. -/
structure Guar (held : List Uuid) (d e : Db) : Prop where
  budgets : e.budgets = d.budgets
  locked : ∀ k, SameRows d e k ∨ (k ∈ held ∧ ∀ b ∈ d.budgets, b.id = k → ∀ p, b.parentId = some p → p ∈ held)

variable {held : List Uuid} {d e : Db}

theorem Rely.trans {f : Db} (h : Rely held d e) (h' : Rely held e f) : Rely held d f where
  budgets := h'.budgets.trans h.budgets
  own k hk fy := (h'.own k hk fy).trans (h.own k hk fy)
  children k hk c hc hp fy :=
    (h'.children k hk c (h.budgets ▸ hc) hp fy).trans (h.children k hk c hc hp fy)

theorem Rely.weaken {held' : List Uuid} (h : Rely held d e) (hsub : ∀ k ∈ held', k ∈ held) : Rely held' d e :=
  ⟨h.budgets, fun k hk => h.own k (hsub k hk), fun k hk => h.children k (hsub k hk)⟩

def contract : Contract SetRequest Db Uuid where
  inv d := Wf d ∧ Within d
  rely := Rely
  guar _ := Guar
  refl _ _ := ⟨rfl, fun _ _ _ => rfl, fun _ _ _ _ _ _ => rfl⟩
  trans := Rely.trans
  compat {r held other d e} hinv hguar hapart := by
    refine ⟨hguar.budgets, fun k hk => ?_, fun k hk c hc hp => ?_⟩
    · rcases hguar.locked k with hsame | ⟨hheld, _⟩
      · exact hsame
      · exact absurd hheld (hapart.not_mem hk)
    · rcases hguar.locked c.id with hsame | ⟨_, hparent⟩
      · exact hsame
      · exact absurd (hparent c hc rfl k hp) (hapart.not_mem hk)

theorem Rely.childrenAllocSum (h : Rely held d e) (hd : Wf d) (he : Wf e) {k : Uuid} (hk : k ∈ held) (fy : Uuid)
    (exclude : Option Uuid) : e.childrenAllocSum k fy exclude = d.childrenAllocSum k fy exclude := by
  rw [hd.childrenAllocSum, he.childrenAllocSum, h.budgets]
  refine Shares.heldBy_congr fun c hc hp _ => ?_
  rw [Db.amount, Db.amount, h.children k hk c hc hp fy]

theorem Rely.checkChildren (h : Rely held d e) (hd : Wf d) (he : Wf e) {node : Node} (hnode : node.id ∈ held) {fy : Uuid}
    {new : ℚ} (hcheck : d.checkChildren node fy new = .ok ()) : e.checkChildren node fy new = .ok () := by
  rw [Db.checkChildren, h.childrenAllocSum hd he hnode]
  exact hcheck

end Agreement

section Steps

variable {r : SetRequest} {held : List Uuid} {d : Db} {node : Node} {fy : Uuid} {new : ℚ}

theorem wp_lockBudget {b : Node} (hb : b ∈ d.budgets) {Q : Db → Loc Db Uuid → Db → Prop}
    (hQ : ∀ e, Rely held d e → Wf e → Within e → Q e ⟨id, b.id :: held⟩ e) :
    wp contract r (lockBudget b.id) Q ⟨id, held⟩ d := by
  rw [lockBudget, wp_lockRow]
  intro e hrely hinv
  have hfind : (e.budgets.find? fun x => x.id = b.id) = some b :=
    Table.find_of_mem hinv.1.ids (hrely.budgets ▸ hb) rfl
  simp only [id_eq, hfind, Option.map_some]
  exact hQ e hrely hinv.1 hinv.2

/-- After the room check the value fits the parent, and no commit of another
transaction changes that. -/
theorem wp_checkRoom (hw : Wf d) (hwithin : Within d) (hnode : node ∈ d.budgets) {Q : Unit → Loc Db Uuid → Db → Prop}
    (hQ : ∀ locks e, node.id ∈ locks → (∀ p, node.parentId = some p → p ∈ locks) → Rely [node.id] d e → Wf e →
      Within e → (∀ f, Rely locks e f → Wf f → f.checkParent node fy new = .ok ()) → Q () ⟨id, locks⟩ e) :
    wp contract r (checkRoom node fy new) Q ⟨id, [node.id]⟩ d := by
  rw [checkRoom]
  cases hparent : node.parentId with
  | none =>
    refine hQ [node.id] d mem_cons_self (fun p hp => ?_) (contract.refl _ d) hw hwithin fun f _ _ => ?_
    · rw [hparent] at hp
      cases hp
    · rw [Db.checkParent, hparent]
  | some p =>
    obtain ⟨b, hb, rfl⟩ := hw.parent node hnode p hparent
    simp only [wp_do]
    refine wp_lockBudget hb fun e₁ hrely₁ hw₁ _ => ?_
    simp only [wp_query, wp_require]
    rintro e₂ hrely₂ ⟨hw₂, _⟩ e₃ hrely₃ ⟨hw₃, hwithin₃⟩ hroom
    have hown : ∀ k ∈ [node.id], k ∈ [b.id, node.id] := by simp
    refine hQ [b.id, node.id] e₃ (by simp) (fun q hq => ?_) ?_ hw₃ hwithin₃ fun f hrely hwf => ?_
    · rw [hparent] at hq
      cases hq
      exact mem_cons_self
    · exact hrely₁.trans ((hrely₂.weaken hown).trans (hrely₃.weaken hown))
    · -- the siblings were summed before the parent's row was read
      have hmem : b.id ∈ [b.id, node.id] := mem_cons_self
      rw [Db.checkParent, hparent]
      show raiseUnless _ _ = _
      rw [(hrely₃.trans hrely).childrenAllocSum hw₂ hwf hmem, hrely.own b.id hmem fy, raiseUnless_ok]
      exact hroom

theorem script_keeps (r : SetRequest) : Keeps contract r (script r) := by
  intro d _
  simp only [script, wp_do, wp_ofExcept, wp_query]
  rintro _ _ e₀ _ ⟨hw₀, _⟩ node hnode e₁ hrely₁ ⟨hw₁, _⟩ _ _
  obtain ⟨hmem, hid⟩ := getNode_ok hnode
  rw [← hid]
  have hmem₁ : node ∈ e₁.budgets := hrely₁.budgets ▸ hmem
  refine wp_lockBudget hmem₁ fun e₂ hrely₂ hw₂ hwithin₂ => ?_
  have hmem₂ : node ∈ e₂.budgets := hrely₂.budgets ▸ hmem₁
  refine wp_checkRoom hw₂ hwithin₂ hmem₂ fun locks e₃ hown hparent hrely₃ hw₃ _ hroom => ?_
  have hmem₃ : node ∈ e₃.budgets := hrely₃.budgets ▸ hmem₂
  rintro e₄ hrely₄ ⟨hw₄, _⟩ _ hchildren e₅ hrely₅ ⟨hw₅, _⟩
  simp only [wp_update, wp_publish]
  rintro e₆ hrely₆ ⟨hw₆, hwithin₆⟩
  have hmem₆ : node ∈ e₆.budgets := by
    rw [hrely₆.budgets, hrely₅.budgets, hrely₄.budgets]
    exact hmem₃
  -- what was read under the locks is still there at the commit
  have hup := hroom e₆ (hrely₄.trans (hrely₅.trans hrely₆)) hw₆
  have hdown := (hrely₅.trans hrely₆).checkChildren hw₄ hw₆ hown hchildren
  have hexisting : e₅.allocation node.id r.fiscalYearId = e₆.allocation node.id r.fiscalYearId :=
    (hrely₆.own node.id hown r.fiscalYearId).symm
  simp only [Function.comp_apply, id_eq, hexisting]
  have hstore : Wf (e₆.store node.id r.fiscalYearId r.payload.allocated) ∧
      Within (e₆.store node.id r.fiscalYearId r.payload.allocated) :=
    ⟨hw₆.store ⟨node, hmem₆, rfl⟩ _, hwithin₆.store hw₆ hmem₆ hup hdown⟩
  refine ⟨⟨hstore.1.audit _, hstore.2⟩, ⟨store_budgets _ _ _ _, fun k => ?_⟩, trivial⟩
  by_cases hk : k = node.id
  · refine .inr ⟨hk ▸ hown, fun b hb hbk p hp => hparent p ?_⟩
    rwa [inj_on_of_nodup_map hw₆.ids hb hmem₆ (hbk.trans hk)] at hp
  · left
    intro fy'
    show (e₆.store node.id r.fiscalYearId r.payload.allocated).allocation k fy' = _
    rw [store_allocation, if_neg (by simp [hk])]

end Steps

section Runs

/-- Whatever sets run together in whatever order, the committed shares stay in order. -/
theorem reachable_within {d : Db} (hw : Wf d) (hwithin : Within d) {s : Sys SetRequest Db Uuid Problem}
    (h : Reachable script d s) : Within s.db :=
  (run_sound script_keeps ⟨hw, hwithin⟩ h).inv.2

section Samples

/-- A budget of 100 over two cost centres without an allocation. -/
def twoCentres : List (Env × Request) :=
  [(openYear, .createNode { key := text "T" }), (openYear, .createNode { key := text "A", parentId := some 0 }),
    (openYear, .createNode { key := text "B", parentId := some 0 }), (openYear, .setAllocation 0 5 ⟨100⟩)]

def sixty (k : Uuid) : SetRequest := ⟨openYear, k, 5, ⟨60⟩⟩

/-- The second set waits for the lock of the parent and then finds too little room. -/
def race : List (Event SetRequest) :=
  [.start (sixty 1), .start (sixty 2)] ++ List.replicate 4 (.step 0) ++ List.replicate 3 (.step 1) ++
    List.replicate 6 (.step 0) ++ List.replicate 4 (.step 1)

theorem race_within : ∃ d, Runs.run step emptyDb twoCentres = some d ∧
    ∃ s, run script ⟨d, []⟩ race = some s ∧ s.db.amount 5 1 = 60 ∧ s.db.amount 5 2 = 0 ∧ Within s.db := by
  have hrun : ((Runs.run step emptyDb twoCentres).bind fun d => run script ⟨d, []⟩ race).map
      (fun s => (s.db.amount 5 1, s.db.amount 5 2)) = some (60, 0) := by decide +kernel
  obtain ⟨s, hs, heq⟩ := Option.map_eq_some_iff.mp hrun
  obtain ⟨d, hd, hrace⟩ := Option.bind_eq_some_iff.mp hs
  have hkept := run_kept (by decide +kernel) hd
  simp only [Prod.mk.injEq] at heq
  exact ⟨d, hd, s, hrace, heq.1, heq.2, reachable_within hkept.wf hkept.within ⟨race, hrace⟩⟩

end Samples

end Runs

end Allocation
