import Mathlib.Data.List.Chain
import Mathlib.Data.List.Nodup

/-!
A depth-first search for a cycle of a directed graph. The search keeps the path from its root and
the nodes that it has finished; a node of the path closes a cycle, and a finished node is passed
by.
-/
namespace DepthFirst
open List

variable {α : Type}

def Edge (next : α → List α) (a b : α) : Prop := b ∈ next a

/-- A closed walk that visits no other node twice. -/
def IsCycle (next : α → List α) (cycle : List α) : Prop :=
  ∃ v path, cycle = v :: path ++ [v] ∧ (v :: path).Nodup ∧ cycle.IsChain (Edge next)

def Acyclic (next : α → List α) : Prop := ∀ v, ¬ Relation.TransGen (Edge next) v v

/-- A list in which each node comes behind its successors. -/
inductive Postorder (next : α → List α) : List α → Prop
  | nil : Postorder next []
  | snoc {done : List α} {v : α} (h : Postorder next done) (hnext : next v ⊆ done) : Postorder next (done ++ [v])

section Order

variable {next : α → List α} {done : List α} {a b : α}

theorem Postorder.successor (h : Postorder next done) (ha : a ∈ done) (hb : b ∈ next a) : b ∈ done := by
  induction h with
  | nil => cases ha
  | snoc _ hnext ih =>
    rcases mem_append.mp ha with hearlier | hlast
    · exact mem_append_left _ (ih hearlier)
    · rw [mem_singleton.mp hlast] at hb
      exact mem_append_left _ (hnext hb)

theorem Postorder.idxOf_lt [BEq α] [LawfulBEq α] (h : Postorder next done) (ha : a ∈ done) (hb : b ∈ next a) :
    done.idxOf b < done.idxOf a := by
  induction h with
  | nil => cases ha
  | snoc h hnext ih =>
    rename_i earlier v
    by_cases hearlier : a ∈ earlier
    · rw [idxOf_append_of_mem hearlier, idxOf_append_of_mem (h.successor hearlier hb)]
      exact ih hearlier
    · have hlast : a = v := mem_singleton.mp ((mem_append.mp ha).resolve_left hearlier)
      have hmem : b ∈ earlier := hnext (hlast ▸ hb)
      rw [idxOf_append_of_mem hmem, idxOf_append_of_notMem hearlier]
      exact Nat.lt_of_lt_of_le (idxOf_lt_length_of_mem hmem) (Nat.le_add_right _ _)

theorem Postorder.walk [BEq α] [LawfulBEq α] (h : Postorder next done) (ha : a ∈ done) (hwalk : Relation.TransGen (Edge next) a b) :
    b ∈ done ∧ done.idxOf b < done.idxOf a := by
  induction hwalk with
  | single hedge => exact ⟨h.successor ha hedge, h.idxOf_lt ha hedge⟩
  | tail _ hedge ih => exact ⟨h.successor ih.1 hedge, (h.idxOf_lt ih.1 hedge).trans ih.2⟩

theorem Postorder.acyclic [BEq α] [LawfulBEq α] (h : Postorder next done) (ha : a ∈ done) : ¬ Relation.TransGen (Edge next) a a :=
  fun hwalk => Nat.lt_irrefl _ (h.walk ha hwalk).2

theorem transGen_of_isChain {path : List α} (h : (a :: path ++ [b]).IsChain (Edge next)) : Relation.TransGen (Edge next) a b := by
  induction path generalizing a with
  | nil => exact .single (isChain_pair.mp h)
  | cons c path ih =>
    obtain ⟨hedge, hrest⟩ := isChain_cons_cons.mp h
    exact .head hedge (ih hrest)

theorem IsCycle.not_acyclic {cycle : List α} (h : IsCycle next cycle) : ¬ Acyclic next := by
  obtain ⟨v, path, rfl, -, hchain⟩ := h
  exact fun hacyclic => hacyclic v (transGen_of_isChain hchain)

theorem Acyclic.nodup {path : List α} (h : Acyclic next) (hchain : path.IsChain (Edge next)) : path.Nodup := by
  have hwalks : path.Pairwise (Relation.TransGen (Edge next)) :=
    isChain_iff_pairwise.mp (hchain.imp fun _ _ => .single)
  refine hwalks.imp fun {v w} hwalk heq => ?_
  subst heq
  exact h v hwalk

end Order

section Search

variable [BEq α] (next : α → List α)

/-- The search through `nodes` below a path: its arguments, the cycle it returns and the nodes it has finished. -/
inductive Search : List α → List α → List α → Option (List α) → List α → Prop
  | done (trail finished : List α) : Search [] trail finished none finished
  | closes {node : α} {nodes trail : List α} (finished : List α) (hon : node ∈ trail) :
      Search (node :: nodes) trail finished (some (trail.drop (trail.idxOf node) ++ [node])) finished
  | passes {node : α} {nodes trail finished found : List α} {cycle : Option (List α)} (hoff : node ∉ trail)
      (hfinished : node ∈ finished) (hrest : Search nodes trail finished cycle found) :
      Search (node :: nodes) trail finished cycle found
  | finds {node : α} {nodes trail finished found cycle : List α} (hoff : node ∉ trail) (hnew : node ∉ finished)
      (hinner : Search (next node) (trail ++ [node]) finished (some cycle) found) :
      Search (node :: nodes) trail finished (some cycle) (found ++ [node])
  | finishes {node : α} {nodes trail finished inner found : List α} {cycle : Option (List α)} (hoff : node ∉ trail)
      (hnew : node ∉ finished) (hinner : Search (next node) (trail ++ [node]) finished none inner)
      (hrest : Search nodes trail (inner ++ [node]) cycle found) :
      Search (node :: nodes) trail finished cycle found

variable {next} {nodes trail finished found : List α} {cycle : Option (List α)}

theorem Search.isCycle [LawfulBEq α] (h : Search next nodes trail finished cycle found) (htrail : trail.Nodup)
    (hchain : ∀ node ∈ nodes, (trail ++ [node]).IsChain (Edge next)) : ∀ c, cycle = some c → IsCycle next c := by
  induction h with
  | done =>
    intro c hc
    cases hc
  | closes finished hon =>
    rename_i node nodes trail
    intro c hc
    cases hc
    obtain ⟨before, behind, rfl, hbefore⟩ := eq_append_cons_of_mem hon
    have hdrop : (before ++ node :: behind).drop ((before ++ node :: behind).idxOf node) = node :: behind := by
      rw [idxOf_append_of_notMem hbefore, idxOf_cons_self, Nat.add_zero, drop_left]
    rw [hdrop]
    refine ⟨node, behind, rfl, (nodup_append.mp htrail).2.1, ?_⟩
    have hclosed := hchain node mem_cons_self
    rw [append_assoc] at hclosed
    exact hclosed.right_of_append
  | passes hoff hfinished hrest ih => exact ih htrail fun node hnode => hchain node (mem_cons_of_mem _ hnode)
  | finds hoff hnew hinner ih =>
    rename_i node nodes trail finished found cycle
    have hnode := hchain node mem_cons_self
    refine ih ?_ fun successor hedge => ?_
    · exact nodup_append_comm.mp (nodup_cons.mpr ⟨hoff, htrail⟩)
    · rw [append_assoc]
      exact isChain_append_cons_cons.mpr ⟨hnode, hedge, .singleton _⟩
  | finishes hoff hnew hinner hrest _ ih => exact ih htrail fun node hnode => hchain node (mem_cons_of_mem _ hnode)

theorem Search.postorder (h : Search next nodes trail finished cycle found) (hcycle : cycle = none)
    (hpost : Postorder next finished) : Postorder next found ∧ finished ⊆ found ∧ nodes ⊆ found := by
  induction h with
  | done => exact ⟨hpost, List.Subset.refl _, nil_subset _⟩
  | closes => cases hcycle
  | passes _ hfinished _ ih =>
    obtain ⟨hfound, hkept, hnodes⟩ := ih hcycle hpost
    exact ⟨hfound, hkept, cons_subset.mpr ⟨hkept hfinished, hnodes⟩⟩
  | finds => cases hcycle
  | finishes _ _ _ _ ihinner ihrest =>
    obtain ⟨hinner, hkept, hnext⟩ := ihinner rfl hpost
    obtain ⟨hfound, hkept', hnodes⟩ := ihrest hcycle (.snoc hinner hnext)
    obtain ⟨hinner', hnode⟩ := append_subset.mp hkept'
    exact ⟨hfound, List.Subset.trans hkept hinner', cons_subset.mpr ⟨hnode mem_cons_self, hnodes⟩⟩

theorem Search.unique {cycle' : Option (List α)} {found' : List α} (h : Search next nodes trail finished cycle found)
    (h' : Search next nodes trail finished cycle' found') : cycle = cycle' ∧ found = found' := by
  induction h generalizing cycle' found' with
  | done =>
    cases h'
    exact ⟨rfl, rfl⟩
  | closes _ hon =>
    cases h' with
    | closes => exact ⟨rfl, rfl⟩
    | passes hoff => exact absurd hon hoff
    | finds hoff => exact absurd hon hoff
    | finishes hoff => exact absurd hon hoff
  | passes hoff hfinished _ ih =>
    cases h' with
    | closes _ hon => exact absurd hon hoff
    | passes _ _ hrest => exact ih hrest
    | finds _ hnew => exact absurd hfinished hnew
    | finishes _ hnew => exact absurd hfinished hnew
  | finds hoff hnew _ ih =>
    cases h' with
    | closes _ hon => exact absurd hon hoff
    | passes _ hfinished => exact absurd hfinished hnew
    | finds _ _ hinner =>
      obtain ⟨hcycle, rfl⟩ := ih hinner
      exact ⟨hcycle, rfl⟩
    | finishes _ _ hinner =>
      obtain ⟨hcycle, -⟩ := ih hinner
      cases hcycle
  | finishes hoff hnew _ _ ihinner ihrest =>
    cases h' with
    | closes _ hon => exact absurd hon hoff
    | passes _ hfinished => exact absurd hfinished hnew
    | finds _ _ hinner =>
      obtain ⟨hcycle, -⟩ := ihinner hinner
      cases hcycle
    | finishes _ _ hinner hrest =>
      obtain ⟨-, rfl⟩ := ihinner hinner
      exact ihrest hrest

theorem Search.none_iff [LawfulBEq α] (h : Search next nodes [] [] cycle found) (hall : ∀ a b, Edge next a b → b ∈ nodes) :
    cycle = none ↔ Acyclic next := by
  constructor
  · intro hnone v hwalk
    obtain ⟨hpost, -, hnodes⟩ := h.postorder hnone .nil
    obtain ⟨u, -, hedge⟩ := Relation.TransGen.tail'_iff.mp hwalk
    exact hpost.acyclic (hnodes (hall u v hedge)) hwalk
  · intro hacyclic
    cases cycle with
    | none => rfl
    | some c => exact absurd hacyclic (h.isCycle nodup_nil (fun _ _ => .singleton _) c rfl).not_acyclic

end Search

end DepthFirst
