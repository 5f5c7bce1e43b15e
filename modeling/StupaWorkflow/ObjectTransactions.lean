import StupaWorkflow.ObjectStore

/-!
A database transaction with actions on an object store. The store is no part of the transaction: a
rollback brings the rows back, not the objects.
-/
namespace ObjectTx
open List

inductive Action (Db Key Obj : Type*) where
  | put (k : Key) (v : Obj)
  | statement (f : Db → Option Db)
  | remove (k : Key)

structure Script (Db Key Obj : Type*) where
  body : List (Action Db Key Obj)
  cleanup : List Key

structure World (Db Key Obj : Type*) where
  db : Db
  objects : ObjectStore Key Obj

/-- What goes wrong: the outcome of each action of the body (the rest works), of
the commit, and the removals after it that the store refuses. -/
structure Faults (Key : Type*) where
  actions : List Bool
  commit : Bool
  refused : Key → Bool

section Machine

variable {Db Key Obj : Type*} [DecidableEq Key]

/-- The body with the pending rows; `none` is a rollback. -/
def execBody (objects : ObjectStore Key Obj) (pending : Db) :
    List (Action Db Key Obj) → List Bool → ObjectStore Key Obj × Option Db
  | [], _ => (objects, some pending)
  | .put k v :: rest, outcomes =>
    if outcomes.headD true then execBody (objects.put k v) pending rest outcomes.tail else (objects, none)
  | .statement f :: rest, outcomes =>
    match if outcomes.headD true then f pending else none with
    | some pending => execBody objects pending rest outcomes.tail
    | none => (objects, none)
  | .remove k :: rest, outcomes =>
    execBody (if outcomes.headD true then objects.remove k else objects) pending rest outcomes.tail

def removedIn (pending : Db) : List (Action Db Key Obj) → List Bool → List Key
  | [], _ => []
  | .put _ _ :: rest, outcomes => if outcomes.headD true then removedIn pending rest outcomes.tail else []
  | .statement f :: rest, outcomes =>
    match if outcomes.headD true then f pending else none with
    | some pending => removedIn pending rest outcomes.tail
    | none => []
  | .remove k :: rest, outcomes =>
    if outcomes.headD true then k :: removedIn pending rest outcomes.tail
    else removedIn pending rest outcomes.tail

def finalDb (pending : Db) : List (Action Db Key Obj) → Option Db
  | [] => some pending
  | .statement f :: rest => (f pending).bind fun p => finalDb p rest
  | .put _ _ :: rest | .remove _ :: rest => finalDb pending rest

def commits (w : World Db Key Obj) (s : Script Db Key Obj) (faults : Faults Key) : Bool :=
  (execBody w.objects w.db s.body faults.actions).2.isSome && faults.commit

def exec (w : World Db Key Obj) (s : Script Db Key Obj) (faults : Faults Key) : World Db Key Obj :=
  match execBody w.objects w.db s.body faults.actions, faults.commit with
  | (objects, some db), true =>
    ⟨db, s.cleanup.foldl (fun o k => if faults.refused k then o else o.remove k) objects⟩
  | (objects, _), _ => ⟨w.db, objects⟩

def Calm (w : World Db Key Obj) (s : Script Db Key Obj) (faults : Faults Key) : Prop :=
  removedIn w.db s.body faults.actions = [] ∨ commits w s faults = true

instance (w : World Db Key Obj) (s : Script Db Key Obj) (faults : Faults Key) : Decidable (Calm w s faults) :=
  inferInstanceAs (Decidable (_ ∨ _))

end Machine

section Final

variable {Db Key Obj : Type*}

attribute [local simp] execBody removedIn finalDb

theorem finalDb_append (pending : Db) (xs ys : List (Action Db Key Obj)) :
    finalDb pending (xs ++ ys) = (finalDb pending xs).bind fun p => finalDb p ys := by
  induction xs generalizing pending with
  | nil => rfl
  | cons a xs ih =>
    cases a with
    | put k v => exact ih pending
    | remove k => exact ih pending
    | statement f =>
      rw [cons_append, finalDb, finalDb]
      cases f pending with
      | none => rfl
      | some p => exact ih p

theorem finalDb_keeps {β : Type*} (part : Db → β) {body : List (Action Db Key Obj)}
    (h : ∀ f, .statement f ∈ body → ∀ p q, f p = some q → part q = part p) {pending q : Db}
    (hq : finalDb pending body = some q) : part q = part pending := by
  induction body generalizing pending with
  | nil =>
    cases hq
    rfl
  | cons a rest ih =>
    have hrest : ∀ f, .statement f ∈ rest → ∀ p q, f p = some q → part q = part p :=
      fun f hf => h f (mem_cons_of_mem _ hf)
    cases a with
    | put k v => exact ih hrest hq
    | remove k => exact ih hrest hq
    | statement f =>
      obtain ⟨p, hp, hq⟩ := Option.bind_eq_some_iff.mp hq
      rw [ih hrest hq, h f mem_cons_self pending p hp]

end Final

section Body

variable {Db Key Obj : Type*} [DecidableEq Key] {objects : ObjectStore Key Obj} {pending : Db}
  {body : List (Action Db Key Obj)} {outcomes : List Bool} {k : Key}

omit [DecidableEq Key] in
theorem mem_of_removedIn (h : k ∈ removedIn pending body outcomes) : .remove k ∈ body := by
  induction body generalizing pending outcomes with
  | nil => cases h
  | cons a rest ih =>
    cases a with
    | put j v =>
      rw [removedIn] at h
      split at h
      · exact mem_cons_of_mem _ (ih h)
      · cases h
    | statement f =>
      rw [removedIn] at h
      split at h
      · exact mem_cons_of_mem _ (ih h)
      · cases h
    | remove j =>
      rw [removedIn] at h
      split at h
      · rcases mem_cons.mp h with rfl | h
        · exact mem_cons_self
        · exact mem_cons_of_mem _ (ih h)
      · exact mem_cons_of_mem _ (ih h)

theorem execBody_db {q : Db} (h : (execBody objects pending body outcomes).2 = some q) : finalDb pending body = some q := by
  induction body generalizing objects pending outcomes with
  | nil => exact h
  | cons a rest ih =>
    cases a with
    | put j v =>
      rw [execBody] at h
      split at h
      · exact ih h
      · cases h
    | statement f =>
      rw [execBody] at h
      split at h
      · next p hp =>
          split at hp
          · rw [finalDb, hp, Option.bind_some]
            exact ih h
          · cases hp
      · cases h
    | remove j => exact ih h

/-- An object stays unless the body removes it. -/
theorem execBody_keeps (hk : (objects.get k).isSome) (h : k ∉ removedIn pending body outcomes) :
    ((execBody objects pending body outcomes).1.get k).isSome := by
  induction body generalizing objects pending outcomes with
  | nil => exact hk
  | cons a rest ih =>
    cases a with
    | put j v =>
      rw [execBody]
      rw [removedIn] at h
      split
      · next hok =>
          rw [if_pos hok] at h
          refine ih ?_ h
          rw [ObjectStore.get_put]
          split
          · rfl
          · exact hk
      · exact hk
    | statement f =>
      rw [execBody]
      rw [removedIn] at h
      split
      · next p hp =>
          rw [hp] at h
          exact ih hk h
      · exact hk
    | remove j =>
      rw [execBody]
      rw [removedIn] at h
      split
      · next hok =>
          rw [if_pos hok, mem_cons, not_or] at h
          refine ih ?_ h.2
          rw [ObjectStore.get_remove, if_neg h.1]
          exact hk
      · next hok =>
          rw [if_neg hok] at h
          exact ih hk h

theorem execBody_put {q : Db} {v : Obj} (hq : (execBody objects pending body outcomes).2 = some q)
    (hput : .put k v ∈ body) (h : k ∉ removedIn pending body outcomes) :
    ((execBody objects pending body outcomes).1.get k).isSome := by
  induction body generalizing objects pending outcomes with
  | nil => cases hput
  | cons a rest ih =>
    cases a with
    | put j u =>
      rw [execBody] at hq ⊢
      rw [removedIn] at h
      split at hq
      · next hok =>
          rw [if_pos hok] at h ⊢
          rcases mem_cons.mp hput with heq | hput
          · obtain ⟨rfl, rfl⟩ := Action.put.inj heq
            exact execBody_keeps (by simp) h
          · exact ih hq hput h
      · cases hq
    | statement f =>
      have hput : .put k v ∈ rest := by simpa using hput
      rw [execBody] at hq ⊢
      rw [removedIn] at h
      split at hq
      · next p hp =>
          rw [hp] at h
          exact ih hq hput h
      · cases hq
    | remove j =>
      have hput : .put k v ∈ rest := by simpa using hput
      rw [execBody] at hq ⊢
      rw [removedIn] at h
      split at hq
      · next hok =>
          rw [if_pos hok] at h ⊢
          exact ih hq hput (fun hmem => h (mem_cons_of_mem _ hmem))
      · next hok =>
          rw [if_neg hok] at h ⊢
          exact ih hq hput h

/-- A removed object that the body does not write again is gone. -/
theorem execBody_removed (hput : ∀ v, .put k v ∉ body)
    (h : k ∈ removedIn pending body outcomes ∨ objects.get k = none) :
    (execBody objects pending body outcomes).1.get k = none := by
  induction body generalizing objects pending outcomes with
  | nil => exact h.elim (fun hmem => by cases hmem) id
  | cons a rest ih =>
    have hrest : ∀ v, .put k v ∉ rest := fun v hmem => hput v (mem_cons_of_mem _ hmem)
    cases a with
    | put j v =>
      have hne : k ≠ j := fun heq => hput v (heq ▸ mem_cons_self)
      rw [removedIn] at h
      rw [execBody]
      split
      · next hok =>
          rw [if_pos hok] at h
          exact ih hrest (h.imp_right fun hnone => by rw [ObjectStore.get_put, if_neg hne, hnone])
      · next hok =>
          rw [if_neg hok] at h
          exact h.elim (fun hmem => by cases hmem) id
    | statement f =>
      rw [removedIn] at h
      rw [execBody]
      split
      · next p hp =>
          rw [hp] at h
          exact ih hrest h
      · next hp =>
          rw [hp] at h
          exact h.elim (fun hmem => by cases hmem) id
    | remove j =>
      rw [removedIn] at h
      rw [execBody]
      split
      · next hok =>
          rw [if_pos hok, mem_cons] at h
          refine ih hrest ?_
          rcases h with (rfl | hmem) | hnone
          · exact .inr (by simp)
          · exact .inl hmem
          · exact .inr (by rw [ObjectStore.get_remove, hnone, ite_self])
      · next hok =>
          rw [if_neg hok] at h
          exact ih hrest h

end Body

section Backed

variable {Db Key Obj : Type*} [DecidableEq Key] (refs : Db → List Key)

/-- Every key that the rows name has its object, and no two rows name one key. -/
structure Backed (w : World Db Key Obj) : Prop where
  nodup : (refs w.db).Nodup
  present : ∀ k ∈ refs w.db, (w.objects.get k).isSome

structure Tidy (db : Db) (s : Script Db Key Obj) : Prop where
  nodup : ∀ q, finalDb db s.body = some q → (refs q).Nodup
  known : ∀ q, finalDb db s.body = some q → ∀ k ∈ refs q, k ∈ refs db ∨ ∃ v, .put k v ∈ s.body
  removed : ∀ q, finalDb db s.body = some q → ∀ k, .remove k ∈ s.body → k ∉ refs q
  cleanup : ∀ q, finalDb db s.body = some q → ∀ k ∈ s.cleanup, k ∉ refs q

variable {refs} {w : World Db Key Obj} {s : Script Db Key Obj} {faults : Faults Key}

theorem exec_of_commits (h : commits w s faults = true) :
    ∃ objects db, execBody w.objects w.db s.body faults.actions = (objects, some db) ∧
      exec w s faults = ⟨db, s.cleanup.foldl (fun o k => if faults.refused k then o else o.remove k) objects⟩ := by
  unfold commits at h
  obtain ⟨hsome, hcommit⟩ := Bool.and_eq_true_iff.mp h
  obtain ⟨db, hdb⟩ := Option.isSome_iff_exists.mp hsome
  refine ⟨(execBody w.objects w.db s.body faults.actions).1, db, Prod.ext rfl hdb, ?_⟩
  unfold exec
  generalize execBody w.objects w.db s.body faults.actions = result at hdb
  obtain ⟨objects, _⟩ := result
  subst hdb
  rw [hcommit]

theorem exec_of_not_commits (h : commits w s faults = false) :
    exec w s faults = ⟨w.db, (execBody w.objects w.db s.body faults.actions).1⟩ := by
  unfold commits at h
  unfold exec
  generalize execBody w.objects w.db s.body faults.actions = result at h
  obtain ⟨objects, db⟩ := result
  cases db with
  | none => rfl
  | some db =>
    have hcommit : faults.commit = false := by simpa using h
    rw [hcommit]

theorem exec_backed (hw : Backed refs w) (htidy : Tidy refs w.db s) (hcalm : Calm w s faults) :
    Backed refs (exec w s faults) := by
  cases hcommits : commits w s faults with
  | false =>
    rw [exec_of_not_commits hcommits]
    have hnone := hcalm.resolve_right (by simp [hcommits])
    exact ⟨hw.nodup, fun k hk => execBody_keeps (hw.present k hk) (by simp [hnone])⟩
  | true =>
    obtain ⟨objects, db, hbody, hexec⟩ := exec_of_commits hcommits
    have hdb : (execBody w.objects w.db s.body faults.actions).2 = some db := by rw [hbody]
    have hfinal := execBody_db hdb
    rw [hexec]
    refine ⟨htidy.nodup db hfinal, fun k hk => ?_⟩
    rw [ObjectStore.get_foldl_remove, if_neg fun h => htidy.cleanup db hfinal k h.1 hk]
    have hnot : k ∉ removedIn w.db s.body faults.actions :=
      fun hmem => htidy.removed db hfinal k (mem_of_removedIn hmem) hk
    have hobjects : objects = (execBody w.objects w.db s.body faults.actions).1 := by rw [hbody]
    rw [hobjects]
    rcases htidy.known db hfinal k hk with hold | ⟨v, hput⟩
    · exact execBody_keeps (hw.present k hold) hnot
    · exact execBody_put hdb hput hnot

theorem exec_not_backed (hkeys : ∀ k, .remove k ∈ s.body → k ∈ refs w.db ∧ ∀ v, .put k v ∉ s.body)
    (h : ¬ Calm w s faults) : ¬ Backed refs (exec w s faults) := by
  simp only [Calm, not_or, Bool.not_eq_true] at h
  obtain ⟨k, rest, hremoved⟩ := exists_cons_of_ne_nil h.1
  have hmem : k ∈ removedIn w.db s.body faults.actions := by simp [hremoved]
  obtain ⟨href, hput⟩ := hkeys k (mem_of_removedIn hmem)
  rw [exec_of_not_commits h.2]
  intro hbacked
  have := hbacked.present k href
  simp [execBody_removed hput (.inl hmem)] at this

end Backed

end ObjectTx
