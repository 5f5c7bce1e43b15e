import Mathlib.Order.Basic

/-!
Interleaved database transactions under READ COMMITTED. A transaction is a tree of
statements: an unlocked read sees the rows committed at that moment and its own pending
writes, a row lock is waited for and the row is read when it is granted, and a commit
publishes the pending writes and releases the locks. A transaction may be rolled back
between two statements. In the rely-guarantee calculus of the second half, `wp` asks of a
program what the interleavings may expose, and `run_sound` makes a property of all runs of it.
-/
namespace ReadCommitted
open List Option

/-- A program with its remaining statements. `lock` takes its key from the rows
visible when the lock is granted, so a row that is missing by then is not locked.
`skipLocked` never waits: it reports whether it got the lock. -/
inductive Prog (Db Key Err α : Type*) where
  | pure (a : α)
  | fail (e : Err)
  | read (next : Db → Prog Db Key Err α)
  | lock (key : Db → Option Key) (next : Db → Prog Db Key Err α)
  | skipLocked (key : Key) (next : Bool → Prog Db Key Err α)
  | write (w : Db → Db) (next : Prog Db Key Err α)
  | commit (next : Prog Db Key Err α)

namespace Prog
open List Option

variable {Db Key Err α β : Type*}

def bind : Prog Db Key Err α → (α → Prog Db Key Err β) → Prog Db Key Err β
  | .pure a, f => f a
  | .fail e, _ => .fail e
  | .read next, f => .read fun d => (next d).bind f
  | .lock key next, f => .lock key fun d => (next d).bind f
  | .skipLocked key next, f => .skipLocked key fun b => (next b).bind f
  | .write w next, f => .write w (next.bind f)
  | .commit next, f => .commit (next.bind f)

instance : Monad (Prog Db Key Err) where
  pure := .pure
  bind := .bind

def catchWith : Prog Db Key Err α → (Err → Prog Db Key Err α) → Prog Db Key Err α
  | .pure a, _ => .pure a
  | .fail e, h => h e
  | .read next, h => .read fun d => (next d).catchWith h
  | .lock key next, h => .lock key fun d => (next d).catchWith h
  | .skipLocked key next, h => .skipLocked key fun b => (next b).catchWith h
  | .write w next, h => .write w (next.catchWith h)
  | .commit next, h => .commit (next.catchWith h)

def mapErr {Err' : Type*} (f : Err → Err') : Prog Db Key Err α → Prog Db Key Err' α
  | .pure a => .pure a
  | .fail e => .fail (f e)
  | .read next => .read fun d => (next d).mapErr f
  | .lock key next => .lock key fun d => (next d).mapErr f
  | .skipLocked key next => .skipLocked key fun b => (next b).mapErr f
  | .write w next => .write w (next.mapErr f)
  | .commit next => .commit (next.mapErr f)

def query : Prog Db Key Err Db := .read .pure

def lockRow (key : Db → Option Key) : Prog Db Key Err Db := .lock key .pure

def update (w : Db → Db) : Prog Db Key Err Unit := .write w (.pure ())

def publish : Prog Db Key Err Unit := .commit (.pure ())

/-- Raise the problem unless the condition holds. -/
def require (b : Bool) (e : Err) : Prog Db Key Err Unit :=
  if b then .pure () else .fail e

def ofOption (x : Option α) (e : Err) : Prog Db Key Err α :=
  match x with
  | some a => .pure a
  | none => .fail e

def ofExcept : Except Err α → Prog Db Key Err α
  | .ok a => .pure a
  | .error e => .fail e

/-- Take the lock of one row unless another transaction holds it. -/
def tryLock (key : Key) : Prog Db Key Err Bool := .skipLocked key .pure

/-- The rows that a locking statement returns: the entries in order, each with the
rows collected so far. -/
def collect (f : List α → β → Prog Db Key Err (Option α)) : List β → List α → Prog Db Key Err (List α)
  | [], acc => .pure acc
  | b :: bs, acc => (f acc b).bind fun x => collect f bs (acc ++ x.toList)

def forEach : List β → (β → Prog Db Key Err Unit) → Prog Db Key Err Unit
  | [], _ => .pure ()
  | b :: bs, f => (f b).bind fun _ => forEach bs f

def lockAll (keys : List Key) : Prog Db Key Err Unit :=
  forEach keys fun k => (lockRow fun _ => some k).bind fun _ => .pure ()

end Prog

/-- When the locks of two transactions exclude each other: two share locks of one
row do not. -/
class LockModes (Key : Type*) where
  conflict : Key → Key → Bool
  symm : ∀ {k k' : Key}, conflict k k' = false → conflict k' k = false

instance (priority := low) exclusiveLocks {Key : Type*} [DecidableEq Key] : LockModes Key where
  conflict k k' := decide (k = k')
  symm h := by simpa only [decide_eq_false_iff_not, eq_comm] using h

def Apart {Key : Type*} [LockModes Key] (other held : List Key) : Prop :=
  ∀ k ∈ other, ∀ k' ∈ held, LockModes.conflict k k' = false

theorem Apart.symm {Key : Type*} [LockModes Key] {other held : List Key} (h : Apart other held) : Apart held other :=
  fun k hk k' hk' => LockModes.symm (h k' hk' k hk)

theorem Apart.not_mem {Key : Type*} [DecidableEq Key] {other held : List Key} (h : Apart other held) {k : Key}
    (hk : k ∈ other) : k ∉ held := fun hk' => of_decide_eq_false (h k hk k hk') rfl

/-- What a transaction in flight owns: its pending writes and its row locks. -/
structure Loc (Db Key : Type*) where
  pend : Db → Db
  held : List Key

def Loc.fresh {Db Key : Type*} : Loc Db Key := ⟨id, []⟩

/-- A transaction in flight. `.pure` marks one that has ended. -/
structure Tx (Req Db Key Err : Type*) where
  req : Req
  prog : Prog Db Key Err Unit
  loc : Loc Db Key

structure Sys (Req Db Key Err : Type*) where
  db : Db
  live : List (Tx Req Db Key Err)

inductive Event (Req : Type*) where
  | start (r : Req)
  | step (i : ℕ)
  | abort (i : ℕ)

section Machine

variable {Req Db Key Err : Type*} [LockModes Key]
variable {script : Req → Prog Db Key Err Unit} {s s' : Sys Req Db Key Err}

def isFree (live : List (Tx Req Db Key Err)) (i : ℕ) (k : Key) : Bool :=
  (List.range live.length).all fun j =>
    j == i || (live[j]?).all fun u => u.loc.held.all fun k' => !LockModes.conflict k k'

def ended (t : Tx Req Db Key Err) : Tx Req Db Key Err :=
  { t with prog := .pure (), loc := .fresh }

def Sys.put (s : Sys Req Db Key Err) (i : ℕ) (t : Tx Req Db Key Err) : Sys Req Db Key Err :=
  { s with live := s.live.set i t }

/-- The next statement of transaction `i`; `none` when it waits or has ended. -/
def advance (s : Sys Req Db Key Err) (i : ℕ) (t : Tx Req Db Key Err) : Option (Sys Req Db Key Err) :=
  let view := t.loc.pend s.db
  match t.prog with
  | .pure _ => none
  | .fail _ => some (s.put i (ended t))
  | .read next => some (s.put i { t with prog := next view })
  | .write w next => some (s.put i ⟨t.req, next, ⟨w ∘ t.loc.pend, t.loc.held⟩⟩)
  | .lock key next =>
    match key view with
    | none => some (s.put i { t with prog := next view })
    | some k =>
      if isFree s.live i k then
        some (s.put i ⟨t.req, next view, ⟨t.loc.pend, k :: t.loc.held⟩⟩)
      else none
  | .skipLocked k next =>
    if isFree s.live i k then
      some (s.put i ⟨t.req, next true, ⟨t.loc.pend, k :: t.loc.held⟩⟩)
    else some (s.put i { t with prog := next false })
  | .commit next => some ⟨view, s.live.set i ⟨t.req, next, .fresh⟩⟩

def exec (script : Req → Prog Db Key Err Unit) (s : Sys Req Db Key Err) :
    Event Req → Option (Sys Req Db Key Err)
  | .start r => some { s with live := s.live ++ [⟨r, script r, .fresh⟩] }
  | .step i => s.live[i]?.bind (advance s i)
  | .abort i => s.live[i]?.map fun t => s.put i (ended t)

def run (script : Req → Prog Db Key Err Unit) (s : Sys Req Db Key Err) :
    List (Event Req) → Option (Sys Req Db Key Err)
  | [] => some s
  | e :: es => (exec script s e).bind fun s' => run script s' es

/-- The systems that an interleaving reaches from committed rows without a
transaction in flight. -/
def Reachable (script : Req → Prog Db Key Err Unit) (d : Db) (s : Sys Req Db Key Err) : Prop :=
  ∃ es, run script ⟨d, []⟩ es = some s

theorem run_append (script : Req → Prog Db Key Err Unit) (s : Sys Req Db Key Err)
    (es fs : List (Event Req)) :
    run script s (es ++ fs) = (run script s es).bind fun s' => run script s' fs := by
  induction es generalizing s with
  | nil => rfl
  | cons e es ih =>
    simp only [cons_append, run]
    cases exec script s e with
    | none => rfl
    | some s' => exact ih s'

/-- The committed rows change at a commit only. -/
theorem exec_db {ev : Event Req} (he : exec script s ev = some s') :
    s'.db = s.db ∨ ∃ i t next, ev = .step i ∧ s.live[i]? = some t ∧ t.prog = .commit next ∧ s'.db = t.loc.pend s.db := by
  cases ev with
  | start r =>
    cases he
    exact .inl rfl
  | abort i =>
    obtain ⟨t, _, rfl⟩ := map_eq_some_iff.mp he
    exact .inl rfl
  | step i =>
    obtain ⟨⟨req, prog, loc⟩, hi, hadv⟩ := bind_eq_some_iff.mp he
    cases prog with
    | pure a => cases hadv
    | commit next =>
      cases hadv
      exact .inr ⟨i, _, next, rfl, hi, rfl, rfl⟩
    | fail e =>
      cases hadv
      exact .inl rfl
    | read next =>
      cases hadv
      exact .inl rfl
    | write w next =>
      cases hadv
      exact .inl rfl
    | lock key next =>
      simp only [advance] at hadv
      split at hadv
      · cases hadv
        exact .inl rfl
      · split at hadv
        · cases hadv
          exact .inl rfl
        · cases hadv
    | skipLocked k next =>
      simp only [advance] at hadv
      split at hadv
      · cases hadv
        exact .inl rfl
      · cases hadv
        exact .inl rfl

theorem Reachable.exec {d : Db} (h : Reachable script d s) {e : Event Req} (he : exec script s e = some s') :
    Reachable script d s' := by
  obtain ⟨es, hes⟩ := h
  exact ⟨es ++ [e], by simp [run_append, hes, run, he]⟩

end Machine

section Calculus

/-- A lock step carries what holds after it, whether there was a row to lock or not. -/
theorem lock_imp {Key : Type*} {k? : Option Key} {A B : Prop} {A' B' : Key → Prop} (hnone : A → B) (hsome : ∀ k, A' k → B' k) :
    (match k? with | none => A | some k => A' k) → match k? with | none => B | some k => B' k := by
  intro h
  cases k? with
  | none => exact hnone h
  | some k => exact hsome k h

theorem lock_congr {Key : Type*} {k? : Option Key} {A B : Prop} {A' B' : Key → Prop} (hnone : A ↔ B) (hsome : ∀ k, A' k ↔ B' k) :
    (match k? with | none => A | some k => A' k) ↔ match k? with | none => B | some k => B' k :=
  ⟨lock_imp hnone.mp fun k => (hsome k).mp, lock_imp hnone.mpr fun k => (hsome k).mpr⟩

variable {Req Db Key Err α β : Type*} [LockModes Key]

/-- An agreement between all transactions: an invariant of the committed rows,
what a transaction with these locks relies on while others commit, and what its
own commit guarantees. -/
structure Contract (Req Db Key : Type*) [LockModes Key] where
  inv : Db → Prop
  rely : List Key → Db → Db → Prop
  guar : Req → List Key → Db → Db → Prop
  refl : ∀ held d, rely held d d
  trans : ∀ {held d e f}, rely held d e → rely held e f → rely held d f
  compat : ∀ {r held other d e}, inv d → guar r held d e → Apart other held → rely other d e

/-- Every interleaving of the program keeps the contract and ends in `Q`. -/
def wp (C : Contract Req Db Key) (r : Req) :
    Prog Db Key Err α → (α → Loc Db Key → Db → Prop) → Loc Db Key → Db → Prop
  | .pure a, Q, l, d => Q a l d
  | .fail _, _, _, _ => True
  | .read next, Q, l, d =>
    ∀ e, C.rely l.held d e → C.inv e → wp C r (next (l.pend e)) Q l e
  | .lock key next, Q, l, d =>
    ∀ e, C.rely l.held d e → C.inv e →
      match key (l.pend e) with
      | none => wp C r (next (l.pend e)) Q l e
      | some k => wp C r (next (l.pend e)) Q ⟨l.pend, k :: l.held⟩ e
  | .skipLocked k next, Q, l, d =>
    ∀ e, C.rely l.held d e → C.inv e →
      wp C r (next true) Q ⟨l.pend, k :: l.held⟩ e ∧ wp C r (next false) Q l e
  | .write w next, Q, l, d => wp C r next Q ⟨w ∘ l.pend, l.held⟩ d
  | .commit next, Q, l, d =>
    ∀ e, C.rely l.held d e → C.inv e →
      C.inv (l.pend e) ∧ C.guar r l.held e (l.pend e) ∧ wp C r next Q .fresh (l.pend e)

/-- As `wp`, with what a raised problem leaves behind. -/
def wpOr (C : Contract Req Db Key) (r : Req) :
    Prog Db Key Err α → (α → Loc Db Key → Db → Prop) → (Err → Loc Db Key → Db → Prop) → Loc Db Key → Db → Prop
  | .pure a, Q, _, l, d => Q a l d
  | .fail err, _, E, l, d => E err l d
  | .read next, Q, E, l, d => ∀ e, C.rely l.held d e → C.inv e → wpOr C r (next (l.pend e)) Q E l e
  | .lock key next, Q, E, l, d =>
    ∀ e, C.rely l.held d e → C.inv e →
      match key (l.pend e) with
      | none => wpOr C r (next (l.pend e)) Q E l e
      | some k => wpOr C r (next (l.pend e)) Q E ⟨l.pend, k :: l.held⟩ e
  | .skipLocked k next, Q, E, l, d =>
    ∀ e, C.rely l.held d e → C.inv e →
      wpOr C r (next true) Q E ⟨l.pend, k :: l.held⟩ e ∧ wpOr C r (next false) Q E l e
  | .write w next, Q, E, l, d => wpOr C r next Q E ⟨w ∘ l.pend, l.held⟩ d
  | .commit next, Q, E, l, d =>
    ∀ e, C.rely l.held d e → C.inv e →
      C.inv (l.pend e) ∧ C.guar r l.held e (l.pend e) ∧ wpOr C r next Q E .fresh (l.pend e)

variable {C : Contract Req Db Key} {r : Req} {l : Loc Db Key} {d : Db}
variable {p : Prog Db Key Err α} {Q R : α → Loc Db Key → Db → Prop}
variable {E F : Err → Loc Db Key → Db → Prop}

attribute [local simp] wp wpOr Prog.bind Prog.mapErr Prog.catchWith

@[simp] theorem wp_pure (a : α) (Q : α → Loc Db Key → Db → Prop) :
    wp C r (.pure a : Prog Db Key Err α) Q l d ↔ Q a l d := Iff.rfl

@[simp] theorem wp_fail (e : Err) (Q : α → Loc Db Key → Db → Prop) :
    wp C r (.fail e : Prog Db Key Err α) Q l d := trivial

theorem wpOr_mono (hQ : ∀ a l d, Q a l d → R a l d) (hE : ∀ err l d, E err l d → F err l d) (h : wpOr C r p Q E l d) :
    wpOr C r p R F l d := by
  induction p generalizing l d with
  | pure a => exact hQ a l d h
  | fail err => exact hE err l d h
  | read next ih => exact fun e hrely hinv => ih _ (h e hrely hinv)
  | lock key next ih => exact fun e hrely hinv => lock_imp (ih _) (fun _ => ih _) (h e hrely hinv)
  | skipLocked k next ih => exact fun e hrely hinv => ⟨ih true (h e hrely hinv).1, ih false (h e hrely hinv).2⟩
  | write w next ih => exact ih h
  | commit next ih => exact fun e hrely hinv => ⟨(h e hrely hinv).1, (h e hrely hinv).2.1, ih (h e hrely hinv).2.2⟩

theorem wpOr_bind (p : Prog Db Key Err α) (f : α → Prog Db Key Err β) (Q : β → Loc Db Key → Db → Prop) :
    wpOr C r (p.bind f) Q E l d ↔ wpOr C r p (fun a l d => wpOr C r (f a) Q E l d) E l d := by
  induction p generalizing l d with
  | pure a => rfl
  | fail err => rfl
  | read next ih => simp only [Prog.bind, wpOr, ih]
  | lock key next ih =>
    exact forall_congr' fun e => forall_congr' fun _ => forall_congr' fun _ => lock_congr (ih _) fun _ => ih _
  | skipLocked k next ih => simp only [Prog.bind, wpOr, ih]
  | write w next ih => exact ih
  | commit next ih => simp only [Prog.bind, wpOr, ih]

theorem wp_iff_wpOr : wp C r p Q l d ↔ wpOr C r p Q (fun _ _ _ => True) l d := by
  induction p generalizing l d with
  | pure a => rfl
  | fail err => rfl
  | read next ih => simp only [wp, wpOr, ih]
  | lock key next ih =>
    exact forall_congr' fun e => forall_congr' fun _ => forall_congr' fun _ => lock_congr (ih _) fun _ => ih _
  | skipLocked k next ih => simp only [wp, wpOr, ih]
  | write w next ih => exact ih
  | commit next ih => simp only [wp, wpOr, ih]

theorem wp_of_wpOr (h : wpOr C r p Q E l d) : wp C r p Q l d :=
  wp_iff_wpOr.mpr (wpOr_mono (fun _ _ _ hQ => hQ) (fun _ _ _ _ => trivial) h)

theorem wp_mono (hQ : ∀ a l d, Q a l d → R a l d) (h : wp C r p Q l d) : wp C r p R l d :=
  wp_of_wpOr (wpOr_mono hQ (fun _ _ _ hE => hE) (wp_iff_wpOr.mp h))

theorem wp_bind (p : Prog Db Key Err α) (f : α → Prog Db Key Err β) (Q : β → Loc Db Key → Db → Prop) :
    wp C r (p.bind f) Q l d ↔ wp C r p (fun a l d => wp C r (f a) Q l d) l d := by
  simp only [wp_iff_wpOr, wpOr_bind]

/-- The `do` notation unfolds to `Prog.bind`. -/
@[simp] theorem wp_do {α β : Type} (p : Prog Db Key Err α) (f : α → Prog Db Key Err β)
    (Q : β → Loc Db Key → Db → Prop) :
    wp C r (p >>= f) Q l d ↔ wp C r p (fun a l d => wp C r (f a) Q l d) l d := wp_bind p f Q

@[simp] theorem wp_return {α : Type} (a : α) (Q : α → Loc Db Key → Db → Prop) :
    wp C r (pure a : Prog Db Key Err α) Q l d ↔ Q a l d := Iff.rfl

@[simp] theorem wp_require (b : Bool) (e : Err) (Q : Unit → Loc Db Key → Db → Prop) :
    wp C r (Prog.require b e) Q l d ↔ (b = true → Q () l d) := by
  cases b <;> simp [Prog.require]

@[simp] theorem wp_ofOption (x : Option α) (e : Err) (Q : α → Loc Db Key → Db → Prop) :
    wp C r (Prog.ofOption x e) Q l d ↔ ∀ a, x = some a → Q a l d := by
  cases x <;> simp [Prog.ofOption]

@[simp] theorem wp_ofExcept (x : Except Err α) (Q : α → Loc Db Key → Db → Prop) :
    wp C r (Prog.ofExcept x) Q l d ↔ ∀ a, x = .ok a → Q a l d := by
  cases x <;> simp [Prog.ofExcept]

@[simp] theorem wp_update (w : Db → Db) (Q : Unit → Loc Db Key → Db → Prop) :
    wp C r (Prog.update w : Prog Db Key Err Unit) Q l d ↔ Q () ⟨w ∘ l.pend, l.held⟩ d := Iff.rfl

theorem wp_query (Q : Db → Loc Db Key → Db → Prop) :
    wp C r (Prog.query : Prog Db Key Err Db) Q l d ↔
      ∀ e, C.rely l.held d e → C.inv e → Q (l.pend e) l e := Iff.rfl

theorem wp_lockRow (key : Db → Option Key) (Q : Db → Loc Db Key → Db → Prop) :
    wp C r (Prog.lockRow key : Prog Db Key Err Db) Q l d ↔
      ∀ e, C.rely l.held d e → C.inv e →
        match key (l.pend e) with
        | none => Q (l.pend e) l e
        | some k => Q (l.pend e) ⟨l.pend, k :: l.held⟩ e := by
  refine forall_congr' fun e => forall_congr' fun _ => forall_congr' fun _ => ?_
  cases key (l.pend e) <;> rfl

theorem wp_publish (Q : Unit → Loc Db Key → Db → Prop) :
    wp C r (Prog.publish : Prog Db Key Err Unit) Q l d ↔
      ∀ e, C.rely l.held d e → C.inv e →
        C.inv (l.pend e) ∧ C.guar r l.held e (l.pend e) ∧ Q () .fresh (l.pend e) := Iff.rfl

theorem wp_forEach (f : β → Prog Db Key Err Unit) (J : List β → Loc Db Key → Db → Prop)
    (step : ∀ b bs l d, J (b :: bs) l d → wp C r (f b) (fun _ l d => J bs l d) l d)
    (bs : List β) (h : J bs l d) : wp C r (Prog.forEach bs f) (fun _ l d => J [] l d) l d := by
  induction bs generalizing l d with
  | nil => exact h
  | cons b bs ih =>
    rw [Prog.forEach, wp_bind]
    exact wp_mono (fun _ l d hJ => ih hJ) (step b bs l d h)

theorem wp_lockAll {Q : Unit → Loc Db Key → Db → Prop} (keys : List Key)
    (hmono : ∀ {held held' : List Key} {d e : Db}, held ⊆ held' → C.rely held' d e → C.rely held d e) (hinv : C.inv d)
    (h : ∀ e held, l.held ⊆ held → (∀ k ∈ keys, k ∈ held) → C.rely l.held d e → C.inv e → Q () ⟨l.pend, held⟩ e) :
    wp C r (Prog.lockAll keys : Prog Db Key Err Unit) Q l d := by
  rw [Prog.lockAll]
  induction keys generalizing l d with
  | nil => exact h d l.held (List.Subset.refl _) (by simp) (C.refl _ _) hinv
  | cons k keys ih =>
    rw [Prog.forEach, wp_bind, wp_bind, wp_lockRow]
    intro e hrely hinv
    refine ih hinv fun f held hsub hkeys hrely' hinv' => ?_
    refine h f held (fun k' hk' => hsub (mem_cons_of_mem _ hk')) ?_ (C.trans hrely (hmono ?_ hrely')) hinv'
    · intro k' hk'
      rcases mem_cons.mp hk' with rfl | hmem
      · exact hsub mem_cons_self
      · exact hkeys k' hmem
    · exact subset_cons_self k l.held

@[simp] theorem wp_tryLock (k : Key) (Q : Bool → Loc Db Key → Db → Prop) :
    wp C r (Prog.tryLock k : Prog Db Key Err Bool) Q l d ↔
      ∀ e, C.rely l.held d e → C.inv e → Q true ⟨l.pend, k :: l.held⟩ e ∧ Q false l e := Iff.rfl

theorem wp_collect (f : List α → β → Prog Db Key Err (Option α)) (J : List β → List α → Loc Db Key → Db → Prop)
    (step : ∀ b bs acc l d, J (b :: bs) acc l d → wp C r (f acc b) (fun x l d => J bs (acc ++ x.toList) l d) l d)
    (bs : List β) (acc : List α) (h : J bs acc l d) :
    wp C r (Prog.collect f bs acc) (fun acc l d => J [] acc l d) l d := by
  induction bs generalizing acc l d with
  | nil => exact h
  | cons b bs ih =>
    rw [Prog.collect, wp_bind]
    exact wp_mono (fun x l d hJ => ih _ hJ) (step b bs acc l d h)

/-- A program keeps every contract that relies on as much and promises no more. -/
theorem wp_transfer {Req' : Type*} {D : Contract Req' Db Key} {q : Req'} (hrely : ∀ {held d e}, D.rely held d e → C.rely held d e)
    (hinv : ∀ {d}, D.inv d ↔ C.inv d) (hguar : ∀ {held d e}, C.guar r held d e → D.guar q held d e) (h : wp C r p Q l d) :
    wp D q p Q l d := by
  induction p generalizing l d with
  | pure a => exact h
  | fail e => trivial
  | read next ih => exact fun f hf hi => ih _ (h f (hrely hf) (hinv.mp hi))
  | lock key next ih => exact fun f hf hi => lock_imp (ih _) (fun _ => ih _) (h f (hrely hf) (hinv.mp hi))
  | skipLocked k next ih =>
    intro f hf hi
    obtain ⟨hgot, hskip⟩ := h f (hrely hf) (hinv.mp hi)
    exact ⟨ih _ hgot, ih _ hskip⟩
  | write w next ih => exact ih h
  | commit next ih =>
    intro f hf hi
    obtain ⟨hafter, hg, hn⟩ := h f (hrely hf) (hinv.mp hi)
    exact ⟨hinv.mpr hafter, hguar hg, ih hn⟩

theorem wp_stable {e : Db} (hQ : ∀ a l d e, Q a l d → C.rely l.held d e → Q a l e) (h : wp C r p Q l d) (hr : C.rely l.held d e) :
    wp C r p Q l e := by
  induction p generalizing l d e with
  | pure a => exact hQ _ _ _ _ h hr
  | fail e => trivial
  | read next ih => exact fun f hf => h f (C.trans hr hf)
  | lock key next ih => exact fun f hf => h f (C.trans hr hf)
  | skipLocked k next ih => exact fun f hf => h f (C.trans hr hf)
  | write w next ih => exact ih (l := ⟨w ∘ l.pend, l.held⟩) h hr
  | commit next ih => exact fun f hf => h f (C.trans hr hf)

@[simp] theorem wp_mapErr {Err' : Type*} (f : Err → Err') (p : Prog Db Key Err α) (Q : α → Loc Db Key → Db → Prop) :
    wp C r (p.mapErr f) Q l d ↔ wp C r p Q l d := by
  induction p generalizing l d with
  | pure a => rfl
  | fail e => rfl
  | read next ih => simp only [Prog.mapErr, wp, ih]
  | lock key next ih =>
    exact forall_congr' fun e => forall_congr' fun _ => forall_congr' fun _ => lock_congr (ih _) fun _ => ih _
  | skipLocked k next ih => simp only [Prog.mapErr, wp, ih]
  | write w next ih => exact ih
  | commit next ih => simp only [Prog.mapErr, wp, ih]

theorem wp_catchWith (p : Prog Db Key Err α) (h : Err → Prog Db Key Err α) (Q : α → Loc Db Key → Db → Prop) :
    wp C r (p.catchWith h) Q l d ↔ wpOr C r p Q (fun err l d => wp C r (h err) Q l d) l d := by
  induction p generalizing l d with
  | pure a => rfl
  | fail err => rfl
  | read next ih => simp only [Prog.catchWith, wp, wpOr, ih]
  | lock key next ih =>
    exact forall_congr' fun e => forall_congr' fun _ => forall_congr' fun _ => lock_congr (ih _) fun _ => ih _
  | skipLocked k next ih => simp only [Prog.catchWith, wp, wpOr, ih]
  | write w next ih => exact ih
  | commit next ih => simp only [Prog.catchWith, wp, wpOr, ih]

@[simp] theorem wpOr_do {α β : Type} (p : Prog Db Key Err α) (f : α → Prog Db Key Err β)
    (Q : β → Loc Db Key → Db → Prop) :
    wpOr C r (p >>= f) Q E l d ↔ wpOr C r p (fun a l d => wpOr C r (f a) Q E l d) E l d := wpOr_bind p f Q

@[simp] theorem wpOr_pure (a : α) (Q : α → Loc Db Key → Db → Prop) :
    wpOr C r (.pure a : Prog Db Key Err α) Q E l d ↔ Q a l d := Iff.rfl

@[simp] theorem wpOr_require (b : Bool) (err : Err) (Q : Unit → Loc Db Key → Db → Prop) :
    wpOr C r (Prog.require b err) Q E l d ↔ (b = true → Q () l d) ∧ (b = false → E err l d) := by
  cases b <;> simp [Prog.require, wpOr]

@[simp] theorem wpOr_ofOption (x : Option α) (err : Err) (Q : α → Loc Db Key → Db → Prop) :
    wpOr C r (Prog.ofOption x err) Q E l d ↔ (∀ a, x = some a → Q a l d) ∧ (x = none → E err l d) := by
  cases x <;> simp [Prog.ofOption, wpOr]

@[simp] theorem wpOr_ofExcept (x : Except Err α) (Q : α → Loc Db Key → Db → Prop) :
    wpOr C r (Prog.ofExcept x) Q E l d ↔ (∀ a, x = .ok a → Q a l d) ∧ ∀ err, x = .error err → E err l d := by
  cases x <;> simp [Prog.ofExcept, wpOr]

@[simp] theorem wpOr_update (w : Db → Db) (Q : Unit → Loc Db Key → Db → Prop) :
    wpOr C r (Prog.update w : Prog Db Key Err Unit) Q E l d ↔ Q () ⟨w ∘ l.pend, l.held⟩ d := Iff.rfl

theorem wpOr_query (Q : Db → Loc Db Key → Db → Prop) :
    wpOr C r (Prog.query : Prog Db Key Err Db) Q E l d ↔
      ∀ e, C.rely l.held d e → C.inv e → Q (l.pend e) l e := Iff.rfl

theorem wpOr_lockRow (key : Db → Option Key) (Q : Db → Loc Db Key → Db → Prop) :
    wpOr C r (Prog.lockRow key : Prog Db Key Err Db) Q E l d ↔
      ∀ e, C.rely l.held d e → C.inv e →
        match key (l.pend e) with
        | none => Q (l.pend e) l e
        | some k => Q (l.pend e) ⟨l.pend, k :: l.held⟩ e := by
  refine forall_congr' fun e => forall_congr' fun _ => forall_congr' fun _ => ?_
  cases key (l.pend e) <;> rfl

end Calculus

section Soundness

variable {Req Db Key Err : Type*} [LockModes Key] {C : Contract Req Db Key} {script : Req → Prog Db Key Err Unit}
  {s s' : Sys Req Db Key Err} {ev : Event Req}
variable {live : List (Tx Req Db Key Err)} {i : ℕ} {t t' : Tx Req Db Key Err}

def Keeps (C : Contract Req Db Key) (r : Req) (p : Prog Db Key Err Unit) : Prop :=
  ∀ d, C.inv d → wp C r p (fun _ _ _ => True) .fresh d

/-- The locks of two transactions in flight never exclude each other. -/
def Exclusive (live : List (Tx Req Db Key Err)) : Prop :=
  ∀ (i j : ℕ) (t u : Tx Req Db Key Err), live[i]? = some t → live[j]? = some u → i ≠ j → Apart t.loc.held u.loc.held

structure Sound (C : Contract Req Db Key) (s : Sys Req Db Key Err) : Prop where
  inv : C.inv s.db
  live : ∀ (i : ℕ) (t : Tx Req Db Key Err), s.live[i]? = some t → wp C t.req t.prog (fun _ _ _ => True) t.loc s.db
  excl : Exclusive s.live

theorem isFree_spec {k : Key} (h : isFree live i k) {j : ℕ} {u : Tx Req Db Key Err} (hj : live[j]? = some u) (hne : j ≠ i) :
    ∀ k' ∈ u.loc.held, LockModes.conflict k k' = false := by
  have hlt : j < live.length := (List.getElem?_eq_some_iff.mp hj).1
  have := all_eq_true.mp h j (mem_range.mpr hlt)
  simpa [hne, hj] using this

theorem exclusive_set (h : Exclusive live) (hi : live[i]? = some t) (hheld : ∀ k ∈ t'.loc.held, k ∈ t.loc.held ∨ isFree live i k) :
    Exclusive (live.set i t') := by
  have hother : ∀ (j : ℕ) (u : Tx Req Db Key Err), live[j]? = some u → j ≠ i → Apart t'.loc.held u.loc.held := by
    intro j u hj hne k hk
    rcases hheld k hk with old | free
    · exact h i j t u hi hj (Ne.symm hne) k old
    · exact isFree_spec free hj hne
  have hlt : i < live.length := (List.getElem?_eq_some_iff.mp hi).1
  intro a b v w ha hb hne
  rw [getElem?_set] at ha hb
  by_cases hia : i = a
  · subst hia
    rw [if_neg hne] at hb
    simp only [if_true, hlt, Option.some.injEq] at ha
    subst ha
    exact hother b w hb (Ne.symm hne)
  · rw [if_neg hia] at ha
    by_cases hib : i = b
    · subst hib
      simp only [if_true, hlt, Option.some.injEq] at hb
      subst hb
      exact (hother a v ha (Ne.symm hia)).symm
    · rw [if_neg hib] at hb
      exact h a b v w ha hb hne

theorem Sound.put (h : Sound C s) (hi : s.live[i]? = some t) (hheld : ∀ k ∈ t'.loc.held, k ∈ t.loc.held ∨ isFree s.live i k)
    (hwp : wp C t'.req t'.prog (fun _ _ _ => True) t'.loc s.db) : Sound C (s.put i t') := by
  refine ⟨h.inv, ?_, exclusive_set h.excl hi hheld⟩
  intro j u hj
  simp only [Sys.put, getElem?_set] at hj
  split at hj
  · split at hj
    · cases hj; exact hwp
    · cases hj
  · exact h.live j u hj

theorem Sound.commit (h : Sound C s) {e : Db} (hi : s.live[i]? = some t) (hinv : C.inv e) (hguar : C.guar t.req t.loc.held s.db e)
    (hheld : t'.loc.held = []) (hwp : wp C t'.req t'.prog (fun _ _ _ => True) t'.loc e) : Sound C ⟨e, s.live.set i t'⟩ := by
  refine ⟨hinv, ?_, exclusive_set h.excl hi (by simp [hheld])⟩
  intro j u hj
  simp only [getElem?_set] at hj
  split at hj
  · split at hj
    · cases hj; exact hwp
    · cases hj
  case isFalse hne =>
    have free := h.excl j i u t hj hi (Ne.symm hne)
    exact wp_stable (fun _ _ _ _ hq _ => hq) (h.live j u hj) (C.compat h.inv hguar free)

/-- The committed rows changed only by a commit that gave its guarantee. -/
def ChangedBy (C : Contract Req Db Key) (s : Sys Req Db Key Err) (e : Db) : Prop :=
  e = s.db ∨ ∃ (i : ℕ) (t : Tx Req Db Key Err), s.live[i]? = some t ∧ C.guar t.req t.loc.held s.db e

theorem advance_sound (h : Sound C s) (hi : s.live[i]? = some t) (hadv : advance s i t = some s') :
    Sound C s' ∧ ChangedBy C s s'.db := by
  have hlive := h.live i t hi
  obtain ⟨req, prog, loc⟩ := t
  cases prog with
  | pure a => cases hadv
  | fail e =>
    cases hadv
    exact ⟨h.put hi (by simp [ended, Loc.fresh]) trivial, .inl rfl⟩
  | read next =>
    cases hadv
    exact ⟨h.put hi (fun k hk => .inl hk) (hlive s.db (C.refl _ _) h.inv), .inl rfl⟩
  | write w next =>
    cases hadv
    exact ⟨h.put hi (fun k hk => .inl hk) hlive, .inl rfl⟩
  | lock key next =>
    have hgo := hlive s.db (C.refl _ _) h.inv
    simp only [advance] at hadv hgo
    cases hkey : key (loc.pend s.db) with
    | none =>
      rw [hkey] at hgo hadv
      cases hadv
      exact ⟨h.put hi (fun k hk => .inl hk) hgo, .inl rfl⟩
    | some k =>
      rw [hkey] at hgo
      simp only [hkey] at hadv
      split at hadv
      case isTrue hfree =>
        cases hadv
        refine ⟨h.put hi ?_ hgo, .inl rfl⟩
        intro k' hk'
        rcases mem_cons.mp hk' with rfl | hk'
        · exact .inr hfree
        · exact .inl hk'
      case isFalse => cases hadv
  | skipLocked k next =>
    obtain ⟨hgot, hskip⟩ := hlive s.db (C.refl _ _) h.inv
    simp only [advance] at hadv
    split at hadv
    case isTrue hfree =>
      cases hadv
      refine ⟨h.put hi ?_ hgot, .inl rfl⟩
      intro k' hk'
      rcases mem_cons.mp hk' with rfl | hk'
      · exact .inr hfree
      · exact .inl hk'
    case isFalse =>
      cases hadv
      exact ⟨h.put hi (fun k hk => .inl hk) hskip, .inl rfl⟩
  | commit next =>
    cases hadv
    obtain ⟨hinv, hguar, hnext⟩ := hlive s.db (C.refl _ _) h.inv
    exact ⟨h.commit hi hinv hguar rfl hnext, .inr ⟨i, _, hi, hguar⟩⟩

theorem start_sound (h : Sound C s) (hheld : t.loc.held = []) (hwp : wp C t.req t.prog (fun _ _ _ => True) t.loc s.db) :
    Sound C { s with live := s.live ++ [t] } := by
  have hget : ∀ (j : ℕ) (u : Tx Req Db Key Err), (s.live ++ [t])[j]? = some u →
      s.live[j]? = some u ∨ u = t := by
    intro j u hj
    rw [getElem?_append] at hj
    split at hj
    · exact .inl hj
    · exact .inr (mem_singleton.mp (mem_of_getElem? hj))
  refine ⟨h.inv, ?_, ?_⟩
  · intro i u hi
    rcases hget i u hi with old | rfl
    · exact h.live i u old
    · exact hwp
  · intro i j u v hi hj hne
    rcases hget i u hi with oldi | rfl
    · rcases hget j v hj with oldj | rfl
      · exact h.excl i j u v oldi oldj hne
      · simp [Apart, hheld]
    · simp [Apart, hheld]

/-- One event keeps soundness, and the committed rows change only by a commit
that gives its guarantee. -/
theorem exec_sound (hscript : ∀ r, Keeps C r (script r))
    (h : Sound C s) (he : exec script s ev = some s') : Sound C s' ∧ ChangedBy C s s'.db := by
  cases ev with
  | start r =>
    cases he
    exact ⟨start_sound h rfl (hscript r s.db h.inv), .inl rfl⟩
  | abort i =>
    simp only [exec, map_eq_some_iff] at he
    obtain ⟨t, hi, rfl⟩ := he
    exact ⟨h.put hi (by simp [ended, Loc.fresh]) trivial, .inl rfl⟩
  | step i =>
    simp only [exec, bind_eq_some_iff] at he
    obtain ⟨t, hi, hadv⟩ := he
    exact advance_sound h hi hadv

theorem Sound.at_commit (h : Sound C s) {next : Prog Db Key Err Unit} (hi : s.live[i]? = some t) (hprog : t.prog = .commit next) :
    C.inv (t.loc.pend s.db) ∧ C.guar t.req t.loc.held s.db (t.loc.pend s.db) := by
  have hwp := h.live i t hi
  rw [hprog] at hwp
  obtain ⟨hinv, hguar, _⟩ := hwp s.db (C.refl _ _) h.inv
  exact ⟨hinv, hguar⟩

theorem sound_start {d : Db} (hd : C.inv d) : Sound C (⟨d, []⟩ : Sys Req Db Key Err) :=
  ⟨hd, by simp, by intro i j t u hi; simp at hi⟩

theorem sound_run_keeps (hscript : ∀ r, Keeps C r (script r)) {R : Db → Db → Prop} (hrefl : ∀ d, R d d)
    (htrans : ∀ {a b c}, R a b → R b c → R a c) (hguar : ∀ {r held d e}, C.inv d → C.guar r held d e → R d e)
    (hs : Sound C s) {es : List (Event Req)} (hrun : run script s es = some s') :
    Sound C s' ∧ R s.db s'.db := by
  induction es generalizing s with
  | nil =>
    cases hrun
    exact ⟨hs, hrefl _⟩
  | cons ev es ih =>
    obtain ⟨s₁, he, hrest⟩ := bind_eq_some_iff.mp hrun
    obtain ⟨hs₁, hchange⟩ := exec_sound hscript hs he
    obtain ⟨hs', hR⟩ := ih hs₁ hrest
    refine ⟨hs', htrans ?_ hR⟩
    rcases hchange with heq | ⟨i, t, _, hg⟩
    · rw [heq]
      exact hrefl _
    · exact hguar hs.inv hg

theorem run_sound (hscript : ∀ r, Keeps C r (script r)) {d : Db} (hd : C.inv d)
    (h : Reachable script d s) : Sound C s := by
  obtain ⟨es, hes⟩ := h
  have hinit : Sound C (⟨d, []⟩ : Sys Req Db Key Err) := sound_start hd
  generalize (⟨d, []⟩ : Sys Req Db Key Err) = s₀ at hes hinit
  induction es generalizing s₀ with
  | nil => cases hes; exact hinit
  | cons e es ih =>
    simp only [run, bind_eq_some_iff] at hes
    obtain ⟨s₁, he, hrest⟩ := hes
    exact ih s₁ hrest (exec_sound hscript hinit he).1

end Soundness

section Guarded

variable {Req Db Key Err : Type*} [LockModes Key] {C : Contract Req Db Key} {script : Req → Prog Db Key Err Unit}
  {s s' : Sys Req Db Key Err} {ev : Event Req}
variable {G : Req → Db → Db → Prop} {es : List (Event Req)}

def commitOf (s : Sys Req Db Key Err) : Event Req → Option (Req × Db)
  | .step i => s.live[i]?.bind fun t =>
    match t.prog with
    | .commit _ => some (t.req, t.loc.pend s.db)
    | _ => none
  | .start _ | .abort _ => none

def Guarded (G : Req → Db → Db → Prop) (script : Req → Prog Db Key Err Unit) :
    Sys Req Db Key Err → List (Event Req) → Prop
  | _, [] => True
  | s, ev :: es => (∀ p ∈ commitOf s ev, G p.1 s.db p.2) ∧ ∀ s' ∈ exec script s ev, Guarded G script s' es

instance decidableGuarded (G : Req → Db → Db → Prop) [∀ r d e, Decidable (G r d e)]
    (script : Req → Prog Db Key Err Unit) :
    (s : Sys Req Db Key Err) → (es : List (Event Req)) → Decidable (Guarded G script s es)
  | _, [] => isTrue trivial
  | s, ev :: es =>
    haveI : ∀ s', Decidable (Guarded G script s' es) := fun s' => decidableGuarded G script s' es
    inferInstanceAs (Decidable ((∀ p ∈ commitOf s ev, G p.1 s.db p.2) ∧ ∀ s' ∈ exec script s ev, Guarded G script s' es))

omit [LockModes Key] in
theorem commitOf_of_commit {i : ℕ} {t : Tx Req Db Key Err} {next : Prog Db Key Err Unit}
    (hi : s.live[i]? = some t) (hprog : t.prog = .commit next) :
    commitOf s (.step i) = some (t.req, t.loc.pend s.db) := by
  simp [commitOf, hi, hprog]

theorem exec_commitOf (he : exec script s ev = some s') {r : Req} {e : Db} (hc : commitOf s ev = some (r, e)) : s'.db = e := by
  cases ev with
  | start r => cases hc
  | abort i => cases hc
  | step i =>
    obtain ⟨⟨req, prog, loc⟩, hi, ht⟩ := bind_eq_some_iff.mp hc
    obtain ⟨t, hi', hadv⟩ := bind_eq_some_iff.mp he
    rw [hi, some_inj] at hi'
    subst hi'
    cases prog with
    | commit next =>
      cases hadv
      exact (Prod.mk.inj (Option.some.inj ht)).2
    | pure a => cases ht
    | fail e => cases ht
    | read next => cases ht
    | lock key next => cases ht
    | skipLocked k next => cases ht
    | write w next => cases ht

theorem Sound.of_commitOf (h : Sound C s) {r : Req}
    {e : Db} (hc : commitOf s ev = some (r, e)) : C.inv e ∧ ∃ held, C.guar r held s.db e := by
  cases ev with
  | start r => cases hc
  | abort i => cases hc
  | step i =>
    obtain ⟨t, hi, ht⟩ := bind_eq_some_iff.mp hc
    cases hprog : t.prog with
    | commit next =>
      simp only [hprog, Option.some.injEq, Prod.mk.injEq] at ht
      obtain ⟨rfl, rfl⟩ := ht
      obtain ⟨hinv, hguar⟩ := h.at_commit hi hprog
      exact ⟨hinv, _, hguar⟩
    | pure a => simp [hprog] at ht
    | fail e => simp [hprog] at ht
    | read next => simp [hprog] at ht
    | lock key next => simp [hprog] at ht
    | skipLocked k next => simp [hprog] at ht
    | write w next => simp [hprog] at ht

theorem guarded_run (hscript : ∀ r, Keeps C r (script r)) {J : Db → Prop}
    (hstep : ∀ {r held d e}, C.inv d → C.inv e → J d → C.guar r held d e → G r d e → J e) (hs : Sound C s) (hJ : J s.db)
    (hG : Guarded G script s es) (hrun : run script s es = some s') : J s'.db := by
  induction es generalizing s with
  | nil =>
    cases hrun
    exact hJ
  | cons ev es ih =>
    obtain ⟨s₁, he, hrest⟩ := bind_eq_some_iff.mp hrun
    have hs₁ := (exec_sound hscript hs he).1
    refine ih hs₁ ?_ (hG.2 s₁ he) hrest
    rcases exec_db he with hdb | ⟨i, t, next, rfl, hi, hprog, hdb⟩
    · rw [hdb]
      exact hJ
    · obtain ⟨hinv, hguar⟩ := hs.at_commit hi hprog
      have hcond := hG.1 _ (commitOf_of_commit hi hprog)
      rw [hdb]
      exact hstep hs.inv hinv hJ hguar hcond

theorem exec_of_commitOf (script : Req → Prog Db Key Err Unit) {r : Req}
    {e : Db} (hc : commitOf s ev = some (r, e)) : ∃ s', exec script s ev = some s' ∧ s'.db = e := by
  cases ev with
  | start r => cases hc
  | abort i => cases hc
  | step i =>
    obtain ⟨⟨req, prog, loc⟩, hi, ht⟩ := bind_eq_some_iff.mp hc
    cases prog with
    | commit next =>
      refine ⟨_, bind_eq_some_iff.mpr ⟨_, hi, rfl⟩, ?_⟩
      exact (Prod.mk.inj (Option.some.inj ht)).2
    | pure a => cases ht
    | fail e => cases ht
    | read next => cases ht
    | lock key next => cases ht
    | skipLocked k next => cases ht
    | write w next => cases ht

theorem guarded_iff (hscript : ∀ r, Keeps C r (script r)) {J : Db → Prop}
    (hstep : ∀ {r held d e}, C.inv d → J d → C.guar r held d e → (G r d e ↔ J e)) (hs : Sound C s) (hJ : J s.db) :
    Guarded G script s es ↔ ∀ fs s', fs <+: es → run script s fs = some s' → J s'.db := by
  induction es generalizing s with
  | nil =>
    refine ⟨fun _ fs s' hfs hrun => ?_, fun _ => trivial⟩
    rw [prefix_nil.mp hfs] at hrun
    cases hrun
    exact hJ
  | cons ev es ih =>
    constructor
    · rintro ⟨hcommit, hrest⟩ fs s' hfs hrun
      cases fs with
      | nil =>
        cases hrun
        exact hJ
      | cons ev' fs =>
        obtain ⟨rfl, hpre⟩ := cons_prefix_cons.mp hfs
        obtain ⟨s₁, he, hrun⟩ := bind_eq_some_iff.mp hrun
        refine (ih (exec_sound hscript hs he).1 ?_).mp (hrest s₁ he) fs s' hpre hrun
        rcases exec_db he with hdb | ⟨i, t, next, rfl, hi, hprog, hdb⟩
        · rw [hdb]
          exact hJ
        · rw [hdb]
          exact (hstep hs.inv hJ (hs.at_commit hi hprog).2).mp (hcommit _ (commitOf_of_commit hi hprog))
    · intro hall
      refine ⟨fun ⟨r, e⟩ hp => ?_, fun s₁ he => ?_⟩
      · obtain ⟨s₁, he, rfl⟩ := exec_of_commitOf script hp
        obtain ⟨-, held, hguar⟩ := hs.of_commitOf hp
        refine (hstep hs.inv hJ hguar).mpr (hall [ev] s₁ ?_ ?_)
        · exact cons_prefix_cons.mpr ⟨rfl, nil_prefix⟩
        · exact bind_eq_some_iff.mpr ⟨s₁, he, rfl⟩
      · have hJ₁ : J s₁.db := by
          refine hall [ev] s₁ (cons_prefix_cons.mpr ⟨rfl, nil_prefix⟩) ?_
          exact bind_eq_some_iff.mpr ⟨s₁, he, rfl⟩
        refine (ih (exec_sound hscript hs he).1 hJ₁).mpr fun fs s' hfs hrun => ?_
        exact hall (ev :: fs) s' (cons_prefix_cons.mpr ⟨rfl, hfs⟩) (bind_eq_some_iff.mpr ⟨s₁, he, hrun⟩)

theorem Guarded.imp (hscript : ∀ r, Keeps C r (script r)) {G' : Req → Db → Db → Prop}
    (himp : ∀ {r held d e}, C.inv d → C.guar r held d e → G r d e → G' r d e) (hs : Sound C s) (hG : Guarded G script s es) :
    Guarded G' script s es := by
  induction es generalizing s with
  | nil => trivial
  | cons ev es ih =>
    refine ⟨fun p hp => ?_, fun s' hs' => ih (exec_sound hscript hs hs').1 (hG.2 s' hs')⟩
    obtain ⟨_, held, hguar⟩ := hs.of_commitOf (show commitOf s ev = some (p.1, p.2) from hp)
    exact himp hs.inv hguar (hG.1 p hp)

end Guarded

section Commits

variable {Req Db Key Err : Type*} [LockModes Key] {C : Contract Req Db Key} {script : Req → Prog Db Key Err Unit}
  {s s' : Sys Req Db Key Err} {ev : Event Req}

structure Commit (Req Db : Type*) where
  req : Req
  before : Db
  after : Db

def commits (script : Req → Prog Db Key Err Unit) : Sys Req Db Key Err → List (Event Req) → List (Commit Req Db)
  | _, [] => []
  | s, ev :: es =>
    ((commitOf s ev).map fun p => ⟨p.1, s.db, p.2⟩).toList ++ ((exec script s ev).map fun s' => commits script s' es).getD []

theorem mem_commits_cons {es : List (Event Req)} {c : Commit Req Db} :
    c ∈ commits script s (ev :: es) ↔
    (∃ p, commitOf s ev = some p ∧ ⟨p.1, s.db, p.2⟩ = c) ∨ ∃ s', exec script s ev = some s' ∧ c ∈ commits script s' es := by
  rw [commits, mem_append, mem_toList, map_eq_some_iff]
  refine or_congr Iff.rfl ?_
  cases exec script s ev with
  | none => simp
  | some s' => simp

theorem commits_cons (he : exec script s ev = some s') (es : List (Event Req)) :
    commits script s (ev :: es) = ((commitOf s ev).map fun p => ⟨p.1, s.db, p.2⟩).toList ++ commits script s' es := by
  rw [commits, he, map_some, getD_some]

theorem commits_guar (hscript : ∀ r, Keeps C r (script r)) (hs : Sound C s) (es : List (Event Req)) :
    ∀ c ∈ commits script s es, C.inv c.before ∧ ∃ held, C.guar c.req held c.before c.after := by
  induction es generalizing s with
  | nil => exact fun c hc => by cases hc
  | cons ev es ih =>
    intro c hc
    rcases mem_commits_cons.mp hc with ⟨p, hp, rfl⟩ | ⟨s₁, he, hlater⟩
    · exact ⟨hs.inv, (hs.of_commitOf hp).2⟩
    · exact ih (exec_sound hscript hs he).1 c hlater

theorem guarded_iff_commits {G : Req → Db → Db → Prop}
    (es : List (Event Req)) : Guarded G script s es ↔ ∀ c ∈ commits script s es, G c.req c.before c.after := by
  induction es generalizing s with
  | nil => exact ⟨fun _ c hc => (by cases hc), fun _ => trivial⟩
  | cons ev es ih =>
    constructor
    · rintro ⟨hnow, hlater⟩ c hc
      rcases mem_commits_cons.mp hc with ⟨p, hp, rfl⟩ | ⟨s₁, he, hc⟩
      · exact hnow p hp
      · exact ih.mp (hlater s₁ he) c hc
    · intro h
      refine ⟨fun p hp => h ⟨p.1, s.db, p.2⟩ (mem_commits_cons.mpr (.inl ⟨p, hp, rfl⟩)), fun s₁ he => ih.mpr fun c hc => ?_⟩
      exact h c (mem_commits_cons.mpr (.inr ⟨s₁, he, hc⟩))

/-- A log that grows at commits only holds what each of them adds. -/
theorem run_appends {β : Type*} {f : Db → List β} {added : Commit Req Db → List β}
    {es : List (Event Req)}
    (hadd : ∀ c ∈ commits script s es, f c.after = f c.before ++ added c) (hrun : run script s es = some s') :
    f s'.db = f s.db ++ (commits script s es).flatMap added := by
  induction es generalizing s with
  | nil =>
    cases hrun
    exact (append_nil _).symm
  | cons ev es ih =>
    obtain ⟨s₁, he, hrest⟩ := bind_eq_some_iff.mp hrun
    rw [commits_cons he] at hadd ⊢
    rw [ih (fun c hc => hadd c (mem_append_right _ hc)) hrest, flatMap_append, ← append_assoc]
    congr 1
    cases hc : commitOf s ev with
    | some p =>
      have hlog := hadd ⟨p.1, s.db, p.2⟩ (mem_append_left _ (by simp [hc]))
      rw [exec_commitOf he hc, hlog]
      simp
    | none =>
      have hdb : s₁.db = s.db := by
        rcases exec_db he with hdb | ⟨i, t, next, rfl, hi, hprog, -⟩
        · exact hdb
        · rw [commitOf_of_commit hi hprog] at hc
          cases hc
      rw [hdb]
      simp

end Commits

end ReadCommitted
