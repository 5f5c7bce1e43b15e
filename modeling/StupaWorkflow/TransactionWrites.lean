import StupaWorkflow.Transactions

/-!
What a transaction writes, read off its statements. `Writes` asks of every write of a program to
be of a kind; a program of harmless writes keeps each contract that such writes keep.
-/
namespace ReadCommitted
open List

variable {Req Db Key Err α β : Type*}

section Writes

variable {V : Db → Prop} {S : (Db → Db) → Prop}

def Prog.Returns (R : α → Prop) : Prog Db Key Err α → Prop
  | .pure a => R a
  | _ => False

/-- Each write has `S` where each view has `V`. The program ends with `Q` before a
commit and with `R` right after one. -/
def Prog.Writes (V : Db → Prop) (S : (Db → Db) → Prop) : Prog Db Key Err α → (α → Prop) → (α → Prop) → Prop
  | .pure a, Q, _ => Q a
  | .fail _, _, _ => True
  | .read next, Q, R => ∀ d, V d → (next d).Writes V S Q R
  | .lock _ next, Q, R => ∀ d, V d → (next d).Writes V S Q R
  | .skipLocked _ next, Q, R => ∀ b, (next b).Writes V S Q R
  | .write w next, Q, R => S w ∧ next.Writes V S Q R
  | .commit next, _, R => next.Returns R

variable {Q R : α → Prop}

theorem returns_bind (p : Prog Db Key Err α) (f : α → Prog Db Key Err β) (R : β → Prop) :
    (p.bind f).Returns R ↔ p.Returns fun a => (f a).Returns R := by
  cases p <;> rfl

theorem writes_bind (p : Prog Db Key Err α) (f : α → Prog Db Key Err β) (Q R : β → Prop) :
    (p.bind f).Writes V S Q R ↔ p.Writes V S (fun a => (f a).Writes V S Q R) fun a => (f a).Returns R := by
  induction p with
  | pure a => rfl
  | fail e => rfl
  | read next ih => simp only [Prog.bind, Prog.Writes, ih]
  | lock key next ih => simp only [Prog.bind, Prog.Writes, ih]
  | skipLocked k next ih => simp only [Prog.bind, Prog.Writes, ih]
  | write w next ih => simp only [Prog.bind, Prog.Writes, ih]
  | commit next => exact returns_bind next f R

@[simp] theorem writes_do {α β : Type} (p : Prog Db Key Err α) (f : α → Prog Db Key Err β) (Q R : β → Prop) :
    (p >>= f).Writes V S Q R ↔ p.Writes V S (fun a => (f a).Writes V S Q R) fun a => (f a).Returns R :=
  writes_bind p f Q R

@[simp] theorem writes_pure (a : α) : (.pure a : Prog Db Key Err α).Writes V S Q R ↔ Q a := Iff.rfl

@[simp] theorem writes_return {α : Type} {Q R : α → Prop} (a : α) :
    (pure a : Prog Db Key Err α).Writes V S Q R ↔ Q a := Iff.rfl

@[simp] theorem writes_fail (e : Err) : (.fail e : Prog Db Key Err α).Writes V S Q R := trivial

@[simp] theorem writes_require (b : Bool) (e : Err) {Q R : Unit → Prop} :
    (Prog.require b e : Prog Db Key Err Unit).Writes V S Q R ↔ (b = true → Q ()) := by
  cases b <;> simp [Prog.require]

@[simp] theorem writes_ofOption (x : Option α) (e : Err) :
    (Prog.ofOption x e : Prog Db Key Err α).Writes V S Q R ↔ ∀ a, x = some a → Q a := by
  cases x <;> simp [Prog.ofOption]

@[simp] theorem writes_ofExcept (x : Except Err α) :
    (Prog.ofExcept x : Prog Db Key Err α).Writes V S Q R ↔ ∀ a, x = .ok a → Q a := by
  cases x <;> simp [Prog.ofExcept]

@[simp] theorem writes_update (w : Db → Db) {Q R : Unit → Prop} :
    (Prog.update w : Prog Db Key Err Unit).Writes V S Q R ↔ S w ∧ Q () := Iff.rfl

@[simp] theorem writes_query {Q R : Db → Prop} :
    (Prog.query : Prog Db Key Err Db).Writes V S Q R ↔ ∀ d, V d → Q d := Iff.rfl

@[simp] theorem writes_lockRow (key : Db → Option Key) {Q R : Db → Prop} :
    (Prog.lockRow key : Prog Db Key Err Db).Writes V S Q R ↔ ∀ d, V d → Q d := Iff.rfl

@[simp] theorem writes_publish {Q R : Unit → Prop} :
    (Prog.publish : Prog Db Key Err Unit).Writes V S Q R ↔ R () := Iff.rfl

theorem returns_mono {p : Prog Db Key Err α} {R' : α → Prop} (hR : ∀ a, R a → R' a) (h : p.Returns R) :
    p.Returns R' := by
  cases p with
  | pure a => exact hR a h
  | _ => exact h

theorem writes_mono {p : Prog Db Key Err α} {Q' R' : α → Prop} (hQ : ∀ a, Q a → Q' a) (hR : ∀ a, R a → R' a)
    (h : p.Writes V S Q R) : p.Writes V S Q' R' := by
  induction p with
  | pure a => exact hQ a h
  | fail e => trivial
  | read next ih => exact fun d hd => ih d (h d hd)
  | lock key next ih => exact fun d hd => ih d (h d hd)
  | skipLocked k next ih => exact fun b => ih b (h b)
  | write w next ih => exact ⟨h.1, ih h.2⟩
  | commit next => exact returns_mono hR h

theorem writes_forEach {bs : List β} {f : β → Prog Db Key Err Unit} {Q R : Unit → Prop} (hQ : Q ())
    (hf : ∀ b ∈ bs, (f b).Writes V S (fun _ => True) fun _ => False) : (Prog.forEach bs f).Writes V S Q R := by
  induction bs with
  | nil => exact hQ
  | cons b bs ih =>
    rw [Prog.forEach, writes_bind]
    refine writes_mono (fun _ _ => ?_) (fun _ h => h.elim) (hf b mem_cons_self)
    exact ih fun b' hb' => hf b' (mem_cons_of_mem b hb')

theorem writes_collect {f : List α → β → Prog Db Key Err (Option α)} {Q R : List α → Prop} (hQ : ∀ acc, Q acc)
    (hf : ∀ acc b, (f acc b).Writes V S (fun _ => True) fun _ => False) (bs : List β) (acc : List α) :
    (Prog.collect f bs acc).Writes V S Q R := by
  induction bs generalizing acc with
  | nil => exact hQ acc
  | cons b bs ih =>
    rw [Prog.collect, writes_bind]
    exact writes_mono (fun x _ => ih (acc ++ x.toList)) (fun _ h => h.elim) (hf acc b)

variable [LockModes Key] {C : Contract Req Db Key} {r : Req} {l : Loc Db Key} {d e : Db}
variable {A : List Key → Db → Prop}

def MayCommit (C : Contract Req Db Key) (r : Req) (l : Loc Db Key) (d : Db) : Prop :=
  ∀ e, C.rely l.held d e → C.inv e → C.inv (l.pend e) ∧ C.guar r l.held e (l.pend e)

theorem MayCommit.rely (h : MayCommit C r l d) (hrely : C.rely l.held d e) : MayCommit C r l e :=
  fun f hf hinv => h f (C.trans hrely hf) hinv

theorem MayCommit.publish (h : MayCommit C r l d) :
    wp C r (Prog.publish : Prog Db Key Err Unit) (fun _ _ _ => True) l d := by
  intro e hrely hinv
  obtain ⟨hinv', hguar⟩ := h e hrely hinv
  exact ⟨hinv', hguar, trivial⟩

theorem wpOr_mayCommit (hwrite : ∀ {w : Db → Db} {l : Loc Db Key} {d}, S w → MayCommit C r l d → MayCommit C r ⟨w ∘ l.pend, l.held⟩ d)
    (hlock : ∀ {k : Key} {l : Loc Db Key} {d}, MayCommit C r l d → MayCommit C r ⟨l.pend, k :: l.held⟩ d) {p : Prog Db Key Err α}
    (hp : p.Writes (fun _ => True) S Q fun _ => False) (h : MayCommit C r l d) :
    wpOr C r p (fun a l d => Q a ∧ MayCommit C r l d) (fun _ l d => MayCommit C r l d) l d := by
  induction p generalizing l d with
  | pure a => exact ⟨hp, h⟩
  | fail err => exact h
  | read next ih => exact fun e hrely _ => ih _ (hp _ trivial) (h.rely hrely)
  | lock key next ih =>
    intro e hrely _
    have hnext := hp (l.pend e) trivial
    cases key (l.pend e) with
    | none => exact ih _ hnext (h.rely hrely)
    | some k => exact ih _ hnext (hlock (h.rely hrely))
  | skipLocked k next ih =>
    exact fun e hrely _ => ⟨ih true (hp true) (hlock (h.rely hrely)), ih false (hp false) (h.rely hrely)⟩
  | write w next ih => exact ih hp.2 (hwrite hp.1 h)
  | commit next =>
    cases next with
    | pure a => exact hp.elim
    | _ => exact hp.elim

theorem wp_of_writes (hcomp : ∀ {w u}, S w → S u → S (w ∘ u)) (hview : ∀ {w held d}, S w → A held d → C.inv d → V (w d))
    (hrely : ∀ {held d e}, A held d → C.rely held d e → C.inv e → A held e) (hlock : ∀ {k held d}, A held d → A (k :: held) d)
    (hcommit : ∀ {a w held d}, R a → S w → A held d → C.inv d → C.inv (w d) ∧ C.guar r held d (w d)) {p : Prog Db Key Err α}
    (hp : p.Writes V S Q R) (hl : S l.pend) (hA : A l.held d) :
    wp C r p (fun a l d => Q a ∧ S l.pend ∧ A l.held d ∨ R a) l d := by
  induction p generalizing l d with
  | pure a => exact .inl ⟨hp, hl, hA⟩
  | fail e => trivial
  | read next ih =>
    intro e he hinv
    have hA' := hrely hA he hinv
    exact ih _ (hp _ (hview hl hA' hinv)) hl hA'
  | lock key next ih =>
    intro e he hinv
    have hA' := hrely hA he hinv
    have hnext := hp _ (hview hl hA' hinv)
    cases key (l.pend e) with
    | none => exact ih _ hnext hl hA'
    | some k => exact ih _ hnext hl (hlock hA')
  | skipLocked k next ih =>
    intro e he hinv
    have hA' := hrely hA he hinv
    exact ⟨ih true (hp true) hl (hlock hA'), ih false (hp false) hl hA'⟩
  | write w next ih =>
    have hl' : S (w ∘ l.pend) := hcomp hp.1 hl
    exact ih hp.2 hl' hA
  | commit next =>
    cases next with
    | pure a =>
      intro e he hinv
      obtain ⟨hinv', hguar⟩ := hcommit hp hl (hrely hA he hinv) hinv
      exact ⟨hinv', hguar, .inr hp⟩
    | _ => exact hp.elim

theorem wp_of_silent (hview : ∀ {d}, C.inv d → V d) (hrely : ∀ {held d e}, A held d → C.rely held d e → C.inv e → A held e)
    (hlock : ∀ {k held d}, A held d → A (k :: held) d) {p : Prog Db Key Err α} {held : List Key}
    (hp : p.Writes V (· = id) Q fun _ => False) (hA : A held d) :
    wp C r p (fun a l d => Q a ∧ l.pend = id ∧ A l.held d) ⟨id, held⟩ d := by
  refine wp_mono (fun a l d h => ?_) (wp_of_writes (S := (· = id)) (R := fun _ => False) (l := ⟨id, held⟩) ?_ ?_ hrely
    hlock (fun hR => hR.elim) hp rfl hA)
  · exact h.resolve_right id
  · rintro w u rfl rfl
    rfl
  · rintro w held d rfl _ hinv
    exact hview hinv

end Writes

section Watched

variable [LockModes Key]

/-- Each event of the run meets the condition in the system where it happens. -/
def Along (P : Sys Req Db Key Err → Event Req → Prop) (script : Req → Prog Db Key Err Unit) :
    Sys Req Db Key Err → List (Event Req) → Prop
  | _, [] => True
  | s, ev :: es => P s ev ∧ ∀ s' ∈ exec script s ev, Along P script s' es

instance decidableAlong (P : Sys Req Db Key Err → Event Req → Prop) [∀ s ev, Decidable (P s ev)]
    (script : Req → Prog Db Key Err Unit) :
    (s : Sys Req Db Key Err) → (es : List (Event Req)) → Decidable (Along P script s es)
  | _, [] => isTrue trivial
  | s, ev :: es =>
    haveI : ∀ s', Decidable (Along P script s' es) := fun s' => decidableAlong P script s' es
    inferInstanceAs (Decidable (P s ev ∧ ∀ s' ∈ exec script s ev, Along P script s' es))

variable {C : Contract Req Db Key} {W : Req → Prop} {script : Req → Prog Db Key Err Unit} {s s' : Sys Req Db Key Err}
  {ev : Event Req} {es : List (Event Req)}

def Respects (C : Contract Req Db Key) (W : Req → Prop) (s : Sys Req Db Key Err) (ev : Event Req) : Prop :=
  ∀ p ∈ commitOf s ev, C.inv p.2 ∧
    ∀ (j : ℕ) (t : Tx Req Db Key Err), s.live[j]? = some t → W t.req → C.rely t.loc.held s.db p.2 ∨ ev = .step j

/-- The rows are fine, and each watched transaction keeps the contract from here. -/
structure Watched (C : Contract Req Db Key) (W : Req → Prop) (s : Sys Req Db Key Err) : Prop where
  inv : C.inv s.db
  live : ∀ (i : ℕ) (t : Tx Req Db Key Err), s.live[i]? = some t → W t.req → wp C t.req t.prog (fun _ _ _ => True) t.loc s.db

theorem Watched.put (h : Watched C W s) {i : ℕ} {t : Tx Req Db Key Err}
    (hwp : W t.req → wp C t.req t.prog (fun _ _ _ => True) t.loc s.db) : Watched C W (s.put i t) := by
  refine ⟨h.inv, fun j u hj hW => ?_⟩
  simp only [Sys.put, getElem?_set] at hj
  split at hj
  · split at hj
    · cases hj
      exact hwp hW
    · cases hj
  · exact h.live j u hj hW

theorem Watched.advance {i : ℕ} {t : Tx Req Db Key Err} (h : Watched C W s) (hi : s.live[i]? = some t)
    (hrespects : Respects C W s (.step i)) (hadv : advance s i t = some s') : Watched C W s' := by
  have hlive := h.live i t hi
  obtain ⟨req, prog, loc⟩ := t
  cases prog with
  | pure a => cases hadv
  | fail e =>
    cases hadv
    exact h.put fun _ => trivial
  | read next =>
    cases hadv
    exact h.put fun hW => hlive hW s.db (C.refl _ _) h.inv
  | write w next =>
    cases hadv
    exact h.put hlive
  | lock key next =>
    have hgo := fun hW => hlive hW s.db (C.refl _ _) h.inv
    simp only [ReadCommitted.advance] at hadv hgo
    cases hkey : key (loc.pend s.db) with
    | none =>
      simp only [hkey] at hgo hadv
      cases hadv
      exact h.put hgo
    | some k =>
      simp only [hkey] at hgo hadv
      split at hadv
      · cases hadv
        exact h.put hgo
      · cases hadv
  | skipLocked k next =>
    have hgo := fun hW => hlive hW s.db (C.refl _ _) h.inv
    simp only [ReadCommitted.advance] at hadv
    split at hadv
    · cases hadv
      exact h.put fun hW => (hgo hW).1
    · cases hadv
      exact h.put fun hW => (hgo hW).2
  | commit next =>
    cases hadv
    obtain ⟨hinv, hothers⟩ := hrespects _ (commitOf_of_commit hi rfl)
    refine ⟨hinv, fun j u hj hW => ?_⟩
    simp only [getElem?_set] at hj
    split at hj
    · split at hj
      · cases hj
        exact (hlive hW s.db (C.refl _ _) h.inv).2.2
      · cases hj
    case isFalse hne =>
      rcases hothers j u hj hW with hrely | hself
      · exact wp_stable (fun _ _ _ _ hq _ => hq) (h.live j u hj hW) hrely
      · exact absurd (Event.step.inj hself) hne

theorem Watched.exec (hkeeps : ∀ r, W r → Keeps C r (script r)) (h : Watched C W s) (hrespects : Respects C W s ev)
    (he : exec script s ev = some s') : Watched C W s' := by
  cases ev with
  | start r =>
    cases he
    refine ⟨h.inv, fun i t hi hW => ?_⟩
    rw [getElem?_append] at hi
    split at hi
    · exact h.live i t hi hW
    · obtain rfl := mem_singleton.mp (mem_of_getElem? hi)
      exact hkeeps r hW s.db h.inv
  | abort i =>
    obtain ⟨t, _, rfl⟩ := Option.map_eq_some_iff.mp he
    exact h.put fun _ => trivial
  | step i =>
    obtain ⟨t, hi, hadv⟩ := Option.bind_eq_some_iff.mp he
    exact h.advance hi hrespects hadv

theorem watched_commits (hkeeps : ∀ r, W r → Keeps C r (script r)) (h : Watched C W s)
    (hrun : Along (Respects C W) script s es) :
    ∀ c ∈ commits script s es, W c.req → ∃ held, C.guar c.req held c.before c.after := by
  induction es generalizing s with
  | nil => exact fun c hc => by cases hc
  | cons ev es ih =>
    intro c hc hW
    rcases mem_commits_cons.mp hc with ⟨⟨r, e⟩, hcommit, rfl⟩ | ⟨s₁, he, hlater⟩
    · cases ev with
      | start r => cases hcommit
      | abort i => cases hcommit
      | step i =>
        obtain ⟨⟨req, prog, loc⟩, hi, ht⟩ := Option.bind_eq_some_iff.mp hcommit
        cases prog with
        | commit next =>
          cases ht
          exact ⟨_, (h.live i _ hi hW s.db (C.refl _ _) h.inv).2.1⟩
        | pure a => cases ht
        | fail e => cases ht
        | read next => cases ht
        | lock key next => cases ht
        | skipLocked k next => cases ht
        | write w next => cases ht
    · exact ih (h.exec hkeeps hrun.1 he) (hrun.2 s₁ he) c hlater hW

theorem Along.imp {D : Contract Req Db Key} (hscript : ∀ r, Keeps D r (script r))
    {P P' : Sys Req Db Key Err → Event Req → Prop} (himp : ∀ {s ev}, Sound D s → P s ev → P' s ev) (hs : Sound D s)
    (h : Along P script s es) : Along P' script s es := by
  induction es generalizing s with
  | nil => trivial
  | cons ev es ih =>
    exact ⟨himp hs h.1, fun s₁ he => ih (exec_sound hscript hs he).1 (h.2 s₁ he)⟩

end Watched

end ReadCommitted
