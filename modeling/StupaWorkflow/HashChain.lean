import Mathlib.Data.List.Forall2
import Mathlib.Data.List.Infix

/-!
Chains of entries in which every entry names the hash of the entry before it. `prev` and `hash`
are the stored columns, `Sealed` says that an entry's hash is the one of its own contents.
-/
namespace HashChain
open List

variable {E H : Type*} (prev : E → Option H) (hash : E → H) (Sealed : E → Prop)

def Chained : Option H → List E → Prop
  | _, [] => True
  | p, e :: es => prev e = p ∧ Sealed e ∧ Chained (some (hash e)) es

def tip : Option H → List E → Option H
  | p, [] => p
  | _, e :: es => tip (some (hash e)) es

attribute [local simp] Chained tip

@[simp] theorem tip_concat (p : Option H) (es : List E) (e : E) : tip hash p (es ++ [e]) = some (hash e) := by
  induction es generalizing p with
  | nil => rfl
  | cons x es ih => exact ih (some (hash x))

theorem tip_eq_getLast? (es : List E) : tip hash none es = es.getLast?.map hash := by
  induction es using List.reverseRecOn with
  | nil => rfl
  | append_singleton es e _ => rw [tip_concat, getLast?_concat, Option.map_some]

variable {prev hash Sealed}
variable {p : Option H} {es fs as bs : List E}

theorem chained_append : Chained prev hash Sealed p (es ++ fs) ↔
      Chained prev hash Sealed p es ∧ Chained prev hash Sealed (tip hash p es) fs := by
  induction es generalizing p with
  | nil => simp [Chained, tip]
  | cons e es ih => simp only [cons_append, Chained, tip, ih, and_assoc]

theorem chained_concat {e : E} : Chained prev hash Sealed p (es ++ [e]) ↔
      Chained prev hash Sealed p es ∧ prev e = tip hash p es ∧ Sealed e := by
  rw [chained_append]
  simp only [Chained, and_true]

theorem Chained.prev_cases (h : Chained prev hash Sealed p es) {e : E} (he : e ∈ es) :
    prev e = p ∨ ∃ x, Sealed x ∧ prev e = some (hash x) := by
  induction es generalizing p with
  | nil => cases he
  | cons x es ih =>
    obtain ⟨hp, hx, hrest⟩ := h
    rcases mem_cons.mp he with rfl | he
    · exact .inl hp
    · rcases ih hrest he with h | h
      · exact .inr ⟨x, hx, h⟩
      · exact .inr h

theorem Chained.prefix (h : Chained prev hash Sealed p fs) (hpre : es <+: fs) : Chained prev hash Sealed p es := by
  obtain ⟨rest, rfl⟩ := hpre
  exact (chained_append.mp h).1

/-- Equal hashes of sealed entries come from one previous hash and the same contents. -/
def Binding (prev : E → Option H) (hash : E → H) (Sealed : E → Prop) (Same : E → E → Prop) (as bs : List E) : Prop :=
  ∀ a ∈ as, ∀ b ∈ bs, Sealed a → Sealed b → hash a = hash b → prev a = prev b ∧ Same a b

variable {Same : E → E → Prop}

theorem Binding.mono {as' bs' : List E} (h : Binding prev hash Sealed Same as bs) (ha : ∀ a ∈ as', a ∈ as)
    (hb : ∀ b ∈ bs', b ∈ bs) : Binding prev hash Sealed Same as' bs' :=
  fun a hma b hmb => h a (ha a hma) b (hb b hmb)

theorem Chained.unique (ha : Chained prev hash Sealed none as) (hb : Chained prev hash Sealed none bs)
    (hbind : Binding prev hash Sealed Same as bs) (htip : tip hash none as = tip hash none bs) :
    List.Forall₂ (fun a b => prev a = prev b ∧ hash a = hash b ∧ Same a b) as bs := by
  induction as using List.reverseRecOn generalizing bs with
  | nil =>
    induction bs using List.reverseRecOn with
    | nil => exact .nil
    | append_singleton bs b _ =>
      rw [tip_concat] at htip
      cases htip
  | append_singleton as a ih =>
    induction bs using List.reverseRecOn with
    | nil =>
      rw [tip_concat] at htip
      cases htip
    | append_singleton bs b _ =>
      obtain ⟨ha, hpa, hsa⟩ := chained_concat.mp ha
      obtain ⟨hb, hpb, hsb⟩ := chained_concat.mp hb
      rw [tip_concat, tip_concat, Option.some_inj] at htip
      obtain ⟨hprev, hsame⟩ := hbind a (by simp) b (by simp) hsa hsb htip
      have hrest := ih ha hb (hbind.mono (by simp +contextual) (by simp +contextual))
        (hpa.symm.trans (hprev.trans hpb))
      exact rel_append hrest (.cons ⟨hprev, htip, hsame⟩ .nil)

theorem Chained.sublist_iff (ha : Chained prev hash Sealed none as) (hsub : bs.Sublist as)
    (hbind : Binding prev hash Sealed Same as as) : Chained prev hash Sealed none bs ↔ bs <+: as := by
  refine ⟨fun hb => ?_, ha.prefix⟩
  induction bs using List.reverseRecOn with
  | nil => exact nil_prefix
  | append_singleton bs b _ =>
    -- the last kept entry cuts the whole chain at a place where the tips agree
    obtain ⟨before, rest, rfl, hbefore, hlast⟩ := append_sublist_iff.mp hsub
    obtain ⟨mid, post, rfl⟩ := append_of_mem (singleton_sublist.mp hlast)
    have hcut : before ++ (mid ++ b :: post) = (before ++ mid ++ [b]) ++ post := by simp
    have hchain := (chained_append.mp (hcut ▸ ha)).1
    have htip : tip hash none (before ++ mid ++ [b]) = tip hash none (bs ++ [b]) := by
      rw [tip_concat, tip_concat]
    have hsame := (hchain.unique hb (hbind.mono (by simp +contextual [or_imp])
      (fun x hx => hsub.subset hx)) htip).length_eq
    have hlength : (before ++ mid).length = bs.length := by
      simp only [length_append, length_singleton] at hsame ⊢
      omega
    have heq : bs = before ++ mid :=
      (hbefore.trans (sublist_append_left before mid)).eq_of_length hlength.symm
    exact ⟨post, by rw [heq, hcut]⟩

end HashChain
