import StupaWorkflow.FormTotality

/-!
The amount that an application takes from its answers. The promotion walks over all fields, the
checks over the visible ones only, so the two agree where no value of a hidden field counts.
-/
namespace Forms
open Py Raises List
open JsonLogic (Members)

inductive Source where
  | sets (d : FiniteDecimal)
  | adds (d : FiniteDecimal)
  deriving DecidableEq

def Source.apply (amount : Option FiniteDecimal) : Source → FiniteDecimal
  | .sets d => d
  | .adds d => (amount.getD .zero).roundedSum d

def Source.isSet : Source → Bool
  | .sets _ => true
  | .adds _ => false

def amountAfter (amount : Option FiniteDecimal) (sources : List Source) : Option FiniteDecimal :=
  sources.foldl (fun amount s => some (s.apply amount)) amount

def AmountsFit : Option FiniteDecimal → List Source → Prop
  | _, [] => True
  | amount, s :: sources => (s.isSet = true ∨ (s.apply amount).isTooLarge = false) ∧ AmountsFit (some (s.apply amount)) sources

section Fields

variable (I : Interpreter) (data : Members)

def sourceOf (f : FormFieldDef) : Option Source :=
  match f.type with
  | .positions => (positionsTotal I (get data f.key)).toOption.join.map .adds
  | .number | .currency =>
    if f.isPromoted = true ∧ f.promoteTarget = some amountKey then (finiteDecimal I (get data f.key)).map .sets else none
  | _ => none

def fundingOf (fields : List FormFieldDef) : Option FiniteDecimal :=
  ((fields.filter (·.type = .funding)).map fun f => finiteDecimal I (get data f.key)).getLast?.join

def amountOf (fields : List FormFieldDef) : Option FiniteDecimal :=
  (fundingOf I data fields).or (amountAfter none (fields.filterMap (sourceOf I data)))

/-- The totals of the positions can be read, and no sum is too large. -/
structure AmountReads (fields : List FormFieldDef) : Prop where
  positions : ∀ f ∈ fields, f.type = .positions → PositionsSafe I (get data f.key)
  sums : AmountsFit none (fields.filterMap (sourceOf I data))

end Fields

section Sources

variable {amount : Option FiniteDecimal} {d : FiniteDecimal} {before after : List Source}

theorem amountAfter_append : amountAfter amount (before ++ after) = amountAfter (amountAfter amount before) after :=
  foldl_append

theorem amountAfter_sets : amountAfter amount (before ++ .sets d :: after) = amountAfter (some d) after := by
  rw [amountAfter_append]
  rfl

theorem amountsFit_append :
    AmountsFit amount (before ++ after) ↔ AmountsFit amount before ∧ AmountsFit (amountAfter amount before) after := by
  induction before generalizing amount with
  | nil => exact (and_iff_right trivial).symm
  | cons s before ih => exact (and_congr_right fun _ => ih).trans and_assoc.symm

end Sources

section Promote

variable {I : Interpreter} {data : Members} {out : PromotedValues} {amount : Option FiniteDecimal} {f : FormFieldDef}
variable {fields : List FormFieldDef}

theorem lookup_set (key other : Text) (value : Promoted) :
    (out.set key value).lookup other = if other = key then some value else out.lookup other := by
  induction out with
  | nil => rw [PromotedValues.set, lookup_pair]
  | cons m out ih => exact lookup_change (fun _ => rfl) ih

theorem promoteFlagged_plain (value : Json) (h : f.isPromoted = false) : promoteFlagged I out f value = out := by
  unfold promoteFlagged
  split
  · rfl
  · rw [h]
    rfl
  · rfl

/-- A flagged number sets the amount where that is its target. -/
theorem promoteFlagged_number (value : Json) (hnumeric : f.type.isNumeric = true) :
    (promoteFlagged I out f value).lookup amountKey =
      if f.isPromoted = true ∧ f.promoteTarget = some amountKey
      then ((finiteDecimal I value).map .amount).or (out.lookup amountKey) else out.lookup amountKey := by
  unfold promoteFlagged
  split
  · have hnull : finiteDecimal I .null = none := rfl
    rw [hnull]
    split <;> rfl
  · next value _ _ c target htarget _ =>
      rw [htarget, hnumeric]
      cases hpromoted : f.isPromoted with
      | false => rfl
      | true =>
        cases hvalue : finiteDecimal I value with
        | none => exact (ite_self (out.lookup amountKey)).symm
        | some d =>
          apply (lookup_set (c :: target) amountKey (.amount d)).trans
          by_cases hkey : amountKey = c :: target
          · rw [if_pos hkey, if_pos ⟨rfl, congrArg some hkey.symm⟩]
            rfl
          · rw [if_neg hkey, if_neg fun h => hkey (Option.some.inj h.2).symm]
  · next htarget =>
      rw [if_neg]
      rintro ⟨_, hkey⟩
      exact htarget _ _ hkey

theorem promote_amount (hpromoted : f.isPromoted = true → f.type.isNumeric = true)
    (hpositions : f.type = .positions → PositionsSafe I (get data f.key))
    (hfit : AmountsFit amount (sourceOf I data f).toList) (hout : out.lookup amountKey = amount.map .amount) :
    ∃ out', promote I data out f = .ok out' ∧
      out'.lookup amountKey = (amountAfter amount (sourceOf I data f).toList).map .amount := by
  have hother (h : f.type.isNumeric = false) : f.isPromoted = false := by
    by_contra hflag
    rw [hpromoted (by simpa using hflag)] at h
    cases h
  have hnumber (h : f.type.isNumeric = true) (hsource : sourceOf I data f =
      if f.isPromoted = true ∧ f.promoteTarget = some amountKey then (finiteDecimal I (get data f.key)).map .sets else none) :
      (promoteFlagged I out f (get data f.key)).lookup amountKey =
        (amountAfter amount (sourceOf I data f).toList).map .amount := by
    rw [promoteFlagged_number _ h, hsource]
    split
    · cases finiteDecimal I (get data f.key) with
      | none => exact hout
      | some d => rfl
    · exact hout
  rw [promote]
  cases htype : f.type with
  | funding =>
    rw [sourceOf, htype]
    exact ⟨out, rfl, hout⟩
  | positions =>
    obtain ⟨t, ht⟩ := positionsTotal_returns.mpr (hpositions htype)
    have hsource : sourceOf I data f = t.map .adds := by
      rw [sourceOf, htype, ht]
      rfl
    rw [hsource] at hfit ⊢
    cases t with
    | none => exact ⟨out, by rw [ht]; rfl, hout⟩
    | some total =>
      have hsum : sumFrom (amount.getD .zero) [total] = .ok ((amount.getD .zero).roundedSum total) :=
        sumFrom_ok.mpr ⟨⟨hfit.1.resolve_left nofun, trivial⟩, rfl⟩
      have hadd : ((amount.map Promoted.amount).getD (.amount .zero)).add total =
          .ok (.amount ((amount.getD .zero).roundedSum total)) := by
        cases amount with
        | none => exact congrArg (Except.map Promoted.amount) hsum
        | some d => exact congrArg (Except.map Promoted.amount) hsum
      refine ⟨_, bind_ok.mpr ⟨some total, ht, bind_ok.mpr ⟨_, hout ▸ hadd, rfl⟩⟩, ?_⟩
      rw [lookup_set, if_pos rfl]
      rfl
  | number => exact ⟨_, rfl, hnumber (by rw [htype]; rfl) (by rw [sourceOf, htype])⟩
  | currency => exact ⟨_, rfl, hnumber (by rw [htype]; rfl) (by rw [sourceOf, htype])⟩
  | _ =>
    refine ⟨out, ?_, ?_⟩
    · rw [promoteFlagged_plain _ (hother (by rw [htype]; rfl))]
    · rw [sourceOf, htype]
      exact hout

theorem foldlM_promote (hpromoted : ∀ f ∈ fields, f.isPromoted = true → f.type.isNumeric = true)
    (hpositions : ∀ f ∈ fields, f.type = .positions → PositionsSafe I (get data f.key))
    (hfit : AmountsFit amount (fields.filterMap (sourceOf I data))) (hout : out.lookup amountKey = amount.map .amount) :
    ∃ out', fields.foldlM (promote I data) out = .ok out' ∧
      out'.lookup amountKey = (amountAfter amount (fields.filterMap (sourceOf I data))).map .amount := by
  induction fields generalizing out amount with
  | nil => exact ⟨out, rfl, hout⟩
  | cons f fields ih =>
    obtain ⟨hflag, hflags⟩ := forall_mem_cons.mp hpromoted
    obtain ⟨hposition, hrest⟩ := forall_mem_cons.mp hpositions
    have hsources : (f :: fields).filterMap (sourceOf I data) =
        (sourceOf I data f).toList ++ fields.filterMap (sourceOf I data) := by
      rw [filterMap_cons]
      cases sourceOf I data f <;> rfl
    rw [hsources] at hfit ⊢
    have hsplit := amountsFit_append.mp hfit
    obtain ⟨next, hnext, hamount⟩ := promote_amount hflag hposition hsplit.1 hout
    obtain ⟨last, hlast, hlookup⟩ := ih hflags hrest hsplit.2 hamount
    exact ⟨last, bind_ok.mpr ⟨next, hnext, hlast⟩, by rw [hlookup, amountAfter_append]⟩

theorem promotedAmount_ok (hpromoted : ∀ f ∈ fields, f.isPromoted = true → f.type.isNumeric = true)
    (hreads : AmountReads I data fields) : promotedAmount I fields data = .ok ((amountOf I data fields).map .amount) := by
  have hnone : List.lookup amountKey ([] : PromotedValues) = (none : Option FiniteDecimal).map .amount := rfl
  obtain ⟨promoted, hpromote, hlookup⟩ := foldlM_promote hpromoted hreads.positions hreads.sums hnone
  rw [promotedAmount, extractPromoted, hpromote, amountOf, fundingOf]
  simp only [bind, Except.bind]
  split
  · next funding hlast =>
      rw [hlast]
      exact congrArg Except.ok ((lookup_set amountKey amountKey _).trans (if_pos rfl))
  · next hlast =>
      cases hfunding : ((fields.filter (·.type = .funding)).map fun f => finiteDecimal I (get data f.key)).getLast? with
      | none => exact congrArg Except.ok hlookup
      | some funding =>
        cases funding with
        | none => exact congrArg Except.ok hlookup
        | some d => exact absurd hfunding (hlast d)

end Promote

section Accepted

variable {I : Interpreter} {fields : List FormFieldDef} {data context ctx : Members} {f : FormFieldDef}

theorem validateDefinition_ok (h : validateDefinition I fields = .ok ()) :
    (fields.filter (·.type = .funding)).length ≤ 1 ∧ ∀ f ∈ fields, f.isPromoted = true → f.type.isNumeric = true := by
  unfold validateDefinition at h
  dsimp only at h
  split at h
  · cases h
  split at h
  · cases h
  next hmany =>
    split at h
    · cases h
    refine ⟨by simpa using hmany, fun f hf hpromoted => ?_⟩
    have hfield := forM_ok h f hf
    by_contra hnumeric
    have hrule : (f.isPromoted && !f.type.isNumeric) = true := by
      rw [hpromoted, Bool.eq_false_of_not_eq_true hnumeric]
      rfl
    unfold validateField at hfield
    rw [if_pos hrule] at hfield
    cases hfield

theorem filter_funding {gs : List FormFieldDef} (hsub : gs.Sublist (fields.filter (·.type = .funding)))
    (hone : (fields.filter (·.type = .funding)).length ≤ 1) (hf : f ∈ gs) : gs = [f] := by
  have hlength : gs.length ≤ 1 := hsub.length_le.trans hone
  match gs, hf, hlength with
  | [g], hf, _ => rw [mem_singleton.mp hf]
  | _ :: _ :: _, _, hlength => simp at hlength

theorem errIf_nil {condition : Bool} {key : Text} {msg : Msg} : errIf condition key msg = [] ↔ condition = false := by
  cases condition with
  | false => exact iff_of_true rfl rfl
  | true => exact iff_of_false nofun nofun

theorem finiteDecimal_absent {value : Json} (h : isPresent value = false) : finiteDecimal I value = none := by
  cases value with
  | null => rfl
  | arr items => rfl
  | obj members => rfl
  | str s =>
    cases s with
    | nil => rfl
    | cons c s => cases h
  | _ => cases h

theorem positionsSafe_absent {value : Json} (h : isPresent value = false) : PositionsSafe I value := by
  rintro positions rfl
  cases positions with
  | nil => exact ⟨nofun, trivial⟩
  | cons pos positions => cases h

theorem fundingOf_none (h : ∀ f ∈ fields, f.type = .funding → finiteDecimal I (get data f.key) = none) :
    fundingOf I data fields = none := by
  rw [fundingOf]
  cases hlast : ((fields.filter (·.type = .funding)).map fun f => finiteDecimal I (get data f.key)).getLast? with
  | none => rfl
  | some funding =>
    obtain ⟨f, hf, rfl⟩ := mem_map.mp (mem_of_getLast? hlast)
    obtain ⟨hmem, htype⟩ := mem_filter.mp hf
    exact h f hmem (by simpa using htype)

theorem fundingOf_single (h : fields.filter (·.type = .funding) = [f]) :
    fundingOf I data fields = finiteDecimal I (get data f.key) := by
  rw [fundingOf, h]
  rfl

theorem sources_visible (h : ∀ f ∈ fields, shown I ctx f = false → sourceOf I data f = none) :
    (fields.filter (shown I ctx)).filterMap (sourceOf I data) = fields.filterMap (sourceOf I data) := by
  induction fields with
  | nil => rfl
  | cons f fields ih =>
    obtain ⟨hf, hfields⟩ := forall_mem_cons.mp h
    rw [filter_cons, filterMap_cons]
    cases hshown : shown I ctx f with
    | false =>
      rw [hf hshown]
      exact ih hfields
    | true =>
      rw [if_pos rfl, filterMap_cons, ih hfields]

theorem funding_checked {computed : Computed} {fieldErrors : List (List FieldError)} {total : FiniteDecimal}
    (hwalk : Walk I fields data context computed fieldErrors total []) (hcomputed : computed.errors = [])
    (hfields : fieldErrors.flatten = []) (hone : (fields.filter (·.type = .funding)).length ≤ 1)
    (hf : f ∈ filledOf .funding data (shownFields I fields data context)) :
    ∃ d, finiteDecimal I (get data f.key) = some d ∧ 0 ≤ d.coefficient ∧ total.compare d ≠ .lt := by
  obtain ⟨hchecked, hpresent, htype⟩ := mem_filledOf.mp hf
  obtain ⟨own, hown, herrors⟩ := mapM_ok hwalk.values f hchecked
  rw [flatten_eq_nil_iff.mp hfields own hown, answerErrors, if_pos hpresent, valueErrors, htype] at herrors
  obtain ⟨errors, hnumber, hsign⟩ := bind_ok.mp herrors
  cases hvalue : finiteDecimal I (get data f.key) with
  | none =>
    obtain ⟨msg, hmsg⟩ := validateNumber_error f hvalue
    rw [hmsg] at hnumber
    cases hnumber
    cases hsign
  | some d =>
    refine ⟨d, rfl, ?_, ?_⟩
    · rw [hvalue] at hsign
      cases errors with
      | cons e errors => cases hsign
      | nil =>
        have hnegative : d.isNegative = false := errIf_nil.mp (Except.ok.inj hsign)
        simpa [FiniteDecimal.isNegative] using hnegative
    · have hsub : (filledOf .funding data (shownFields I fields data context)).Sublist
          (fields.filter (·.type = .funding)) :=
        (filter_sublist.trans (filter_sublist.trans filter_sublist)).filter _
      have hfunding := hwalk.funding
      rw [hcomputed, hfields, fundingErrors, filter_funding hsub hone hf] at hfunding
      have htotal : checkFundingTotal I f (get data f.key) total [] = .ok [] := hfunding
      rw [checkFundingTotal, (finiteDecimal_some.mp hvalue).2] at htotal
      have habove : decide (total.compare d = .lt) = false := errIf_nil.mp (Except.ok.inj htotal)
      exact of_decide_eq_false habove

end Accepted

section Visible

variable (I : Interpreter) (fields : List FormFieldDef) (data context : Members)

def visibleOf : List FormFieldDef := fields.filter (shown I (evalContext I fields data context))

def Hidden (f : FormFieldDef) : Prop := shown I (evalContext I fields data context) f = false

def FundingFilled : Prop := ∃ f ∈ visibleOf I fields data context, f.type = .funding ∧ isPresent (get data f.key) = true

/-- No value of a hidden field counts: none stops the sums, and unless the visible funding is filled
no hidden funding is a number and no hidden field is a source from the last one on that sets the
amount. -/
structure HiddenIdle : Prop where
  readable : ∀ f ∈ fields, Hidden I fields data context f → f.type = .positions → PositionsSafe I (get data f.key)
  sums : AmountsFit none (fields.filterMap (sourceOf I data))
  visibleSums : AmountsFit none ((visibleOf I fields data context).filterMap (sourceOf I data))
  idle : FundingFilled I fields data context ∨
    (∀ f ∈ fields, Hidden I fields data context f → f.type = .funding → finiteDecimal I (get data f.key) = none) ∧
      ∃ before counted, fields = before ++ counted ∧
        (∀ f ∈ counted, Hidden I fields data context f → sourceOf I data f = none) ∧
        (before = [] ∨ ∃ f rest d, counted = f :: rest ∧ sourceOf I data f = some (.sets d))

variable {I fields data context}

theorem amountAfter_visible {ctx : Members} {before counted : List FormFieldDef}
    (hcounted : ∀ f ∈ counted, shown I ctx f = false → sourceOf I data f = none)
    (hfirst : before = [] ∨ ∃ f rest d, counted = f :: rest ∧ sourceOf I data f = some (.sets d)) :
    amountAfter none (((before ++ counted).filter (shown I ctx)).filterMap (sourceOf I data)) =
      amountAfter none ((before ++ counted).filterMap (sourceOf I data)) := by
  rw [filter_append, filterMap_append, filterMap_append, sources_visible hcounted]
  rcases hfirst with rfl | ⟨f, rest, d, rfl, hsets⟩
  · rfl
  · rw [filterMap_cons, hsets, amountAfter_sets, amountAfter_sets]

theorem positions_readable {computed : Computed} {fieldErrors : List (List FieldError)} {total : FiniteDecimal}
    (hwalk : Walk I fields data context computed fieldErrors total []) (hidle : HiddenIdle I fields data context) :
    ∀ f ∈ fields, f.type = .positions → PositionsSafe I (get data f.key) := by
  intro f hf htype
  cases hpresent : isPresent (get data f.key) with
  | false => exact positionsSafe_absent hpresent
  | true =>
    cases hshown : shown I (evalContext I fields data context) f with
    | false => exact hidle.readable f hf hshown htype
    | true =>
      apply (costTotal_ok.mp hwalk.costs).1
      apply mem_map.mpr
      refine ⟨f, mem_filledOf.mpr ⟨?_, hpresent, htype⟩, rfl⟩
      exact mem_filter.mpr ⟨mem_filter.mpr ⟨hf, by rw [FormFieldDef.isAnswer, htype]; rfl⟩, hshown⟩

theorem mem_shownFields {f : FormFieldDef} (hf : f ∈ visibleOf I fields data context) (hanswer : f.isAnswer = true) :
    f ∈ shownFields I fields data context := by
  obtain ⟨hmem, hshown⟩ := mem_filter.mp hf
  exact mem_filter.mpr ⟨mem_filter.mpr ⟨hmem, hanswer⟩, hshown⟩

theorem fundingOf_visible {f : FormFieldDef} (hone : (fields.filter (·.type = .funding)).length ≤ 1)
    (hf : f ∈ visibleOf I fields data context) (htype : f.type = .funding) :
    fundingOf I data fields = finiteDecimal I (get data f.key) ∧
      fundingOf I data (visibleOf I fields data context) = finiteDecimal I (get data f.key) := by
  have hvisible : f ∈ (visibleOf I fields data context).filter (·.type = .funding) :=
    mem_filter.mpr ⟨hf, by simpa using htype⟩
  have hall : f ∈ fields.filter (·.type = .funding) := (filter_sublist.filter _).subset hvisible
  constructor
  · exact fundingOf_single (filter_funding (List.Sublist.refl _) hone hall)
  · exact fundingOf_single (filter_funding (filter_sublist.filter _) hone hvisible)

/-- Where no hidden value counts, all fields and the visible ones give one amount. -/
theorem amountOf_visible (hone : (fields.filter (·.type = .funding)).length ≤ 1)
    (hidle : HiddenIdle I fields data context)
    (hchecked : ∀ f ∈ visibleOf I fields data context, f.type = .funding → isPresent (get data f.key) = true →
      ∃ d, finiteDecimal I (get data f.key) = some d) :
    amountOf I data (visibleOf I fields data context) = amountOf I data fields := by
  rw [amountOf, amountOf]
  by_cases hfilled : FundingFilled I fields data context
  · obtain ⟨f, hf, htype, hpresent⟩ := hfilled
    obtain ⟨d, hd⟩ := hchecked f hf htype hpresent
    obtain ⟨hall, hvisible⟩ := fundingOf_visible hone hf htype
    rw [hall, hvisible, hd]
    rfl
  · obtain ⟨hhidden, before, counted, hfields, hcounted, hfirst⟩ := hidle.idle.resolve_left hfilled
    have hnone : ∀ f ∈ fields, f.type = .funding → finiteDecimal I (get data f.key) = none := by
      intro f hf htype
      cases hshown : shown I (evalContext I fields data context) f with
      | false => exact hhidden f hf hshown htype
      | true =>
        apply finiteDecimal_absent
        by_contra hpresent
        exact hfilled ⟨f, mem_filter.mpr ⟨hf, hshown⟩, htype, by simpa using hpresent⟩
    have hvisible : ∀ f ∈ visibleOf I fields data context, f.type = .funding → finiteDecimal I (get data f.key) = none :=
      fun f hf => hnone f (mem_of_mem_filter hf)
    have hsources := amountAfter_visible hcounted hfirst
    rw [← hfields] at hsources
    rw [fundingOf_none hnone, fundingOf_none hvisible]
    exact hsources

end Visible

/-- For accepted answers with no hidden value that counts, the amount is that of the visible
fields, and a visible funding that is filled is the amount and within the cost total. -/
theorem promoted_amount (I : Interpreter) (fields : List FormFieldDef) (data context result : Members)
    (hdefinition : validateDefinition I fields = .ok ())
    (hanswers : validateAnswers I fields data context = .ok result) (hidle : HiddenIdle I fields data context) :
    (∃ amount, promotedAmount I fields data = .ok amount ∧
        promotedAmount I (visibleOf I fields data context) data = .ok amount) ∧
      ∀ f ∈ visibleOf I fields data context, f.type = .funding → isPresent (get data f.key) = true →
        ∃ d total, finiteDecimal I (get data f.key) = some d ∧ promotedAmount I fields data = .ok (some (.amount d)) ∧
          0 ≤ d.coefficient ∧ costTotal I .zero (shownCosts I fields data context) = .ok total ∧
            total.compare d ≠ .lt := by
  obtain ⟨hone, hnumeric⟩ := validateDefinition_ok hdefinition
  obtain ⟨computed, fieldErrors, total, hwalk, hcomputed, hfields, _⟩ := validateAnswers_ok.mp hanswers
  have hreadable := positions_readable hwalk hidle
  have hall := promotedAmount_ok hnumeric ⟨hreadable, hidle.sums⟩
  have hvisible := promotedAmount_ok (fun f hf => hnumeric f (mem_of_mem_filter hf))
    ⟨fun f hf => hreadable f (mem_of_mem_filter hf), hidle.visibleSums⟩
  have hchecked : ∀ f ∈ visibleOf I fields data context, f.type = .funding → isPresent (get data f.key) = true →
      ∃ d, finiteDecimal I (get data f.key) = some d ∧ 0 ≤ d.coefficient ∧ total.compare d ≠ .lt := by
    intro f hf htype hpresent
    have hanswer := mem_shownFields hf (by rw [FormFieldDef.isAnswer, htype]; rfl)
    exact funding_checked hwalk hcomputed hfields hone (mem_filledOf.mpr ⟨hanswer, hpresent, htype⟩)
  constructor
  · have hsame := amountOf_visible hone hidle fun f hf htype hpresent =>
      (hchecked f hf htype hpresent).imp fun _ h => h.1
    exact ⟨_, hall, by rw [← hsame]; exact hvisible⟩
  · intro f hf htype hpresent
    obtain ⟨d, hd, hsign, habove⟩ := hchecked f hf htype hpresent
    refine ⟨d, total, hd, ?_, hsign, hwalk.costs, habove⟩
    rw [hall, amountOf, (fundingOf_visible hone hf htype).1, hd]
    rfl

section Budget

def hasBudget : Text := text "has_budget"

/-- A funding that is visible with a budget only. -/
def fundingField : FormFieldDef where
  key := text "funding"
  type := .funding
  required := false
  validation := none
  options := []
  visibleIf := some (.obj [(JsonLogic.varKey, .str hasBudget)])
  compute := none
  isPromoted := false
  promoteTarget := none

def optionalCosts : FormFieldDef := { costsField with required := false }

def budgetForm : List FormFieldDef := [optionalCosts, fundingField]

def budgetContext (budget : Bool) : Members := [(hasBudget, .bool budget)]

/-- Without a budget the funding is hidden, and what it holds becomes the amount all the same. -/
theorem hidden_funding_promoted :
    let data := [(text "funding", Json.int (-500))]
    validateDefinition asciiInterpreter budgetForm = .ok () ∧
      validateAnswers asciiInterpreter budgetForm data (budgetContext false) = .ok data ∧
      promotedAmount asciiInterpreter budgetForm data = .ok (some (.amount ⟨-500, 0⟩)) ∧
      visibleOf asciiInterpreter budgetForm data (budgetContext false) = [optionalCosts] ∧
      promotedAmount asciiInterpreter [optionalCosts] data = .ok none :=
  ⟨rfl, rfl, rfl, rfl, rfl⟩

def oneCost : Json :=
  .arr [.obj [(text "label", .str (text "Hall")), (text "noOffers", .bool true), (text "noOffersReason", .str (text "One hall")),
    (text "offers", .arr [.obj [(text "label", .str (text "A")), (text "value", .int 100), (text "preferred", .bool true)]])]]

def budgetAnswers : Members := [(text "costs", oneCost), (text "funding", .int 60)]

/-- With a budget a funding of 60 for costs of 100 is the amount. -/
theorem promoted_amount_budget :
    ∃ amount, promotedAmount asciiInterpreter budgetForm budgetAnswers = .ok amount ∧
      promotedAmount asciiInterpreter (visibleOf asciiInterpreter budgetForm budgetAnswers (budgetContext true)) budgetAnswers =
        .ok amount := by
  have hvisible : visibleOf asciiInterpreter budgetForm budgetAnswers (budgetContext true) = budgetForm := rfl
  have hsources : budgetForm.filterMap (sourceOf asciiInterpreter budgetAnswers) = [.adds ⟨100, 0⟩] := rfl
  have hfit : AmountsFit none [.adds ⟨100, 0⟩] := ⟨.inr rfl, trivial⟩
  have hidle : HiddenIdle asciiInterpreter budgetForm budgetAnswers (budgetContext true) := by
    refine ⟨?_, hsources ▸ hfit, hvisible ▸ hsources ▸ hfit, .inl ⟨fundingField, ?_, rfl, rfl⟩⟩
    · intro f hf hhidden
      have hshown := mem_filter.mp (hvisible ▸ hf)
      exact absurd hhidden (by rw [Hidden, hshown.2]; nofun)
    · rw [hvisible]
      exact mem_cons_of_mem _ mem_cons_self
  exact (promoted_amount asciiInterpreter budgetForm budgetAnswers (budgetContext true) budgetAnswers rfl rfl hidle).1

end Budget

end Forms
