import StupaWorkflow.FormAnswers

/-!
Which answers the checks settle. A check is meant to end in the answers or in the errors of the
fields; the conditions below say at which answers it does, and they are exact.
-/
namespace Forms
open Py Raises List
open JsonLogic (Members Caught)

section Conditions

variable (I : Interpreter)

/-- `value or []` is a list, a text or an object. -/
def Iterable : Json → Prop
  | .arr _ | .str _ | .obj _ => True
  | v => JsonLogic.truthy I.toFloats v = false

def SumsFit : FiniteDecimal → List FiniteDecimal → Prop
  | _, [] => True
  | total, d :: ds => (total.roundedSum d).isTooLarge = false ∧ SumsFit (total.roundedSum d) ds

/-- The preferred value of a position, `none` also where it cannot be read. -/
def preferredOf (pos : Members) : Option FiniteDecimal := (preferredValue I pos).toOption.join

def PositionsSafe (value : Json) : Prop :=
  ∀ positions, value = .arr positions →
    (∀ pos ∈ objects positions, Iterable I (get pos (text "offers"))) ∧
      SumsFit .zero ((objects positions).filterMap (preferredOf I))

def costOf (value : Json) : FiniteDecimal := orZero (positionsTotal I value).toOption.join

def NumberSafe (f : FormFieldDef) (value : Json) : Prop :=
  (finiteDecimal I value).isSome = true →
    ∀ v, f.validation = some v → ∀ bound, v.min = some bound ∨ v.max = some bound → bound.isNan = false

/-- The letters and digits of a text in the shape of an IBAN are those of `int(ch, 36)`. -/
def IbanSafe (s : Text) : Prop :=
  ibanShape I (ibanText I s) = true → ∀ c ∈ ibanText I s, (base36 c).isSome = true

def ValueSafe (f : FormFieldDef) (value : Json) : Prop :=
  match f.type with
  | .number | .currency | .funding => NumberSafe I f value
  | .multiselect => ∀ items, value = .arr items → JsonLogic.displaysItems (items.filter fun v => !isOption f v) = true
  | .iban => ∀ s, value = .str s → IbanSafe I s
  | _ => True

def ComputesSafe (ctx : Members) : Members → List (Text × Json) → Prop
  | _, [] => True
  | values, pair :: pairs =>
    JsonLogic.Safe I.toFloats pair.2 (update ctx values) ∧ ComputesSafe ctx (computedValue I ctx values pair) pairs

structure AnswersSafe (fields : List FormFieldDef) (data context : Members) : Prop where
  computes : ComputesSafe I (update context data) [] (computedPairs fields)
  visible : ∀ f ∈ fields, f.isAnswer = true → ∀ expr, f.visibleIf = some expr →
    JsonLogic.Safe I.toFloats expr (evalContext I fields data context)
  values : ∀ f ∈ shownFields I fields data context, isPresent (get data f.key) = true → ValueSafe I f (get data f.key)
  positions : ∀ value ∈ shownCosts I fields data context, PositionsSafe I value
  total : SumsFit .zero ((shownCosts I fields data context).map (costOf I))

end Conditions

section Totals

variable {I : Interpreter}
variable {ds : List FiniteDecimal}

attribute [local simp] SumsFit sumFrom costTotal costOf finiteDecimal validateNumber validateFunding valueErrors
  answerErrors iterate Iterable preferredValue

theorem iterate_returns {v : Json} : (∃ items, iterate I v = .ok items) ↔ Iterable I v := by
  cases v with
  | arr items => exact ⟨fun _ => trivial, fun _ => ⟨items, rfl⟩⟩
  | str s => exact ⟨fun _ => trivial, fun _ => ⟨_, rfl⟩⟩
  | obj members => exact ⟨fun _ => trivial, fun _ => ⟨_, rfl⟩⟩
  | _ =>
    rw [iterate, Iterable]
    · split
      · next htruthy =>
          constructor
          · rintro ⟨_, h⟩
            cases h
          · intro h
            rw [h] at htruthy
            cases htruthy
      · next hfalsy => exact ⟨fun _ => by simpa using hfalsy, fun _ => ⟨[], rfl⟩⟩
    all_goals
      intro _ h
      cases h

theorem preferredValue_returns {pos : Members} :
    (∃ d, preferredValue I pos = .ok d) ↔ Iterable I (get pos (text "offers")) := by
  rw [← iterate_returns, preferredValue]
  exact bind_returns fun offers => ⟨_, rfl⟩

theorem sumFrom_ok {total s : FiniteDecimal} :
    sumFrom total ds = .ok s ↔ SumsFit total ds ∧ s = ds.foldl FiniteDecimal.roundedSum total := by
  induction ds generalizing total with
  | nil =>
    rw [sumFrom, SumsFit, foldl_nil]
    exact ⟨fun h => ⟨trivial, (Except.ok.inj h).symm⟩, fun h => congrArg _ h.2.symm⟩
  | cons d ds ih =>
    rw [sumFrom, SumsFit, foldl_cons, FiniteDecimal.add]
    cases hlarge : (total.roundedSum d).isTooLarge with
    | true => exact ⟨fun h => (nomatch h), fun h => (nomatch h.1.1)⟩
    | false =>
      apply ih.trans
      rw [and_iff_right rfl]

theorem sumFrom_returns {total : FiniteDecimal} : (∃ s, sumFrom total ds = .ok s) ↔ SumsFit total ds := by
  constructor
  · rintro ⟨s, h⟩
    exact (sumFrom_ok.mp h).1
  · exact fun h => ⟨_, sumFrom_ok.mpr ⟨h, rfl⟩⟩

theorem mapM_preferredValue {objs : List Members} {preferred : List (Option FiniteDecimal)}
    (h : objs.mapM (preferredValue I) = .ok preferred) : preferred.filterMap id = objs.filterMap (preferredOf I) := by
  induction objs generalizing preferred with
  | nil =>
    cases h
    rfl
  | cons pos objs ih =>
    rw [mapM_cons, bind_ok] at h
    obtain ⟨d, hd, htail⟩ := h
    obtain ⟨rest, hrest, hpreferred⟩ := bind_ok.mp htail
    cases hpreferred
    have hof : preferredOf I pos = d := by
      rw [preferredOf, hd]
      rfl
    rw [filterMap_cons, filterMap_cons, hof, ih hrest]
    rfl

theorem positionsTotal_returns {value : Json} : (∃ t, positionsTotal I value = .ok t) ↔ PositionsSafe I value := by
  cases value with
  | arr positions =>
    have hread : (∃ preferred, (objects positions).mapM (preferredValue I) = .ok preferred) ↔
        ∀ pos ∈ objects positions, Iterable I (get pos (text "offers")) :=
      mapM_returns.trans (forall₂_congr fun pos _ => preferredValue_returns)
    constructor
    · rintro ⟨t, h⟩ _ ⟨⟩
      obtain ⟨preferred, hpreferred, hsum⟩ := bind_ok.mp h
      refine ⟨hread.mp ⟨preferred, hpreferred⟩, ?_⟩
      rw [← mapM_preferredValue hpreferred]
      cases hfound : preferred.filterMap id with
      | nil => trivial
      | cons d ds =>
        rw [hfound] at hsum
        exact sumFrom_returns.mp (map_returns.mp ⟨t, hsum⟩)
    · intro h
      obtain ⟨hiterable, hfit⟩ := h positions rfl
      obtain ⟨preferred, hpreferred⟩ := hread.mpr hiterable
      rw [← mapM_preferredValue hpreferred] at hfit
      obtain ⟨s, hs⟩ := sumFrom_returns.mpr hfit
      rw [positionsTotal, hpreferred]
      cases hfound : preferred.filterMap id with
      | nil => exact ⟨none, by simp only [bind, Except.bind, hfound]; rfl⟩
      | cons d ds =>
        rw [hfound] at hs
        exact ⟨some s, by simp only [bind, Except.bind, hfound, hs]; rfl⟩
  | _ =>
    refine ⟨?_, fun _ => ⟨none, rfl⟩⟩
    intro _ positions h
    cases h

theorem costTotal_ok {total t : FiniteDecimal} {values : List Json} :
    costTotal I total values = .ok t ↔ (∀ value ∈ values, PositionsSafe I value) ∧
      SumsFit total (values.map (costOf I)) ∧ t = (values.map (costOf I)).foldl FiniteDecimal.roundedSum total := by
  induction values generalizing total with
  | nil =>
    rw [costTotal]
    exact ⟨fun h => ⟨nofun, trivial, (Except.ok.inj h).symm⟩, fun h => congrArg _ h.2.2.symm⟩
  | cons value values ih =>
    rw [costTotal, bind_ok, forall_mem_cons, map_cons, foldl_cons, SumsFit]
    constructor
    · rintro ⟨amount, hamount, h⟩
      obtain ⟨next, hnext, hrest⟩ := bind_ok.mp h
      have hcost : costOf I value = orZero amount := by
        rw [costOf, hamount]
        rfl
      obtain ⟨⟨hfit, _⟩, rfl⟩ := sumFrom_ok.mp hnext
      obtain ⟨hsafe, hsums, ht⟩ := ih.mp hrest
      rw [hcost]
      exact ⟨⟨positionsTotal_returns.mp ⟨amount, hamount⟩, hsafe⟩, ⟨hfit, hsums⟩, ht⟩
    · rintro ⟨⟨hvalue, hsafe⟩, ⟨hfit, hsums⟩, ht⟩
      obtain ⟨amount, hamount⟩ := positionsTotal_returns.mpr hvalue
      have hcost : costOf I value = orZero amount := by
        rw [costOf, hamount]
        rfl
      rw [hcost] at hfit hsums ht
      refine ⟨amount, hamount, bind_ok.mpr ⟨_, sumFrom_ok.mpr ⟨⟨hfit, trivial⟩, rfl⟩, ?_⟩⟩
      exact ih.mpr ⟨hsafe, hsums, ht⟩

end Totals

section Values

variable {I : Interpreter} {f : FormFieldDef} {value : Json}

theorem below_returns (c e : ℤ) (bound : Decimal) : (∃ b, below (.finite c e) bound = .ok b) ↔ bound.isNan = false := by
  cases bound with
  | nan signaling => exact ⟨fun ⟨_, h⟩ => (nomatch h), fun h => (nomatch h)⟩
  | _ => exact ⟨fun _ => rfl, fun _ => ⟨_, rfl⟩⟩

theorem above_returns (c e : ℤ) (bound : Decimal) : (∃ b, below bound (.finite c e) = .ok b) ↔ bound.isNan = false := by
  cases bound with
  | nan signaling => exact ⟨fun ⟨_, h⟩ => (nomatch h), fun h => (nomatch h)⟩
  | _ => exact ⟨fun _ => rfl, fun _ => ⟨_, rfl⟩⟩

theorem boundErrors_returns (bound : Option Decimal) {breaks : Decimal → Except Escape Bool} (key : Text) (msg : Msg)
    (h : ∀ b, (∃ broken, breaks b = .ok broken) ↔ b.isNan = false) :
    (∃ errors, boundErrors bound breaks key msg = .ok errors) ↔ ∀ b, bound = some b → b.isNan = false := by
  cases bound with
  | none => exact ⟨fun _ _ hb => (nomatch hb), fun _ => ⟨[], rfl⟩⟩
  | some b =>
    rw [boundErrors, map_returns, h b]
    constructor
    · rintro hb _ ⟨⟩
      exact hb
    · exact fun hbound => hbound b rfl

theorem finiteDecimal_some {d : FiniteDecimal} : finiteDecimal I value = some d ↔
    isNumeral value = true ∧ Guards.toDecimal I.toBuiltins value = some (.finite d.coefficient d.exponent) := by
  rw [finiteDecimal]
  split
  · next hnumeral =>
      rw [and_iff_right hnumeral]
      cases Guards.toDecimal I.toBuiltins value with
      | none =>
        constructor
        · intro h
          cases h
        · intro h
          cases h
      | some decimal =>
        cases decimal with
        | finite c e =>
          constructor
          · rintro ⟨⟩
            rfl
          · rintro ⟨⟩
            rfl
        | _ =>
          constructor
          · intro h
            cases h
          · intro h
            cases h
  · next hnumeral => exact ⟨nofun, fun h => absurd h.1 hnumeral⟩

theorem validateNumber_error (f : FormFieldDef) (hvalue : finiteDecimal I value = none) :
    ∃ msg, validateNumber I f value = .ok (err f.key msg) := by
  rw [finiteDecimal] at hvalue
  rw [validateNumber]
  cases hnumeral : isNumeral value with
  | false => exact ⟨.notNumber, rfl⟩
  | true =>
    rw [hnumeral] at hvalue
    cases hdecimal : Guards.toDecimal I.toBuiltins value with
    | none => exact ⟨.notNumber, rfl⟩
    | some decimal =>
      rw [hdecimal] at hvalue
      cases decimal with
      | finite c e => cases hvalue
      | _ => exact ⟨.notFinite, rfl⟩

theorem validateNumber_returns : (∃ errors, validateNumber I f value = .ok errors) ↔ NumberSafe I f value := by
  rw [NumberSafe]
  cases hvalue : finiteDecimal I value with
  | none =>
    obtain ⟨msg, hmsg⟩ := validateNumber_error f hvalue
    exact ⟨fun _ h => (nomatch h), fun _ => ⟨_, hmsg⟩⟩
  | some d =>
    obtain ⟨hnumeral, hdecimal⟩ := finiteDecimal_some.mp hvalue
    rw [validateNumber, hnumeral, hdecimal]
    cases f.validation with
    | none => exact ⟨fun _ _ _ h => (nomatch h), fun _ => ⟨[], rfl⟩⟩
    | some v =>
      have hmin := boundErrors_returns v.min f.key .belowMinimum (below_returns d.coefficient d.exponent)
      have hmax := boundErrors_returns v.max f.key .aboveMaximum (above_returns d.coefficient d.exponent)
      constructor
      · rintro ⟨errors, h⟩ _ _ ⟨⟩ bound hbound
        obtain ⟨low, hlow, h⟩ := bind_ok.mp h
        obtain ⟨high, hhigh, _⟩ := bind_ok.mp h
        rcases hbound with hbound | hbound
        · exact hmin.mp ⟨low, hlow⟩ bound hbound
        · exact hmax.mp ⟨high, hhigh⟩ bound hbound
      · intro h
        obtain ⟨low, hlow⟩ := hmin.mpr fun b hb => h rfl v rfl b (.inl hb)
        obtain ⟨high, hhigh⟩ := hmax.mpr fun b hb => h rfl v rfl b (.inr hb)
        exact ⟨low ++ high, bind_ok.mpr ⟨low, hlow, bind_ok.mpr ⟨high, hhigh, rfl⟩⟩⟩

theorem validateFunding_returns : (∃ errors, validateFunding I f value = .ok errors) ↔ NumberSafe I f value := by
  rw [← validateNumber_returns, validateFunding]
  exact bind_returns fun errors => ⟨_, rfl⟩

theorem validateMultiselect_returns : (∃ errors, validateMultiselect f value = .ok errors) ↔
    ∀ items, value = .arr items → JsonLogic.displaysItems (items.filter fun v => !isOption f v) = true := by
  cases value with
  | arr items =>
    rw [validateMultiselect]
    constructor
    · rintro ⟨errors, h⟩ _ ⟨⟩
      by_contra hshown
      rw [if_neg hshown] at h
      cases h
    · intro h
      rw [if_pos (h items rfl)]
      exact ⟨_, rfl⟩
  | _ =>
    refine ⟨?_, fun _ => ⟨_, rfl⟩⟩
    intro _ items h
    cases h

theorem mapM_base36 {s : Text} : (∃ values, s.mapM base36 = some values) ↔ ∀ c ∈ s, (base36 c).isSome = true := by
  induction s with
  | nil => exact ⟨fun _ => nofun, fun _ => ⟨[], rfl⟩⟩
  | cons c s ih =>
    rw [mapM_cons, forall_mem_cons, ← ih]
    cases base36 c with
    | none => exact ⟨fun ⟨_, h⟩ => (nomatch h), fun h => (nomatch h.1)⟩
    | some value =>
      cases s.mapM base36 with
      | none => exact ⟨fun ⟨_, h⟩ => (nomatch h), fun ⟨_, _, h⟩ => (nomatch h)⟩
      | some values => exact ⟨fun _ => ⟨rfl, values, rfl⟩, fun _ => ⟨value :: values, rfl⟩⟩

theorem ibanMod97Ok_returns {s : Text} : (∃ ok, ibanMod97Ok I s = .ok ok) ↔ IbanSafe I s := by
  rw [ibanMod97Ok, IbanSafe]
  cases hshape : ibanShape I (ibanText I s) with
  | false => exact ⟨fun _ h => (nomatch h), fun _ => ⟨false, rfl⟩⟩
  | true =>
    have hrearranged : (∀ c ∈ (ibanText I s).drop 4 ++ (ibanText I s).take 4, (base36 c).isSome = true) ↔
        ∀ c ∈ ibanText I s, (base36 c).isSome = true := by
      apply forall_congr'
      intro c
      rw [mem_append, or_comm, ← mem_append, take_append_drop]
    rw [imp_iff_right rfl, ← hrearranged, ← mapM_base36]
    cases ((ibanText I s).drop 4 ++ (ibanText I s).take 4).mapM base36 with
    | none => exact ⟨fun ⟨_, h⟩ => (nomatch h), fun ⟨_, h⟩ => (nomatch h)⟩
    | some values => exact ⟨fun _ => ⟨values, rfl⟩, fun _ => ⟨_, rfl⟩⟩

theorem validateIban_returns : (∃ errors, validateIban I f value = .ok errors) ↔ ∀ s, value = .str s → IbanSafe I s := by
  cases value with
  | str s =>
    rw [validateIban, map_returns, ibanMod97Ok_returns]
    constructor
    · rintro hsafe _ ⟨⟩
      exact hsafe
    · exact fun h => h s rfl
  | _ =>
    refine ⟨?_, fun _ => ⟨_, rfl⟩⟩
    intro _ s h
    cases h

theorem valueErrors_returns : (∃ errors, valueErrors I f value = .ok errors) ↔ ValueSafe I f value := by
  rw [valueErrors, ValueSafe]
  cases f.type with
  | number | currency => exact validateNumber_returns
  | funding => exact validateFunding_returns
  | multiselect => exact validateMultiselect_returns
  | iban => exact validateIban_returns
  | _ => exact ⟨fun _ => trivial, fun _ => ⟨_, rfl⟩⟩

theorem answerErrors_returns :
    (∃ errors, answerErrors I f value = .ok errors) ↔ (isPresent value = true → ValueSafe I f value) := by
  rw [answerErrors]
  cases isPresent value with
  | false => exact ⟨fun _ h => (nomatch h), fun _ => ⟨_, rfl⟩⟩
  | true => exact valueErrors_returns.trans (imp_iff_right rfl).symm

end Values

section Walk

variable {I : Interpreter} {fields checked : List FormFieldDef} {data context ctx : Members}

theorem computeStep_returns (state : Computed) (key : Text) (expr : Json) :
    (∃ next, computeStep I ctx state key expr = .ok next) ↔ JsonLogic.Safe I.toFloats expr (update ctx state.values) := by
  rw [← JsonLogic.evalJsonlogic_safe, ← handled_returns]
  apply bind_returns
  rintro (e | value)
  · exact ⟨_, rfl⟩
  · exact ⟨_, rfl⟩

theorem computePairs_returns {pairs : List (Text × Json)} (state : Computed) :
    (∃ next, pairs.foldlM (fun state pair => computeStep I ctx state pair.1 pair.2) state = .ok next) ↔
      ComputesSafe I ctx state.values pairs := by
  induction pairs generalizing state with
  | nil => exact ⟨fun _ => trivial, fun _ => ⟨state, rfl⟩⟩
  | cons pair pairs ih =>
    rw [foldlM_cons, ComputesSafe, ← computeStep_returns state pair.1]
    constructor
    · rintro ⟨last, h⟩
      obtain ⟨next, hnext, hrest⟩ := bind_ok.mp h
      rw [← computeStep_values hnext]
      exact ⟨⟨next, hnext⟩, (ih next).mp ⟨last, hrest⟩⟩
    · rintro ⟨⟨next, hnext⟩, hrest⟩
      rw [← computeStep_values hnext] at hrest
      obtain ⟨last, hlast⟩ := (ih next).mpr hrest
      exact ⟨last, bind_ok.mpr ⟨next, hnext, hlast⟩⟩

theorem isVisible_returns (f : FormFieldDef) : (∃ visible, isVisible I f ctx = .ok visible) ↔
    ∀ expr, f.visibleIf = some expr → JsonLogic.Safe I.toFloats expr ctx := by
  rw [isVisible]
  cases f.visibleIf with
  | none => exact ⟨fun _ expr h => absurd h (Option.some_ne_none expr).symm, fun _ => ⟨true, rfl⟩⟩
  | some expr =>
    have hexpr : (∃ visible, isVisible I { f with visibleIf := some expr } ctx = .ok visible) ↔
        JsonLogic.Safe I.toFloats expr ctx := by
      rw [← JsonLogic.evalJsonlogic_safe, ← handled_returns]
      apply bind_returns
      rintro (e | value)
      · exact ⟨_, rfl⟩
      · exact ⟨_, rfl⟩
    apply hexpr.trans
    constructor
    · rintro h _ ⟨⟩
      exact h
    · exact fun h => h expr rfl

theorem visibleFields_returns : (∃ checked, visibleFields I ctx fields = .ok checked) ↔
    ∀ f ∈ fields, ∀ expr, f.visibleIf = some expr → JsonLogic.Safe I.toFloats expr ctx := by
  induction fields with
  | nil => exact ⟨fun _ _ hf => (nomatch hf), fun _ => ⟨[], rfl⟩⟩
  | cons f fields ih =>
    rw [visibleFields, forall_mem_cons, ← isVisible_returns f, ← ih]
    constructor
    · rintro ⟨checked, h⟩
      obtain ⟨visible, hvisible, h⟩ := bind_ok.mp h
      obtain ⟨rest, hrest, _⟩ := bind_ok.mp h
      exact ⟨⟨visible, hvisible⟩, rest, hrest⟩
    · rintro ⟨⟨visible, hvisible⟩, rest, hrest⟩
      exact ⟨_, bind_ok.mpr ⟨visible, hvisible, bind_ok.mpr ⟨rest, hrest, rfl⟩⟩⟩

theorem mem_filledOf {type : FieldType} {f : FormFieldDef} :
    f ∈ filledOf type data checked ↔ f ∈ checked ∧ isPresent (get data f.key) = true ∧ f.type = type := by
  rw [filledOf, mem_filter, mem_filter, decide_eq_true_eq, and_assoc]

theorem fundingErrors_returns {fieldErrors : List (List FieldError)} (total : FiniteDecimal) (before : List FieldError)
    (hvalues : checked.mapM (fun f => answerErrors I f (get data f.key)) = .ok fieldErrors) :
    ∃ errors, fundingErrors I data checked total (before ++ fieldErrors.flatten) = .ok errors := by
  rw [fundingErrors]
  cases hlast : (filledOf .funding data checked).getLast? with
  | none => exact ⟨[], rfl⟩
  | some f =>
    obtain ⟨hchecked, hpresent, htype⟩ := mem_filledOf.mp (mem_of_getLast? hlast)
    obtain ⟨own, hown, herrors⟩ := mapM_ok hvalues f hchecked
    rw [answerErrors, if_pos hpresent, valueErrors, htype] at herrors
    change ∃ errors, checkFundingTotal I f (get data f.key) total (before ++ fieldErrors.flatten) = .ok errors
    rw [checkFundingTotal]
    cases hvalue : finiteDecimal I (get data f.key) with
    | none =>
      obtain ⟨msg, hmsg⟩ := validateNumber_error f hvalue
      have hkey : (before ++ fieldErrors.flatten).any (fun e => e.field = f.key) = true := by
        apply any_eq_true.mpr
        refine ⟨⟨f.key, msg⟩, mem_append_right _ (mem_flatten.mpr ⟨own, hown, ?_⟩), by simp⟩
        rw [validateFunding, hmsg] at herrors
        cases herrors
        exact mem_singleton_self _
      rw [hkey]
      exact ⟨[], rfl⟩
    | some d =>
      obtain ⟨_, hdecimal⟩ := finiteDecimal_some.mp hvalue
      rw [hdecimal]
      split
      · exact ⟨[], rfl⟩
      · exact map_returns.mpr ((below_returns _ _ _).mpr rfl)

theorem checkAnswers_returns :
    (∃ r, checkAnswers I fields data context = .ok r) ↔ AnswersSafe I fields data context := by
  constructor
  · rintro ⟨r, h⟩
    obtain ⟨computed, fieldErrors, total, fundings, hwalk, _⟩ := checkAnswers_ok.mp h
    obtain ⟨hpositions, hsums, _⟩ := costTotal_ok.mp hwalk.costs
    refine ⟨(computePairs_returns ⟨[], []⟩).mp ⟨computed, hwalk.computes⟩, ?_, ?_, hpositions, hsums⟩
    · intro f hf hanswer
      exact visibleFields_returns.mp ⟨_, hwalk.visible⟩ f (mem_filter.mpr ⟨hf, hanswer⟩)
    · intro f hf
      exact answerErrors_returns.mp (mapM_returns.mp ⟨fieldErrors, hwalk.values⟩ f hf)
  · intro h
    obtain ⟨computed, hcomputed⟩ := (computePairs_returns ⟨[], []⟩).mpr h.computes
    have hvisible : ∃ checked, visibleFields I (evalContext I fields data context) (fields.filter (·.isAnswer)) =
        .ok checked := by
      apply visibleFields_returns.mpr
      intro f hf
      exact h.visible f (mem_of_mem_filter hf) (of_mem_filter hf)
    obtain ⟨checked, hchecked⟩ := hvisible
    have hshown : checked = shownFields I fields data context := visibleFields_ok hchecked
    subst hshown
    obtain ⟨fieldErrors, hvalues⟩ := mapM_returns.mpr fun f hf => answerErrors_returns.mpr (h.values f hf)
    have htotal := costTotal_ok.mpr ⟨h.positions, h.total, rfl⟩
    obtain ⟨fundings, hfundings⟩ := fundingErrors_returns _ computed.errors hvalues
    exact ⟨_, checkAnswers_ok.mpr
      ⟨computed, fieldErrors, _, fundings, ⟨hcomputed, hchecked, hvalues, htotal, hfundings⟩, rfl⟩⟩

end Walk

/-- The answers are settled, with the computed values or with errors, exactly at the safe ones. -/
theorem answers_settle (I : Interpreter) (fields : List FormFieldDef) (data context : Members) :
    (validateAnswers I fields data context = .ok (withComputed I fields data context) ∨
        ∃ errors, errors ≠ [] ∧ validateAnswers I fields data context = .error (.answers errors)) ↔
      AnswersSafe I fields data context := by
  rw [← checkAnswers_returns, validateAnswers]
  cases hcheck : checkAnswers I fields data context with
  | error e =>
    constructor
    · rintro (h | ⟨_, _, h⟩)
      · cases h
      · cases h
    · rintro ⟨_, h⟩
      cases h
  | ok r =>
    refine ⟨fun _ => ⟨r, rfl⟩, fun _ => ?_⟩
    obtain ⟨_, _, _, _, _, hr⟩ := checkAnswers_ok.mp hcheck
    cases r with
    | mk result errors =>
      obtain ⟨rfl, _⟩ := Prod.mk.inj hr
      cases errors with
      | nil => exact .inl rfl
      | cons e errors => exact .inr ⟨e :: errors, cons_ne_nil e errors, rfl⟩

section Costs

def costsField : FormFieldDef where
  key := text "costs"
  type := .positions
  required := true
  validation := none
  options := []
  visibleIf := none
  compute := none
  isPromoted := false
  promoteTarget := none

/-- A position whose offers are a number: the position gets its error, and the cost total raises. -/
theorem offers_number_raises :
    validateDefinition asciiInterpreter [costsField] = .ok () ∧
      validateAnswers asciiInterpreter [costsField] [(text "costs", .arr [.obj [(text "offers", .int 5)]])] [] =
        .error (.escape .typeError) :=
  ⟨rfl, rfl⟩

end Costs

end Forms
