import Mathlib.Algebra.Order.Field.Power
import Mathlib.Data.Rat.Cast.Order
import Mathlib.Tactic.NormNum
import StupaWorkflow.DecimalContext
import StupaWorkflow.PyCalendar

/-!
The header of an electronic invoice, read from the element tree of its XML. The tax amounts are
added in the default context of the decimals.
-/
namespace InvoiceHeader
open Py List

section Model

inductive Element where
  | node (tag : Text) (content : Option Text) (children : List Element)

def Element.tag : Element → Text | .node tag _ _ => tag

/-- The text before the first child. -/
def Element.content : Element → Option Text | .node _ content _ => content

def Element.children : Element → List Element | .node _ _ children => children

def Element.findall (el : Element) (path : List Text) : List Element :=
  path.foldl (fun found tag => found.flatMap fun e => e.children.filter fun c => c.tag = tag) [el]

def Element.find (el : Element) (path : List Text) : Option Element := (el.findall path).head?

/-- `_qn`. -/
def qn (ns tag : String) : Text := 123 :: text ns ++ 125 :: text tag

def rsm (tag : String) : Text := qn "urn:un:unece:uncefact:data:standard:CrossIndustryInvoice:100" tag

def ram (tag : String) : Text := qn "urn:un:unece:uncefact:data:standard:ReusableAggregateBusinessInformationEntity:100" tag

def udt (tag : String) : Text := qn "urn:un:unece:uncefact:data:standard:UnqualifiedDataType:100" tag

def nonBlank (content : Option Text) : Option Text := content.filter fun s => strip s ≠ []

def findText (el : Option Element) (path : List Text) : Option Text :=
  (nonBlank ((el.bind fun e => e.find path).bind Element.content)).map strip

/-- `_cii_date`, as the ordinal of the date. -/
def ciiDate (value : Option Text) : Option ℕ :=
  value.bind fun s =>
    if s.length < 8 || !isDigitText (s.take 8) then none
    else do ofCalendar (← intOfDigits (s.take 4)) (← intOfDigits ((s.drop 4).take 2)) (← intOfDigits ((s.drop 6).take 2))

def ciiDecimal (value : Option Text) : Option Decimal := value.bind Decimal.ofText

/-- The check of `_sane_amount` and `_require_sane_gross`: finite, from 0 to 9999999999.99. -/
def isSane : Decimal → Bool
  | .finite c e => Decimal.compareFinite c e 0 0 ≠ .lt && Decimal.compareFinite c e 999999999999 (-2) ≠ .gt
  | _ => false

inductive NotZugferd where
  | unparseable
  | withoutGrandTotal
  | outOfRange (gross : Decimal)
  deriving DecidableEq

inductive ArithmeticError where
  | invalidOperation
  | overflow
  deriving DecidableEq

inductive Raised where
  | notZugferd (error : NotZugferd)
  | unsupportedCurrency (currency : Text)
  | arithmetic (error : ArithmeticError)
  deriving DecidableEq

structure ParsedInvoice where
  number : Option Text
  issueDate : Option ℕ
  dueDate : Option ℕ
  supplier : Option Text
  netAmount : Option Decimal
  taxAmount : Option Decimal
  grossAmount : Decimal
  currency : Text
  deriving DecidableEq

/-- `a + b` in the default context. -/
def addDecimal : Decimal → Decimal → Except ArithmeticError Decimal
  | .nan true, _ | _, .nan true => .error .invalidOperation
  | .nan false, _ | _, .nan false => .ok (.nan false)
  | .infinity n, .infinity n' => if n = n' then .ok (.infinity n) else .error .invalidOperation
  | .infinity n, .finite _ _ | .finite _ _, .infinity n => .ok (.infinity n)
  | .finite c e, .finite c' e' =>
    match FiniteDecimal.add ⟨c, e⟩ ⟨c', e'⟩ with
    | none => .error .overflow
    | some d => .ok (.finite d.coefficient d.exponent)

def sumDecimals (amounts : List Decimal) : Except ArithmeticError Decimal := amounts.foldlM addDecimal (.finite 0 0)

def settlement (root : Element) : Option Element :=
  (root.find [rsm "SupplyChainTradeTransaction"]).bind fun tx => tx.find [ram "ApplicableHeaderTradeSettlement"]

def summation (root : Element) : Option Element :=
  (settlement root).bind fun el => el.find [ram "SpecifiedTradeSettlementHeaderMonetarySummation"]

/-- `upper` is `str.upper`. -/
def currencyOf (upper : Text → Text) (root : Element) : Text :=
  upper ((findText (settlement root) [ram "InvoiceCurrencyCode"]).getD (text "EUR"))

def grandTotal (root : Element) : Option Decimal := ciiDecimal (findText (summation root) [ram "GrandTotalAmount"])

def taxTexts (root : Element) : List Text :=
  ((summation root).elim [] fun el => el.findall [ram "TaxTotalAmount"]).filterMap fun e => nonBlank e.content

def taxAmounts (root : Element) : List Decimal := (taxTexts root).filterMap Decimal.ofText

def invoiceOf (root : Element) (gross : Decimal) (tax : Option Decimal) : ParsedInvoice :=
  let doc := root.find [rsm "ExchangedDocument"]
  let tx := root.find [rsm "SupplyChainTradeTransaction"]
  let agreement := tx.bind fun el => el.find [ram "ApplicableHeaderTradeAgreement"]
  { number := findText doc [ram "ID"]
    issueDate := ciiDate (findText doc [ram "IssueDateTime", udt "DateTimeString"])
    dueDate := ciiDate (findText (settlement root) [ram "SpecifiedTradePaymentTerms", ram "DueDateDateTime", udt "DateTimeString"])
    supplier := findText agreement [ram "SellerTradeParty", ram "Name"]
    netAmount := (ciiDecimal (findText (summation root) [ram "TaxBasisTotalAmount"])).filter isSane
    taxAmount := tax.filter isSane
    grossAmount := gross
    currency := text "EUR" }

/-- `_parse_cii_header` behind the parser; `none` is its parse error. -/
def parseCiiHeader (upper : Text → Text) : Option Element → Except Raised ParsedInvoice
  | none => .error (.notZugferd .unparseable)
  | some root =>
    if currencyOf upper root ≠ text "EUR" then .error (.unsupportedCurrency (currencyOf upper root))
    else match grandTotal root with
      | none => .error (.notZugferd .withoutGrandTotal)
      | some gross =>
        if !isSane gross then .error (.notZugferd (.outOfRange gross))
        else if taxTexts root = [] then .ok (invoiceOf root gross none)
        else match sumDecimals (taxAmounts root) with
          | .error e => .error (.arithmetic e)
          | .ok tax => .ok (invoiceOf root gross (some tax))

end Model

section Purpose

def InRange (v : Decimal) : Prop := ∃ c e, v = .finite c e ∧ 0 ≤ (c : ℚ) * 10 ^ e ∧ (c : ℚ) * 10 ^ e ≤ 9999999999.99

structure ParsedInvoice.Sane (invoice : ParsedInvoice) : Prop where
  currency : invoice.currency = text "EUR"
  gross : InRange invoice.grossAmount
  net : ∀ v ∈ invoice.netAmount, InRange v
  tax : ∀ v ∈ invoice.taxAmount, InRange v

def FailsCleanly : Except Raised ParsedInvoice → Prop
  | .ok invoice => invoice.Sane
  | .error (.notZugferd _) | .error (.unsupportedCurrency _) => True
  | .error (.arithmetic _) => False

/-- The running sum of the finite amounts before the first other one does not overflow. -/
def Fits : FiniteDecimal → List Decimal → Prop
  | total, .finite c e :: amounts => ∃ next, total.add ⟨c, e⟩ = some next ∧ Fits next amounts
  | _, _ => True

def beforeNan (amounts : List Decimal) : List Decimal := amounts.takeWhile fun v => !v.isNan

structure Addable (amounts : List Decimal) : Prop where
  quiet : ∀ v ∈ amounts, v ≠ .nan true
  oneSided : ∀ n, .infinity n ∈ beforeNan amounts → .infinity (!n) ∉ beforeNan amounts
  fits : Fits .zero amounts

end Purpose

section Sums

variable {acc v : Decimal} {amounts : List Decimal}

def Adds (acc : Decimal) (amounts : List Decimal) : Prop := ∃ total, amounts.foldlM addDecimal acc = .ok total

attribute [local simp] addDecimal

theorem adds_cons : Adds acc (v :: amounts) ↔ ∃ next, addDecimal acc v = .ok next ∧ Adds next amounts := by
  simp only [Adds, foldlM_cons, bind_ok]
  exact ⟨fun ⟨t, n, h, h'⟩ => ⟨n, h, t, h'⟩, fun ⟨n, h, t, h'⟩ => ⟨t, n, h, h'⟩⟩

theorem beforeNan_cons : beforeNan (v :: amounts) = if v.isNan then [] else v :: beforeNan amounts := by
  cases h : v.isNan <;> simp [beforeNan, h]

theorem adds_nan : Adds (.nan false) amounts ↔ ∀ v ∈ amounts, v ≠ .nan true := by
  induction amounts with
  | nil => exact iff_of_true ⟨_, rfl⟩ (by simp)
  | cons v amounts ih =>
    rw [adds_cons, forall_mem_cons, ← ih]
    rcases v with _ | _ | _ | _ <;> simp [addDecimal]

theorem adds_infinity (n : Bool) : Adds (.infinity n) amounts ↔ (∀ v ∈ amounts, v ≠ .nan true) ∧ .infinity (!n) ∉ beforeNan amounts := by
  induction amounts with
  | nil => exact iff_of_true ⟨_, rfl⟩ (by simp [beforeNan])
  | cons v amounts ih =>
    rw [adds_cons, forall_mem_cons]
    rcases v with ⟨c, e⟩ | m | _ | _
    · simp [addDecimal, ih, beforeNan_cons, Decimal.isNan]
    · cases n <;> cases m <;> simp [addDecimal, ih, beforeNan_cons, Decimal.isNan]
    · simp [addDecimal, adds_nan, beforeNan_cons, Decimal.isNan]
    · simp [addDecimal]

theorem adds_finite (c e : ℤ) : Adds (.finite c e) amounts ↔ (∀ v ∈ amounts, v ≠ .nan true) ∧
    (∀ n, .infinity n ∈ beforeNan amounts → .infinity (!n) ∉ beforeNan amounts) ∧ Fits ⟨c, e⟩ amounts := by
  induction amounts generalizing c e with
  | nil => exact iff_of_true ⟨_, rfl⟩ (by simp [beforeNan, Fits])
  | cons v amounts ih =>
    rw [adds_cons, forall_mem_cons]
    rcases v with ⟨c', e'⟩ | m | _ | _
    · cases hadd : FiniteDecimal.add ⟨c, e⟩ ⟨c', e'⟩ with
      | none => simp [addDecimal, Fits, hadd]
      | some next => simp [addDecimal, Fits, hadd, ih, beforeNan_cons, Decimal.isNan]
    -- behind the first infinity only the other one is left to exclude
    · cases m <;> simp [addDecimal, adds_infinity, beforeNan_cons, Decimal.isNan, Fits]
      all_goals tauto
    · simp [addDecimal, adds_nan, beforeNan_cons, Decimal.isNan, Fits]
    · simp [addDecimal]

theorem sumDecimals_iff : (∃ total, sumDecimals amounts = .ok total) ↔ Addable amounts :=
  (adds_finite 0 0).trans ⟨fun h => ⟨h.1, h.2.1, h.2.2⟩, fun h => ⟨h.quiet, h.oneSided, h.fits⟩⟩

end Sums

section Amounts

variable {v : Decimal}

theorem scaled (c : ℤ) {e m : ℤ} (h : m ≤ e) : ((c * 10 ^ (e - m).toNat : ℤ) : ℚ) * 10 ^ m = c * 10 ^ e := by
  have hexp : ((e - m).toNat : ℤ) + m = e := by omega
  rw [Int.cast_mul, Int.cast_pow, Int.cast_ofNat, mul_assoc, ← zpow_natCast, ← zpow_add₀ (by norm_num), hexp]

theorem isSane_inRange (h : isSane v = true) : InRange v := by
  cases v with
  | finite c e =>
    obtain ⟨hlow, hhigh⟩ := by simpa only [isSane, Bool.and_eq_true, decide_eq_true_eq] using h
    have hle {a b : ℤ} {m : ℤ} (hab : a ≤ b) : (a : ℚ) * 10 ^ m ≤ b * 10 ^ m :=
      mul_le_mul_of_nonneg_right (Int.cast_le.mpr hab) (by positivity)
    refine ⟨c, e, rfl, ?_, ?_⟩
    · have := hle (m := min e 0) (not_lt.mp fun hlt => hlow (compare_lt_iff_lt.mpr hlt))
      rw [scaled _ (min_le_left e 0), scaled _ (min_le_right e 0)] at this
      simpa using this
    · have := hle (m := min e (-2)) (not_lt.mp fun hlt => hhigh (compare_gt_iff_gt.mpr hlt))
      rw [scaled _ (min_le_left e (-2)), scaled _ (min_le_right e (-2))] at this
      refine this.trans (le_of_eq ?_)
      norm_num
  | infinity => cases h
  | nan => cases h

end Amounts

theorem invoiceOf_sane {root : Element} {gross : Decimal} (h : isSane gross = true) (tax : Option Decimal) :
    (invoiceOf root gross tax).Sane where
  currency := rfl
  gross := isSane_inRange h
  net _ hv := isSane_inRange (Option.mem_filter_iff.mp hv).2
  tax _ hv := isSane_inRange (Option.mem_filter_iff.mp hv).2

theorem header_fails_cleanly_iff (upper : Text → Text) (root : Option Element) : FailsCleanly (parseCiiHeader upper root) ↔
    ∀ el gross, root = some el → currencyOf upper el = text "EUR" → grandTotal el = some gross → isSane gross = true →
      Addable (taxAmounts el) := by
  unfold parseCiiHeader
  split
  · exact iff_of_true trivial fun _ _ h => by cases h
  · next root =>
    split
    · next hcurrency => exact iff_of_true trivial fun el _ hel heur => absurd (Option.some.inj hel ▸ heur) hcurrency
    · next hcurrency =>
      split
      · next hgross =>
        refine iff_of_true trivial fun el _ hel _ hsome => ?_
        rw [← Option.some.inj hel, hgross] at hsome
        cases hsome
      · next gross hgross =>
        have hall : (∀ el gross, some root = some el → currencyOf upper el = text "EUR" → grandTotal el = some gross →
            isSane gross = true → Addable (taxAmounts el)) ↔ (isSane gross = true → Addable (taxAmounts root)) := by
          refine ⟨fun h => h root gross rfl (not_not.mp hcurrency) hgross, fun h el g hel _ hg hsane => ?_⟩
          obtain rfl := Option.some.inj hel
          rw [hgross, Option.some.injEq] at hg
          exact h (hg ▸ hsane)
        rw [hall]
        split
        · next hsane => exact iff_of_true trivial fun h => by simp [h] at hsane
        · next hsane =>
          have hsane : isSane gross = true := by simpa using hsane
          rw [forall_prop_of_true hsane]
          split
          · next htexts =>
            refine iff_of_true (invoiceOf_sane hsane none) ?_
            rw [taxAmounts, htexts]
            exact ⟨by simp, by simp [beforeNan], trivial⟩
          · rw [← sumDecimals_iff]
            cases hsum : sumDecimals (taxAmounts root) with
            | ok total => exact iff_of_true (invoiceOf_sane hsane (some total)) ⟨total, rfl⟩
            | error e => exact iff_of_false id fun ⟨_, h⟩ => by cases h

/-- A tax amount that is a signaling NaN. -/
def signaling : Element :=
  let amount (tag : String) (s : String) : Element := .node (ram tag) (some (text s)) []
  .node [] none [.node (rsm "SupplyChainTradeTransaction") none [.node (ram "ApplicableHeaderTradeSettlement") none
    [.node (ram "SpecifiedTradeSettlementHeaderMonetarySummation") none [amount "GrandTotalAmount" "119", amount "TaxTotalAmount" "sNaN"]]]]

theorem signaling_raises : ¬ FailsCleanly (parseCiiHeader id (some signaling)) := by
  have hraised : parseCiiHeader id (some signaling) = .error (.arithmetic .invalidOperation) := by decide +kernel
  rw [hraised]
  exact id

end InvoiceHeader
