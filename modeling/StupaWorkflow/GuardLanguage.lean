import StupaWorkflow.GuardModel
import StupaWorkflow.ShortCircuit

/-!
The language of the guards. A guard that is accepted denotes a formula over its leaves, and its
evaluation is the one of the formula.
-/
namespace Guards
open Py ShortCircuit

section Denotation

mutual

def formula : Json → Formula (Leaf × Json)
  | .obj [(op, value)] =>
    match Operator.ofKey op with
    | some .and =>
      match value with
      | .arr items => .all (formulas items)
      | child => formula child
    | some .or =>
      match value with
      | .arr items => .any (formulas items)
      | child => formula child
    | some .not =>
      match value with
      | .arr items => .not (.all (formulas items))
      | child => .not (formula child)
    | some (.leaf leaf) => .atom (leaf, value)
    | none => .all []
  | _ => .all []

def formulas : List Json → List (Formula (Leaf × Json))
  | [] => []
  | g :: gs => formula g :: formulas gs

end

variable {B : Builtins} {ctx : GuardContext} {allow : Bool} {op : Text} {value : Json}

def Valid (allow : Bool) (a : Leaf × Json) : Prop := validateLeaf allow a.1 a.2 = .ok ()

def evalAtom (B : Builtins) (ctx : GuardContext) (a : Leaf × Json) : Except Raised Bool := evalLeaf B ctx a.1 a.2

/-- The leaves of the formula are valid, and it is evaluated as the guard is. -/
structure Denotes (B : Builtins) (ctx : GuardContext) (allow : Bool) (g : Json) (f : Formula (Leaf × Json)) : Prop where
  valid : Forall (Valid allow) f
  same : evalGuard B ctx g = eval (evalAtom B ctx) f

structure DenoteAll (B : Builtins) (ctx : GuardContext) (allow : Bool) (gs : List Json)
    (fs : List (Formula (Leaf × Json))) : Prop where
  valid : ForallList (Valid allow) fs
  all : evalAll B ctx gs = ShortCircuit.evalAll (evalAtom B ctx) fs
  any : evalAny B ctx gs = ShortCircuit.evalAny (evalAtom B ctx) fs

attribute [local simp] formula evalGuard validateGuard

theorem evalAll_singleton (g : Json) : evalAll B ctx [g] = evalGuard B ctx g := by
  cases h : evalGuard B ctx g with
  | error e => simp [evalAll, h, bind, Except.bind]
  | ok b => cases b <;> simp [evalAll, h, bind, Except.bind]

theorem leaf_denotes {leaf : Leaf} (hop : Operator.ofKey op = some (.leaf leaf))
    (h : validateGuard allow (.obj [(op, value)]) = .ok ()) :
    Denotes B ctx allow (.obj [(op, value)]) (formula (.obj [(op, value)])) := by
  have hvalid : validateLeaf allow leaf value = .ok () := by
    cases value <;> simpa [validateGuard, hop] using h
  have hformula : formula (.obj [(op, value)]) = .atom (leaf, value) := by
    cases value <;> simp [formula, hop]
  have heval : evalGuard B ctx (.obj [(op, value)]) = evalLeaf B ctx leaf value := by
    cases value <;> simp [evalGuard, hop]
  rw [hformula]
  exact ⟨hvalid, heval⟩

theorem validate_combinator {operator : Operator} (hop : Operator.ofKey op = some operator)
    (hcomb : ∀ leaf, operator ≠ .leaf leaf) (h : validateGuard allow (.obj [(op, value)]) = .ok ()) :
    checkChildren op value = .ok () ∧ (operator = .not → (children value).length = 1) ∧
      (match value with
        | .arr items => validateAll allow items
        | child => validateGuard allow child) = .ok () := by
  have h' : (do
      checkChildren op value
      checkCount op operator value
      match value with
      | .arr items => validateAll allow items
      | child => validateGuard allow child) = .ok () := by
    cases operator with
    | leaf op => exact absurd rfl (hcomb op)
    | _ => cases value <;> simpa [validateGuard, hop] using h
  obtain ⟨_, hcheck, h'⟩ := bind_ok.mp h'
  obtain ⟨_, hcount, h'⟩ := bind_ok.mp h'
  obtain ⟨_, hone, _⟩ := bind_ok.mp hcount
  exact ⟨hcheck, fun hnot => by simpa [hnot] using hone, h'⟩

theorem list_denotes {operator : Operator} {items : List Json} (hop : Operator.ofKey op = some operator)
    (hcomb : ∀ leaf, operator ≠ .leaf leaf) (h : validateGuard allow (.obj [(op, .arr items)]) = .ok ())
    (ih : validateAll allow items = .ok () → DenoteAll B ctx allow items (formulas items)) :
    Denotes B ctx allow (.obj [(op, .arr items)]) (formula (.obj [(op, .arr items)])) := by
  obtain ⟨hcheck, hone, hitems⟩ := validate_combinator hop hcomb h
  obtain ⟨hvalid, hall, hany⟩ := ih hitems
  cases operator with
  | leaf op => exact absurd rfl (hcomb op)
  | and => exact ⟨by simpa [formula, hop, Forall] using hvalid, by simp [evalGuard, formula, eval, hop, hcheck, hall, bind, Except.bind]⟩
  | or => exact ⟨by simpa [formula, hop, Forall] using hvalid, by simp [evalGuard, formula, eval, hop, hcheck, hany, bind, Except.bind]⟩
  | not =>
    obtain ⟨child, rfl⟩ := List.length_eq_one_iff.mp (hone rfl)
    rw [evalAll_singleton] at hall
    exact ⟨by simpa [formula, hop, Forall] using hvalid, by simp [evalGuard, formula, eval, hop, hcheck, hall, bind, Except.bind]⟩

theorem object_denotes {operator : Operator} {members : Members} (hop : Operator.ofKey op = some operator)
    (hcomb : ∀ leaf, operator ≠ .leaf leaf) (h : validateGuard allow (.obj [(op, .obj members)]) = .ok ())
    (ih : validateGuard allow (.obj members) = .ok () → Denotes B ctx allow (.obj members) (formula (.obj members))) :
    Denotes B ctx allow (.obj [(op, .obj members)]) (formula (.obj [(op, .obj members)])) := by
  obtain ⟨hcheck, _, hchild⟩ := validate_combinator hop hcomb h
  obtain ⟨hvalid, hsame⟩ := ih hchild
  cases operator with
  | leaf op => exact absurd rfl (hcomb op)
  | and =>
    have hformula : formula (.obj [(op, .obj members)]) = formula (.obj members) := by simp [formula, hop]
    rw [hformula]
    refine ⟨hvalid, ?_⟩
    rw [← hsame]
    simp [evalGuard, hop, hcheck, bind, Except.bind]
  | or =>
    have hformula : formula (.obj [(op, .obj members)]) = formula (.obj members) := by simp [formula, hop]
    rw [hformula]
    refine ⟨hvalid, ?_⟩
    rw [← hsame]
    simp [evalGuard, hop, hcheck, bind, Except.bind]
  | not =>
    have hformula : formula (.obj [(op, .obj members)]) = .not (formula (.obj members)) := by
      simp [formula, hop]
    rw [hformula]
    refine ⟨hvalid, ?_⟩
    rw [eval, ← hsame]
    simp [evalGuard, hop, hcheck, bind, Except.bind]

theorem checkChildren_scalar (hlist : isList value = false) (hobject : isObject value = false) :
    checkChildren op value ≠ .ok () := by
  cases value with
  | arr items => cases hlist
  | obj members => cases hobject
  | _ => simp [checkChildren, children, isObject]

/-- A leaf is an atom; the other operators are read with the guards inside. -/
theorem operator_denotes {B : Builtins} {ctx : GuardContext} (h : validateGuard allow (.obj [(op, value)]) = .ok ())
    (hinner : ∀ operator, Operator.ofKey op = some operator → (∀ leaf, operator ≠ .leaf leaf) →
      Denotes B ctx allow (.obj [(op, value)]) (formula (.obj [(op, value)]))) :
    Denotes B ctx allow (.obj [(op, value)]) (formula (.obj [(op, value)])) := by
  cases hop : Operator.ofKey op with
  | none => cases value <;> simp [validateGuard, hop] at h
  | some operator =>
    by_cases hleaf : ∃ leaf, operator = .leaf leaf
    · obtain ⟨leaf, rfl⟩ := hleaf
      exact leaf_denotes hop h
    · exact hinner operator hop (not_exists.mp hleaf)

theorem scalar_denotes (B : Builtins) (ctx : GuardContext) (hlist : isList value = false) (hobject : isObject value = false)
    (h : validateGuard allow (.obj [(op, value)]) = .ok ()) :
    Denotes B ctx allow (.obj [(op, value)]) (formula (.obj [(op, value)])) := by
  refine operator_denotes h fun operator hop hcomb => ?_
  exact absurd (validate_combinator hop hcomb h).1 (checkChildren_scalar hlist hobject)

theorem empty_denotes {g : Json} (heval : evalGuard B ctx g = .ok true) (hformula : formula g = .all []) :
    Denotes B ctx allow g (formula g) := by
  rw [hformula]
  exact ⟨trivial, heval⟩

mutual

theorem denotes (B : Builtins) (ctx : GuardContext) {allow : Bool} : (g : Json) → validateGuard allow g = .ok () →
    Denotes B ctx allow g (formula g)
  | .obj [(op, .arr items)], h => by
    refine operator_denotes h fun operator hop hcomb => ?_
    exact list_denotes hop hcomb h (denoteAll B ctx items)
  | .obj [(op, .obj members)], h => by
    refine operator_denotes h fun operator hop hcomb => ?_
    exact object_denotes hop hcomb h (denotes B ctx (.obj members))
  | .obj [(op, .null)], h => scalar_denotes B ctx rfl rfl h
  | .obj [(op, .bool _)], h => scalar_denotes B ctx rfl rfl h
  | .obj [(op, .int _)], h => scalar_denotes B ctx rfl rfl h
  | .obj [(op, .float _)], h => scalar_denotes B ctx rfl rfl h
  | .obj [(op, .str _)], h => scalar_denotes B ctx rfl rfl h
  | .obj (_ :: _ :: _), h => by simp [validateGuard] at h
  | .obj [], _ => empty_denotes rfl rfl
  | .null, _ => empty_denotes rfl rfl
  | .bool _, _ => empty_denotes rfl rfl
  | .int _, _ => empty_denotes rfl rfl
  | .float _, _ => empty_denotes rfl rfl
  | .str _, _ => empty_denotes rfl rfl
  | .arr _, _ => empty_denotes rfl rfl

theorem denoteAll (B : Builtins) (ctx : GuardContext) {allow : Bool} : (gs : List Json) → validateAll allow gs = .ok () →
    DenoteAll B ctx allow gs (formulas gs)
  | [], _ => ⟨trivial, rfl, rfl⟩
  | g :: gs, h => by
    rw [validateAll] at h
    obtain ⟨_, hg, hgs⟩ := bind_ok.mp h
    obtain ⟨hvalid, hsame⟩ := denotes B ctx g hg
    obtain ⟨hvalids, hall, hany⟩ := denoteAll B ctx gs hgs
    refine ⟨⟨hvalid, hvalids⟩, ?_, ?_⟩
    · rw [evalAll, formulas, ShortCircuit.evalAll, hsame, hall]
    · rw [evalAny, formulas, ShortCircuit.evalAny, hsame, hany]

end

end Denotation

section Leaves

variable {B : Builtins} {ctx : GuardContext} {allow : Bool} {value : Json}
variable {op : CompareOp}

theorem isFilledString_iff : isFilledString value = true ↔ ∃ s, value = .str s ∧ s ≠ [] := by
  cases value <;> simp [isFilledString]

theorem evalLeaf_ok {leaf : Leaf} (hleaf : leaf ≠ .compare) (h : validateLeaf allow leaf value = .ok ()) :
    ∃ b, evalLeaf B ctx leaf value = .ok b := by
  obtain ⟨_, _, h⟩ := bind_ok.mp h
  obtain ⟨_, hstring, _⟩ := bind_ok.mp h
  have htext : leaf.takesString = true → ∃ s, value = .str s := by
    intro htakes
    obtain ⟨s, hs, _⟩ := isFilledString_iff.mp (by simpa [htakes] using hstring)
    exact ⟨s, hs⟩
  cases leaf with
  | compare => exact absurd rfl hleaf
  | attachmentPresent => exact ⟨_, rfl⟩
  | budgetFitsApplication => exact ⟨_, rfl⟩
  | budgetHasDecisionGremium => exact ⟨_, rfl⟩
  | actorIsApplicant => exact ⟨_, rfl⟩
  | isInVoteGremium => exact ⟨_, rfl⟩
  | applicationTypeIs =>
    obtain ⟨s, rfl⟩ := htext rfl
    cases hkey : ctx.applicationTypeKey <;> exact ⟨_, by rw [evalLeaf, hkey]; rfl⟩
  | budgetIs =>
    obtain ⟨s, rfl⟩ := htext rfl
    cases hkey : ctx.budgetId <;> exact ⟨_, by rw [evalLeaf, hkey]; rfl⟩
  | _ =>
    obtain ⟨s, rfl⟩ := htext rfl
    exact ⟨_, rfl⟩

/-- `str` does not refuse the value. -/
def isShown (B : Builtins) (value : Json) : Bool := (strOf B value).isSome

/-- No signaling NaN is compared, and no NaN is asked for an order. -/
def decimalsComparable (op : CompareOp) (left right : Decimal) : Bool :=
  !(left.isSnan || right.isSnan) && !(op.isOrdering && (left.isNan || right.isNan))

/-- `str` does not refuse what the operator reads of the operand. -/
def operandShown (B : Builtins) (op : CompareOp) (operand : Json) : Bool :=
  match op with
  | .isIn =>
    match operand with
    | .arr items => items.all (isShown B)
    | _ => true
  | _ => isShown B operand

def sidesComparable (B : Builtins) (type : ValueType) (op : CompareOp) (left operand : Json) : Bool :=
  match type with
  | .number =>
    match toDecimal B left, toDecimal B operand with
    | some a, some b => decimalsComparable op a b
    | _, _ => true
  | .text => isShown B left && operandShown B op operand
  | _ => true

def comparable (B : Builtins) (ctx : GuardContext) (members : Members) : Bool :=
  match member members "field", member members "op" with
  | .str fld, .str op => (sides ctx fld op).all fun s => sidesComparable B s.1 s.2.1 s.2.2 (member members "value")
  | _, _ => true

theorem strOrRaise_iff : (∃ s, strOrRaise B value = .ok s) ↔ isShown B value = true := by
  rw [strOrRaise, isShown]
  cases strOf B value <;> simp

theorem mapM_strOrRaise_iff (items : List Json) :
    (∃ texts, items.mapM (strOrRaise B) = .ok texts) ↔ items.all (isShown B) = true := by
  induction items with
  | nil => simp [pure, Except.pure]
  | cons v vs ih =>
    rw [List.mapM_cons, List.all_cons, Bool.and_eq_true, ← strOrRaise_iff, ← ih]
    constructor
    · rintro ⟨texts, h⟩
      obtain ⟨s, hs, h⟩ := bind_ok.mp h
      obtain ⟨rest, hrest, _⟩ := bind_ok.mp h
      exact ⟨⟨s, hs⟩, ⟨rest, hrest⟩⟩
    · rintro ⟨⟨s, hs⟩, ⟨rest, hrest⟩⟩
      exact ⟨s :: rest, bind_ok.mpr ⟨s, hs, bind_ok.mpr ⟨rest, hrest, rfl⟩⟩⟩

theorem map_ok_iff {α β : Type} {x : Except Raised α} {f : α → β} : (∃ b, x.map f = .ok b) ↔ ∃ a, x = .ok a := by
  cases x <;> simp [Except.map]

theorem applyDecimal_iff (hop : op ≠ .isIn) (left right : Decimal) :
    (∃ b, applyDecimal op left right = .ok b) ↔ decimalsComparable op left right = true := by
  rw [applyDecimal, decimalsComparable]
  cases horder : left.order right with
  | some o =>
    have hnan : (left.isNan || right.isNan) = false :=
      Bool.eq_false_iff.mpr fun hnan => by simp [Decimal.order_none.mpr hnan] at horder
    have hsnan : (left.isSnan || right.isSnan) = false := by
      refine Bool.eq_false_iff.mpr fun hsnan => Bool.eq_false_iff.mp hnan ?_
      rcases Bool.or_eq_true_iff.mp hsnan with h | h
      · rw [Decimal.isNan_of_isSnan h, Bool.true_or]
      · rw [Decimal.isNan_of_isSnan h, Bool.or_true]
    exact iff_of_true ⟨_, rfl⟩ (by rw [hnan, hsnan, Bool.and_false]; rfl)
  | none =>
    rw [Decimal.order_none.mp horder, Bool.and_true]
    cases hraise : op.isOrdering || left.isSnan || right.isSnan with
    | true =>
      refine iff_of_false ?_ ?_
      · rintro ⟨b, hb⟩
        simp [hop] at hb
      · rw [Bool.or_assoc, Bool.or_eq_true] at hraise
        rcases hraise with h | h <;> simp [h]
    | false =>
      rw [Bool.or_assoc, Bool.or_eq_false_iff] at hraise
      exact iff_of_true ⟨op = .ne, by simp⟩ (by rw [hraise.1, hraise.2]; rfl)

theorem compareDecimals_iff (hop : op ≠ .isIn) (left right : Option Decimal) : (∃ b, compareDecimals op left right = .ok b) ↔
      (match left, right with
        | some a, some b => decimalsComparable op a b
        | _, _ => true) = true := by
  cases left with
  | none => exact iff_of_true ⟨false, rfl⟩ rfl
  | some a =>
    cases right with
    | none => exact iff_of_true ⟨false, rfl⟩ rfl
    | some b => exact applyDecimal_iff hop a b

theorem compareText_iff (hop : (opsForType .text).contains op = true) {left : Text} {operand : Json} :
    (∃ b, compareText B op left operand = .ok b) ↔ operandShown B op operand = true := by
  cases op with
  | eq =>
    rw [compareText, map_ok_iff, strOrRaise_iff]
    rfl
  | ne =>
    rw [compareText, map_ok_iff, strOrRaise_iff]
    rfl
  | isIn =>
    cases operand with
    | arr items =>
      rw [compareText, map_ok_iff]
      exact mapM_strOrRaise_iff items
    | _ => exact iff_of_true ⟨false, rfl⟩ rfl
  | _ => exact absurd hop (by decide)

theorem compareAs_iff {type : ValueType} (hop : (opsForType type).contains op = true) {left operand : Json} :
    (∃ b, compareAs B type op left operand = .ok b) ↔ sidesComparable B type op left operand = true := by
  cases type with
  | number =>
    have hin : op ≠ .isIn := by
      rintro rfl
      exact absurd hop (by decide)
    exact compareDecimals_iff hin _ _
  | date => exact iff_of_true ⟨_, rfl⟩ rfl
  | bool => exact iff_of_true ⟨_, rfl⟩ rfl
  | text =>
    rw [sidesComparable, Bool.and_eq_true, ← strOrRaise_iff]
    constructor
    · rintro ⟨b, h⟩
      obtain ⟨shown, hshown, h⟩ := bind_ok.mp h
      exact ⟨⟨shown, hshown⟩, (compareText_iff hop).mp ⟨b, h⟩⟩
    · rintro ⟨⟨shown, hshown⟩, h⟩
      have hcompared : ∃ b, compareText B op shown operand = .ok b := (compareText_iff hop).mpr h
      obtain ⟨b, hb⟩ := hcompared
      exact ⟨b, bind_ok.mpr ⟨shown, hshown, hb⟩⟩

theorem valid_compare (h : validateLeaf allow .compare value = .ok ()) : validateCompare value = .ok () := by
  obtain ⟨_, _, h⟩ := bind_ok.mp h
  obtain ⟨_, _, h⟩ := bind_ok.mp h
  obtain ⟨_, _, h⟩ := bind_ok.mp h
  exact h

/-- A valid comparison returns exactly where it compares what can be compared. -/
theorem evalCompare_iff {members : Members} (h : validateCompare (.obj members) = .ok ()) :
    (∃ b, evalCompare B ctx (.obj members) = .ok b) ↔ comparable B ctx members = true := by
  obtain ⟨fld, hfld, h⟩ := bind_ok.mp h
  obtain ⟨op, hop, _⟩ := bind_ok.mp h
  have hfield : member members "field" = .str fld := by
    unfold compareField at hfld
    split at hfld
    next fld' hmember =>
      split at hfld
      · cases hfld
      · rw [hmember, Except.ok.inj hfld]
    next => cases hfld
  obtain ⟨name, hname⟩ : ∃ name, member members "op" = .str name := by
    unfold validateCompareOp at hop
    split at hop
    next name hmember => exact ⟨name, hmember⟩
    next => cases hop
    next => cases hop
    next => cases hop
  have hraw : compareOp members = .ok name := by rw [compareOp, hname]
  have hnone : sides ctx fld name = none → evalCompare B ctx (.obj members) = .ok false := by
    intro hsides
    simp only [evalCompare, hfld, hraw, bind, Except.bind, hsides]
    rfl
  have hsome : ∀ {s}, sides ctx fld name = some s →
      evalCompare B ctx (.obj members) = compareAs B s.1 s.2.1 s.2.2 (member members "value") := by
    intro s hsides
    simp only [evalCompare, hfld, hraw, bind, Except.bind, hsides]
  have hcomp : comparable B ctx members =
      (sides ctx fld name).all fun s => sidesComparable B s.1 s.2.1 s.2.2 (member members "value") := by
    rw [comparable, hfield, hname]
  rw [hcomp]
  cases hsides : sides ctx fld name with
  | none => exact iff_of_true ⟨false, hnone hsides⟩ rfl
  | some s =>
    obtain ⟨type, op', left⟩ := s
    rw [hsome hsides]
    refine compareAs_iff ?_
    obtain ⟨op'', hfilter, hmap⟩ := Option.bind_eq_some_iff.mp hsides
    obtain ⟨_, _, heq⟩ := Option.map_eq_some_iff.mp hmap
    cases heq
    exact (Option.filter_eq_some_iff.mp hfilter).2

end Leaves

/-- A guard that is accepted returns a boolean exactly where no comparison that its
evaluation reaches meets values that cannot be compared. -/
theorem evalGuard_returns_iff (B : Builtins) (ctx : GuardContext) {allow : Bool} {g : Json}
    (h : validateGuard allow g = .ok ()) :
    (∃ b, evalGuard B ctx g = .ok b) ↔ ∀ members, Reaches (truth (evalAtom B ctx)) (formula g) (.compare, .obj members) →
      comparable B ctx members = true := by
  obtain ⟨hvalid, hsame⟩ := denotes B ctx g h
  rw [hsame, eval_returns_iff]
  constructor
  · intro hdet members hreach
    exact (evalCompare_iff (valid_compare (hreach.of_forall hvalid))).mp (hdet _ hreach)
  · rintro hcomp ⟨leaf, value⟩ hreach
    have hleaf := hreach.of_forall hvalid
    by_cases hop : leaf = .compare
    · subst hop
      have hspec := valid_compare hleaf
      cases value with
      | obj members => exact (evalCompare_iff hspec).mpr (hcomp members hreach)
      | _ => cases hspec
    · exact evalLeaf_ok hop hleaf

/-- The built-ins where no float and no container is shown. -/
def plain : Builtins := ⟨id, fun literal => literal = text "0.0", fun _ => none⟩

def atMost (limit : Json) : Json :=
  .obj [(text "compare", .obj [(text "field", .str (text "amount")), (text "op", .str (text "<=")), (text "value", limit)])]

def hundred : GuardContext := { fieldValues := [(text "amount", .int 100)], fieldTypes := [(text "amount", text "currency")] }

def limited : Json := .obj [(text "and", .arr [.obj [(text "roleIs", .str (text "chair"))], atMost (.str (text "150.50"))])]

theorem limited_returns : ∃ b, evalGuard plain { hundred with roles := [text "chair"] } limited = .ok b := by
  have haccepted : validateGuard true limited = .ok () := by decide +kernel
  refine (evalGuard_returns_iff plain _ haccepted).mpr fun members hreach => ?_
  have hall : Forall (fun a => ∀ m, a = (.compare, .obj m) → comparable plain { hundred with roles := [text "chair"] } m = true)
      (formula limited) := by
    refine ⟨fun m hm => ?_, fun m hm => ?_, trivial⟩
    · cases hm
    · cases hm
      decide +kernel
  exact hreach.of_forall hall members rfl

/-- The limit NaN is accepted, and the comparison raises. -/
theorem nanLimit_raises : ∃ g B ctx, validateGuard true g = .ok () ∧ ¬ ∃ b, evalGuard B ctx g = .ok b := by
  refine ⟨atMost (.str (text "NaN")), plain, hundred, by decide +kernel, ?_⟩
  have hraise : evalGuard plain hundred (atMost (.str (text "NaN"))) = .error .invalidOperation := by decide +kernel
  rintro ⟨b, hb⟩
  rw [hraise] at hb
  cases hb

end Guards
