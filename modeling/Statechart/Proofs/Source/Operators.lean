import Mathlib.Algebra.Group.Int.Defs
import Statechart.Proofs.Number.Literal
import Statechart.Source.Expression

/-!
# Operators on literals

What an expression of literals, parentheses and operators of one place evaluates to, beside the
truth value that is read for it. Main statement: the truth value that is read is the right one
unless a negated literal is misjudged: a zero that is no plain decimal numeral or has several minus
signs before it, or an integer of any size with a plus before it, which is an error.
-/

namespace Statechart.Source

/-! ## 1. Evaluation -/

/-- A value of an expression. -/
inductive Primitive
  | number (x : Binary64)
  | bigint (n : Int)
  | bool (b : Bool)
deriving DecidableEq

namespace Primitive

/-- A truth value as a number. -/
def ofBool (b : Bool) : Binary64 := ⟨false, Binary64.ofRatio (.ofNat b.toNat)⟩

/-- The value passes for true: it is no zero, and it is a number. -/
def isTrue : Primitive → Bool
  | number x => x.magnitude ≠ 0 && x.magnitude ≤ Binary64.infinity
  | bigint n => n ≠ 0
  | bool b => b

end Primitive

/-- An operator of one place. -/
inductive Operation
  | not
  | plus
  | minus

namespace Operation

/-- The text of an operator. -/
def text : Operation → String
  | not => "!"
  | plus => "+"
  | minus => "-"

/-- What an operator makes of a value; a plus before an integer of any size is an error. -/
def result? : Operation → Primitive → Option Primitive
  | not, v => some (.bool !v.isTrue)
  | plus, .number x => some (.number x)
  | plus, .bigint _ => none
  | plus, .bool b => some (.number (Primitive.ofBool b))
  | minus, .number x => some (.number x.neg)
  | minus, .bigint n => some (.bigint (-n))
  | minus, .bool b => some (.number (Primitive.ofBool b).neg)

end Operation

/-- A numeric literal. -/
structure Literal where
  text : List Char
  value : NumericValue
  spelled : Numeral.LiteralText value text

namespace Literal

/-- The value of a literal, rounded if it is a number. -/
def primitive (l : Literal) : Primitive :=
  match l.value with
  | .number r => .number ⟨false, Binary64.ofRatio r⟩
  | .bigint n => .bigint n

end Literal

/-- An expression of literals, parentheses and operators, with the lines of its words. -/
inductive Formula
  | number (l : Literal) (line : Nat)
  | bool (b : Bool) (line : Nat)
  | parenthesized (e : Formula)
  | unary (o : Operation) (line : Nat) (e : Formula)

namespace Formula

/-- The syntax tree of an expression. -/
def tree : Formula → Tree
  | number l line => .leaf .number (String.ofList l.text) line
  | bool true line => .leaf .trueLiteral "true" line
  | bool false line => .leaf .falseLiteral "false" line
  | parenthesized e => .node .parenthesized [e.tree]
  | unary o line e => .node .unary [.leaf .operator o.text line, e.tree]

/-- What an expression evaluates to, if that is no error. -/
def value? : Formula → Option Primitive
  | number l _ => some l.primitive
  | bool b _ => some (.bool b)
  | parenthesized e => e.value?
  | unary o _ e => e.value?.bind o.result?

end Formula

/-! ## 2. Literals with signs -/

/-- A literal with signs before it, their order left out. -/
structure Signed where
  literal : Literal
  minuses : Nat
  /-- There is a plus among the signs. -/
  plus : Bool

namespace Signed

/-- The text that is kept of a literal with signs. -/
def text (s : Signed) : String :=
  String.ofList (List.replicate s.minuses '-' ++ s.literal.text)

theorem text_succ (s : Signed) :
    ({ s with minuses := s.minuses + 1 } : Signed).text = "-" ++ s.text := by
  rw [text, text, ← String.toList_inj, String.toList_append, String.toList_ofList,
    String.toList_ofList, String.toList_ofList, List.replicate_succ, List.cons_append]
  rfl

/-- The literal is misjudged when it is negated. -/
def Misjudged (s : Signed) : Prop :=
  match s.literal.value with
  | .number _ => s.literal.value.IsZero ∧ (2 ≤ s.minuses ∨ ¬ Numeral.Plain s.literal.text)
  | .bigint _ => s.literal.value.IsZero ∨ s.plus = true

/-- What the literal evaluates to with its signs, if that is no error. -/
def value? (s : Signed) : Option Primitive :=
  match s.literal.value with
  | .number r => some (.number ⟨s.minuses % 2 == 1, Binary64.ofRatio r⟩)
  | .bigint n => if s.plus then none else some (.bigint ((-1) ^ s.minuses * n))

end Signed

namespace Formula

/-- The literal with its signs that an expression is, parentheses apart. -/
def signed? : Formula → Option Signed
  | number l _ => some ⟨l, 0, false⟩
  | bool _ _ => none
  | parenthesized e => e.signed?
  | unary .not _ _ => none
  | unary .plus _ e => e.signed?.map fun s => { s with plus := true }
  | unary .minus _ e => e.signed?.map fun s => { s with minuses := s.minuses + 1 }

/-- A literal is misjudged where it is negated in the expression. -/
def Misjudged : Formula → Prop
  | unary .not _ e =>
    match e.signed? with
    | some s => s.Misjudged
    | none => e.Misjudged
  | parenthesized e => e.Misjudged
  | _ => False

/-! ## 3. What is read -/

theorem expression_unary (o : Operation) (line : Nat) (e : Formula) :
    (unary o line e).tree.expression = Tree.applyUnary o.text e.tree.expression := by
  rw [tree, Tree.expression]
  rfl

theorem expression_parenthesized (e : Formula) :
    (parenthesized e).tree.expression = e.tree.expression := by
  rw [tree, Tree.expression]

theorem expression_of_signed? {e : Formula} {s : Signed} (h : e.signed? = some s) :
    e.tree.expression = .number s.text := by
  induction e generalizing s with
  | number l line =>
    obtain rfl := Option.some.inj h
    rw [tree, Tree.expression]
    rfl
  | bool b line => cases h
  | parenthesized e ih =>
    rw [expression_parenthesized]
    exact ih h
  | unary o line e ih =>
    rw [expression_unary]
    cases o with
    | not => cases h
    | plus =>
      obtain ⟨s', hs', rfl⟩ := Option.map_eq_some_iff.1 h
      rw [ih hs']
      rfl
    | minus =>
      obtain ⟨s', hs', rfl⟩ := Option.map_eq_some_iff.1 h
      rw [ih hs', Signed.text_succ]
      rfl

theorem expression_ne_number {e : Formula} (h : e.signed? = none) (text : String) :
    e.tree.expression ≠ .number text := by
  induction e generalizing text with
  | number l line => cases h
  | bool b line => cases b <;> (rw [tree, Tree.expression]; exact nofun)
  | parenthesized e ih =>
    rw [expression_parenthesized]
    exact ih h text
  | unary o line e ih =>
    rw [expression_unary]
    cases o with
    | not => cases e.tree.expression <;> exact nofun
    | plus =>
      have hnone := ih (Option.map_eq_none_iff.1 h)
      cases he : e.tree.expression with
      | number text' => exact absurd he (hnone text')
      | _ => exact nofun
    | minus =>
      have hnone := ih (Option.map_eq_none_iff.1 h)
      cases he : e.tree.expression with
      | number text' => exact absurd he (hnone text')
      | _ => exact nofun

/-! ## 4. What is right -/

theorem value?_of_signed? {e : Formula} {s : Signed} (h : e.signed? = some s) :
    e.value? = s.value? := by
  induction e generalizing s with
  | number l line =>
    obtain rfl := Option.some.inj h
    rw [value?, Signed.value?, Literal.primitive]
    cases hv : l.value with
    | number r => rfl
    | bigint n => simp
  | bool b line => cases h
  | parenthesized e ih => exact ih h
  | unary o line e ih =>
    cases o with
    | not => cases h
    | plus =>
      obtain ⟨s', hs', rfl⟩ := Option.map_eq_some_iff.1 h
      rw [value?, ih hs', Signed.value?, Signed.value?]
      cases hv : s'.literal.value with
      | number r => rfl
      | bigint n => cases s'.plus <;> rfl
    | minus =>
      obtain ⟨s', hs', rfl⟩ := Option.map_eq_some_iff.1 h
      rw [value?, ih hs', Signed.value?, Signed.value?]
      cases hv : s'.literal.value with
      | number r =>
        have hodd : (!(s'.minuses % 2 == 1)) = ((s'.minuses + 1) % 2 == 1) := by
          rcases Nat.mod_two_eq_zero_or_one s'.minuses with hm | hm <;> simp [hm, Nat.add_mod]
        simp [Operation.result?, Binary64.neg, hodd]
      | bigint n =>
        have hsign : (-1 : Int) ^ (s'.minuses + 1) * n = -((-1) ^ s'.minuses * n) := by
          rw [Int.pow_succ, Int.mul_neg, Int.mul_one, Int.neg_mul]
        cases s'.plus <;> simp [Operation.result?, hsign]

end Formula

theorem isTrue_number {r : Ratio} (negative : Bool) :
    (Primitive.number ⟨negative, Binary64.ofRatio r⟩).isTrue = false ↔
      (NumericValue.number r).IsZero := by
  have hle : decide (Binary64.ofRatio r ≤ Binary64.infinity) = true :=
    decide_eq_true (Binary64.ofRatio_le_infinity r)
  rw [Primitive.isTrue, hle, Bool.and_true, decide_eq_false_iff_not, not_not]
  rfl

/-- **A negated literal is read as the right truth value unless it is misjudged.** -/
theorem Signed.negated_iff (s : Signed) :
    s.value?.bind Operation.not.result? = some (.bool (Numeral.isZero s.text)) ↔
      ¬ s.Misjudged := by
  have hzero : Numeral.isZero s.text = true ↔
      s.literal.value.IsZero ∧ s.minuses ≤ 1 ∧ Numeral.Plain s.literal.text :=
    Numeral.isZero_literal s.literal.spelled s.minuses
  have hspelled := s.literal.spelled
  rw [Signed.value?, Signed.Misjudged]
  cases hv : s.literal.value with
  | number r =>
    rw [hv] at hzero
    have hsmall : s.minuses ≤ 1 ↔ ¬ 2 ≤ s.minuses := by omega
    rw [hsmall] at hzero
    simp only [Option.bind_some, Operation.result?, Option.some.injEq, Primitive.bool.injEq]
    rw [Bool.eq_iff_iff, Bool.not_eq_true', isTrue_number, hzero]
    by_cases hread : (NumericValue.number r).IsZero
    · simp only [hread, true_and, true_iff, not_or, not_not]
    · simp only [hread, false_and, not_false_eq_true]
  | bigint n =>
    rw [hv] at hspelled
    have hread : Numeral.isZero s.text = false := by
      rw [← Bool.not_eq_true, hzero]
      exact fun h => hspelled.not_plain h.2.2
    cases s.plus with
    | true => simp
    | false =>
      have hone : (-1 : Int) ^ s.minuses ≠ 0 := Int.pow_ne_zero (by decide)
      simp [hread, Operation.result?, Primitive.isTrue, NumericValue.IsZero, hone]

/-- What is read as a truth value evaluates to one, or to nothing. -/
theorem Formula.exists_bool_of_expression {e : Formula} {b : Bool}
    (h : e.tree.expression = .bool b) {v : Primitive} (hv : e.value? = some v) :
    ∃ b', v = .bool b' := by
  induction e generalizing b v with
  | number l line =>
    rw [tree, Tree.expression] at h
    cases h
  | bool b' line =>
    obtain rfl := Option.some.inj hv
    exact ⟨b', rfl⟩
  | parenthesized e ih =>
    rw [expression_parenthesized] at h
    exact ih h hv
  | unary o line e ih =>
    rw [expression_unary] at h
    cases o with
    | not =>
      obtain ⟨w, -, hw⟩ := Option.bind_eq_some_iff.1 hv
      obtain rfl := Option.some.inj hw
      exact ⟨!w.isTrue, rfl⟩
    | plus => cases he : e.tree.expression <;> (rw [he] at h; cases h)
    | minus => cases he : e.tree.expression <;> (rw [he] at h; cases h)

/-- **A truth value that is read is the right one unless a literal is misjudged.** -/
theorem Formula.value?_of_expression {e : Formula} {b : Bool}
    (h : e.tree.expression = .bool b) : e.value? = some (.bool b) ↔ ¬ e.Misjudged := by
  induction e generalizing b with
  | number l line =>
    rw [tree, Tree.expression] at h
    cases h
  | bool b' line =>
    cases b' <;> (rw [tree, Tree.expression] at h; cases h; exact iff_of_true rfl id)
  | parenthesized e ih =>
    rw [expression_parenthesized] at h
    exact ih h
  | unary o line e ih =>
    rw [expression_unary] at h
    cases o with
    | not =>
      rw [value?, Misjudged]
      cases hs : e.signed? with
      | some s =>
        rw [expression_of_signed? hs] at h
        cases h
        rw [value?_of_signed? hs]
        exact s.negated_iff
      | none =>
        have hnumber := expression_ne_number hs
        cases he : e.tree.expression with
        | bool b' =>
          rw [he] at h
          cases h
          rw [← ih he]
          cases hv : e.value? with
          | none => simp
          | some v =>
            obtain ⟨b, rfl⟩ := exists_bool_of_expression he hv
            simp [Operation.result?, Primitive.isTrue]
        | number text => exact absurd he (hnumber text)
        | _ =>
          rw [he] at h
          cases h
    | plus => cases he : e.tree.expression <;> (rw [he] at h; cases h)
    | minus => cases he : e.tree.expression <;> (rw [he] at h; cases h)

/-- A zero in base sixteen. -/
def hexZero : Literal where
  text := ['0', 'x', '0']
  value := .number (.ofNat 0)
  spelled :=
    Numeral.LiteralText.marked List.mem_cons_self (Numeral.DigitsText.last (c := '0') (d := 0) rfl)

/-- Its negation is read as false, which is not its value. -/
theorem value?_of_expression_hexZero :
    (Formula.unary .not 1 (.number hexZero 1)).tree.expression = .bool false ∧
      (Formula.unary .not 1 (.number hexZero 1)).value? ≠ some (.bool false) := by
  have hread : (Formula.unary .not 1 (.number hexZero 1)).tree.expression = .bool false := by
    rw [Formula.expression_unary, Formula.expression_of_signed? rfl]
    rfl
  have hplain : ¬ Numeral.Plain ['0', 'x', '0'] := fun h =>
    @Numeral.Plain.not_mem_of_mark _ h 'x' 16 List.mem_cons_self (by decide)
  refine ⟨hread, fun hvalue => (Formula.value?_of_expression hread).1 hvalue ?_⟩
  show (NumericValue.number (.ofNat 0)).IsZero ∧ _
  exact ⟨if_pos rfl, .inr hplain⟩

end Statechart.Source
