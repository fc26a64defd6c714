import Mathlib.Tactic.Common
import Statechart.Proofs.Number.Digits
import Statechart.Proofs.Number.Zero

/-!
# Numeric literals

How a number may be written in a source: as a decimal numeral, in another base after a mark, and as
an integer of any size with a mark behind it; everywhere with separators between digits. Main
statement: a literal with minus signs before it passes for a zero exactly if it denotes a zero, has
one sign at most, and is a decimal numeral without separators.
-/

namespace Statechart

/-! ## 1. Texts and values -/

/-- What a literal denotes, before it is rounded to a number. -/
inductive NumericValue
  | number (r : Ratio)
  /-- An integer that is not rounded. -/
  | bigint (n : Nat)

namespace NumericValue

/-- The value is a zero, or so small that it is rounded to zero. -/
def IsZero : NumericValue → Prop
  | number r => Binary64.ofRatio r = 0
  | bigint n => n = 0

end NumericValue

namespace Numeral

/-- Digits of a base, one after the other or with a separator between two of them. -/
inductive DigitsText (base : Nat) : List Nat → List Char → Prop
  | last {c : Char} {d : Nat} (h : digit? base c = some d) : DigitsText base [d] [c]
  | more {c : Char} {d : Nat} {ds : List Nat} {cs : List Char} (h : digit? base c = some d)
      (rest : DigitsText base ds cs) : DigitsText base (d :: ds) (c :: cs)
  | separated {c : Char} {d : Nat} {ds : List Nat} {cs : List Char} (h : digit? base c = some d)
      (rest : DigitsText base ds cs) : DigitsText base (d :: ds) (c :: '_' :: cs)

/-- The whole part of a decimal numeral; it starts with no zero unless it is one. -/
inductive WholeText : List Nat → List Char → Prop
  | zero : WholeText [0] ['0']
  | digits {ds : List Nat} {cs : List Char} (h : DigitsText 10 ds cs)
      (hzero : cs.head? ≠ some '0') : WholeText ds cs

/-- The fraction, which may be missing and may be a point alone. -/
inductive FractionText : List Nat → List Char → Prop
  | missing : FractionText [] []
  | point : FractionText [] ['.']
  | digits {ds : List Nat} {cs : List Char} (h : DigitsText 10 ds cs) : FractionText ds ('.' :: cs)

/-- The exponent, which may be missing. -/
inductive ExponentText : Int → List Char → Prop
  | missing : ExponentText 0 []
  | positive {mark : Char} {plus cs : List Char} {ds : List Nat} (hmark : mark ∈ ['e', 'E'])
      (hplus : plus ∈ [[], ['+']]) (h : DigitsText 10 ds cs) :
      ExponentText (ofDigits 10 ds) (mark :: plus ++ cs)
  | negative {mark : Char} {cs : List Char} {ds : List Nat} (hmark : mark ∈ ['e', 'E'])
      (h : DigitsText 10 ds cs) : ExponentText (-(ofDigits 10 ds : Int)) (mark :: '-' :: cs)

/-- The ratio of decimal digits before and after the point, with an exponent. -/
def decimalRatio (whole fraction : List Nat) (exponent : Int) : Ratio :=
  (Ratio.ofNat (ofDigits 10 (whole ++ fraction))).scale 10 (exponent - fraction.length)

/-- The marks for a base other than ten. -/
def marks : List (Char × Nat) := [('x', 16), ('X', 16), ('o', 8), ('O', 8), ('b', 2), ('B', 2)]

/-- **The text is a literal for the value.** -/
inductive LiteralText : NumericValue → List Char → Prop
  | decimal {ws fs : List Nat} {e : Int} {whole fraction exponent : List Char}
      (hwhole : WholeText ws whole) (hfraction : FractionText fs fraction)
      (hexponent : ExponentText e exponent) :
      LiteralText (.number (decimalRatio ws fs e)) (whole ++ fraction ++ exponent)
  | pointed {fs : List Nat} {e : Int} {fraction exponent : List Char}
      (hfraction : DigitsText 10 fs fraction) (hexponent : ExponentText e exponent) :
      LiteralText (.number (decimalRatio [] fs e)) ('.' :: fraction ++ exponent)
  | marked {mark : Char} {base : Nat} {ds : List Nat} {cs : List Char}
      (hmark : (mark, base) ∈ marks) (h : DigitsText base ds cs) :
      LiteralText (.number (.ofNat (ofDigits base ds))) ('0' :: mark :: cs)
  | big {ds : List Nat} {cs : List Char} (h : WholeText ds cs) :
      LiteralText (.bigint (ofDigits 10 ds)) (cs ++ ['n'])
  | bigMarked {mark : Char} {base : Nat} {ds : List Nat} {cs : List Char}
      (hmark : (mark, base) ∈ marks) (h : DigitsText base ds cs) :
      LiteralText (.bigint (ofDigits base ds)) ('0' :: mark :: cs ++ ['n'])

/-- There is no separator in the text, no mark of a base and none of an integer of any size. -/
def Plain (cs : List Char) : Prop :=
  ∀ c ∈ cs, c.isDigit = true ∨ c ∈ ['.', 'e', 'E', '+', '-']

/-! ## 2. Digits -/

theorem DigitsText.exists_cons {base : Nat} {ds : List Nat} {cs : List Char}
    (h : DigitsText base ds cs) :
    ∃ c d cs' ds', cs = c :: cs' ∧ ds = d :: ds' ∧ digit? base c = some d := by
  cases h with
  | last hd => exact ⟨_, _, _, _, rfl, rfl, hd⟩
  | more hd _ => exact ⟨_, _, _, _, rfl, rfl, hd⟩
  | separated hd _ => exact ⟨_, _, _, _, rfl, rfl, hd⟩

theorem DigitsText.areDigits {base : Nat} {ds : List Nat} {cs : List Char}
    (h : DigitsText base ds cs) (hplain : '_' ∉ cs) : AreDigits base cs ds := by
  induction h with
  | last hd => exact .cons hd .nil
  | more hd _ ih => exact .cons hd (ih fun hmem => hplain (List.mem_cons_of_mem _ hmem))
  | separated hd _ _ =>
    exact absurd (List.mem_cons_of_mem _ List.mem_cons_self) hplain

theorem AreDigits.forall_isDigit {ds : List Nat} {cs : List Char} (h : AreDigits 10 cs ds) :
    ∀ c ∈ cs, c.isDigit = true := by
  induction h with
  | nil => exact List.forall_mem_nil _
  | cons hd _ ih => exact List.forall_mem_cons.2 ⟨exists_digit?_ten.1 ⟨_, hd⟩, ih⟩

theorem WholeText.areDigits {ds : List Nat} {cs : List Char} (h : WholeText ds cs)
    (hplain : '_' ∉ cs) : AreDigits 10 cs ds := by
  cases h with
  | zero => exact .cons rfl .nil
  | digits h _ => exact h.areDigits hplain

theorem WholeText.ne_nil {ds : List Nat} {cs : List Char} (h : WholeText ds cs) : cs ≠ [] := by
  cases h with
  | zero => exact List.cons_ne_nil _ _
  | digits h _ =>
    obtain ⟨c, -, cs', -, rfl, -, -⟩ := h.exists_cons
    exact List.cons_ne_nil c cs'

/-! ## 3. Reading plain literals -/

/-- No sign is read off a digit or a point. -/
theorem sign_cons {c : Char} (hc : c.isDigit = true ∨ c = '.') (cs : List Char) :
    sign (c :: cs) = (false, c :: cs) := by
  unfold sign
  split
  · next heq =>
    obtain ⟨rfl, -⟩ := List.cons.inj heq
    simp at hc
  · next heq =>
    obtain ⟨rfl, -⟩ := List.cons.inj heq
    simp at hc
  · rfl

theorem sign_of_isDigit {cs : List Char} (h : ∀ c ∈ cs, c.isDigit = true) :
    sign cs = (false, cs) := by
  cases cs with
  | nil => rfl
  | cons c cs => exact sign_cons (.inl (h c List.mem_cons_self)) cs

theorem exponent?_of_digitsText {signs cs : List Char} {negative : Bool} {ds : List Nat}
    (hsign : sign (signs ++ cs) = (negative, cs)) (h : DigitsText 10 ds cs) (hplain : '_' ∉ cs) :
    Decimal.exponent? (signs ++ cs) =
      some (if negative then -(ofDigits 10 ds : Int) else ofDigits 10 ds) := by
  obtain ⟨c, d, cs', ds', rfl, rfl, -⟩ := h.exists_cons
  have hnatural := natural?_of_areDigits (List.cons_ne_nil c cs') (h.areDigits hplain)
  rw [Decimal.exponent?, hsign]
  simp only [hnatural]
  rfl

/-- An exponent is missing, or it follows its mark. -/
theorem ExponentText.exists_mark {e : Int} {cs : List Char} (h : ExponentText e cs)
    (hplain : '_' ∉ cs) :
    (cs = [] ∧ e = 0) ∨
      ∃ mark after, cs = mark :: after ∧ (mark = 'e' ∨ mark = 'E') ∧
        Decimal.exponent? after = some e := by
  cases h with
  | missing => exact .inl ⟨rfl, rfl⟩
  | @positive mark plus cs ds hmark hplus h =>
    have hmark' : mark = 'e' ∨ mark = 'E' := by simpa using hmark
    have hcs : '_' ∉ cs := fun hmem => hplain (by simp [hmem])
    have hdigits := (h.areDigits hcs).forall_isDigit
    have hsign : sign (plus ++ cs) = (false, cs) := by
      have hplus' : plus = [] ∨ plus = ['+'] := by simpa using hplus
      rcases hplus' with rfl | rfl
      · exact sign_of_isDigit hdigits
      · rfl
    exact .inr ⟨mark, plus ++ cs, rfl, hmark', exponent?_of_digitsText hsign h hcs⟩
  | @negative mark cs ds hmark h =>
    have hmark' : mark = 'e' ∨ mark = 'E' := by simpa using hmark
    have hcs : '_' ∉ cs := fun hmem => hplain (by simp [hmem])
    have hsign : sign (['-'] ++ cs) = (true, cs) := rfl
    have hread := exponent?_of_digitsText hsign h hcs
    exact .inr ⟨mark, '-' :: cs, rfl, hmark', hread⟩

/-- A fraction is missing, or it follows its point. -/
theorem FractionText.exists_point {fs : List Nat} {cs : List Char} (h : FractionText fs cs)
    (hplain : '_' ∉ cs) :
    (cs = [] ∧ fs = []) ∨ ∃ digits, cs = '.' :: digits ∧ AreDigits 10 digits fs := by
  cases h with
  | missing => exact .inl ⟨rfl, rfl⟩
  | point => exact .inr ⟨[], rfl, .nil⟩
  | digits h => exact .inr ⟨_, rfl, h.areDigits fun hmem => hplain (List.mem_cons_of_mem _ hmem)⟩

/-- A numeral without separators is read to its parts. -/
theorem read?_of_parts {ws fs : List Nat} {e : Int} {whole fraction exponent : List Char}
    (hwhole : AreDigits 10 whole ws) (hfraction : FractionText fs fraction)
    (hexponent : ExponentText e exponent) (hsome : whole ≠ [] ∨ fs ≠ [])
    (hplain : '_' ∉ fraction ++ exponent) :
    ∃ digits, Decimal.read? (whole ++ fraction ++ exponent) = some ⟨whole, digits, e⟩ ∧
      AreDigits 10 digits fs := by
  have hpf : '_' ∉ fraction := fun hmem => hplain (List.mem_append_left _ hmem)
  have hpe : '_' ∉ exponent := fun hmem => hplain (List.mem_append_right _ hmem)
  have hmark := hexponent.exists_mark hpe
  have hend : ∀ c, exponent.head? = some c → c.isDigit = false ∧ c ≠ '.' := by
    intro c hc
    rcases hmark with ⟨rfl, -⟩ | ⟨mark, after, rfl, rfl | rfl, -⟩
    · cases hc
    · obtain rfl := Option.some.inj hc
      decide
    · obtain rfl := Option.some.inj hc
      decide
  have hdigits := hwhole.forall_isDigit
  rcases hfraction.exists_point hpf with ⟨rfl, rfl⟩ | ⟨digits, rfl, hfs⟩
  · refine ⟨[], ?_, .nil⟩
    have hne : whole.isEmpty = false := by simpa using hsome
    rw [List.append_nil, Decimal.read?, takeWhile_front hdigits (fun c hc => (hend c hc).1),
      dropWhile_front hdigits (fun c hc => (hend c hc).1)]
    rcases hmark with ⟨rfl, rfl⟩ | ⟨mark, after, rfl, hmark, hread⟩
    · simp [hne]
    · have hpoint : mark ≠ '.' := (hend mark rfl).2
      simp [hne, hpoint, hmark, hread]
  · refine ⟨digits, ?_, hfs⟩
    have hpoint : ∀ c, ('.' :: digits ++ exponent).head? = some c → c.isDigit = false := by
      intro c hc
      obtain rfl := Option.some.inj hc
      rfl
    have hne : (whole.isEmpty && digits.isEmpty) = false := by
      rcases hsome with hsome | hsome
      · simp [hsome]
      · have hdigits' : digits ≠ [] := fun h => hsome (by simpa [h, AreDigits] using hfs)
        simp [hdigits']
    rw [List.append_assoc, Decimal.read?, takeWhile_front hdigits hpoint,
      dropWhile_front hdigits hpoint]
    simp only [List.cons_append]
    rw [takeWhile_front hfs.forall_isDigit (fun c hc => (hend c hc).1),
      dropWhile_front hfs.forall_isDigit (fun c hc => (hend c hc).1), hne]
    rcases hmark with ⟨rfl, rfl⟩ | ⟨mark, after, rfl, hmark, hread⟩
    · rfl
    · simp [hmark, hread]

/-! ## 4. Only plain literals are read -/

theorem Plain.of_isDigit {cs : List Char} (h : ∀ c ∈ cs, c.isDigit = true) : Plain cs :=
  fun c hc => .inl (h c hc)

theorem Plain.append {cs ds : List Char} (hcs : Plain cs) (hds : Plain ds) : Plain (cs ++ ds) :=
  List.forall_mem_append.2 ⟨hcs, hds⟩

theorem Plain.cons {c : Char} {cs : List Char} (hc : c ∈ ['.', 'e', 'E', '+', '-'])
    (hcs : Plain cs) : Plain (c :: cs) :=
  List.forall_mem_cons.2 ⟨.inr hc, hcs⟩

theorem Plain.takeWhile (cs : List Char) : Plain (cs.takeWhile Char.isDigit) :=
  .of_isDigit (List.all_eq_true.1 List.all_takeWhile)

theorem plain_of_exponent? {cs : List Char} {e : Int} (h : Decimal.exponent? cs = some e) :
    Plain cs := by
  have hdigits : Plain (sign cs).2 := by
    rw [Decimal.exponent?] at h
    cases hread : natural? 10 (sign cs).2 with
    | none =>
      simp only [hread] at h
      cases h
    | some n => exact .of_isDigit fun c hc => exists_digit?_ten.1 (digit?_of_natural? hread c hc)
  unfold sign at hdigits
  split at hdigits
  · exact .cons (by decide) hdigits
  · exact .cons (by decide) hdigits
  · exact hdigits

/-- **What is read as a decimal numeral is plain.** -/
theorem plain_of_read? {cs : List Char} {d : Decimal} (h : Decimal.read? cs = some d) :
    Plain cs := by
  have htail {c : Char} {after whole fraction : List Char}
      (h : (if c = 'e' || c = 'E' then
        (Decimal.exponent? after).map (Decimal.mk whole fraction ·) else none) = some d) :
      Plain (c :: after) := by
    split at h
    · next hmark =>
      obtain ⟨e, he, -⟩ := Option.map_eq_some_iff.1 h
      have hc : c = 'e' ∨ c = 'E' := by simpa using hmark
      exact .cons (by rcases hc with rfl | rfl <;> decide) (plain_of_exponent? he)
    · cases h
  rw [← List.takeWhile_append_dropWhile (p := Char.isDigit) (l := cs)]
  refine (Plain.takeWhile cs).append ?_
  rw [Decimal.read?] at h
  generalize cs.dropWhile Char.isDigit = rest at h ⊢
  generalize cs.takeWhile Char.isDigit = whole at h
  simp only at h
  split at h
  · next after =>
    simp only at h
    split at h
    · cases h
    · rw [← List.takeWhile_append_dropWhile (p := Char.isDigit) (l := after)]
      generalize after.dropWhile Char.isDigit = rest at h ⊢
      refine .cons (by decide) ((Plain.takeWhile after).append ?_)
      split at h
      · exact List.forall_mem_nil _
      · exact htail h
  · simp only at h
    split at h
    · cases h
    · split at h
      · exact List.forall_mem_nil _
      · exact htail h

theorem Plain.not_mem {cs : List Char} (h : Plain cs) {c : Char} (hdigit : c.isDigit = false)
    (hother : c ∉ ['.', 'e', 'E', '+', '-']) : c ∉ cs := by
  intro hc
  rcases h c hc with hc | hc
  · rw [hdigit] at hc
    cases hc
  · exact hother hc

/-- No mark of a base occurs in a plain text. -/
theorem Plain.not_mem_of_mark {cs : List Char} (h : Plain cs) {mark : Char} {base : Nat}
    (hmark : (mark, base) ∈ marks) : mark ∉ cs := by
  have hall : ∀ m ∈ marks, m.1.isDigit = false ∧ m.1 ∉ ['.', 'e', 'E', '+', '-'] := by decide
  have hm := hall _ hmark
  exact h.not_mem hm.1 hm.2

/-- An integer of any size has its mark at the end. -/
theorem LiteralText.not_plain {n : Nat} {cs : List Char} (h : LiteralText (.bigint n) cs) :
    ¬ Plain cs := by
  intro hplain
  have hmark : 'n' ∈ cs := by
    cases h with
    | big _ => exact List.mem_append_right _ List.mem_cons_self
    | bigMarked _ _ => exact List.mem_append_right _ List.mem_cons_self
  exact hplain.not_mem rfl (by decide) hmark

/-! ## 5. The test for zero -/

theorem decimal_digits {ws fs : List Nat} {whole digits : List Char} {e : Int}
    (hwhole : AreDigits 10 whole ws) (hdigits : AreDigits 10 digits fs)
    (hsome : whole ≠ [] ∨ fs ≠ []) :
    (Decimal.mk whole digits e).digits = ofDigits 10 (ws ++ fs) := by
  have hall : AreDigits 10 (whole ++ digits) (ws ++ fs) := List.rel_append hwhole hdigits
  have hne : whole ++ digits ≠ [] := by
    intro h
    rw [List.append_eq_nil_iff] at h
    obtain ⟨rfl, rfl⟩ := h
    cases hdigits
    simp at hsome
  rw [Decimal.digits, natural?_of_areDigits hne hall, Option.getD_some]

/-- A plain literal is read, and to zero exactly if it is one. -/
theorem exists_read?_of_plain {v : NumericValue} {cs : List Char} (h : LiteralText v cs)
    (hplain : Plain cs) :
    ∃ d, Decimal.read? cs = some d ∧ (d.magnitude = 0 ↔ v.IsZero) := by
  have hseparator : '_' ∉ cs := hplain.not_mem rfl (by decide)
  have hzero : ∀ {ws fs : List Nat} {e : Int} {whole digits : List Char},
      AreDigits 10 whole ws → AreDigits 10 digits fs → (whole ≠ [] ∨ fs ≠ []) →
      ((Decimal.mk whole digits e).magnitude = 0 ↔
        (NumericValue.number (decimalRatio ws fs e)).IsZero) := by
    intro ws fs e whole digits hwhole hdigits hsome
    have hlength : digits.length = fs.length := List.Forall₂.length_eq hdigits
    rw [Decimal.magnitude_eq_zero_iff, decimal_digits hwhole hdigits hsome, Decimal.scale, hlength]
    rfl
  cases h with
  | @decimal ws fs e whole fraction exponent hwhole hfraction hexponent =>
    rw [List.append_assoc, List.mem_append, not_or] at hseparator
    have hws := hwhole.areDigits hseparator.1
    obtain ⟨digits, hread, hfs⟩ :=
      read?_of_parts hws hfraction hexponent (.inl hwhole.ne_nil) hseparator.2
    exact ⟨_, hread, hzero hws hfs (.inl hwhole.ne_nil)⟩
  | @pointed fs e fraction exponent hfraction hexponent =>
    have hsome : fs ≠ [] := by
      obtain ⟨-, d, -, ds', -, rfl, -⟩ := hfraction.exists_cons
      exact List.cons_ne_nil d ds'
    obtain ⟨digits, hread, hfs⟩ :=
      read?_of_parts .nil (.digits hfraction) hexponent (.inr hsome) hseparator
    exact ⟨_, hread, hzero .nil hfs (.inr hsome)⟩
  | marked hmark _ =>
    exact absurd (List.mem_cons_of_mem _ List.mem_cons_self) (hplain.not_mem_of_mark hmark)
  | big h => exact absurd hplain (LiteralText.big h).not_plain
  | bigMarked hmark h => exact absurd hplain (LiteralText.bigMarked hmark h).not_plain

/-- A literal begins with a digit or a point. -/
theorem LiteralText.exists_cons {v : NumericValue} {cs : List Char} (h : LiteralText v cs) :
    ∃ c rest, cs = c :: rest ∧ (c.isDigit = true ∨ c = '.') := by
  have hwhole : ∀ {ws : List Nat} {whole : List Char}, WholeText ws whole →
      ∃ c rest, whole = c :: rest ∧ c.isDigit = true := by
    intro ws whole hw
    cases hw with
    | zero => exact ⟨'0', [], rfl, rfl⟩
    | digits h _ =>
      obtain ⟨c, d, cs', ds', rfl, -, hd⟩ := h.exists_cons
      exact ⟨c, cs', rfl, exists_digit?_ten.1 ⟨d, hd⟩⟩
  cases h with
  | decimal hw _ _ =>
    obtain ⟨c, rest, rfl, hc⟩ := hwhole hw
    exact ⟨c, _, rfl, .inl hc⟩
  | pointed _ _ => exact ⟨'.', _, rfl, .inr rfl⟩
  | marked _ _ => exact ⟨'0', _, rfl, .inl rfl⟩
  | big hw =>
    obtain ⟨c, rest, rfl, hc⟩ := hwhole hw
    exact ⟨c, _, rfl, .inl hc⟩
  | bigMarked _ _ => exact ⟨'0', _, rfl, .inl rfl⟩

/-- The words for special numbers begin with a letter. -/
theorem special?_eq_none {c : Char} {rest : List Char}
    (hc : c.toLower ≠ 'i' ∧ c.toLower ≠ 'n') : special? (c :: rest) = none := by
  have hword : ∀ (d : Char) (ds : List Char), c.toLower ≠ d →
      (String.ofList ((c :: rest).map Char.toLower) == String.ofList (d :: ds)) = false := by
    intro d ds hd
    rw [beq_eq_false_iff_ne]
    intro h
    exact hd (List.cons.inj (String.ofList_injective h)).1
  have hinf := hword 'i' ['n', 'f'] hc.1
  have hinfinity := hword 'i' ['n', 'f', 'i', 'n', 'i', 't', 'y'] hc.1
  have hnan := hword 'n' ['a', 'n'] hc.2
  rw [special?]
  change (if (_ == String.ofList ['i', 'n', 'f'] ||
    _ == String.ofList ['i', 'n', 'f', 'i', 'n', 'i', 't', 'y']) = true then _
    else if (_ == String.ofList ['n', 'a', 'n']) = true then _ else none) = none
  rw [hinf, hinfinity, hnan]
  rfl

theorem toLower_of_isDigit {c : Char} (h : c.isDigit = true) : c.toLower = c := by
  have hc := Char.isDigit_iff_toNat.1 h
  have hnine : '9'.toNat = 57 := rfl
  delta Char.toLower
  rw [dif_neg]
  intro hupper
  have hletter : 65 ≤ c.toNat := UInt32.le_iff_toNat_le.1 hupper.1
  omega

theorem LiteralText.special?_eq_none {v : NumericValue} {cs : List Char} (h : LiteralText v cs) :
    special? cs = none := by
  obtain ⟨c, rest, rfl, hc⟩ := h.exists_cons
  refine Numeral.special?_eq_none ?_
  rcases hc with hc | rfl
  · have hlower : c.toLower = c := toLower_of_isDigit hc
    rw [hlower]
    constructor
    · rintro rfl
      cases hc
    · rintro rfl
      cases hc
  · decide

theorem LiteralText.sign_eq {v : NumericValue} {cs : List Char} (h : LiteralText v cs) :
    sign cs = (false, cs) := by
  obtain ⟨c, rest, rfl, hc⟩ := h.exists_cons
  exact sign_cons hc rest

/-- **A literal with minus signs before it passes for a zero** exactly if it denotes one, there is
one sign at most, and the literal is plain. -/
theorem isZero_literal {v : NumericValue} {cs : List Char} (h : LiteralText v cs) (minuses : Nat) :
    isZero (String.ofList (List.replicate minuses '-' ++ cs)) = true ↔
      v.IsZero ∧ minuses ≤ 1 ∧ Plain cs := by
  have hsigned : ∀ negative,
      ((((special? cs).or ((Decimal.read? cs).map Decimal.magnitude)).map
        (Binary64.mk negative ·)).any Binary64.isZero = true ↔ v.IsZero ∧ Plain cs) := by
    intro negative
    rw [h.special?_eq_none, Option.none_or]
    by_cases hplain : Plain cs
    · obtain ⟨d, hread, hd⟩ := exists_read?_of_plain h hplain
      simp [hread, Binary64.isZero, hd, hplain]
    · have hread : Decimal.read? cs = none := by
        cases hread : Decimal.read? cs with
        | none => rfl
        | some d => exact absurd (plain_of_read? hread) hplain
      simp [hread, hplain]
  rw [isZero, String.toList_ofList, signed?]
  match minuses with
  | 0 =>
    rw [List.replicate_zero, List.nil_append, h.sign_eq, hsigned]
    simp
  | 1 =>
    have hsign : sign (List.replicate 1 '-' ++ cs) = (true, cs) := rfl
    rw [hsign, hsigned]
    simp
  | minuses + 2 =>
    -- behind the sign in front there is no numeral
    have hsign : sign (List.replicate (minuses + 2) '-' ++ cs) =
        (true, '-' :: (List.replicate minuses '-' ++ cs)) := rfl
    have hspecial : special? ('-' :: (List.replicate minuses '-' ++ cs)) = none :=
      Numeral.special?_eq_none (by decide)
    have hread : Decimal.read? ('-' :: (List.replicate minuses '-' ++ cs)) = none := rfl
    rw [hsign]
    simp [hspecial, hread]

end Numeral

end Statechart
