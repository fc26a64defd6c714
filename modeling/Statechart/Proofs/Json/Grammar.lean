import Mathlib.Data.List.DropRight
import Statechart.Json.Reader
import Statechart.Proofs.Number.Digits

/-!
# The grammar of JSON texts

How a value may be written: with blanks between its parts, each character of a string in any of the
ways that are allowed for it. Main statement: every text that follows the grammar is read to the
value that it is written for.
-/

namespace Statechart.Json

/-! ## 1. Blanks and numbers -/

/-- There is nothing but blanks. -/
def Blanks (cs : List Char) : Prop := ∀ c ∈ cs, isBlank c = true

/-- There is a digit, and nothing but digits. -/
def Digits (cs : List Char) : Prop := cs ≠ [] ∧ ∀ c ∈ cs, c.isDigit = true

/-- The whole part of a number; it starts with no zero unless it is one. -/
inductive Whole : List Char → Prop
  | zero : Whole ['0']
  | digits {cs : List Char} (h : Digits cs) (hzero : cs.head? ≠ some '0') : Whole cs

/-- The fraction of a number, which may be missing. -/
inductive Fraction : List Char → Prop
  | missing : Fraction []
  | digits {cs : List Char} (h : Digits cs) : Fraction ('.' :: cs)

/-- The exponent of a number, which may be missing. -/
inductive Exponent : List Char → Prop
  | missing : Exponent []
  | digits {mark : Char} {sign cs : List Char} (hmark : mark = 'e' ∨ mark = 'E')
      (hsign : sign ∈ [[], ['+'], ['-']]) (h : Digits cs) : Exponent (mark :: sign ++ cs)

/-- **The text is a number.** -/
inductive NumberText : List Char → Prop
  | mk {sign whole fraction exponent : List Char} (hsign : sign ∈ [[], ['-']])
      (hwhole : Whole whole) (hfraction : Fraction fraction) (hexponent : Exponent exponent) :
      NumberText (sign ++ whole ++ fraction ++ exponent)

/-! ## 2. Strings -/

/-- The letters that stand for a character after a backslash, with its code point. -/
def letters : List (Char × Nat) :=
  [('"', 0x22), ('\\', 0x5C), ('/', 0x2F), ('b', 0x08), ('f', 0x0C), ('n', 0x0A), ('r', 0x0D),
   ('t', 0x09)]

/-- The four digits of a code unit. -/
def UnitText (cs : List Char) (n : Nat) : Prop :=
  ∃ a b c d w x y z, cs = [a, b, c, d] ∧ Numeral.digit? 16 a = some w ∧
    Numeral.digit? 16 b = some x ∧ Numeral.digit? 16 c = some y ∧ Numeral.digit? 16 d = some z ∧
    n = ((w * 16 + x) * 16 + y) * 16 + z

/-- The first half of a pair. -/
def IsHigh (n : Nat) : Prop := 0xD800 ≤ n ∧ n < 0xDC00

/-- The second half of a pair. -/
def IsLow (n : Nat) : Prop := 0xDC00 ≤ n ∧ n < 0xE000

/-- The text starts with the second half of a pair, by its number. -/
def StartsLow (cs : List Char) : Prop :=
  ∃ digits rest n, cs = '\\' :: 'u' :: digits ++ rest ∧ UnitText digits n ∧ IsLow n

/-- **The text between its quotes stands for the string.** A character stands for itself or is
escaped, by a letter or by its number; the two halves of a pair stand for one code point, and the
first half stands alone only where the second does not follow. -/
inductive StringText : JsonString → List Char → Prop
  | nil : StringText [] []
  | plain {c : Char} {codes : JsonString} {cs : List Char} (hcontrol : 0x20 ≤ c.toNat)
      (hquote : c ≠ '"') (hbackslash : c ≠ '\\') (rest : StringText codes cs) :
      StringText (c.toNat :: codes) (c :: cs)
  | letter {c : Char} {n : Nat} {codes : JsonString} {cs : List Char} (hc : (c, n) ∈ letters)
      (rest : StringText codes cs) : StringText (n :: codes) ('\\' :: c :: cs)
  | number {digits : List Char} {n : Nat} {codes : JsonString} {cs : List Char}
      (hn : UnitText digits n) (halone : IsHigh n → ¬ StartsLow cs) (rest : StringText codes cs) :
      StringText (n :: codes) ('\\' :: 'u' :: digits ++ cs)
  | pair {digits digits' : List Char} {high low : Nat} {codes : JsonString} {cs : List Char}
      (hdigits : UnitText digits high) (hhigh : IsHigh high) (hdigits' : UnitText digits' low)
      (hlow : IsLow low) (rest : StringText codes cs) :
      StringText ((0x10000 + (high - 0xD800) * 0x400 + (low - 0xDC00)) :: codes)
        ('\\' :: 'u' :: digits ++ ('\\' :: 'u' :: digits' ++ cs))

/-- The text stands for a name, with blanks around it or none. -/
def NameText (name : JsonString) (cs : List Char) : Prop :=
  ∃ before inner after, Blanks before ∧ StringText name inner ∧ Blanks after ∧
    cs = before ++ '"' :: inner ++ '"' :: after

/-! ## 3. Values -/

mutual

/-- **The text stands for the value**, without blanks around it. -/
inductive ValueText : Json → List Char → Prop
  | ofNull : ValueText null ['n', 'u', 'l', 'l']
  | ofTrue : ValueText (bool true) ['t', 'r', 'u', 'e']
  | ofFalse : ValueText (bool false) ['f', 'a', 'l', 's', 'e']
  | ofNumber {cs : List Char} (h : NumberText cs) : ValueText (number (String.ofList cs)) cs
  | ofString {codes : JsonString} {cs : List Char} (h : StringText codes cs) :
      ValueText (string codes) ('"' :: cs ++ ['"'])
  | ofEmptyArray {blanks : List Char} (hblanks : Blanks blanks) :
      ValueText (array []) ('[' :: blanks ++ [']'])
  | ofArray {items : List Json} {cs : List Char} (h : ItemsText items cs) :
      ValueText (array items) ('[' :: cs)
  | ofEmptyObject {blanks : List Char} (hblanks : Blanks blanks) :
      ValueText (object []) ('{' :: blanks ++ ['}'])
  | ofObject {members : List (JsonString × Json)} {cs : List Char} (h : MembersText members cs) :
      ValueText (object members) ('{' :: cs)

/-- The text stands for one item or more, with the bracket that closes the array. -/
inductive ItemsText : List Json → List Char → Prop
  | last {v : Json} {before cs after : List Char} (hbefore : Blanks before) (h : ValueText v cs)
      (hafter : Blanks after) : ItemsText [v] (before ++ cs ++ after ++ [']'])
  | more {v : Json} {items : List Json} {before cs after rest : List Char}
      (hbefore : Blanks before) (h : ValueText v cs) (hafter : Blanks after)
      (hrest : ItemsText items rest) : ItemsText (v :: items) (before ++ cs ++ after ++ ',' :: rest)

/-- The text stands for one member or more, with the brace that closes the object. -/
inductive MembersText : List (JsonString × Json) → List Char → Prop
  | last {name : JsonString} {v : Json} {key before cs after : List Char}
      (hname : NameText name key) (hbefore : Blanks before) (h : ValueText v cs) (hafter : Blanks after) :
      MembersText [(name, v)] (key ++ ':' :: before ++ cs ++ after ++ ['}'])
  | more {name : JsonString} {v : Json} {members : List (JsonString × Json)}
      {key before cs after rest : List Char} (hname : NameText name key) (hbefore : Blanks before)
      (h : ValueText v cs) (hafter : Blanks after) (hrest : MembersText members rest) :
      MembersText ((name, v) :: members) (key ++ ':' :: before ++ cs ++ after ++ ',' :: rest)

end

/-- **The text stands for the value**, with blanks around it or none. -/
def TextOf (v : Json) (cs : List Char) : Prop :=
  ∃ before inner after, Blanks before ∧ ValueText v inner ∧ Blanks after ∧
    cs = before ++ inner ++ after

/-! ## 4. Reading blanks and numbers -/

theorem skipBlanks_front {blanks rest : List Char} (hblanks : Blanks blanks)
    (hrest : ∀ c, rest.head? = some c → isBlank c = false) : skipBlanks (blanks ++ rest) = rest :=
  Numeral.dropWhile_front hblanks hrest

theorem skipBlanks_skipBlanks (cs : List Char) : skipBlanks (skipBlanks cs) = skipBlanks cs :=
  List.dropWhile_idempotent isBlank cs

/-- What stands here does not go on with a number. -/
def EndsNumber (rest : List Char) : Prop :=
  ∀ c, rest.head? = some c → c.isDigit = false ∧ c ≠ '.' ∧ c ≠ 'e' ∧ c ≠ 'E'

theorem EndsNumber.nil : EndsNumber [] := by
  intro c hc
  cases hc

theorem EndsNumber.cons {c : Char} {rest : List Char} (hdigit : c.isDigit = false)
    (hpoint : c ≠ '.') (hmark : c ≠ 'e' ∧ c ≠ 'E') : EndsNumber (c :: rest) := by
  intro d hd
  obtain rfl := Option.some.inj hd
  exact ⟨hdigit, hpoint, hmark⟩

/-- A blank ends a number. -/
theorem EndsNumber.blanks {blanks rest : List Char} (hblanks : Blanks blanks)
    (hrest : EndsNumber rest) : EndsNumber (blanks ++ rest) := by
  cases blanks with
  | nil => exact hrest
  | cons c blanks =>
    have hc : isBlank c = true := hblanks c List.mem_cons_self
    simp only [isBlank, Bool.or_eq_true, decide_eq_true_eq] at hc
    rcases hc with ((rfl | rfl) | rfl) | rfl
    all_goals exact EndsNumber.cons (by decide) (by decide) (by decide)

theorem readDigits_front {cs rest : List Char} (h : Digits cs)
    (hrest : ∀ c, rest.head? = some c → c.isDigit = false) :
    readDigits (cs ++ rest) = some (cs, rest) := by
  have hne : cs.isEmpty = false := by simpa using h.1
  rw [readDigits, Numeral.takeWhile_front h.2 hrest, Numeral.dropWhile_front h.2 hrest, hne]
  rfl

theorem Whole.exists_cons {cs : List Char} (h : Whole cs) :
    ∃ c rest, cs = c :: rest ∧ c.isDigit = true := by
  cases h with
  | zero => exact ⟨'0', [], rfl, rfl⟩
  | digits h _ =>
    obtain ⟨c, rest, rfl⟩ := List.exists_cons_of_ne_nil h.1
    exact ⟨c, rest, rfl, h.2 c List.mem_cons_self⟩

theorem readWhole_front {cs rest : List Char} (h : Whole cs)
    (hrest : ∀ c, rest.head? = some c → c.isDigit = false) :
    readWhole (cs ++ rest) = some (cs, rest) := by
  cases h with
  | zero =>
    have hdigits : Digits ['0'] := ⟨by simp, List.forall_mem_singleton.2 rfl⟩
    rw [readWhole, readDigits_front hdigits hrest]
    rfl
  | digits h hzero =>
    rw [readWhole, readDigits_front h hrest]
    simp [hzero]

theorem readFraction_front {cs rest : List Char} (h : Fraction cs)
    (hdigit : ∀ c, rest.head? = some c → c.isDigit = false) (hpoint : rest.head? ≠ some '.') :
    readFraction (cs ++ rest) = some (cs, rest) := by
  cases h with
  | missing =>
    cases rest with
    | nil => rfl
    | cons c rest =>
      have hc : c ≠ '.' := fun e => hpoint (e ▸ rfl)
      rw [List.nil_append, readFraction]
      rintro _ ⟨⟩
      exact hc rfl
  | digits h =>
    rw [List.cons_append, readFraction, readDigits_front h hdigit]
    rfl

theorem readExponent_front {cs rest : List Char} (h : Exponent cs) (hrest : EndsNumber rest) :
    readExponent (cs ++ rest) = some (cs, rest) := by
  have hdigit : ∀ c, rest.head? = some c → c.isDigit = false := fun c hc => (hrest c hc).1
  cases h with
  | missing =>
    cases rest with
    | nil => rfl
    | cons c rest =>
      obtain ⟨-, -, he, hE⟩ := hrest c rfl
      simp [readExponent, he, hE]
  | @digits mark sign cs hmark hsign h =>
    have hread := readDigits_front h hdigit
    have hmark' : (mark = 'e' || mark = 'E') = true := by simpa using hmark
    simp only [List.mem_cons, List.not_mem_nil, or_false] at hsign
    rcases hsign with rfl | rfl | rfl
    · -- the digits themselves start with no sign
      obtain ⟨d, ds, rfl⟩ := List.exists_cons_of_ne_nil h.1
      have hd : d.isDigit = true := h.2 d List.mem_cons_self
      have hplus : d ≠ '+' := fun e => absurd (e ▸ hd) (by decide)
      have hminus : d ≠ '-' := fun e => absurd (e ▸ hd) (by decide)
      rw [List.cons_append] at hread
      show readExponent (mark :: d :: (ds ++ rest)) = _
      rw [readExponent, if_pos hmark', hread]
      · rfl
      · intro after heq
        exact hplus (List.cons.inj heq).1
      · intro after heq
        exact hminus (List.cons.inj heq).1
    · show readExponent (mark :: '+' :: (cs ++ rest)) = _
      simp only [readExponent, if_pos hmark', hread]
      rfl
    · show readExponent (mark :: '-' :: (cs ++ rest)) = _
      simp only [readExponent, if_pos hmark', hread]
      rfl

/-- **A number is read as it is written.** -/
theorem readNumber_front {cs rest : List Char} (h : NumberText cs) (hrest : EndsNumber rest) :
    readNumber (cs ++ rest) = some (number (String.ofList cs), rest) := by
  obtain ⟨hsign, hwhole, hfraction, hexponent⟩ := h
  next sign whole fraction exponent =>
  have hdigit : ∀ c, (exponent ++ rest).head? = some c → c.isDigit = false ∧ c ≠ '.' := by
    cases hexponent with
    | missing => exact fun c hc => ⟨(hrest c hc).1, (hrest c hc).2.1⟩
    | digits hmark =>
      intro c hc
      obtain rfl := Option.some.inj hc
      rcases hmark with rfl | rfl <;> decide
  have hpoint : (exponent ++ rest).head? ≠ some '.' := fun hc => (hdigit '.' hc).2 rfl
  have hdigit' : ∀ c, (fraction ++ (exponent ++ rest)).head? = some c → c.isDigit = false := by
    cases hfraction with
    | missing => exact fun c hc => (hdigit c hc).1
    | digits h =>
      intro c hc
      obtain rfl := Option.some.inj hc
      rfl
  have hwhole' := readWhole_front hwhole hdigit'
  have hfraction' := readFraction_front hfraction (fun c hc => (hdigit c hc).1) hpoint
  have hexponent' := readExponent_front hexponent hrest
  have htext : sign ++ whole ++ fraction ++ exponent ++ rest =
      sign ++ (whole ++ (fraction ++ (exponent ++ rest))) := by simp only [List.append_assoc]
  rw [htext]
  simp only [List.mem_cons, List.not_mem_nil, or_false] at hsign
  rcases hsign with rfl | rfl
  · obtain ⟨c, digits, rfl, hc⟩ := hwhole.exists_cons
    have hminus : c ≠ '-' := fun e => absurd (e ▸ hc) (by decide)
    show readNumber (c :: (digits ++ (fraction ++ (exponent ++ rest)))) = _
    unfold readNumber
    split
    next sign rest' heq =>
    split at heq
    · next heq' => exact absurd (List.cons.inj heq').1 hminus
    · obtain ⟨rfl, rfl⟩ := Prod.mk.inj heq
      rw [List.cons_append] at hwhole'
      simp only [hwhole', hfraction', hexponent', Option.bind_eq_bind, Option.bind_some]
      rfl
  · show (readNumber ('-' :: (whole ++ (fraction ++ (exponent ++ rest))))) = _
    simp only [readNumber, hwhole', hfraction', hexponent', Option.bind_eq_bind, Option.bind_some]
    rfl

/-! ## 5. Reading strings -/

theorem unit?_of_unitText {a b c d : Char} {n : Nat} (h : UnitText [a, b, c, d] n) :
    unit? a b c d = some n := by
  obtain ⟨a', b', c', d', w, x, y, z, hdigits, hw, hx, hy, hz, rfl⟩ := h
  obtain ⟨rfl, rfl, rfl, rfl⟩ : a = a' ∧ b = b' ∧ c = c' ∧ d = d' := by simpa using hdigits
  simp only [unit?, Numeral.natural?, List.isEmpty_cons, List.foldl_cons, List.foldl_nil, hw, hx,
    hy, hz, Option.bind_eq_bind, Option.bind_some, Option.pure_def, Bool.false_eq_true, if_false,
    Option.some.injEq]
  omega

theorem UnitText.exists_four {digits : List Char} {n : Nat} (h : UnitText digits n) :
    ∃ a b c d, digits = [a, b, c, d] := by
  obtain ⟨a, b, c, d, _, _, _, _, rfl, _⟩ := h
  exact ⟨a, b, c, d, rfl⟩

theorem escape?_of_letter {c : Char} {n : Nat} (h : (c, n) ∈ letters) :
    escape? c = some n ∧ c ≠ 'u' := by
  simp only [letters, List.mem_cons, Prod.mk.injEq, List.not_mem_nil, or_false] at h
  rcases h with ⟨rfl, rfl⟩ | ⟨rfl, rfl⟩ | ⟨rfl, rfl⟩ | ⟨rfl, rfl⟩ | ⟨rfl, rfl⟩ | ⟨rfl, rfl⟩ |
    ⟨rfl, rfl⟩ | ⟨rfl, rfl⟩
  all_goals exact ⟨rfl, by decide⟩

/-- A unit stands for itself where it is no first half with the second half after it. -/
theorem joinPairs_cons {n : Nat} {mark : Bool} {units : List (Nat × Bool)}
    (h : ∀ low more, mark = true → units = (low, true) :: more → IsHigh n → ¬ IsLow low) :
    joinPairs ((n, mark) :: units) = n :: joinPairs units := by
  cases mark with
  | false => simp [joinPairs]
  | true =>
    match units with
    | [] => simp [joinPairs]
    | (_, false) :: _ => simp [joinPairs]
    | (low, true) :: more =>
      have hnone : ¬ (0xD800 ≤ n ∧ n < 0xDC00 ∧ 0xDC00 ≤ low ∧ low < 0xE000) := by
        intro hpair
        exact h low more rfl rfl ⟨hpair.1, hpair.2.1⟩ hpair.2.2
      rw [joinPairs, if_neg hnone]

/-- **A string is read to the code points that its text stands for.** The units that are read start
with a second half that is written by its number only where the text does. -/
theorem readUnits_front {codes : JsonString} {cs : List Char} (h : StringText codes cs)
    (rest : List Char) :
    ∃ units, readUnits (cs ++ '"' :: rest) = some (units, rest) ∧ joinPairs units = codes ∧
      ∀ low more, units = (low, true) :: more → IsLow low → StartsLow cs := by
  induction h with
  | nil =>
    refine ⟨[], rfl, rfl, fun low more h => ?_⟩
    cases h
  | @plain c codes cs hcontrol hquote hbackslash _ ih =>
    obtain ⟨units, hread, hjoin, -⟩ := ih
    refine ⟨(c.toNat, false) :: units, ?_, ?_, fun low more h => ?_⟩
    · have hcontrol' : ¬ (c.toNat < 0x20 || c = '\\') = true := by
        simpa [hbackslash] using hcontrol
      rw [List.cons_append, readUnits, if_neg hcontrol', hread]
      · rfl
      · exact fun heq => hquote heq
      · exact fun _ _ _ _ _ heq _ => hbackslash heq
      · exact fun _ _ heq _ => hbackslash heq
    · rw [joinPairs_cons (fun low more hmark => by cases hmark), hjoin]
    · cases h
  | @letter c n codes cs hc _ ih =>
    obtain ⟨units, hread, hjoin, -⟩ := ih
    obtain ⟨hescape, hu⟩ := escape?_of_letter hc
    refine ⟨(n, false) :: units, ?_, ?_, fun low more h => ?_⟩
    · rw [List.cons_append, List.cons_append, readUnits, hescape, hread]
      · rfl
      · exact fun _ _ _ _ _ heq _ => hu heq
    · rw [joinPairs_cons (fun low more hmark => by cases hmark), hjoin]
    · cases h
  | @number digits n codes cs hn halone _ ih =>
    obtain ⟨units, hread, hjoin, hlow⟩ := ih
    obtain ⟨a, b, c, d, rfl⟩ := hn.exists_four
    refine ⟨(n, true) :: units, ?_, ?_, fun low more h hisLow => ?_⟩
    · show readUnits ('\\' :: 'u' :: a :: b :: c :: d :: (cs ++ '"' :: rest)) = _
      rw [readUnits, unit?_of_unitText hn, hread]
      rfl
    · rw [joinPairs_cons (fun low more _ hunits hhigh hisLow => ?_), hjoin]
      exact halone hhigh (hlow low more hunits hisLow)
    · obtain ⟨hfirst, -⟩ := List.cons.inj h
      obtain ⟨rfl, -⟩ := Prod.mk.inj hfirst
      exact ⟨[a, b, c, d], cs, n, rfl, hn, hisLow⟩
  | @pair digits digits' high low codes cs hdigits hhigh hdigits' hlow _ ih =>
    obtain ⟨units, hread, hjoin, -⟩ := ih
    obtain ⟨a, b, c, d, rfl⟩ := hdigits.exists_four
    obtain ⟨a', b', c', d', rfl⟩ := hdigits'.exists_four
    refine ⟨(high, true) :: (low, true) :: units, ?_, ?_, fun low' more h hisLow => ?_⟩
    · show readUnits ('\\' :: 'u' :: a :: b :: c :: d :: '\\' :: 'u' :: a' :: b' :: c' :: d' ::
        (cs ++ '"' :: rest)) = _
      rw [readUnits, unit?_of_unitText hdigits, readUnits, unit?_of_unitText hdigits', hread]
      rfl
    · have hpair : 0xD800 ≤ high ∧ high < 0xDC00 ∧ 0xDC00 ≤ low ∧ low < 0xE000 :=
        ⟨hhigh.1, hhigh.2, hlow⟩
      rw [joinPairs, if_pos hpair, hjoin]
    · obtain ⟨hfirst, -⟩ := List.cons.inj h
      obtain ⟨rfl, -⟩ := Prod.mk.inj hfirst
      have hlt := hhigh.2
      have hle := hisLow.1
      omega

theorem readString_front {codes : JsonString} {cs : List Char} (h : StringText codes cs)
    (rest : List Char) : readString (cs ++ '"' :: rest) = some (codes, rest) := by
  obtain ⟨units, hread, hjoin, -⟩ := readUnits_front h rest
  rw [readString, hread, ← hjoin]
  rfl

/-! ## 6. Reading values -/

theorem NumberText.exists_cons {cs : List Char} (h : NumberText cs) :
    ∃ c rest, cs = c :: rest ∧ (c = '-' ∨ c.isDigit = true) := by
  obtain ⟨hsign, hwhole, -, -⟩ := h
  obtain ⟨c, rest, rfl, hc⟩ := hwhole.exists_cons
  simp only [List.mem_cons, List.not_mem_nil, or_false] at hsign
  rcases hsign with rfl | rfl
  · exact ⟨c, _, rfl, .inr hc⟩
  · exact ⟨'-', _, rfl, .inl rfl⟩

/-- A value starts with neither a blank nor a bracket that closes. -/
theorem ValueText.exists_cons {v : Json} {cs : List Char} (h : ValueText v cs) :
    ∃ c rest, cs = c :: rest ∧ isBlank c = false ∧ c ≠ ']' ∧ c ≠ '}' := by
  cases h with
  | ofNumber h =>
    obtain ⟨c, rest, rfl, hc⟩ := h.exists_cons
    refine ⟨c, rest, rfl, ?_⟩
    rcases hc with rfl | hc
    · decide
    · have hne : ∀ d, d.isDigit = false → c ≠ d := fun d hd e => by rw [← e, hc] at hd; cases hd
      simp [isBlank, hne]
  | _ => exact ⟨_, _, rfl, by decide⟩

theorem skipBlanks_value {v : Json} {before cs rest : List Char} (hbefore : Blanks before)
    (h : ValueText v cs) : skipBlanks (before ++ cs ++ rest) = cs ++ rest := by
  obtain ⟨c, cs', rfl, hc, -⟩ := h.exists_cons
  rw [List.append_assoc]
  refine skipBlanks_front hbefore fun d hd => ?_
  obtain rfl := Option.some.inj hd
  exact hc

/-- What starts like a number is read as one. -/
theorem readValue_number {fuel : Nat} {cs : List Char} {c : Char} {rest : List Char}
    (hcs : skipBlanks cs = c :: rest) (hc : c = '-' ∨ c.isDigit = true) :
    readValue (fuel + 1) cs = readNumber (c :: rest) := by
  have hne : ∀ d, d ≠ '-' → d.isDigit = false → c ≠ d := by
    intro d hminus hdigit e
    subst e
    rcases hc with rfl | hc
    · exact hminus rfl
    · rw [hc] at hdigit
      cases hdigit
  rw [readValue, hcs]
  split
  all_goals first | rfl | skip
  all_goals next heq => exact absurd (List.cons.inj heq).1 (hne _ (by decide) (by decide))

/-! Readers pass over blanks in front, so that it does not matter if these are gone already. -/

theorem readValue_skipBlanks (fuel : Nat) (cs : List Char) :
    readValue fuel (skipBlanks cs) = readValue fuel cs := by
  cases fuel with
  | zero => simp only [readValue]
  | succ fuel => simp only [readValue, skipBlanks_skipBlanks]

theorem readItems_skipBlanks (fuel : Nat) (cs : List Char) :
    readItems fuel (skipBlanks cs) = readItems fuel cs := by
  cases fuel with
  | zero => simp only [readItems]
  | succ fuel => simp only [readItems, readValue_skipBlanks]

theorem readMembers_skipBlanks (fuel : Nat) (cs : List Char) :
    readMembers fuel (skipBlanks cs) = readMembers fuel cs := by
  cases fuel with
  | zero => simp only [readMembers]
  | succ fuel => simp only [readMembers, skipBlanks_skipBlanks]

/-- The first item does not start with the bracket that closes the array. -/
theorem ItemsText.exists_cons {items : List Json} {cs : List Char} (h : ItemsText items cs)
    (rest : List Char) : ∃ c cs', skipBlanks (cs ++ rest) = c :: cs' ∧ c ≠ ']' := by
  have hfirst {v : Json} {before cs : List Char} (hbefore : Blanks before) (h : ValueText v cs)
      (more : List Char) : ∃ c cs', skipBlanks (before ++ cs ++ more) = c :: cs' ∧ c ≠ ']' := by
    obtain ⟨c, cs', rfl, -, hc, -⟩ := h.exists_cons
    exact ⟨c, cs' ++ more, skipBlanks_value hbefore h, hc⟩
  cases h with
  | last hbefore h _ =>
    have hitem := hfirst hbefore h
    simp only [List.append_assoc] at hitem ⊢
    exact hitem _
  | more hbefore h _ _ =>
    have hitem := hfirst hbefore h
    simp only [List.append_assoc] at hitem ⊢
    exact hitem _

/-- The first member does not start with the brace that closes the object. -/
theorem MembersText.exists_cons {members : List (JsonString × Json)} {cs : List Char}
    (h : MembersText members cs) (rest : List Char) :
    ∃ c cs', skipBlanks (cs ++ rest) = c :: cs' ∧ c ≠ '}' := by
  have hfirst {name : JsonString} {key : List Char} (hname : NameText name key)
      (more : List Char) : ∃ c cs', skipBlanks (key ++ more) = c :: cs' ∧ c ≠ '}' := by
    obtain ⟨blanks, inner, after, hblanks, -, -, rfl⟩ := hname
    refine ⟨'"', inner ++ '"' :: after ++ more, ?_, by decide⟩
    simp only [List.append_assoc, List.cons_append]
    exact skipBlanks_front hblanks fun c hc => by cases hc; rfl
  cases h with
  | last hname _ _ _ =>
    have hmember := hfirst hname
    simp only [List.append_assoc]
    exact hmember _
  | more hname _ _ _ _ =>
    have hmember := hfirst hname
    simp only [List.append_assoc]
    exact hmember _

theorem readValue_array {fuel : Nat} {items : List Json} {cs cs' rest : List Char}
    (hcs : skipBlanks cs = '[' :: cs') (hfirst : ∃ c cs'', skipBlanks cs' = c :: cs'' ∧ c ≠ ']')
    (hread : readItems fuel cs' = some (items, rest)) :
    readValue (fuel + 1) cs = some (array items, rest) := by
  obtain ⟨c, cs'', hskip, hc⟩ := hfirst
  rw [← readItems_skipBlanks, hskip] at hread
  simp only [readValue, hcs, hskip]
  split
  · next heq => exact absurd (List.cons.inj heq).1 hc
  · rw [hread]
    rfl

theorem readValue_object {fuel : Nat} {members : List (JsonString × Json)} {cs cs' rest : List Char}
    (hcs : skipBlanks cs = '{' :: cs') (hfirst : ∃ c cs'', skipBlanks cs' = c :: cs'' ∧ c ≠ '}')
    (hread : readMembers fuel cs' = some (members, rest)) :
    readValue (fuel + 1) cs = some (object members, rest) := by
  obtain ⟨c, cs'', hskip, hc⟩ := hfirst
  rw [← readMembers_skipBlanks, hskip] at hread
  simp only [readValue, hcs, hskip]
  split
  · next heq => exact absurd (List.cons.inj heq).1 hc
  · rw [hread]
    rfl

/-- What follows a value among others ends a number. -/
theorem EndsNumber.separator {after rest : List Char} {c : Char} (hafter : Blanks after)
    (hc : c = ',' ∨ c = ']' ∨ c = '}') : EndsNumber (after ++ c :: rest) := by
  refine EndsNumber.blanks hafter ?_
  rcases hc with rfl | rfl | rfl
  all_goals exact EndsNumber.cons (by decide) (by decide) (by decide)

theorem skipBlanks_separator {after rest : List Char} {c : Char} (hafter : Blanks after)
    (hc : c = ',' ∨ c = ']' ∨ c = '}') : skipBlanks (after ++ c :: rest) = c :: rest := by
  refine skipBlanks_front hafter fun d hd => ?_
  obtain rfl := Option.some.inj hd
  rcases hc with rfl | rfl | rfl <;> decide

/-- A name and the colon after it are passed over. -/
theorem readName_front {name : JsonString} {key : List Char} (h : NameText name key)
    (rest : List Char) :
    ∃ cs after, skipBlanks (key ++ ':' :: rest) = '"' :: cs ∧
      readString cs = some (name, after) ∧ skipBlanks after = ':' :: rest := by
  obtain ⟨blanks, inner, after, hblanks, hinner, hafter, rfl⟩ := h
  refine ⟨inner ++ '"' :: (after ++ ':' :: rest), after ++ ':' :: rest, ?_,
    readString_front hinner _, ?_⟩
  · simp only [List.append_assoc, List.cons_append]
    exact skipBlanks_front hblanks fun c hc => by cases hc; rfl
  · exact skipBlanks_front hafter fun c hc => by cases hc; rfl

mutual

/-- **A value is read from its text**, whatever follows, if that does not go on with a number. -/
theorem readValue_front : {v : Json} → {cs : List Char} → ValueText v cs →
    ∀ {before rest : List Char} {fuel : Nat}, Blanks before → EndsNumber rest →
      2 * cs.length ≤ fuel + 1 → readValue fuel (before ++ cs ++ rest) = some (v, rest)
  | _, cs, h, before, rest, 0, hbefore, hrest, hfuel => by
    obtain ⟨c, cs', rfl, -⟩ := h.exists_cons
    simp only [List.length_cons] at hfuel
    omega
  | _, _, .ofNull, before, rest, fuel + 1, hbefore, _, _ => by
    rw [readValue, skipBlanks_value hbefore .ofNull]
    rfl
  | _, _, .ofTrue, before, rest, fuel + 1, hbefore, _, _ => by
    rw [readValue, skipBlanks_value hbefore .ofTrue]
    rfl
  | _, _, .ofFalse, before, rest, fuel + 1, hbefore, _, _ => by
    rw [readValue, skipBlanks_value hbefore .ofFalse]
    rfl
  | _, cs, .ofNumber h, before, rest, fuel + 1, hbefore, hrest, _ => by
    have hskip : skipBlanks (before ++ cs ++ rest) = cs ++ rest :=
      skipBlanks_value hbefore (.ofNumber h)
    have hread := readNumber_front h hrest
    obtain ⟨c, cs', rfl, hc⟩ := h.exists_cons
    rw [readValue_number hskip hc]
    exact hread
  | _, _, .ofString h, before, rest, fuel + 1, hbefore, _, _ => by
    rw [readValue, skipBlanks_value hbefore (.ofString h)]
    simp only [List.cons_append, List.append_assoc, List.nil_append, readString_front h]
    rfl
  | _, _, @ValueText.ofEmptyArray blanks hblanks, before, rest, fuel + 1, hbefore, _, _ => by
    have hclose : skipBlanks (blanks ++ ']' :: rest) = ']' :: rest :=
      skipBlanks_separator hblanks (.inr (.inl rfl))
    rw [readValue, skipBlanks_value hbefore (.ofEmptyArray hblanks)]
    simp only [List.cons_append, List.append_assoc, List.nil_append, hclose]
  | _, _, .ofArray h, before, rest, fuel + 1, hbefore, _, hfuel => by
    simp only [List.length_cons] at hfuel
    exact readValue_array (skipBlanks_value hbefore (.ofArray h)) (h.exists_cons rest)
      (readItems_front h rest (by omega))
  | _, _, @ValueText.ofEmptyObject blanks hblanks, before, rest, fuel + 1, hbefore, _, _ => by
    have hclose : skipBlanks (blanks ++ '}' :: rest) = '}' :: rest :=
      skipBlanks_separator hblanks (.inr (.inr rfl))
    rw [readValue, skipBlanks_value hbefore (.ofEmptyObject hblanks)]
    simp only [List.cons_append, List.append_assoc, List.nil_append, hclose]
  | _, _, .ofObject h, before, rest, fuel + 1, hbefore, _, hfuel => by
    simp only [List.length_cons] at hfuel
    exact readValue_object (skipBlanks_value hbefore (.ofObject h)) (h.exists_cons rest)
      (readMembers_front h rest (by omega))

/-- The items of an array are read one after the other up to the bracket. -/
theorem readItems_front : {items : List Json} → {cs : List Char} → ItemsText items cs →
    ∀ (rest : List Char) {fuel : Nat}, 2 * cs.length ≤ fuel →
      readItems fuel (cs ++ rest) = some (items, rest)
  | _, cs, h, rest, 0, hfuel => by
    have hne : cs ≠ [] := by cases h <;> simp
    have hpos := List.length_pos_iff.2 hne
    omega
  | _, _, @ItemsText.last v before cs after hbefore h hafter, rest, fuel + 1, hfuel => by
    simp only [List.length_append, List.length_cons, List.length_nil] at hfuel
    have hclose : skipBlanks (after ++ ']' :: rest) = ']' :: rest :=
      skipBlanks_separator hafter (.inr (.inl rfl))
    have hread : readValue fuel (before ++ cs ++ (after ++ ']' :: rest)) =
        some (v, after ++ ']' :: rest) :=
      readValue_front h hbefore (.separator hafter (.inr (.inl rfl))) (by omega)
    simp only [List.append_assoc] at hread
    simp only [List.append_assoc, List.cons_append, List.nil_append, readItems, hread,
      Option.bind_eq_bind, Option.bind_some, hclose]
    rfl
  | _, _, @ItemsText.more v items before cs after cs' hbefore h hafter hmore, rest, fuel + 1,
      hfuel => by
    simp only [List.length_append, List.length_cons] at hfuel
    have hcomma : skipBlanks (after ++ ',' :: (cs' ++ rest)) = ',' :: (cs' ++ rest) :=
      skipBlanks_separator hafter (.inl rfl)
    have hread : readValue fuel (before ++ cs ++ (after ++ ',' :: (cs' ++ rest))) =
        some (v, after ++ ',' :: (cs' ++ rest)) :=
      readValue_front h hbefore (.separator hafter (.inl rfl)) (by omega)
    have hrest : readItems fuel (cs' ++ rest) = some (items, rest) :=
      readItems_front hmore rest (by omega)
    simp only [List.append_assoc] at hread
    simp only [List.append_assoc, List.cons_append, readItems, hread, Option.bind_eq_bind,
      Option.bind_some, hcomma, hrest]
    rfl

/-- The members of an object are read one after the other up to the brace. -/
theorem readMembers_front : {members : List (JsonString × Json)} → {cs : List Char} →
    MembersText members cs → ∀ (rest : List Char) {fuel : Nat}, 2 * cs.length ≤ fuel →
      readMembers fuel (cs ++ rest) = some (members, rest)
  | _, cs, h, rest, 0, hfuel => by
    have hne : cs ≠ [] := by cases h <;> simp
    have hpos := List.length_pos_iff.2 hne
    omega
  | _, _, @MembersText.last name v key before cs after hname hbefore h hafter, rest, fuel + 1,
      hfuel => by
    simp only [List.length_append, List.length_cons, List.length_nil] at hfuel
    have hclose : skipBlanks (after ++ '}' :: rest) = '}' :: rest :=
      skipBlanks_separator hafter (.inr (.inr rfl))
    have hread : readValue fuel (before ++ cs ++ (after ++ '}' :: rest)) =
        some (v, after ++ '}' :: rest) :=
      readValue_front h hbefore (.separator hafter (.inr (.inr rfl))) (by omega)
    obtain ⟨inner, behind, hquote, hstring, hcolon⟩ :=
      readName_front hname (before ++ (cs ++ (after ++ '}' :: rest)))
    simp only [List.append_assoc] at hread
    simp only [List.append_assoc, List.cons_append, List.nil_append, readMembers, hquote, hstring,
      hcolon, hread, Option.bind_eq_bind, Option.bind_some, hclose]
    rfl
  | _, _, @MembersText.more name v members key before cs after cs' hname hbefore h hafter hmore,
      rest, fuel + 1, hfuel => by
    simp only [List.length_append, List.length_cons] at hfuel
    have hcomma : skipBlanks (after ++ ',' :: (cs' ++ rest)) = ',' :: (cs' ++ rest) :=
      skipBlanks_separator hafter (.inl rfl)
    have hread : readValue fuel (before ++ cs ++ (after ++ ',' :: (cs' ++ rest))) =
        some (v, after ++ ',' :: (cs' ++ rest)) :=
      readValue_front h hbefore (.separator hafter (.inl rfl)) (by omega)
    have hrest : readMembers fuel (cs' ++ rest) = some (members, rest) :=
      readMembers_front hmore rest (by omega)
    obtain ⟨inner, behind, hquote, hstring, hcolon⟩ :=
      readName_front hname (before ++ (cs ++ (after ++ ',' :: (cs' ++ rest))))
    simp only [List.append_assoc] at hread
    simp only [List.append_assoc, List.cons_append, readMembers, hquote, hstring, hcolon, hread,
      Option.bind_eq_bind, Option.bind_some, hcomma, hrest]
    rfl

end

/-- **Every text that stands for a value is read to it.** -/
theorem ofText?_of_textOf {v : Json} {cs : List Char} (h : TextOf v cs) :
    ofText? (String.ofList cs) = some v := by
  obtain ⟨before, inner, after, hbefore, hinner, hafter, rfl⟩ := h
  have hend : EndsNumber after := by
    have hblanks := EndsNumber.blanks hafter EndsNumber.nil
    rwa [List.append_nil] at hblanks
  have hfuel : 2 * inner.length ≤ 2 * (before ++ inner ++ after).length + 2 + 1 := by
    simp only [List.length_append]
    omega
  have hskip : skipBlanks after = [] := List.dropWhile_eq_nil_iff.2 hafter
  rw [ofText?, String.toList_ofList, readValue_front hinner hbefore hend hfuel]
  simp [hskip]

end Statechart.Json
