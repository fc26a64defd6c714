import Statechart.Proofs.Number.Digits
import Statechart.Proofs.Text.Units
import Statechart.Source.Escape
import Statechart.Source.Lexeme

/-!
# Escapes of a module

The escapes that may stand in a string or a template of a module, with the code units that they
stand for. Main statements: where such an escape is read, it is read whole; the text that is decoded
from it has those units, unless it names a surrogate or joins two lines at a separator of lines or
paragraphs, and then that text has more units.
-/

namespace Statechart.Source

open Text Numeral

/-! ## 1. Escapes and their units -/

namespace Escape

/-- The letters that are short for a character; a zero is one of them. -/
def shorts : List (Char × Char) :=
  [('b', '\x08'), ('t', '\t'), ('n', '\n'), ('v', '\x0b'), ('f', '\x0c'), ('r', '\r'),
   ('0', '\x00')]

/-- The ways to end a line. -/
def lineEnds : List (List Char) := [['\n'], ['\r'], ['\r', '\n'], ['\u2028'], ['\u2029']]

/-- The line ends that are no control characters: the separators of lines and of paragraphs. -/
def separators : List (List Char) := [['\u2028'], ['\u2029']]

/-- The character stands for itself after a backslash. -/
def Ordinary (c : Char) : Prop :=
  c.isDigit = false ∧ c ∉ ['b', 't', 'n', 'v', 'f', 'r', 'x', 'u'] ∧ c ≠ '\r' ∧
    isLineEnd c = false

/-- What stands after the backslash of an escape for the code point of a number: two digits, four
digits, or any digits in braces. -/
inductive NumberText : Nat → List Char → Prop
  | two {ds : List Nat} {cs : List Char} (h : AreDigits 16 cs ds) (hlength : cs.length = 2) :
      NumberText (ofDigits 16 ds) ('x' :: cs)
  | four {ds : List Nat} {cs : List Char} (h : AreDigits 16 cs ds) (hlength : cs.length = 4) :
      NumberText (ofDigits 16 ds) ('u' :: cs)
  | braced {ds : List Nat} {cs : List Char} (h : AreDigits 16 cs ds) (hne : cs ≠ [])
      (hmax : ofDigits 16 ds < 0x110000) :
      NumberText (ofDigits 16 ds) ('u' :: '{' :: cs ++ ['}'])

/-- **What stands after the backslash of an escape for the code units.** -/
inductive BodyText : List Nat → List Char → Prop
  | short {letter c : Char} (h : (letter, c) ∈ shorts) : BodyText [c.toNat] [letter]
  | number {n : Nat} {cs : List Char} (h : NumberText n cs) : BodyText (unitsOfCode n) cs
  | ordinary {c : Char} (h : Ordinary c) : BodyText (unitsOfCode c.toNat) [c]
  /-- Two lines are joined. -/
  | lineEnd {cs : List Char} (h : cs ∈ lineEnds) : BodyText [] cs

end Escape

/-- An escape that a module may hold. -/
structure LegalEscape where
  /-- What stands after the backslash. -/
  body : List Char
  units : List Nat
  spelled : Escape.BodyText units body

namespace LegalEscape

/-- The text of an escape. -/
def text (e : LegalEscape) : List Char := '\\' :: e.body

/-- **The escape is misread**: it names a surrogate by its number, or joins two lines at a
separator. -/
def Misread (e : LegalEscape) : Prop :=
  (∃ n, e.units = [n] ∧ 0xD800 ≤ n ∧ n < 0xE000) ∨ e.body ∈ Escape.separators

end LegalEscape

/-! ## 2. Decoding -/

namespace Escape

/-- Two characters at least are an escape by number, and the first of them ends no line. -/
theorem exists_of_hexDigits? {body cs : List Char} (h : hexDigits? body = some cs) (hne : cs ≠ []) :
    ∃ c d rest, body = c :: d :: rest ∧ c ≠ '\n' ∧ c ≠ '\r' := by
  have hrest {rest : List Char} (h : some rest = some cs) : ∃ d after, rest = d :: after := by
    obtain rfl := Option.some.inj h
    exact List.exists_cons_of_ne_nil hne
  unfold hexDigits? at h
  split at h
  · next rest => exact ⟨'u', '{', rest, rfl, by decide, by decide⟩
  · obtain ⟨d, after, rfl⟩ := hrest h
    exact ⟨'u', d, after, rfl, by decide, by decide⟩
  · obtain ⟨d, after, rfl⟩ := hrest h
    exact ⟨'x', d, after, rfl, by decide, by decide⟩
  · cases h

theorem hexDigits?_of_areDigits {cs : List Char} {ds : List Nat} (h : AreDigits 16 cs ds) :
    hexDigits? ('u' :: cs) = some cs := by
  unfold hexDigits?
  split
  · next heq =>
    obtain rfl := (List.cons.inj heq).2
    obtain ⟨d, _, hd, -⟩ := List.forall₂_cons_left_iff.1 h
    cases hd
  · next heq => rw [(List.cons.inj heq).2]
  · next heq => cases (List.cons.inj heq).1
  · next hnone _ => exact absurd rfl (hnone cs)

/-- **The digits of an escape by number** are found, whatever stands around them. -/
theorem NumberText.exists_digits {n : Nat} {body : List Char} (h : NumberText n body) :
    n < 0x110000 ∧ ∃ cs ds, hexDigits? body = some cs ∧ cs ≠ [] ∧ AreDigits 16 cs ds ∧
      n = ofDigits 16 ds := by
  cases h with
  | @two ds cs h hlength =>
    have hlt := ofDigits_lt h
    rw [hlength] at hlt
    exact ⟨by omega, cs, ds, rfl, List.ne_nil_of_length_pos (by omega), h, rfl⟩
  | @four ds cs h hlength =>
    have hlt := ofDigits_lt h
    rw [hlength] at hlt
    exact ⟨by omega, cs, ds, hexDigits?_of_areDigits h, List.ne_nil_of_length_pos (by omega), h,
      rfl⟩
  | @braced ds cs h hne hmax =>
    have hdigits : hexDigits? ('u' :: '{' :: cs ++ ['}']) = some cs := by simp [hexDigits?]
    exact ⟨hmax, cs, ds, hdigits, hne, h, rfl⟩

/-- An escape by number is decoded to its character, and without one to what stands there. -/
theorem NumberText.decodeBody_eq {n : Nat} {body : List Char} (h : NumberText n body) :
    2 ≤ body.length ∧ decodeBody body = ((char? n).map fun c => [c]).getD body := by
  obtain ⟨-, cs, ds, hbody, hne, hdigits, rfl⟩ := h.exists_digits
  have hnumber : numbered? body = char? (ofDigits 16 ds) := by
    rw [numbered?, hbody, Option.bind_some, natural?_of_areDigits hne hdigits, Option.bind_some]
  obtain ⟨c, d, rest, rfl, hline, hreturn⟩ := exists_of_hexDigits? hbody hne
  have hkeep : (c :: d :: rest).dropWhile (fun c => c = '\n' || c = '\r') = c :: d :: rest :=
    List.dropWhile_cons_of_neg (by simp [hline, hreturn])
  refine ⟨by simp, ?_⟩
  unfold decodeBody
  dsimp only
  rw [Option.none_or, hnumber, hkeep]
  cases char? (ofDigits 16 ds) <;> rfl

theorem decodeBody_of_ordinary {c : Char} (h : Ordinary c) : decodeBody [c] = [c] := by
  obtain ⟨hdigit, hletter, hreturn, hline⟩ := h
  simp only [List.mem_cons, List.not_mem_nil, or_false, not_or] at hletter
  have hshort : short? c = none := by
    unfold short?
    split <;> simp_all
  have hnumber : numbered? [c] = none := by
    unfold numbered? hexDigits?
    split <;> simp_all
  have hkeep : [c].dropWhile (fun c => c = '\n' || c = '\r') = [c] := by
    simp only [isLineEnd, Bool.or_eq_false_iff, decide_eq_false_iff_not] at hline
    exact List.dropWhile_cons_of_neg (by simp [hline, hreturn])
  unfold decodeBody
  dsimp only
  rw [hshort, hnumber, hkeep]
  rfl

/-- **What is decoded, in three cases:** an escape by number, one of another character, and two
joined lines. -/
theorem BodyText.decoded {us : List Nat} {body : List Char} (h : BodyText us body) :
    (∃ n, n < 0x110000 ∧ us = unitsOfCode n ∧ 2 ≤ body.length ∧
        decodeBody body = ((char? n).map fun c => [c]).getD body) ∨
      (∃ c : Char, us = unitsOfCode c.toNat ∧ body ∉ separators ∧ decodeBody body = [c]) ∨
      (us = [] ∧ decodeBody body = if body ∈ separators then body else []) := by
  cases h with
  | @short letter c h =>
    have hall : ∀ p ∈ shorts, p.2.toNat < 0x10000 ∧ [p.1] ∉ separators ∧
      decodeBody [p.1] = [p.2] := by decide
    obtain ⟨hlt, hseparator, hdecoded⟩ := hall _ h
    exact .inr (.inl ⟨c, (unitsOfCode_of_lt hlt).symm, hseparator, hdecoded⟩)
  | number h => exact .inl ⟨_, h.exists_digits.1, rfl, h.decodeBody_eq⟩
  | @ordinary c h =>
    have hseparator : [c] ∉ separators := by
      intro hmem
      have hall : ∀ cs ∈ separators, cs.any isLineEnd = true := by decide
      have hline := hall _ hmem
      simp [h.2.2.2] at hline
    exact .inr (.inl ⟨c, rfl, hseparator, decodeBody_of_ordinary h⟩)
  | lineEnd h =>
    have hall : ∀ cs ∈ lineEnds, decodeBody cs = if cs ∈ separators then cs else [] := by decide
    exact .inr (.inr ⟨rfl, hall _ h⟩)

end Escape

namespace LegalEscape

variable {e : LegalEscape}

/-- The text that is decoded from the escape. -/
def decoded (e : LegalEscape) : List Char := Escape.decodeBody e.body

/-- **An escape that is not misread is decoded to text with its units.** -/
theorem utf16_decoded (h : ¬ e.Misread) : utf16 e.decoded = e.units := by
  unfold decoded
  obtain ⟨n, hmax, hunits, -, hdecoded⟩ | ⟨c, hunits, -, hdecoded⟩ | ⟨hunits, hdecoded⟩ :=
    e.spelled.decoded
  · have hsome : char? n ≠ none := by
      intro hnone
      have hsurrogate := char?_eq_none_iff.1 hnone
      rw [unitsOfCode_of_lt (by omega)] at hunits
      exact h (.inl ⟨n, hunits, by omega⟩)
    obtain ⟨c, hc⟩ := Option.ne_none_iff_exists'.1 hsome
    rw [hdecoded, hunits, hc, toNat_of_char? hc]
    exact utf16_singleton c
  · rw [hdecoded, hunits]
    exact utf16_singleton c
  · rw [hdecoded, hunits, if_neg fun hmem => h (.inr hmem)]
    rfl

/-- **An escape that is misread is decoded to text with more units.** -/
theorem length_lt_length_utf16 (h : e.Misread) : e.units.length < (utf16 e.decoded).length := by
  unfold decoded
  obtain ⟨n, hmax, hunits, hlength, hdecoded⟩ | ⟨c, hunits, hbody, hdecoded⟩ |
    ⟨hunits, hdecoded⟩ := e.spelled.decoded
  · have hsurrogate : e.units.length = 1 ∧ char? n = none := by
      obtain ⟨m, hm, hrange⟩ | hmem := h
      · obtain rfl := eq_of_unitsOfCode (hunits.symm.trans hm)
        exact ⟨by rw [hm]; rfl, char?_eq_none_iff.2 (.inl hrange)⟩
      · have hall : ∀ cs ∈ Escape.separators, cs.length = 1 := by decide
        have hone := hall _ hmem
        omega
    rw [hdecoded, hsurrogate.2, hsurrogate.1]
    exact Nat.lt_of_lt_of_le hlength (length_le_length_utf16 e.body)
  · obtain ⟨m, hm, hrange⟩ | hmem := h
    · obtain rfl := eq_of_unitsOfCode (hunits.symm.trans hm)
      cases (char?_toNat c).symm.trans (char?_eq_none_iff.2 (.inl hrange))
    · exact absurd hmem hbody
  · obtain ⟨m, hm, -⟩ | hmem := h
    · cases hm.symm.trans hunits
    · have hall : ∀ cs ∈ Escape.separators, 0 < (utf16 cs).length := by decide
      rw [hdecoded, if_pos hmem, hunits]
      exact hall _ hmem

end LegalEscape

/-! ## 3. Reading -/

theorem isHex_of_digit? {c : Char} {d : Nat} (h : digit? 16 c = some d) : isHex c = true := by
  simp only [digit?, Option.ite_none_right_eq_some] at h
  obtain ⟨hlt, -⟩ := h
  have hle {a : Char} (h : c.toNat ≤ a.toNat) : c ≤ a := UInt32.le_iff_toNat_le.2 h
  by_cases hdigit : c.isDigit = true
  · rw [isHex, hdigit]
    rfl
  rw [if_neg hdigit] at hlt
  by_cases hlower : ('a' ≤ c && c ≤ 'z') = true
  · rw [if_pos hlower] at hlt
    have hfirst : 'a' ≤ c := by simp_all
    have hlast : c ≤ 'f' := hle (show c.toNat ≤ 102 by
      have ha : 'a'.toNat = 97 := rfl
      omega)
    simp [isHex, hfirst, hlast]
  rw [if_neg hlower] at hlt
  by_cases hupper : ('A' ≤ c && c ≤ 'Z') = true
  · rw [if_pos hupper] at hlt
    have hfirst : 'A' ≤ c := by simp_all
    have hlast : c ≤ 'F' := hle (show c.toNat ≤ 70 by
      have ha : 'A'.toNat = 65 := rfl
      omega)
    simp [isHex, hfirst, hlast]
  rw [if_neg hupper] at hlt
  exact absurd hlt (Nat.lt_irrefl 16)

theorem forall_isHex {cs : List Char} {ds : List Nat} (h : AreDigits 16 cs ds) :
    ∀ c ∈ cs, isHex c = true := by
  induction h with
  | nil => exact List.forall_mem_nil _
  | cons hd _ ih => exact List.forall_mem_cons.2 ⟨isHex_of_digit? hd, ih⟩

theorem isOctal_of_not_isDigit {c : Char} (h : c.isDigit = false) : isOctal c = false := by
  cases hc : isOctal c with
  | false => rfl
  | true =>
    rw [isOctal, Bool.and_eq_true, decide_eq_true_eq, decide_eq_true_eq] at hc
    have hfirst : 48 ≤ c.toNat := UInt32.le_iff_toNat_le.1 hc.1
    have hlast : c.toNat ≤ 55 := UInt32.le_iff_toNat_le.1 hc.2
    have hdigit : c.isDigit = true := Char.isDigit_iff_toNat.2 ⟨hfirst, by
      have h9 : '9'.toNat = 57 := rfl
      omega⟩
    cases h.symm.trans hdigit

namespace Lexeme

open Escape

/-- After most characters nothing else belongs to an escape. -/
theorem readEscape_of_ne {c : Char} (hx : c ≠ 'x') (hu : c ≠ 'u') (rest : List Char) :
    readEscape ('\\' :: c :: rest) =
      if (c = '\r' || c = '?') && rest.head?.any isLineEnd then
        some ('\\' :: c :: rest.take 1, rest.drop 1)
      else if isOctal c then
        some ('\\' :: c :: (rest.take 2).takeWhile isOctal,
          rest.drop ((rest.take 2).takeWhile isOctal).length)
      else some (['\\', c], rest) := by
  unfold readEscape
  split <;> simp_all

theorem readEscape_two {a b : Char} (rest : List Char) (ha : isHex a = true) (hb : isHex b = true) :
    readEscape ('\\' :: 'x' :: a :: b :: rest) = some (['\\', 'x', a, b], rest) := by
  rw [readEscape, ha, hb]
  rfl

theorem readEscape_four {a b c d : Char} (rest : List Char) (ha : isHex a = true)
    (hb : isHex b = true) (hc : isHex c = true) (hd : isHex d = true) :
    readEscape ('\\' :: 'u' :: a :: b :: c :: d :: rest) =
      some (['\\', 'u', a, b, c, d], rest) := by
  have hne (h : a = '{') : False := by
    rw [h] at ha
    cases ha
  rw [readEscape, ha, hb, hc, hd]
  · rfl
  · exact hne

theorem readEscape_braced {cs : List Char} (rest : List Char) (hne : cs ≠ [])
    (h : ∀ c ∈ cs, isHex c = true) :
    readEscape ('\\' :: 'u' :: '{' :: (cs ++ '}' :: rest)) =
      some ('\\' :: 'u' :: '{' :: cs ++ ['}'], rest) := by
  have hend : ∀ c, ('}' :: rest).head? = some c → isHex c = false := by
    intro c hc
    obtain rfl := Option.some.inj hc
    rfl
  have hempty : cs.isEmpty = false := by simpa using hne
  rw [readEscape, takeWhile_front h hend, dropWhile_front h hend]
  show (if cs.isEmpty = true then _ else _) = _
  rw [hempty]
  rfl

/-- How an escape is taken from the front of a text: alone, or with a line end that follows a
carriage return or a question mark. -/
inductive Taken (body next : List Char) : Prop
  | alone (h : readEscape ('\\' :: body ++ next) = some ('\\' :: body, next))
  | joined {d : Char} {rest : List Char} (hnext : next = d :: rest) (hd : isLineEnd d = true)
      (hbody : body = ['\r'] ∧ d ≠ '\n' ∨ body = ['?'])
      (h : readEscape ('\\' :: body ++ next) = some ('\\' :: body ++ [d], rest))

theorem taken_of_ne {c : Char} {next : List Char} (hx : c ≠ 'x') (hu : c ≠ 'u')
    (hoctal : isOctal c = true → ∀ d, next.head? = some d → isOctal d = false)
    (hreturn : c = '\r' → next.head? ≠ some '\n') : Taken [c] next := by
  have hread := readEscape_of_ne hx hu next
  split at hread
  · next hjoined =>
    rw [Bool.and_eq_true, Bool.or_eq_true, decide_eq_true_eq, decide_eq_true_eq] at hjoined
    obtain ⟨hc, hnext⟩ := hjoined
    cases next with
    | nil => cases hnext
    | cons d rest =>
      refine .joined rfl hnext ?_ hread
      obtain rfl | rfl := hc
      · exact .inl ⟨rfl, fun hd => hreturn rfl (congrArg some hd)⟩
      · exact .inr rfl
  · split at hread
    · next hc =>
      have hnone : (next.take 2).takeWhile isOctal = [] := by
        cases next with
        | nil => rfl
        | cons d rest => exact List.takeWhile_cons_of_neg (by simp [hoctal hc d rfl])
      rw [hnone] at hread
      exact .alone hread
    · exact .alone hread

theorem taken_of_numberText {n : Nat} {body : List Char} (h : NumberText n body)
    (next : List Char) : Taken body next := by
  cases h with
  | @two ds cs h hlength =>
    obtain ⟨a, b, rfl⟩ := List.length_eq_two.1 hlength
    have hhex := forall_isHex h
    exact .alone (readEscape_two next (hhex a (by simp)) (hhex b (by simp)))
  | @four ds cs h hlength =>
    match cs, hlength with
    | [a, b, c, d], _ =>
      have hhex := forall_isHex h
      exact .alone (readEscape_four next (hhex a (by simp)) (hhex b (by simp)) (hhex c (by simp))
        (hhex d (by simp)))
  | @braced ds cs h hne hmax =>
    have htext : '\\' :: ('u' :: '{' :: cs ++ ['}']) ++ next =
        '\\' :: 'u' :: '{' :: (cs ++ '}' :: next) := by simp
    refine .alone ?_
    rw [htext]
    exact readEscape_braced next hne (forall_isHex h)

/-- **A legal escape is taken whole**, where no digit follows a zero and no line feed follows a
carriage return. -/
theorem taken_of_bodyText {us : List Nat} {body next : List Char} (h : BodyText us body)
    (hzero : body = ['0'] → ∀ d, next.head? = some d → d.isDigit = false)
    (hreturn : body = ['\r'] → next.head? ≠ some '\n') : Taken body next := by
  cases h with
  | @short letter c h =>
    have hall : ∀ p ∈ shorts, p.1 ≠ 'x' ∧ p.1 ≠ 'u' ∧ (isOctal p.1 = true → p.1 = '0') := by
      decide
    obtain ⟨hx, hu, hoctal⟩ := hall _ h
    refine taken_of_ne hx hu (fun hc d hd => ?_) fun hc => hreturn (congrArg (fun c => [c]) hc)
    obtain rfl := hoctal hc
    exact isOctal_of_not_isDigit (hzero rfl d hd)
  | number h => exact taken_of_numberText h next
  | @ordinary c h =>
    obtain ⟨hdigit, hletter, hline, -⟩ := h
    have hx : c ≠ 'x' := fun hc => hletter (by simp [hc])
    have hu : c ≠ 'u' := fun hc => hletter (by simp [hc])
    have hoctal := isOctal_of_not_isDigit hdigit
    exact taken_of_ne hx hu (fun hc => nomatch hoctal.symm.trans hc) fun hc => absurd hc hline
  | @lineEnd cs h =>
    simp only [lineEnds, List.mem_cons, List.not_mem_nil, or_false] at h
    obtain rfl | rfl | rfl | rfl | rfl := h
    · exact taken_of_ne (by decide) (by decide) nofun nofun
    · exact taken_of_ne (by decide) (by decide) nofun fun _ => hreturn rfl
    · exact .alone rfl
    · exact taken_of_ne (by decide) (by decide) nofun nofun
    · exact taken_of_ne (by decide) (by decide) nofun nofun

end Lexeme

/-- A line end that is taken with an escape stands for itself. -/
theorem Escape.decodeBody_joined {body : List Char} {d : Char} (hd : isLineEnd d = true)
    (hbody : body = ['\r'] ∧ d ≠ '\n' ∨ body = ['?']) :
    decodeBody (body ++ [d]) = decodeBody body ++ [d] := by
  have hends : d = '\n' ∨ d = '\u2028' ∨ d = '\u2029' := by
    simp only [isLineEnd, Bool.or_eq_true, decide_eq_true_eq] at hd
    obtain (h | h) | h := hd
    · exact .inl h
    · exact .inr (.inl (Char.toNat_inj.1 h))
    · exact .inr (.inr (Char.toNat_inj.1 h))
  obtain ⟨rfl, hne⟩ | rfl := hbody
  · obtain rfl | rfl | rfl := hends
    · exact absurd rfl hne
    · decide
    · decide
  · obtain rfl | rfl | rfl := hends <;> decide

end Statechart.Source
