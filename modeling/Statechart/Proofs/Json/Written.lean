import Statechart.Json.Writer
import Statechart.Proofs.Json.Grammar

/-!
# What is written follows the grammar

A value is written as a text that stands for it, if there is such a text at all. Main statement:
reading what is written gives the value again.
-/

namespace Statechart

/-! ## 1. Values that can be written -/

namespace Json

/-- A string can be written if its code points exist and nowhere the two halves of a pair come one
after the other: written by their numbers, they would be one code point. -/
def ProperCodes : JsonString → Prop
  | [] => True
  | n :: rest =>
    n < 0x110000 ∧ (IsHigh n → ∀ m, rest.head? = some m → ¬ IsLow m) ∧ ProperCodes rest

mutual

/-- **The value can be written**: its numbers are numbers, and its strings can be written. -/
def Proper : Json → Prop
  | number text => NumberText text.toList
  | string codes => ProperCodes codes
  | array items => ProperItems items
  | object members => ProperMembers members
  | _ => True

/-- All items can be written. -/
def ProperItems : List Json → Prop
  | [] => True
  | v :: rest => Proper v ∧ ProperItems rest

/-- The names and the values of all members can be written. -/
def ProperMembers : List (JsonString × Json) → Prop
  | [] => True
  | (name, v) :: rest => ProperCodes name ∧ Proper v ∧ ProperMembers rest

end

/-! ## 2. Code points -/

theorem digit?_hexDigit (n : Nat) : Numeral.digit? 16 (hexDigit n) = some (n % 16) := by
  have hall : ∀ k < 16, Numeral.digit? 16 (Nat.digitChar k) = some k := by decide
  exact hall (n % 16) (Nat.mod_lt n (by omega))

theorem unitText_hexUnit {n : Nat} (h : n < 0x10000) : UnitText (hexUnit n) n := by
  refine ⟨_, _, _, _, _, _, _, _, rfl, digit?_hexDigit _, digit?_hexDigit _, digit?_hexDigit _,
    digit?_hexDigit _, ?_⟩
  omega

theorem UnitText.unique {digits : List Char} {n m : Nat} (h : UnitText digits n)
    (h' : UnitText digits m) : n = m := by
  obtain ⟨a, b, c, d, rfl⟩ := h.exists_four
  exact Option.some.inj ((unit?_of_unitText h).symm.trans (unit?_of_unitText h'))

/-- A code point is written as a letter after a backslash, as itself or by its number. -/
theorem writeCode_cases {n : Nat} (h : n < 0x110000) :
    (∃ c, (c, n) ∈ letters ∧ writeCode n = ['\\', c]) ∨
      (∃ c : Char, n = c.toNat ∧ 0x20 ≤ c.toNat ∧ c ≠ '"' ∧ c ≠ '\\' ∧ writeCode n = [c]) ∨
      (n < 0x10000 ∧ writeCode n = '\\' :: 'u' :: hexUnit n) := by
  unfold writeCode
  split
  · exact .inl ⟨'"', by decide, rfl⟩
  · exact .inl ⟨'\\', by decide, rfl⟩
  · exact .inl ⟨'b', by decide, rfl⟩
  · exact .inl ⟨'t', by decide, rfl⟩
  · exact .inl ⟨'n', by decide, rfl⟩
  · exact .inl ⟨'f', by decide, rfl⟩
  · exact .inl ⟨'r', by decide, rfl⟩
  · next hquote hbackslash _ _ _ _ _ =>
    by_cases hcontrol : n < 0x20
    · rw [if_pos hcontrol]
      exact .inr (.inr ⟨by omega, rfl⟩)
    · rw [if_neg hcontrol]
      cases hc : Text.char? n with
      | some c =>
        have hn : n = c.toNat := Text.toNat_of_char? hc
        refine .inr (.inl ⟨c, hn, by omega, ?_, ?_, rfl⟩)
        · intro e
          exact hquote (by rw [hn, e]; rfl)
        · intro e
          exact hbackslash (by rw [hn, e]; rfl)
      | none =>
        have hsurrogate := Text.char?_eq_none_iff.1 hc
        exact .inr (.inr ⟨by omega, rfl⟩)

/-- What is written starts with the second half of a pair only if the string does. -/
theorem exists_low_of_startsLow {codes : JsonString} (h : ProperCodes codes)
    (hlow : StartsLow (codes.flatMap writeCode)) : ∃ n, codes.head? = some n ∧ IsLow n := by
  obtain ⟨digits, rest, low, htext, hdigits, hisLow⟩ := hlow
  cases codes with
  | nil => cases htext
  | cons n codes =>
    refine ⟨n, rfl, ?_⟩
    rw [List.flatMap_cons] at htext
    rcases writeCode_cases h.1 with ⟨c, hc, hwrite⟩ | ⟨c, -, -, -, hc, hwrite⟩ | ⟨hn, hwrite⟩
    · -- no letter stands for the mark of a number
      rw [hwrite] at htext
      have hu := (List.cons.inj (List.cons.inj htext).2).1
      exact absurd hu (escape?_of_letter hc).2
    · rw [hwrite] at htext
      exact absurd (List.cons.inj htext).1 hc
    · obtain ⟨a, b, c, d, rfl⟩ := hdigits.exists_four
      rw [hwrite] at htext
      have hsame : hexUnit n = [a, b, c, d] := by
        simp only [hexUnit, List.cons_append, List.nil_append, List.cons.injEq] at htext ⊢
        exact ⟨htext.2.2.1, htext.2.2.2.1, htext.2.2.2.2.1, htext.2.2.2.2.2.1, trivial⟩
      have hunit := unitText_hexUnit hn
      rw [hsame] at hunit
      rw [hunit.unique hdigits]
      exact hisLow

theorem stringText_write {codes : JsonString} (h : ProperCodes codes) :
    StringText codes (codes.flatMap writeCode) := by
  induction codes with
  | nil => exact .nil
  | cons n codes ih =>
    obtain ⟨hn, halone, hrest⟩ := h
    have htext := ih hrest
    rw [List.flatMap_cons]
    rcases writeCode_cases hn with ⟨c, hc, hwrite⟩ | ⟨c, rfl, hcontrol, hquote, hback, hwrite⟩ |
      ⟨hlt, hwrite⟩
    · rw [hwrite]
      exact .letter hc htext
    · rw [hwrite]
      exact .plain hcontrol hquote hback htext
    · rw [hwrite]
      refine .number (unitText_hexUnit hlt) (fun hhigh hlow => ?_) htext
      obtain ⟨m, hm, hisLow⟩ := exists_low_of_startsLow hrest hlow
      exact halone hhigh m hm hisLow

/-! ## 3. Values -/

theorem Blanks.nil : Blanks [] := List.forall_mem_nil _

theorem nameText_write {name : JsonString} (h : ProperCodes name) :
    NameText name (writeString name) := by
  refine ⟨[], name.flatMap writeCode, [], .nil, stringText_write h, .nil, ?_⟩
  rw [writeString, List.nil_append]

mutual

/-- **What is written stands for the value.** -/
theorem valueText_write : (v : Json) → v.Proper → ValueText v v.write
  | .null, _ => .ofNull
  | .bool true, _ => .ofTrue
  | .bool false, _ => .ofFalse
  | .number text, h => by
    have hnumber := ValueText.ofNumber (show NumberText text.toList from h)
    rwa [String.ofList_toList] at hnumber
  | .string codes, h => by
    rw [write, writeString]
    exact .ofString (stringText_write h)
  | .array [], _ => .ofEmptyArray .nil
  | .array (v :: items), h => by
    rw [write, writeItems]
    exact .ofArray (itemsText_write v items h.1 h.2)
  | .object [], _ => .ofEmptyObject .nil
  | .object ((name, v) :: members), h => by
    rw [write, writeMembers]
    exact .ofObject (membersText_write name v members h.1 h.2.1 h.2.2)
termination_by v => sizeOf v

theorem itemsText_write : (v : Json) → (items : List Json) → v.Proper → ProperItems items →
    ItemsText (v :: items) (v.write ++ writeMoreItems items)
  | v, [], hv, _ => by
    have htext := ItemsText.last .nil (valueText_write v hv) .nil
    rw [List.nil_append, List.append_nil] at htext
    exact htext
  | v, w :: items, hv, h => by
    have hrest := itemsText_write w items h.1 h.2
    have htext := ItemsText.more .nil (valueText_write v hv) .nil hrest
    rw [List.nil_append, List.append_nil] at htext
    rw [writeMoreItems]
    exact htext
termination_by v items => sizeOf (v :: items)

theorem membersText_write : (name : JsonString) → (v : Json) →
    (members : List (JsonString × Json)) → ProperCodes name → v.Proper → ProperMembers members →
    MembersText ((name, v) :: members)
      (writeString name ++ ':' :: v.write ++ writeMoreMembers members)
  | name, v, [], hname, hv, _ => by
    have htext := MembersText.last (nameText_write hname) .nil (valueText_write v hv) .nil
    simp only [List.append_assoc, List.cons_append, List.nil_append] at htext ⊢
    exact htext
  | name, v, (name', v') :: members, hname, hv, h => by
    have hrest := membersText_write name' v' members h.1 h.2.1 h.2.2
    have htext := MembersText.more (nameText_write hname) .nil (valueText_write v hv) .nil hrest
    rw [writeMoreMembers]
    simp only [List.append_assoc, List.cons_append, List.nil_append] at htext ⊢
    exact htext
termination_by name v members => sizeOf ((name, v) :: members)

end

theorem textOf_write {v : Json} (h : v.Proper) : TextOf v v.write := by
  refine ⟨[], v.write, [], .nil, valueText_write v h, .nil, ?_⟩
  rw [List.nil_append, List.append_nil]

/-- **Reading what is written gives the value again.** -/
theorem ofText?_text {v : Json} (h : v.Proper) : ofText? v.text = some v :=
  ofText?_of_textOf (textOf_write h)

end Json

end Statechart
