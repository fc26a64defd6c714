import Mathlib.Algebra.Group.Nat.Defs
import Mathlib.Data.List.Forall2
import Statechart.Number.Numeral

/-!
# Runs of digits

What is read of a run of digits: all of it, and the number that it denotes. Main statements: a run
of digits is read to its number, and nothing else is read to a number.
-/

namespace Statechart.Numeral

/-! ## 1. Fronts of a class -/

variable {p : Char → Bool} {front rest : List Char}

/-- A front of a class ends where a character is of no such class. -/
theorem takeWhile_front (hfront : ∀ c ∈ front, p c = true)
    (hrest : ∀ c, rest.head? = some c → p c = false) : (front ++ rest).takeWhile p = front := by
  rw [List.takeWhile_append_of_pos hfront]
  cases rest with
  | nil => exact List.append_nil front
  | cons c rest =>
    have hc : p c = false := hrest c rfl
    rw [List.takeWhile_cons_of_neg (by simp [hc]), List.append_nil]

theorem dropWhile_front (hfront : ∀ c ∈ front, p c = true)
    (hrest : ∀ c, rest.head? = some c → p c = false) : (front ++ rest).dropWhile p = rest := by
  rw [List.dropWhile_append_of_pos hfront]
  cases rest with
  | nil => rfl
  | cons c rest =>
    have hc : p c = false := hrest c rfl
    exact List.dropWhile_cons_of_neg (by simp [hc])

/-! ## 2. The number of some digits -/

variable {base : Nat} {cs : List Char} {ds : List Nat}

/-- The number that some digits denote, the most significant one first. -/
def ofDigits (base : Nat) (ds : List Nat) : Nat := ds.foldl (fun n d => base * n + d) 0

/-- Each character is the digit at the same place. -/
def AreDigits (base : Nat) (cs : List Char) (ds : List Nat) : Prop :=
  List.Forall₂ (fun c d => digit? base c = some d) cs ds

theorem digit?_lt {d : Nat} {c : Char} (h : digit? base c = some d) : d < base := by
  simp only [digit?, Option.ite_none_right_eq_some] at h
  obtain ⟨hlt, hd⟩ := h
  rwa [Option.some.inj hd] at hlt

/-- The number of some digits is bounded by their count. -/
theorem ofDigits_lt (h : AreDigits base cs ds) : ofDigits base ds < base ^ cs.length := by
  have hfold (n : Nat) :
      ds.foldl (fun n d => base * n + d) n < (n + 1) * base ^ cs.length := by
    induction h generalizing n with
    | nil => simp
    | @cons c d cs ds hd _ ih =>
      have hstep : base * n + d + 1 ≤ (n + 1) * base := by
        have hlt := digit?_lt hd
        rw [Nat.add_mul, Nat.one_mul, Nat.mul_comm n base]
        omega
      calc
        ds.foldl (fun n d => base * n + d) (base * n + d)
            < (base * n + d + 1) * base ^ cs.length := ih _
        _ ≤ (n + 1) * base * base ^ cs.length := Nat.mul_le_mul_right _ hstep
        _ = (n + 1) * base ^ (cs.length + 1) := by rw [Nat.pow_succ', Nat.mul_assoc]
  have h := hfold 0
  rwa [Nat.zero_add, Nat.one_mul] at h

theorem foldl_of_areDigits (h : AreDigits base cs ds) (n : Nat) :
    cs.foldl (fun acc c => do return base * (← acc) + (← digit? base c)) (some n) =
      some (ds.foldl (fun n d => base * n + d) n) := by
  induction h generalizing n with
  | nil => rfl
  | @cons c d cs ds hd _ ih =>
    rw [List.foldl_cons, List.foldl_cons, hd]
    exact ih (base * n + d)

/-- **A run of digits is read to the number that it denotes.** -/
theorem natural?_of_areDigits (hne : cs ≠ []) (h : AreDigits base cs ds) :
    natural? base cs = some (ofDigits base ds) := by
  have hempty : cs.isEmpty = false := by simpa using hne
  rw [natural?, hempty]
  exact foldl_of_areDigits h 0

/-- Each step of reading a run can fail, and then nothing is read. -/
theorem foldl_none (cs : List Char) :
    cs.foldl (fun (acc : Option Nat) c => do return base * (← acc) + (← digit? base c)) none =
      none := by
  induction cs with
  | nil => rfl
  | cons c cs ih => exact ih

theorem digit?_of_foldl {n m : Nat}
    (h : cs.foldl (fun acc c => do return base * (← acc) + (← digit? base c)) (some n) = some m) :
    ∀ c ∈ cs, ∃ d, digit? base c = some d := by
  induction cs generalizing n with
  | nil => exact List.forall_mem_nil _
  | cons c cs ih =>
    rw [List.foldl_cons] at h
    cases hc : digit? base c with
    | none =>
      rw [hc] at h
      cases (foldl_none cs).symm.trans h
    | some d =>
      rw [hc] at h
      exact List.forall_mem_cons.2 ⟨⟨d, hc⟩, ih h⟩

/-- **What is read to a number is a run of digits.** -/
theorem digit?_of_natural? {n : Nat} (h : natural? base cs = some n) :
    ∀ c ∈ cs, ∃ d, digit? base c = some d := by
  rw [natural?] at h
  split at h
  · cases h
  · exact digit?_of_foldl h

/-- The decimal digits are the ten characters for them. -/
theorem exists_digit?_ten {c : Char} : (∃ d, digit? 10 c = some d) ↔ c.isDigit = true := by
  simp only [digit?]
  by_cases hdigit : c.isDigit = true
  · have hc : '0'.toNat ≤ c.toNat ∧ c.toNat ≤ '9'.toNat := Char.isDigit_iff_toNat.1 hdigit
    have hlt : c.toNat - '0'.toNat < 10 := by
      have h0 : '0'.toNat = 48 := rfl
      have h9 : '9'.toNat = 57 := rfl
      omega
    rw [if_pos hdigit, if_pos hlt]
    exact iff_of_true ⟨_, rfl⟩ hdigit
  · have hge : ¬ (if c.isDigit = true then c.toNat - '0'.toNat
        else if ('a' ≤ c && c ≤ 'z') = true then c.toNat - 'a'.toNat + 10
        else if ('A' ≤ c && c ≤ 'Z') = true then c.toNat - 'A'.toNat + 10
        else 10) < 10 := by
      rw [if_neg hdigit]
      split
      · omega
      · split <;> omega
    rw [if_neg hge]
    exact iff_of_false (fun ⟨d, hd⟩ => nomatch hd) hdigit

end Statechart.Numeral
