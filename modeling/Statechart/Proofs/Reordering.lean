import Mathlib.Logic.Relation
import Statechart.Proofs.Entries
import Statechart.Proofs.Outcome
import Statechart.Value.Basic

/-!
# Fields in another order

The order in which entries are written counts for the states below a state, for its events and for
its delays, and nowhere else in a definition. What may be permuted is said of expressions and of
values, one object at a time. Main statements: looking up does not see the order of distinct keys,
and nor does working through entries if those of different keys do not get in each other's way.
-/

namespace Statechart

/-! ## 1. Keyed lists -/

namespace Assoc

variable {α β ε : Type} {S : String → α → α → Prop} {m m' : Assoc α} {key : String}

theorem Distinct.perm (hd : Distinct m) (h : m.Perm m') : Distinct m' :=
  (h.map Prod.fst).nodup_iff.1 hd

theorem Distinct.lookup_perm (hd : Distinct m) (h : m.Perm m') (key : String) :
    m.lookup key = m'.lookup key := by
  ext a
  constructor
  · intro hm
    exact (hd.perm h).lookup_of_mem (h.mem_iff.1 (mem_of_lookup hm))
  · intro hm
    exact hd.lookup_of_mem (h.mem_iff.2 (mem_of_lookup hm))

/-- Another value in one entry is seen under its key only, if at all. -/
theorem lookup_replace (before after : Assoc α) (key : String) (a a' : α) (k : String) :
    (before ++ (key, a) :: after).lookup k = (before ++ (key, a') :: after).lookup k ∨
      (k = key ∧ (before ++ (key, a) :: after).lookup k = some a ∧
        (before ++ (key, a') :: after).lookup k = some a') := by
  rw [List.lookup_append, List.lookup_append, List.lookup_cons, List.lookup_cons]
  cases before.lookup k with
  | some _ => exact .inl rfl
  | none =>
    cases hk : k == key with
    | true => exact .inr ⟨beq_iff_eq.1 hk, rfl, rfl⟩
    | false => exact .inl rfl

/-- **The entries stand in another order, or one of them has another value.** -/
inductive Rearranged (S : String → α → α → Prop) : Assoc α → Assoc α → Prop
  | permute {m m' : Assoc α} (hd : Distinct m) (h : m.Perm m') : Rearranged S m m'
  | replace {before after : Assoc α} {key : String} {a a' : α} (h : S key a a') :
      Rearranged S (before ++ (key, a) :: after) (before ++ (key, a') :: after)

theorem Rearranged.reverse (h : Rearranged S m m') : Rearranged S m.reverse m'.reverse := by
  cases h with
  | permute hd h =>
    exact .permute (hd.perm (List.reverse_perm m).symm)
      ((List.reverse_perm m).trans (h.trans (List.reverse_perm m').symm))
  | replace h =>
    rw [List.reverse_append, List.reverse_append, List.reverse_cons, List.reverse_cons,
      List.append_assoc, List.append_assoc]
    exact .replace h

/-- **Looking up sees no other order**, and another value at most under its key. -/
theorem Rearranged.lookup (h : Rearranged S m m') (k : String) :
    m.lookup k = m'.lookup k ∨
      ∃ a a', S k a a' ∧ m.lookup k = some a ∧ m'.lookup k = some a' := by
  cases h with
  | permute hd h => exact .inl (hd.lookup_perm h k)
  | @replace before after key a a' h =>
    refine (lookup_replace before after key a a' k).imp_right fun hk => ?_
    obtain ⟨rfl, ha, ha'⟩ := hk
    exact ⟨a, a', h, ha, ha'⟩

/-! ## 2. Entries one after the other -/

/-- The order of entries with different keys makes no difference to what is worked through. -/
def Commutes (G : β → String × α → Except ε β) : Prop :=
  ∀ b p q c, p.1 ≠ q.1 → (G b p >>= fun b => G b q) = .ok c → (G b q >>= fun b => G b p) = .ok c

theorem foldlM_perm {G : β → String × α → Except ε β} (hcomm : Commutes G) (hd : Distinct m)
    (h : m.Perm m') {b c : β} (hm : m.foldlM G b = .ok c) : m'.foldlM G b = .ok c := by
  induction h generalizing b with
  | nil => exact hm
  | cons p _ ih =>
    rw [List.foldlM_cons] at hm ⊢
    obtain ⟨b', hb', hm⟩ := Outcome.bind_eq_ok.1 hm
    exact Outcome.bind_eq_ok.2 ⟨b', hb', ih (List.nodup_cons.1 hd).2 hm⟩
  | swap p q rest =>
    have hne : q.1 ≠ p.1 := by
      intro heq
      exact (List.nodup_cons.1 hd).1 (by simp [heq])
    simp only [List.foldlM_cons, ← bind_assoc] at hm ⊢
    obtain ⟨b', hb', hm⟩ := Outcome.bind_eq_ok.1 hm
    exact Outcome.bind_eq_ok.2 ⟨b', hcomm b q p b' hne hb', hm⟩
  | trans h _ ih ih' => exact ih' (hd.perm h) (ih hd hm)

/-- **Working through the entries has the same outcome**, if other values of one entry have. -/
theorem Rearranged.foldlM {G : β → String × α → Except ε β} (hcomm : Commutes G)
    (hG : ∀ b key a a' c, S key a a' → G b (key, a) = .ok c → G b (key, a') = .ok c)
    (h : Rearranged S m m') {b c : β} (hm : m.foldlM G b = .ok c) : m'.foldlM G b = .ok c := by
  cases h with
  | permute hd h => exact foldlM_perm hcomm hd h hm
  | replace h =>
    rw [List.foldlM_append] at hm ⊢
    obtain ⟨b₁, hb₁, hm⟩ := Outcome.bind_eq_ok.1 hm
    rw [List.foldlM_cons] at hm
    obtain ⟨b₂, hb₂, hm⟩ := Outcome.bind_eq_ok.1 hm
    refine Outcome.bind_eq_ok.2 ⟨b₁, hb₁, ?_⟩
    rw [List.foldlM_cons]
    exact Outcome.bind_eq_ok.2 ⟨b₂, hG _ _ _ _ _ h hb₂, hm⟩

end Assoc

/-! ## 3. Where the order counts -/

/-- Whether the order counts of an object under a key. It counts for the states below a state, its
events and its delays; where it counts for the object that the key is in, the key is the name of
one of these. -/
def countsUnder (counts : Bool) (key : String) : Bool :=
  !counts && ["states", "on", "after"].contains key

/-- **One object has its fields in another order**, somewhere in the expression. The object is
written out with distinct keys, and its order does not count; `counts` says whether that of the
whole expression does. -/
inductive Expression.Reorders : (counts : Bool) → Expression → Expression → Prop
  | permute {entries entries' : List Entry} (hwritten : Entry.AllWritten entries)
      (hd : Assoc.Distinct (entries.filterMap Entry.pair?)) (h : entries.Perm entries') :
      Reorders false (.object entries) (.object entries')
  | entry {counts : Bool} {before after : List Entry} {key : String} {x x' : Expression}
      (h : Reorders (countsUnder counts key) x x') :
      Reorders counts (.object (before ++ .keyed key x :: after))
        (.object (before ++ .keyed key x' :: after))
  | computed {counts : Bool} {before after : List Entry} {x x' : Expression}
      (h : Reorders false x x') :
      Reorders counts (.object (before ++ .computed x :: after))
        (.object (before ++ .computed x' :: after))
  | spread {counts : Bool} {before after : List Entry} {x x' : Expression}
      (h : Reorders counts x x') :
      Reorders counts (.object (before ++ .spread x :: after))
        (.object (before ++ .spread x' :: after))
  | item {counts : Bool} {before after : List Expression} {x x' : Expression}
      (h : Reorders false x x') :
      Reorders counts (.array (before ++ x :: after)) (.array (before ++ x' :: after))
  | argument {counts : Bool} {callee : Expression} {before after : List Expression}
      {x x' : Expression} (h : Reorders false x x') :
      Reorders counts (.call callee (before ++ x :: after)) (.call callee (before ++ x' :: after))

/-- **One object has its entries in another order**, somewhere in the value. -/
inductive Value.Reorders : (counts : Bool) → Value → Value → Prop
  | permute {entries entries' : List (String × Value)} (hd : Assoc.Distinct entries)
      (h : entries.Perm entries') : Reorders false (.object entries) (.object entries')
  | entry {counts : Bool} {before after : List (String × Value)} {key : String} {v v' : Value}
      (h : Reorders (countsUnder counts key) v v') :
      Reorders counts (.object (before ++ (key, v) :: after))
        (.object (before ++ (key, v') :: after))
  | item {counts : Bool} {before after : List Value} {v v' : Value} (h : Reorders false v v') :
      Reorders counts (.array (before ++ v :: after)) (.array (before ++ v' :: after))

theorem Value.Reorders.symm {counts : Bool} {v v' : Value} (h : Value.Reorders counts v v') :
    Value.Reorders counts v' v := by
  induction h with
  | permute hd h => exact .permute (hd.perm h) h.symm
  | entry _ ih => exact .entry ih
  | item _ ih => exact .item ih

end Statechart
