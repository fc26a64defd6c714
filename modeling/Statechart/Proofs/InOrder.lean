import Statechart.Provided

/-!
# Lists in the order of addresses

A relation says what stands at which address. What stands anywhere, in the order of the addresses,
is a list; and what is left of it when repetitions are dropped comes in the order in which things
stand first. Main statements: such lists are put together as addresses are, and dropping repetitions
keeps the order of the first addresses.
-/

namespace Statechart

variable {ι κ α β : Type} {r : ι → ι → Prop} {s : κ → κ → Prop} {R S : ι → α → Prop}
  {xs ys : List α}

/-! ## 1. Repetitions -/

section EraseDups

variable [BEq α] [LawfulBEq α]

/-- What is left out of a list is left out of what comes first in it. -/
theorem eraseDups_filter (p : α → Bool) (xs : List α) :
    (xs.filter p).eraseDups = xs.eraseDups.filter p := by
  match xs with
  | [] => rfl
  | x :: xs =>
    have ih := eraseDups_filter p (xs.filter fun y => !y == x)
    rw [List.filter_filter] at ih
    rw [List.eraseDups_cons, List.filter_cons, List.filter_cons, ← ih]
    by_cases hx : p x = true
    · rw [if_pos hx, if_pos hx, List.eraseDups_cons, List.filter_filter]
      simp only [Bool.and_comm]
    · rw [if_neg hx, if_neg hx]
      -- `x` itself is left out by `p` already
      have hp : ∀ y ∈ xs, p y = (p y && !y == x) := by
        intro y _
        by_cases hy : y = x
        · rw [hy, Bool.eq_false_iff.2 hx, Bool.false_and]
        · simp [hy]
      rw [List.filter_congr hp]
termination_by xs.length
decreasing_by exact Nat.lt_succ_of_le (List.length_filter_le _ _)

/-- What comes first in a list is its head and what comes first in the rest, the head apart. -/
theorem eraseDups_cons_filter (x : α) (xs : List α) :
    (x :: xs).eraseDups = x :: xs.eraseDups.filter fun y => !y == x := by
  rw [List.eraseDups_cons, eraseDups_filter]

theorem nodup_eraseDups (xs : List α) : xs.eraseDups.Nodup := by
  induction xs with
  | nil => exact List.nodup_nil
  | cons x xs ih =>
    rw [eraseDups_cons_filter, List.nodup_cons]
    exact ⟨by simp, ih.filter _⟩

theorem eraseDups_of_nodup {xs : List α} (h : xs.Nodup) : xs.eraseDups = xs := by
  induction xs with
  | nil => rfl
  | cons x xs ih =>
    obtain ⟨hx, hxs⟩ := List.nodup_cons.1 h
    have hne : ∀ y ∈ xs, (!y == x) = true := by
      intro y hy
      have : y ≠ x := fun e => hx (e ▸ hy)
      simpa using this
    rw [eraseDups_cons_filter, ih hxs, List.filter_eq_self.2 hne]

/-- Of two lists one after the other, the second adds what is not in the first. -/
theorem eraseDups_append_filter (xs ys : List α) :
    (xs ++ ys).eraseDups = xs.eraseDups ++ ys.eraseDups.filter fun y => !xs.contains y := by
  rw [List.eraseDups_append, List.removeAll, eraseDups_filter]

/-- A list that is put together from pieces keeps what comes first when each piece does. -/
theorem eraseDups_flatMap_congr {f g : β → List α} {bs : List β}
    (h : ∀ b ∈ bs, (f b).eraseDups = (g b).eraseDups) :
    (bs.flatMap f).eraseDups = (bs.flatMap g).eraseDups := by
  induction bs with
  | nil => rfl
  | cons b bs ih =>
    have hb := h b List.mem_cons_self
    have hmem : ∀ x, (f b).contains x = (g b).contains x := by
      intro x
      have : x ∈ f b ↔ x ∈ g b := by rw [← List.mem_eraseDups, hb, List.mem_eraseDups]
      simp [this]
    have hrest := ih fun b' hb' => h b' (List.mem_cons_of_mem b hb')
    rw [List.flatMap_cons, List.flatMap_cons, eraseDups_append_filter, eraseDups_append_filter,
      hb, hrest]
    simp only [hmem]

end EraseDups

theorem eraseDups_concat (xs : List String) (x : String) :
    (xs ++ [x]).eraseDups = Provided.addName x xs.eraseDups := by
  have hx : [x].eraseDups = [x] := rfl
  rw [eraseDups_append_filter, hx, Provided.addName]
  by_cases hmem : x ∈ xs <;> simp [hmem]

/-- Taking texts one by one, each unless it is there, drops repetitions. -/
theorem foldl_addName_eraseDups (xs ys : List String) :
    ys.foldl (fun zs y => Provided.addName y zs) xs.eraseDups = (xs ++ ys).eraseDups := by
  induction ys generalizing xs with
  | nil => rw [List.append_nil, List.foldl_nil]
  | cons y ys ih =>
    rw [List.foldl_cons, ← eraseDups_concat, ih, List.append_assoc, List.singleton_append]

/-! ## 2. Lists of what stands at addresses -/

/-- **The list holds what `R` puts at addresses, in the order of the addresses**: one item for each
address at which something stands. -/
def InOrder (r : ι → ι → Prop) (R : ι → α → Prop) (xs : List α) : Prop :=
  ∃ ps : List (ι × α), ps.map Prod.snd = xs ∧ ps.Pairwise (fun p q => r p.1 q.1) ∧
    ∀ a x, R a x ↔ (a, x) ∈ ps

namespace InOrder

theorem congr (h : InOrder r R xs) (hRS : ∀ a x, S a x ↔ R a x) : InOrder r S xs := by
  obtain ⟨ps, hps, hsorted, hR⟩ := h
  exact ⟨ps, hps, hsorted, fun a x => (hRS a x).trans (hR a x)⟩

theorem mem_iff (h : InOrder r R xs) {x : α} : x ∈ xs ↔ ∃ a, R a x := by
  obtain ⟨ps, rfl, -, hR⟩ := h
  constructor
  · intro hx
    obtain ⟨⟨a, y⟩, hp, rfl⟩ := List.mem_map.1 hx
    exact ⟨a, (hR a y).2 hp⟩
  · rintro ⟨a, ha⟩
    exact List.mem_map.2 ⟨(a, x), (hR a x).1 ha, rfl⟩

theorem nil (h : ∀ a x, ¬ R a x) : InOrder r R [] :=
  ⟨[], rfl, .nil, fun a x => iff_of_false (h a x) List.not_mem_nil⟩

theorem singleton (a : ι) (x : α) : InOrder r (fun b y => b = a ∧ y = x) [x] :=
  ⟨[(a, x)], rfl, List.pairwise_singleton _ _, fun b y => by
    rw [List.mem_singleton, Prod.mk.injEq]⟩

/-- One list after another, where all addresses of the first come before those of the second. -/
theorem append (h : InOrder r R xs) (h' : InOrder r S ys)
    (hlt : ∀ a x b y, R a x → S b y → r a b) : InOrder r (fun a x => R a x ∨ S a x) (xs ++ ys) := by
  obtain ⟨ps, rfl, hsorted, hR⟩ := h
  obtain ⟨qs, rfl, hsorted', hS⟩ := h'
  refine ⟨ps ++ qs, List.map_append, List.pairwise_append.2 ⟨hsorted, hsorted', ?_⟩, ?_⟩
  · intro p hp q hq
    exact hlt p.1 p.2 q.1 q.2 ((hR p.1 p.2).2 hp) ((hS q.1 q.2).2 hq)
  · intro a x
    simp only [List.mem_append, hR, hS]

theorem filter (p : α → Bool) (h : InOrder r R xs) :
    InOrder r (fun a x => R a x ∧ p x = true) (xs.filter p) := by
  obtain ⟨ps, rfl, hsorted, hR⟩ := h
  refine ⟨ps.filter (p ∘ Prod.snd), List.filter_map.symm, hsorted.filter _, ?_⟩
  intro a x
  simp only [List.mem_filter, hR, Function.comp_apply]

theorem map (f : α → β) (h : InOrder r R xs) :
    InOrder r (fun a y => ∃ x, R a x ∧ f x = y) (xs.map f) := by
  obtain ⟨ps, rfl, hsorted, hR⟩ := h
  refine ⟨ps.map fun p => (p.1, f p.2), ?_, List.pairwise_map.2 hsorted, ?_⟩
  · rw [List.map_map, List.map_map]
    rfl
  · intro a y
    simp only [List.mem_map, Prod.mk.injEq]
    constructor
    · rintro ⟨x, hx, rfl⟩
      exact ⟨(a, x), (hR a x).1 hx, rfl, rfl⟩
    · rintro ⟨⟨b, x⟩, hp, rfl, rfl⟩
      exact ⟨x, (hR b x).2 hp, rfl⟩

theorem filterMap (f : α → Option β) (h : InOrder r R xs) :
    InOrder r (fun a y => ∃ x, R a x ∧ f x = some y) (xs.filterMap f) := by
  obtain ⟨ps, rfl, hsorted, hR⟩ := h
  refine ⟨ps.filterMap fun p => (f p.2).map (p.1, ·), ?_, ?_, ?_⟩
  · rw [List.map_filterMap, List.filterMap_map]
    congr 1
    funext p
    rw [Option.map_map, Function.comp_apply]
    exact Option.map_id'
  · refine List.pairwise_filterMap.2 (hsorted.imp fun {p q} hpq a ha b hb => ?_)
    obtain ⟨_, -, rfl⟩ := Option.map_eq_some_iff.1 ha
    obtain ⟨_, -, rfl⟩ := Option.map_eq_some_iff.1 hb
    exact hpq
  · intro a y
    simp only [List.mem_filterMap, Option.map_eq_some_iff, Prod.mk.injEq, hR]
    constructor
    · intro h
      obtain ⟨x, hx, hy⟩ := h
      exact ⟨(a, x), hx, y, hy, rfl, rfl⟩
    · intro h
      obtain ⟨⟨b, x⟩, hx, y', hy, hab, hyy⟩ := h
      subst hab hyy
      exact ⟨x, hx, hy⟩

/-- One thing stands at one address. -/
theorem unique (hr : ∀ a, ¬ r a a) (h : InOrder r R xs) {a : ι} {x y : α} (hx : R a x)
    (hy : R a y) : x = y := by
  obtain ⟨ps, -, hsorted, hR⟩ := h
  obtain ⟨before, after, rfl⟩ := List.append_of_mem ((hR a x).1 hx)
  obtain ⟨-, hafter, hbefore⟩ := List.pairwise_append.1 hsorted
  rcases List.mem_append.1 ((hR a y).1 hy) with hmem | hmem
  · exact absurd (hbefore _ hmem _ List.mem_cons_self) (hr a)
  · rcases List.mem_cons.1 hmem with he | hmem
    · exact (Prod.mk.inj he).2.symm
    · exact absurd ((List.pairwise_cons.1 hafter).1 _ hmem) (hr a)

/-- **What stands at which address settles the list.** -/
theorem eq_of_asymm (hr : ∀ a b, r a b → ¬ r b a) (h : InOrder r R xs) (h' : InOrder r R ys) :
    xs = ys := by
  obtain ⟨ps, rfl, hsorted, hR⟩ := h
  obtain ⟨qs, rfl, hsorted', hR'⟩ := h'
  have hnodup {l : List (ι × α)} (hl : l.Pairwise fun p q => r p.1 q.1) : l.Nodup := by
    refine List.Pairwise.imp (fun {p q} hpq heq => ?_) hl
    rw [heq] at hpq
    exact hr q.1 q.1 hpq hpq
  have hperm : ps.Perm qs := (List.perm_ext_iff_of_nodup (hnodup hsorted) (hnodup hsorted')).2
    fun p => (hR p.1 p.2).symm.trans (hR' p.1 p.2)
  rw [hperm.eq_of_pairwise (fun p q _ _ hpq hqp => absurd hqp (hr p.1 q.1 hpq)) hsorted hsorted']

/-- **What is found first stands before whatever else might be found.** -/
theorem exists_first {f : α → Option β} {b : β} (h : InOrder r R xs)
    (hb : xs.findSome? f = some b) : ∃ a x, R a x ∧ f x = some b ∧
      ∀ a' x', R a' x' → f x' ≠ none → a' = a ∨ r a a' := by
  obtain ⟨ps, rfl, hsorted, hR⟩ := h
  obtain ⟨before, x, after, hsplit, hx, hbefore⟩ := List.findSome?_eq_some_iff.1 hb
  obtain ⟨qs, ps', rfl, rfl, hps'⟩ := List.map_eq_append_iff.1 hsplit
  obtain ⟨⟨a, y⟩, rest, rfl, rfl, -⟩ := List.map_eq_cons_iff.1 hps'
  refine ⟨a, y, (hR a y).2 (by simp), hx, fun a' x' hx' hfound => ?_⟩
  rcases List.mem_append.1 ((hR a' x').1 hx') with hmem | hmem
  · exact absurd (hbefore x' (List.mem_map_of_mem hmem)) hfound
  · rcases List.mem_cons.1 hmem with he | hmem
    · exact .inl (Prod.mk.inj he).1
    · have hrest := (List.pairwise_append.1 hsorted).2.1
      exact .inr ((List.pairwise_cons.1 hrest).1 _ hmem)

/-- The same list under other addresses in the same order. -/
theorem readdress (f : ι → κ) (hf : ∀ a b, r a b → s (f a) (f b)) (h : InOrder r R xs) :
    InOrder s (fun b x => ∃ a, b = f a ∧ R a x) xs := by
  obtain ⟨ps, rfl, hsorted, hR⟩ := h
  refine ⟨ps.map fun p => (f p.1, p.2), ?_, ?_, ?_⟩
  · rw [List.map_map]
    rfl
  · exact List.pairwise_map.2 (hsorted.imp fun {p q} hpq => hf p.1 q.1 hpq)
  · intro b x
    simp only [List.mem_map, Prod.mk.injEq]
    constructor
    · rintro ⟨a, rfl, ha⟩
      exact ⟨(a, x), (hR a x).1 ha, rfl, rfl⟩
    · rintro ⟨⟨a, y⟩, hp, rfl, rfl⟩
      exact ⟨a, rfl, (hR a y).2 hp⟩

/-- **A list for each item, one after the other**: an item of it stands at the address of the first
item and then at its own address among those of the first. -/
theorem bind {S : α → κ → β → Prop} {f : α → List β} (h : InOrder r R xs)
    (hf : ∀ x ∈ xs, InOrder s (S x) (f x)) :
    InOrder (Prod.Lex r s) (fun p y => ∃ x, R p.1 x ∧ S x p.2 y) (xs.flatMap f) := by
  obtain ⟨ps, rfl, hsorted, hR⟩ := h
  simp only [hR]
  clear hR
  induction ps with
  | nil => exact .nil fun p y => by simp
  | cons p ps ih =>
    obtain ⟨a, x⟩ := p
    obtain ⟨hfirst, hsorted⟩ := List.pairwise_cons.1 hsorted
    have hx : InOrder (Prod.Lex r s) (fun q y => ∃ b, q = (a, b) ∧ S x b y) (f x) :=
      (hf x List.mem_cons_self).readdress (Prod.mk a) fun b b' hb => Prod.Lex.right a hb
    have hrest := ih (fun x' hx' => hf x' (List.mem_cons_of_mem x hx')) hsorted
    refine (hx.append hrest ?_).congr ?_
    · rintro _ y ⟨b, c⟩ z ⟨b', rfl, -⟩ ⟨x', hx', -⟩
      exact Prod.Lex.left b' c (hfirst (b, x') hx')
    · rintro ⟨b, c⟩ y
      constructor
      · rintro ⟨x', hx', hy⟩
        rcases List.mem_cons.1 hx' with hx' | hx'
        · obtain ⟨rfl, rfl⟩ := Prod.mk.inj hx'
          exact Or.inl ⟨c, rfl, hy⟩
        · exact Or.inr ⟨x', hx', hy⟩
      · rintro (⟨c', hc, hy⟩ | ⟨x', hx', hy⟩)
        · obtain ⟨rfl, rfl⟩ := Prod.mk.inj hc
          exact ⟨x, List.mem_cons_self, hy⟩
        · exact ⟨x', List.mem_cons_of_mem _ hx', hy⟩

end InOrder

/-! ## 3. Numbers as addresses -/

/-- Every item of a list stands at its number. -/
theorem inOrder_getElem? (xs : List α) :
    InOrder (· < ·) (fun (k : Nat) x => xs[k]? = some x) xs := by
  refine ⟨xs.zipIdx.map Prod.swap, ?_, ?_, ?_⟩
  · rw [List.map_map]
    exact List.zipIdx_map_fst 0 xs
  · rw [List.pairwise_map, List.pairwise_iff_getElem]
    intro i j hi hj hij
    simpa using hij
  · intro k x
    rw [List.mem_map]
    constructor
    · intro hk
      exact ⟨(x, k), List.mem_zipIdx_iff_getElem?.2 hk, rfl⟩
    · rintro ⟨⟨y, j⟩, hj, hswap⟩
      obtain ⟨rfl, rfl⟩ := Prod.mk.inj hswap
      exact List.mem_zipIdx_iff_getElem?.1 hj

namespace InOrder

variable {T : List Nat → α → Prop}

/-- A list one step further in. -/
theorem under (k : Nat) (h : InOrder (· < ·) T xs) :
    InOrder (· < ·) (fun a x => ∃ b, a = k :: b ∧ T b x) xs :=
  h.readdress (k :: ·) fun _ _ hab => List.cons_lt_cons_iff.2 (Or.inr ⟨rfl, hab⟩)

/-- **Lists for the items of a list**: the number of the item comes in front. -/
theorem flatMap {S : α → List Nat → β → Prop} {f : α → List β} (xs : List α)
    (h : ∀ x ∈ xs, InOrder (· < ·) (S x) (f x)) :
    InOrder (· < ·) (fun a y => ∃ k b x, a = k :: b ∧ xs[k]? = some x ∧ S x b y)
      (xs.flatMap f) := by
  have hpairs := (inOrder_getElem? xs).bind h
  refine (hpairs.readdress (s := (· < ·)) (fun p => p.1 :: p.2) ?_).congr ?_
  · intro p q hpq
    exact List.cons_lt_cons_iff.2 (Prod.lex_def.1 hpq)
  · intro a y
    constructor
    · rintro ⟨k, b, x, rfl, hk, hy⟩
      exact ⟨(k, b), rfl, x, hk, hy⟩
    · rintro ⟨⟨k, b⟩, rfl, x, hk, hy⟩
      exact ⟨k, b, x, rfl, hk, hy⟩

/-- The same, where the list for an item depends on its number too. -/
theorem flatMap_zipIdx {S : Nat → α → List Nat → β → Prop} {f : α × Nat → List β} (xs : List α)
    (h : ∀ k x, xs[k]? = some x → InOrder (· < ·) (S k x) (f (x, k))) :
    InOrder (· < ·) (fun a y => ∃ k b x, a = k :: b ∧ xs[k]? = some x ∧ S k x b y)
      (xs.zipIdx.flatMap f) := by
  have hf : ∀ p ∈ xs.zipIdx, InOrder (· < ·) (S p.2 p.1) (f p) := by
    rintro ⟨x, k⟩ hp
    exact h k x (List.mem_zipIdx_iff_getElem?.1 hp)
  refine (flatMap xs.zipIdx hf).congr fun a y => ?_
  constructor
  · rintro ⟨k, b, x, rfl, hk, hy⟩
    refine ⟨k, b, (x, k), rfl, ?_, hy⟩
    rw [List.getElem?_zipIdx, hk, Nat.zero_add]
    rfl
  · rintro ⟨k, b, ⟨x, k'⟩, rfl, hk, hy⟩
    rw [List.getElem?_zipIdx, Option.map_eq_some_iff] at hk
    obtain ⟨x', hx', heq⟩ := hk
    obtain ⟨rfl, rfl⟩ := Prod.mk.inj heq
    rw [Nat.zero_add] at hy
    exact ⟨k, b, x', rfl, hx', hy⟩

end InOrder

/-- **The list holds the first `k` parts of something, one after the other**: the number of its
part leads the address of each item. -/
structure PartsInOrder (k : Nat) (R : List Nat → α → Prop) (xs : List α) : Prop where
  inOrder : InOrder (· < ·) R xs
  lt : ∀ a x, R a x → ∃ j b, a = j :: b ∧ j < k

namespace PartsInOrder

variable {k : Nat} {T U : List Nat → α → Prop}

theorem congr (h : PartsInOrder k T xs) (hTU : ∀ a x, U a x ↔ T a x) : PartsInOrder k U xs where
  inOrder := h.inOrder.congr hTU
  lt a x ha := h.lt a x ((hTU a x).1 ha)

theorem first (h : InOrder (· < ·) U xs) :
    PartsInOrder 1 (fun a x => ∃ b, a = 0 :: b ∧ U b x) xs where
  inOrder := h.under 0
  lt := by
    rintro _ x ⟨b, rfl, -⟩
    exact ⟨0, b, rfl, Nat.zero_lt_one⟩

theorem append (h : PartsInOrder k T xs) (h' : InOrder (· < ·) U ys) :
    PartsInOrder (k + 1) (fun a x => T a x ∨ ∃ b, a = k :: b ∧ U b x) (xs ++ ys) where
  inOrder := by
    refine h.inOrder.append (h'.under k) ?_
    rintro a x _ y ha ⟨b, rfl, -⟩
    obtain ⟨j, a', rfl, hj⟩ := h.lt a x ha
    exact List.cons_lt_cons_iff.2 (Or.inl hj)
  lt := by
    rintro a x (ha | ⟨b, rfl, -⟩)
    · obtain ⟨j, a', rfl, hj⟩ := h.lt a x ha
      exact ⟨j, a', rfl, by omega⟩
    · exact ⟨k, b, rfl, by omega⟩

end PartsInOrder

/-! ## 4. What comes first -/

/-- **The list holds each thing that `R` puts anywhere once, in the order of first addresses.** -/
structure OnceInOrder (r : ι → ι → Prop) (R : ι → α → Prop) (xs : List α) : Prop where
  nodup : xs.Nodup
  mem_iff : ∀ x, x ∈ xs ↔ ∃ a, R a x
  /-- Some address of the earlier item comes before all of the later one. -/
  first : xs.Pairwise fun x y => ∃ a, R a x ∧ ∀ b, R b y → r a b

namespace OnceInOrder

theorem congr (h : OnceInOrder r R xs) (hRS : ∀ a x, S a x ↔ R a x) : OnceInOrder r S xs where
  nodup := h.nodup
  mem_iff x := by simp only [h.mem_iff, hRS]
  first := by simpa only [hRS] using h.first

theorem filter (p : α → Bool) (h : OnceInOrder r R xs) :
    OnceInOrder r (fun a x => R a x ∧ p x = true) (xs.filter p) where
  nodup := h.nodup.filter p
  mem_iff x := by simp [List.mem_filter, h.mem_iff]
  first := by
    refine List.pairwise_filter.2 (h.first.imp ?_)
    rintro x y ⟨a, ha, hlt⟩ hx -
    exact ⟨a, ⟨ha, hx⟩, fun b hb => hlt b hb.1⟩

/-- Other addresses for the same things, where the order of unlike things stays. -/
theorem readdress (f : ι → κ) (h : OnceInOrder r R xs)
    (hf : ∀ a x b y, R a x → R b y → x ≠ y → r a b → s (f a) (f b)) :
    OnceInOrder s (fun c x => ∃ a, c = f a ∧ R a x) xs where
  nodup := h.nodup
  mem_iff x := by
    rw [h.mem_iff]
    constructor
    · rintro ⟨a, ha⟩
      exact ⟨f a, a, rfl, ha⟩
    · rintro ⟨_, a, rfl, ha⟩
      exact ⟨a, ha⟩
  first := by
    refine (h.first.and h.nodup).imp ?_
    rintro x y ⟨⟨a, ha, hlt⟩, hne⟩
    refine ⟨f a, ⟨a, rfl, ha⟩, ?_⟩
    rintro _ ⟨b, rfl, hb⟩
    exact hf a x b y ha hb hne (hlt b hb)

/-- **The first things of each of the lists for the items of a list**, one list after the other
and repetitions dropped. -/
theorem bind [BEq β] [LawfulBEq β] {S : ι → κ → β → Prop} {f : α → List β} (h : InOrder r R xs)
    (hf : ∀ a x, R a x → OnceInOrder s (S a) (f x)) :
    OnceInOrder (Prod.Lex r s) (fun p y => ∃ x, R p.1 x ∧ S p.1 p.2 y)
      (xs.flatMap f).eraseDups := by
  refine ⟨nodup_eraseDups _, fun y => ?_, ?_⟩
  · rw [List.mem_eraseDups, List.mem_flatMap]
    constructor
    · rintro ⟨x, hx, hy⟩
      obtain ⟨a, ha⟩ := h.mem_iff.1 hx
      obtain ⟨b, hb⟩ := ((hf a x ha).mem_iff y).1 hy
      exact ⟨(a, b), x, ha, hb⟩
    · rintro ⟨⟨a, b⟩, x, ha, hb⟩
      exact ⟨x, h.mem_iff.2 ⟨a, ha⟩, ((hf a x ha).mem_iff y).2 ⟨b, hb⟩⟩
  · obtain ⟨ps, rfl, hsorted, hR⟩ := h
    simp only [hR] at hf ⊢
    clear hR
    induction ps with
    | nil => exact .nil
    | cons p ps ih =>
      obtain ⟨a, x⟩ := p
      obtain ⟨hfirst, hsorted⟩ := List.pairwise_cons.1 hsorted
      have hx := hf a x List.mem_cons_self
      have hrest := ih hsorted fun a' x' hx' => hf a' x' (List.mem_cons_of_mem _ hx')
      -- what is not in the first list has all its addresses in the later ones
      have hlater : ∀ (b : ι) (c : κ) (y : β), y ∉ f x →
          (∃ x', (b, x') ∈ (a, x) :: ps ∧ S b c y) → ∃ x', (b, x') ∈ ps ∧ S b c y := by
        rintro b c y hy ⟨x', hx', hS⟩
        rcases List.mem_cons.1 hx' with hx' | hx'
        · obtain ⟨rfl, rfl⟩ := Prod.mk.inj hx'
          exact absurd ((hx.mem_iff y).2 ⟨c, hS⟩) hy
        · exact ⟨x', hx', hS⟩
      rw [List.map_cons, List.flatMap_cons, eraseDups_append_filter, eraseDups_of_nodup hx.nodup]
      refine List.pairwise_append.2 ⟨?_, ?_, ?_⟩
      · refine hx.first.imp ?_
        rintro y z ⟨b, hb, hlt⟩
        refine ⟨(a, b), ⟨x, List.mem_cons_self, hb⟩, ?_⟩
        rintro ⟨a', c⟩ ⟨x', hx', hc⟩
        rcases List.mem_cons.1 hx' with hx' | hx'
        · obtain ⟨rfl, rfl⟩ := Prod.mk.inj hx'
          exact Prod.Lex.right _ (hlt c hc)
        · exact Prod.Lex.left b c (hfirst (a', x') hx')
      · refine List.pairwise_filter.2 (hrest.imp ?_)
        rintro y z ⟨p, ⟨x', hx', hp⟩, hlt⟩ - hz
        refine ⟨p, ⟨x', List.mem_cons_of_mem _ hx', hp⟩, ?_⟩
        rintro ⟨b, c⟩ hS
        exact hlt (b, c) (hlater b c z (by simpa using hz) hS)
      · intro y hy z hz
        obtain ⟨b, hb⟩ := (hx.mem_iff y).1 hy
        refine ⟨(a, b), ⟨x, List.mem_cons_self, hb⟩, ?_⟩
        rintro ⟨a', c⟩ hS
        have hzx : z ∉ f x := by simpa using (List.mem_filter.1 hz).2
        obtain ⟨x', hx', -⟩ := hlater a' c z hzx hS
        exact Prod.Lex.left b c (hfirst (a', x') hx')

end OnceInOrder

/-- **Dropping repetitions keeps the order of the first addresses.** -/
theorem InOrder.eraseDups [BEq α] [LawfulBEq α] (h : InOrder r R xs) :
    OnceInOrder r R xs.eraseDups := by
  refine ⟨nodup_eraseDups xs, fun x => List.mem_eraseDups.trans h.mem_iff, ?_⟩
  obtain ⟨ps, rfl, hsorted, hR⟩ := h
  simp only [hR]
  clear hR
  induction ps with
  | nil => exact .nil
  | cons p ps ih =>
    obtain ⟨a, x⟩ := p
    obtain ⟨hfirst, hsorted⟩ := List.pairwise_cons.1 hsorted
    -- another thing than `x` has all its addresses in the rest
    have hlater : ∀ {b y}, y ≠ x → (b, y) ∈ (a, x) :: ps → (b, y) ∈ ps := by
      intro b y hy hb
      rcases List.mem_cons.1 hb with hb | hb
      · exact absurd (Prod.mk.inj hb).2 hy
      · exact hb
    rw [List.map_cons, eraseDups_cons_filter, List.pairwise_cons]
    constructor
    · intro y hy
      have hyx : y ≠ x := by simpa using (List.mem_filter.1 hy).2
      exact ⟨a, List.mem_cons_self, fun b hb => hfirst (b, y) (hlater hyx hb)⟩
    · refine List.pairwise_filter.2 ((ih hsorted).imp ?_)
      rintro y z ⟨b, hb, hlt⟩ - hz
      have hzx : z ≠ x := by simpa using hz
      exact ⟨b, List.mem_cons_of_mem _ hb, fun c hc => hlt c (hlater hzx hc)⟩

end Statechart
