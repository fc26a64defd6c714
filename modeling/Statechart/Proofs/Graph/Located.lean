import Statechart.Definition

/-!
# States and where they stand

A state of a tree is found by the keys that lead to it from the root. Its number counts the states
written before it; this file says which states there are, by path and by number, without looking
at the list of places. Main statements: each number below the size belongs to a state, and, where
keys are distinct, a path has one state with one number.
-/

namespace Statechart.StateTree

/-! ## 1. By path -/

/-- The state at the end of a path of keys. -/
def at? (t : StateTree) : List String → Option StateTree
  | [] => some t
  | key :: keys => (t.children.lookup key).bind fun c => c.at? keys

@[simp] theorem at?_nil (t : StateTree) : t.at? [] = some t := rfl

theorem at?_append (t : StateTree) (ks ks' : List String) :
    t.at? (ks ++ ks') = (t.at? ks).bind fun s => s.at? ks' := by
  induction ks generalizing t with
  | nil => rfl
  | cons k ks ih => simp only [List.cons_append, at?, Option.bind_assoc, ih]

theorem at?_concat {t s c : StateTree} {path : List String} {key : String}
    (hs : t.at? path = some s) (hc : s.children.lookup key = some c) :
    t.at? (path ++ [key]) = some c := by
  rw [at?_append, hs, Option.bind_some, at?, hc]
  rfl

/-! ## 2. Properties of every state -/

mutual

/-- `P` holds of what is declared on each state and of the states right below it. -/
def Everywhere (P : StateDecl → Assoc StateTree → Prop) : StateTree → Prop
  | state d cs => P d cs ∧ EverywhereIn P cs

/-- `P` holds everywhere in each of some trees. -/
def EverywhereIn (P : StateDecl → Assoc StateTree → Prop) : List (String × StateTree) → Prop
  | [] => True
  | (_, t) :: rest => Everywhere P t ∧ EverywhereIn P rest

end

variable {P : StateDecl → Assoc StateTree → Prop}

theorem Everywhere.here {t : StateTree} (h : t.Everywhere P) : P t.decl t.children := by
  cases t
  rw [Everywhere] at h
  exact h.1

theorem EverywhereIn.of_mem {cs : Assoc StateTree} (h : EverywhereIn P cs) {key : String}
    {c : StateTree} (hc : (key, c) ∈ cs) : c.Everywhere P := by
  induction cs with
  | nil => cases hc
  | cons entry rest ih =>
    rw [EverywhereIn] at h
    rcases List.mem_cons.1 hc with rfl | hc
    · exact h.1
    · exact ih h.2 hc

theorem Everywhere.child {t : StateTree} (h : t.Everywhere P) {key : String} {c : StateTree}
    (hc : (key, c) ∈ t.children) : c.Everywhere P := by
  cases t
  rw [Everywhere] at h
  exact h.2.of_mem hc

mutual

/-- What follows from `P` holds everywhere if `P` does. -/
theorem Everywhere.imp {Q : StateDecl → Assoc StateTree → Prop} (hPQ : ∀ d cs, P d cs → Q d cs) :
    {t : StateTree} → t.Everywhere P → t.Everywhere Q
  | state d cs, h => by
    rw [Everywhere] at h ⊢
    exact ⟨hPQ d cs h.1, EverywhereIn.imp hPQ h.2⟩

theorem EverywhereIn.imp {Q : StateDecl → Assoc StateTree → Prop} (hPQ : ∀ d cs, P d cs → Q d cs) :
    {cs : List (String × StateTree)} → EverywhereIn P cs → EverywhereIn Q cs
  | [], _ => trivial
  | (_, t) :: rest, h => by
    rw [EverywhereIn] at h ⊢
    exact ⟨Everywhere.imp hPQ h.1, EverywhereIn.imp hPQ h.2⟩

end

mutual

theorem KeysDistinct.everywhere : {t : StateTree} → t.KeysDistinct →
    t.Everywhere fun _ cs => Assoc.Distinct cs
  | state d cs, h => by
    rw [KeysDistinct] at h
    rw [Everywhere]
    exact ⟨h.1, KeysDistinctAll.everywhereIn h.2.2.2⟩

theorem KeysDistinctAll.everywhereIn : {cs : List (String × StateTree)} → KeysDistinctAll cs →
    EverywhereIn (fun _ cs => Assoc.Distinct cs) cs
  | [], _ => trivial
  | (_, t) :: rest, h => by
    rw [KeysDistinctAll] at h
    rw [EverywhereIn]
    exact ⟨KeysDistinct.everywhere h.1, KeysDistinctAll.everywhereIn h.2⟩

end

/-! ## 3. By number -/

theorem sizeAll_append (cs cs' : List (String × StateTree)) :
    sizeAll (cs ++ cs') = sizeAll cs + sizeAll cs' := by
  induction cs with
  | nil => simp [sizeAll]
  | cons entry rest ih =>
    simp only [List.cons_append, sizeAll, ih]
    omega

theorem sizeAll_concat (cs : List (String × StateTree)) (key : String) (c : StateTree) :
    sizeAll (cs ++ [(key, c)]) = sizeAll cs + c.size := by
  rw [sizeAll_append, sizeAll, sizeAll, Nat.add_zero]

/-- **`s` is the state numbered `i` of `t`**: it stands at the end of `path`, right below the
state of the number `parent`. A state comes before those below it, and each of these after all
that lies below its elder siblings. -/
inductive Located (t : StateTree) : Nat → List String → Option Nat → StateTree → Prop
  | root : Located t 0 [] none t
  | child {i : Nat} {path : List String} {parent : Option Nat} {d : StateDecl} {key : String}
      {c : StateTree} (before after : List (String × StateTree))
      (h : Located t i path parent (state d (before ++ (key, c) :: after))) :
      Located t (i + 1 + sizeAll before) (path ++ [key]) (some i) c

variable {t s s' : StateTree} {i i' : Nat} {path path' : List String} {parent parent' : Option Nat}

/-- Past a child of a state, it joins those before. -/
theorem Located.past {d : StateDecl} {key : String} {c : StateTree}
    {before after : List (String × StateTree)}
    (h : Located t i path parent (state d (before ++ (key, c) :: after))) :
    Located t i path parent (state d ((before ++ [(key, c)]) ++ after)) := by
  rwa [List.append_assoc, List.singleton_append]

mutual

/-- A state and those below it take consecutive numbers. -/
theorem Located.exists_add : {s : StateTree} → {i : Nat} → {path : List String} →
    {parent : Option Nat} → Located t i path parent s → ∀ k < s.size,
      ∃ rel parent' s', Located t (i + k) (path ++ rel) parent' s'
  | state d cs, i, path, parent, h, 0, _ => ⟨[], parent, state d cs, by rwa [List.append_nil]⟩
  | state d cs, i, path, parent, h, k + 1, hk => by
    rw [size] at hk
    have := Located.exists_add_below [] h k (by omega)
    rwa [sizeAll, Nat.add_zero, Nat.add_assoc, Nat.add_comm 1 k] at this

theorem Located.exists_add_below : {cs : List (String × StateTree)} → {i : Nat} →
    {path : List String} → {parent : Option Nat} → {d : StateDecl} →
    (before : List (String × StateTree)) → Located t i path parent (state d (before ++ cs)) →
    ∀ k < sizeAll cs,
      ∃ rel parent' s', Located t (i + 1 + sizeAll before + k) (path ++ rel) parent' s'
  | [], _, _, _, _, _, _, _, hk => by simp [sizeAll] at hk
  | (key, c) :: rest, i, path, parent, d, before, h, k, hk => by
    by_cases hc : k < c.size
    · obtain ⟨rel, parent', s', h'⟩ := Located.exists_add (.child before rest h) k hc
      exact ⟨key :: rel, parent', s', by rwa [List.append_assoc] at h'⟩
    · rw [sizeAll] at hk
      have := Located.exists_add_below _ h.past (k - c.size) (by omega)
      rwa [sizeAll_concat, show i + 1 + (sizeAll before + c.size) + (k - c.size) =
        i + 1 + sizeAll before + k by omega] at this

end

/-- **Every number below the size is that of a state.** -/
theorem exists_located (t : StateTree) {i : Nat} (hi : i < t.size) :
    ∃ path parent s, Located t i path parent s := by
  have := Located.exists_add (.root (t := t)) i hi
  rwa [Nat.zero_add] at this

/-! ## 4. Path and number agree -/

/-- The number of a child below the state numbered `i`. -/
theorem Located.of_lookup (h : Located t i path parent s) {key : String} {c : StateTree}
    (hc : s.children.lookup key = some c) :
    ∃ j, Located t j (path ++ [key]) (some i) c := by
  obtain ⟨before, after, hcs, -⟩ := Assoc.lookup_eq_some_iff.1 hc
  cases s with
  | state d cs =>
    rw [children_state] at hcs
    rw [hcs] at h
    exact ⟨_, .child before after h⟩

theorem Located.of_at? (h : Located t i path parent s) {keys : List String}
    (hs : s.at? keys = some s') : ∃ j parent', Located t j (path ++ keys) parent' s' := by
  induction keys generalizing i path parent s with
  | nil =>
    rw [at?_nil] at hs
    cases hs
    exact ⟨i, parent, by rwa [List.append_nil]⟩
  | cons key keys ih =>
    obtain ⟨c, hc, hs⟩ := Option.bind_eq_some_iff.1 hs
    obtain ⟨j, hj⟩ := h.of_lookup hc
    obtain ⟨k, parent', hk⟩ := ih hj hs
    exact ⟨k, parent', by rwa [List.append_assoc] at hk⟩

/-- The empty path is that of the root. -/
theorem Located.of_nil (h : Located t i [] parent s) : i = 0 ∧ parent = none ∧ s = t := by
  generalize hp : ([] : List String) = p at h
  cases h with
  | root => exact ⟨rfl, rfl, rfl⟩
  | child before after h => simp at hp

/-- A longer path is that of a child. -/
theorem Located.of_concat {key : String} (h : Located t i (path ++ [key]) parent s) :
    ∃ i₀ parent₀ d before after, i = i₀ + 1 + sizeAll before ∧ parent = some i₀ ∧
      Located t i₀ path parent₀ (state d (before ++ (key, s) :: after)) := by
  generalize hp : path ++ [key] = p at h
  cases h with
  | root => simp at hp
  | child before after h =>
    obtain ⟨rfl, hk⟩ := List.append_inj' hp rfl
    obtain rfl := List.singleton_inj.1 hk
    exact ⟨_, _, _, before, after, rfl, rfl, h⟩

/-- The parent stands before its children, one key higher. -/
theorem Located.of_parent {i₀ : Nat} (h : Located t i path (some i₀) s) :
    i₀ < i ∧ ∃ path₀ key parent₀ s₀, path = path₀ ++ [key] ∧ Located t i₀ path₀ parent₀ s₀ ∧
      (key, s) ∈ s₀.children := by
  cases h with
  | child before after h => exact ⟨by omega, _, _, _, _, rfl, h, by simp⟩

theorem Located.everywhere_of (h : Located t i path parent s) (hP : t.Everywhere P) :
    s.Everywhere P := by
  induction h with
  | root => exact hP
  | @child i path parent d key c before after h ih =>
    have hc : (key, c) ∈ (state d (before ++ (key, c) :: after)).children := by simp
    exact ih.child hc

/-- What holds of the keys below each state holds of the keys of a path. -/
theorem Located.forall_mem_path {Q : String → Prop} (h : Located t i path parent s)
    (hQ : t.Everywhere fun _ cs => ∀ key ∈ cs.keys, Q key) : ∀ key ∈ path, Q key := by
  induction h with
  | root => intro key hkey; cases hkey
  | @child i path parent d key c before after h ih =>
    intro key' hkey'
    rcases List.mem_append.1 hkey' with hkey' | hkey'
    · exact ih key' hkey'
    · obtain rfl := List.mem_singleton.1 hkey'
      exact (h.everywhere_of hQ).here key' (by simp [Assoc.keys])

section Distinct

variable (hd : t.Everywhere fun _ cs => Assoc.Distinct cs)
include hd

theorem Located.at?_eq (h : Located t i path parent s) : t.at? path = some s := by
  induction h with
  | root => rfl
  | @child i path parent d key c before after h ih =>
    have hcs : Assoc.Distinct (before ++ (key, c) :: after) := (h.everywhere_of hd).here
    exact at?_concat ih (hcs.lookup_of_mem (by simp))

/-- **A path has one number.** -/
theorem Located.number_unique (h : Located t i path parent s) (h' : Located t i' path parent' s') :
    i = i' ∧ parent = parent' := by
  induction h generalizing i' parent' s' with
  | root =>
    obtain ⟨rfl, rfl, -⟩ := h'.of_nil
    exact ⟨rfl, rfl⟩
  | @child i path parent d key c before after h ih =>
    obtain ⟨i₀, parent₀, d', before', after', rfl, rfl, h₀⟩ := h'.of_concat
    obtain ⟨rfl, -⟩ := ih h₀
    -- both paths to the parent reach one state, whose keys are cut in one way only
    have hs := (h.at?_eq hd).symm.trans (h₀.at?_eq hd)
    obtain ⟨-, hcs⟩ := StateTree.state.inj (Option.some.inj hs)
    have hdist : Assoc.Distinct (before ++ (key, c) :: after) := (h.everywhere_of hd).here
    obtain ⟨rfl, -, -⟩ := hdist.split_unique hcs
    exact ⟨rfl, rfl⟩

end Distinct

end Statechart.StateTree
