import Statechart.Proofs.InOrder
import Statechart.Source.Calls

/-!
# Where factories are named and called

A place in a tree has an address, the numbers of the children that lead to it, and addresses are
ordered as the text is, a node before what stands in it. At some addresses there is something to
find: a factory is called, or it is named without being called. Main statement: reading a tree for
calls goes through all that there is to find, in the order of the addresses.
-/

namespace Statechart

namespace Source.Tree

/-! ## 1. Addresses -/

/-- The tree at an address. Nothing inside of an import has one. -/
def at? : Tree → List Nat → Option Tree
  | t, [] => some t
  | leaf _ _ _, _ :: _ => none
  | node kind ts, i :: a => if kind = .importStatement then none else ts[i]?.bind (at? · a)

/-- The third type argument among the parts of a call is a string, the id of a machine. -/
def HasId (parts : List Tree) (machineId : String) : Prop :=
  ∃ types texts rest, parts.find? (fun t => t.kind = .typeArguments) = some types ∧
    types.children[2]? = some (node .literalType (node .string texts :: rest)) ∧
    machineId = stringText texts

theorem machineId?_eq_some_iff {parts : List Tree} {machineId : String} :
    machineId? parts = some machineId ↔ HasId parts machineId := by
  unfold machineId? HasId
  simp only [Option.bind_eq_some_iff]
  constructor
  · intro h
    obtain ⟨types, htypes, third, hthird, h⟩ := h
    unfold stringType? at h
    split at h
    · next texts rest =>
      exact ⟨types, texts, rest, htypes, hthird, (Option.some.inj h).symm⟩
    · cases h
  · intro h
    obtain ⟨types, texts, rest, htypes, hthird, hid⟩ := h
    exact ⟨types, htypes, _, hthird, by rw [hid]; rfl⟩

theorem machineId?_eq_none_iff {parts : List Tree} :
    machineId? parts = none ↔ ∀ machineId, ¬ HasId parts machineId := by
  simp only [← machineId?_eq_some_iff, Option.eq_none_iff_forall_ne_some, ne_eq]

section

variable (names : String → Prop) (t : Tree)

/-- A factory is named at the address, by itself or as a property of its name. -/
def NamedAt (a : List Nat) (name : String) (line : Nat) : Prop :=
  names name ∧ ∃ kind, (kind = .identifier ∨ kind = .shorthandProperty) ∧
    t.at? a = some (leaf kind name line)

/-- A factory is called at the address, and `parts` stand behind its name. -/
def CalledAt (a : List Nat) (callee : String) (line : Nat) (parts : List Tree) : Prop :=
  names callee ∧ t.at? a = some (node .call (leaf .identifier callee line :: parts))

/-- The name at the address is that of a factory which is called. -/
def CalleeAt (a : List Nat) (name : String) (line : Nat) : Prop :=
  ∃ b parts, a = b ++ [0] ∧ t.CalledAt names b name line parts

/-- **A call at the address makes a machine**: it has a string for the third type argument, and an
argument or more. -/
def MadeAt (a : List Nat) (call : MachineCall) : Prop :=
  ∃ parts rest, t.CalledAt names a call.callee call.line parts ∧ HasId parts call.machineId ∧
    callArguments parts = call.definition :: rest ∧ call.provided = rest.head?

/-- **Something is wrong at the address.** -/
inductive FaultAt : List Nat → CallError → Prop
  | notCalled {a : List Nat} {name : String} {line : Nat} (h : t.NamedAt names a name line)
      (hcallee : ¬ t.CalleeAt names a name line) : FaultAt a (.factoryNotCalled name line)
  | missingMachineId {a : List Nat} {callee : String} {line : Nat} {parts : List Tree}
      (h : t.CalledAt names a callee line parts) (hid : ∀ machineId, ¬ HasId parts machineId) :
      FaultAt a (.missingMachineId callee line)
  | missingDefinition {a : List Nat} {callee machineId : String} {line : Nat} {parts : List Tree}
      (h : t.CalledAt names a callee line parts) (hid : HasId parts machineId)
      (hargs : callArguments parts = []) : FaultAt a (.missingDefinition machineId line)

/-- What is to be told of the address: the call or the fault. -/
def FindingAt (a : List Nat) : Except CallError MachineCall → Prop
  | .ok call => t.MadeAt names a call
  | .error e => t.FaultAt names a e

end

variable {names : String → Prop} {t : Tree} {kind : Kind} {ts : List Tree} {a : List Nat} {i : Nat}
  {name : String} {line : Nat} {v : Except CallError MachineCall}

theorem at?_leaf {s : Tree} :
    (leaf kind name line).at? a = some s ↔ a = [] ∧ s = leaf kind name line := by
  cases a <;> simp [at?, eq_comm]

theorem at?_cons_eq_some_iff (hkind : kind ≠ .importStatement) {s : Tree} :
    (node kind ts).at? (i :: a) = some s ↔ ∃ c, ts[i]? = some c ∧ c.at? a = some s := by
  rw [at?, if_neg hkind, Option.bind_eq_some_iff]

theorem not_calledAt_leaf {callee : String} {l : Nat} {parts : List Tree} :
    ¬ (leaf kind name line).CalledAt names a callee l parts := by
  intro h
  obtain ⟨-, hleaf⟩ := at?_leaf.1 h.2
  cases hleaf

theorem namedAt_cons (hkind : kind ≠ .importStatement) :
    (node kind ts).NamedAt names (i :: a) name line ↔
      ∃ c, ts[i]? = some c ∧ c.NamedAt names a name line := by
  unfold NamedAt
  simp only [at?_cons_eq_some_iff hkind]
  constructor
  · intro h
    obtain ⟨hname, k, hk, c, hc, h⟩ := h
    exact ⟨c, hc, hname, k, hk, h⟩
  · intro h
    obtain ⟨c, hc, hname, k, hk, h⟩ := h
    exact ⟨hname, k, hk, c, hc, h⟩

theorem calledAt_cons (hkind : kind ≠ .importStatement) {parts : List Tree} :
    (node kind ts).CalledAt names (i :: a) name line parts ↔
      ∃ c, ts[i]? = some c ∧ c.CalledAt names a name line parts := by
  unfold CalledAt
  simp only [at?_cons_eq_some_iff hkind]
  constructor
  · intro h
    obtain ⟨hname, c, hc, h⟩ := h
    exact ⟨c, hc, hname, h⟩
  · intro h
    obtain ⟨c, hc, hname, h⟩ := h
    exact ⟨hname, c, hc, h⟩

/-- A name is a callee within a child, unless it is the callee of the call at hand. -/
theorem calleeAt_cons (hkind : kind ≠ .importStatement) {c : Tree} (hc : ts[i]? = some c) :
    (node kind ts).CalleeAt names (i :: a) name line ↔ c.CalleeAt names a name line ∨
      i = 0 ∧ a = [] ∧ ∃ parts, (node kind ts).CalledAt names [] name line parts := by
  constructor
  · intro h
    obtain ⟨b, parts, hab, h⟩ := h
    cases b with
    | nil =>
      obtain ⟨rfl, rfl⟩ := List.cons.inj hab
      exact .inr ⟨rfl, rfl, parts, h⟩
    | cons j b =>
      obtain ⟨rfl, rfl⟩ := List.cons.inj hab
      obtain ⟨c', hc', h⟩ := (calledAt_cons hkind).1 h
      obtain rfl := Option.some.inj (hc.symm.trans hc')
      exact .inl ⟨b, parts, rfl, h⟩
  · intro h
    rcases h with ⟨b, parts, rfl, h⟩ | ⟨rfl, rfl, parts, h⟩
    · exact ⟨i :: b, parts, rfl, (calledAt_cons hkind).2 ⟨c, hc, h⟩⟩
    · exact ⟨[], parts, rfl, h⟩

theorem at?_append (b : List Nat) : t.at? (a ++ b) = (t.at? a).bind (at? · b) := by
  induction a generalizing t with
  | nil => cases t <;> rfl
  | cons i a ih =>
    cases t with
    | leaf kind name line => rfl
    | node kind ts =>
      rw [List.cons_append, at?, at?]
      split
      · rfl
      · cases ts[i]? with
        | none => rfl
        | some c => exact ih

/-- A factory that is called is named by the callee. -/
theorem CalledAt.namedAt {parts : List Tree} (h : t.CalledAt names a name line parts) :
    t.NamedAt names (a ++ [0]) name line := by
  refine ⟨h.1, .identifier, .inl rfl, ?_⟩
  rw [at?_append, h.2]
  rfl

theorem NamedAt.unique {n : String} {l : Nat} (h : t.NamedAt names a name line)
    (h' : t.NamedAt names a n l) : name = n ∧ line = l := by
  obtain ⟨-, _, -, hat⟩ := h
  obtain ⟨-, _, -, hat'⟩ := h'
  obtain ⟨-, hname, hline⟩ := Tree.leaf.inj (Option.some.inj (hat.symm.trans hat'))
  exact ⟨hname, hline⟩

theorem CalledAt.parts_unique {parts parts' : List Tree} {n : String} {l : Nat}
    (h : t.CalledAt names a name line parts) (h' : t.CalledAt names a n l parts') :
    parts = parts' := by
  obtain ⟨-, hts⟩ := Tree.node.inj (Option.some.inj (h.2.symm.trans h'.2))
  exact (List.cons.inj hts).2

/-! ## 2. What there is to tell -/

/-- What a call of a factory comes to. -/
theorem machineCall_eq_ok_iff {parts : List Tree} {call : MachineCall} :
    machineCall name line parts = .ok call ↔ ∃ rest, HasId parts call.machineId ∧
      callArguments parts = call.definition :: rest ∧ call.provided = rest.head? ∧
      call.callee = name ∧ call.line = line := by
  unfold machineCall
  simp only [← machineId?_eq_some_iff]
  cases hid : machineId? parts with
  | none => simp
  | some id =>
    cases hargs : callArguments parts with
    | nil => simp
    | cons definition rest =>
      constructor
      · intro h
        obtain rfl := Except.ok.inj h
        exact ⟨rest, rfl, rfl, rfl, rfl, rfl⟩
      · intro h
        obtain ⟨rest', hid', hargs', hprovided, hcallee, hline⟩ := h
        obtain ⟨callee, machineId, definition', provided, line'⟩ := call
        obtain rfl := Option.some.inj hid'
        obtain ⟨rfl, rfl⟩ := List.cons.inj hargs'
        dsimp only at hprovided hcallee hline
        rw [hprovided, hcallee, hline]

/-- **A finding is the outcome of a call, or a name that is not called.** -/
theorem findingAt_iff : t.FindingAt names a v ↔
    (∃ callee line parts, t.CalledAt names a callee line parts ∧
      v = machineCall callee line parts) ∨
    ∃ name line, t.NamedAt names a name line ∧ ¬ t.CalleeAt names a name line ∧
      v = .error (.factoryNotCalled name line) := by
  constructor
  · intro h
    cases v with
    | ok call =>
      obtain ⟨parts, rest, hcalled, hid, hargs, hprovided⟩ := h
      exact .inl ⟨_, _, parts, hcalled,
        (machineCall_eq_ok_iff.2 ⟨rest, hid, hargs, hprovided, rfl, rfl⟩).symm⟩
    | error e =>
      cases h with
      | notCalled h hcallee => exact .inr ⟨_, _, h, hcallee, rfl⟩
      | missingMachineId h hid =>
        rw [← machineId?_eq_none_iff] at hid
        exact .inl ⟨_, _, _, h, by rw [machineCall, hid]⟩
      | missingDefinition h hid hargs =>
        rw [← machineId?_eq_some_iff] at hid
        exact .inl ⟨_, _, _, h, by rw [machineCall, hid, hargs]⟩
  · intro h
    rcases h with ⟨callee, line, parts, h, rfl⟩ | ⟨name, line, h, hcallee, rfl⟩
    · cases hcall : machineCall callee line parts with
      | ok call =>
        obtain ⟨rest, hid, hargs, hprovided, rfl, rfl⟩ := machineCall_eq_ok_iff.1 hcall
        exact ⟨parts, rest, h, hid, hargs, hprovided⟩
      | error e =>
        unfold machineCall at hcall
        split at hcall
        · next hid =>
          obtain rfl := Except.error.inj hcall
          exact .missingMachineId h (machineId?_eq_none_iff.1 hid)
        · next machineId hid =>
          split at hcall
          · next hargs =>
            obtain rfl := Except.error.inj hcall
            exact .missingDefinition h (machineId?_eq_some_iff.1 hid) hargs
          · cases hcall
    · exact .notCalled h hcallee

theorem findingAt_leaf : (leaf kind name line).FindingAt names a v ↔
    a = [] ∧ v = .error (.factoryNotCalled name line) ∧
      (kind = .identifier ∨ kind = .shorthandProperty) ∧ names name := by
  have hcallee {l : Nat} {n : String} : ¬ (leaf kind name line).CalleeAt names a n l :=
    fun ⟨_, _, _, h⟩ => not_calledAt_leaf h
  rw [findingAt_iff]
  constructor
  · intro h
    rcases h with ⟨_, _, _, h, -⟩ | ⟨n, l, ⟨hn, k, hk, h⟩, -, rfl⟩
    · exact absurd h not_calledAt_leaf
    · obtain ⟨rfl, he⟩ := at?_leaf.1 h
      obtain ⟨rfl, rfl, rfl⟩ := Tree.leaf.inj he
      exact ⟨rfl, rfl, hk, hn⟩
  · intro h
    obtain ⟨ha, hv, hk, hn⟩ := h
    exact .inr ⟨name, line, ⟨hn, kind, hk, at?_leaf.2 ⟨ha, rfl⟩⟩, hcallee, hv⟩

/-- Imports are not looked into. -/
theorem not_findingAt_import : ¬ (node .importStatement ts).FindingAt names a v := by
  have hat {s : Tree} (h : (node .importStatement ts).at? a = some s) :
      s = node .importStatement ts := by
    cases a with
    | nil => exact (Option.some.inj h).symm
    | cons i b =>
      rw [at?, if_pos rfl] at h
      cases h
  rw [findingAt_iff]
  intro h
  rcases h with ⟨_, _, _, ⟨-, h⟩, -⟩ | ⟨_, _, ⟨-, _, -, h⟩, -⟩
  · cases hat h
  · cases hat h

theorem exists_child_of_findingAt (hkind : kind ≠ .importStatement)
    (h : (node kind ts).FindingAt names (i :: a) v) : ∃ c, ts[i]? = some c := by
  rw [findingAt_iff] at h
  rcases h with ⟨_, _, _, h, -⟩ | ⟨_, _, h, -, -⟩
  · obtain ⟨c, hc, -⟩ := (calledAt_cons hkind).1 h
    exact ⟨c, hc⟩
  · obtain ⟨c, hc, -⟩ := (namedAt_cons hkind).1 h
    exact ⟨c, hc⟩

/-- The findings in a child are those under the node, except for the name of a factory that the
node calls. -/
theorem findingAt_cons (hkind : kind ≠ .importStatement) {c : Tree} (hc : ts[i]? = some c)
    (hfirst : i = 0 → ∀ callee line parts,
      ¬ (node kind ts).CalledAt names [] callee line parts) :
    (node kind ts).FindingAt names (i :: a) v ↔ c.FindingAt names a v := by
  have hcallee {n : String} {l : Nat} :
      (node kind ts).CalleeAt names (i :: a) n l ↔ c.CalleeAt names a n l := by
    rw [calleeAt_cons hkind hc, or_iff_left]
    intro h
    obtain ⟨hi, -, parts, h⟩ := h
    exact hfirst hi n l parts h
  have hchild {P : Tree → Prop} : (∃ c', ts[i]? = some c' ∧ P c') ↔ P c := by
    simp [hc]
  simp only [findingAt_iff, calledAt_cons hkind, namedAt_cons hkind, hcallee, hchild]

/-- **Under a node that is no call of a factory** stands what stands under its children. -/
theorem findingAt_node (hkind : kind ≠ .importStatement)
    (hcall : ∀ callee line parts, names callee →
      node kind ts ≠ node .call (leaf .identifier callee line :: parts)) :
    (node kind ts).FindingAt names a v ↔
      ∃ i b c, a = i :: b ∧ ts[i]? = some c ∧ c.FindingAt names b v := by
  have htop (callee : String) (l : Nat) (parts : List Tree) :
      ¬ (node kind ts).CalledAt names [] callee l parts :=
    fun ⟨hn, h⟩ => hcall _ _ _ hn (Option.some.inj h)
  constructor
  · intro h
    cases a with
    | nil =>
      rcases findingAt_iff.1 h with ⟨_, _, _, h, -⟩ | ⟨_, _, ⟨-, _, -, h⟩, -⟩
      · exact absurd h (htop _ _ _)
      · cases h
    | cons i b =>
      obtain ⟨c, hc⟩ := exists_child_of_findingAt hkind h
      exact ⟨i, b, c, rfl, hc, (findingAt_cons hkind hc fun _ => htop).1 h⟩
  · intro h
    obtain ⟨i, b, c, ha, hc, h⟩ := h
    rw [ha]
    exact (findingAt_cons hkind hc fun _ => htop).2 h

/-- **Under a call of a factory** stand the call itself and what stands behind the name. -/
theorem findingAt_call {parts : List Tree} (hname : names name) :
    (node .call (leaf .identifier name line :: parts)).FindingAt names a v ↔
      a = [] ∧ v = machineCall name line parts ∨
        ∃ i b c, a = (i + 1) :: b ∧ parts[i]? = some c ∧ c.FindingAt names b v := by
  have hkind : Kind.call ≠ .importStatement := by decide
  have htop : (node .call (leaf .identifier name line :: parts)).CalledAt names [] name line
      parts := ⟨hname, rfl⟩
  constructor
  · intro h
    match a with
    | [] =>
      rcases findingAt_iff.1 h with ⟨_, _, _, ⟨-, hat⟩, rfl⟩ | ⟨_, _, ⟨-, _, -, hat⟩, -⟩
      · obtain ⟨-, hts⟩ := Tree.node.inj (Option.some.inj hat)
        obtain ⟨hleaf, rfl⟩ := List.cons.inj hts
        obtain ⟨-, rfl, rfl⟩ := Tree.leaf.inj hleaf
        exact .inl ⟨rfl, rfl⟩
      · cases hat
    | 0 :: b =>
      -- the name is the only thing there, and it is called
      rcases findingAt_iff.1 h with ⟨_, _, _, hcalled, -⟩ | ⟨n, l, hnamed, hcallee, -⟩
      · obtain ⟨c, hc, hcalled⟩ := (calledAt_cons hkind).1 hcalled
        obtain rfl := Option.some.inj hc
        exact absurd hcalled not_calledAt_leaf
      · obtain ⟨c, hc, -, _, -, hat⟩ := (namedAt_cons hkind).1 hnamed
        obtain rfl := Option.some.inj hc
        obtain ⟨rfl, hleaf⟩ := at?_leaf.1 hat
        obtain ⟨-, rfl, rfl⟩ := Tree.leaf.inj hleaf
        exact absurd ⟨[], parts, rfl, htop⟩ hcallee
    | (i + 1) :: b =>
      obtain ⟨c, hc⟩ := exists_child_of_findingAt hkind h
      exact .inr ⟨i, b, c, rfl, hc, (findingAt_cons hkind hc fun hi => by cases hi).1 h⟩
  · intro h
    rcases h with ⟨rfl, rfl⟩ | ⟨i, b, c, rfl, hc, h⟩
    · exact findingAt_iff.2 (.inl ⟨name, line, parts, htop, rfl⟩)
    · have hc' : (leaf .identifier name line :: parts)[i + 1]? = some c := hc
      exact (findingAt_cons hkind hc' fun hi => by cases hi).2 h

/-! ## 3. The findings of a tree -/

mutual

/-- The findings in a tree. -/
def findings (names : List String) : Tree → List (Except CallError MachineCall)
  | node .importStatement _ => []
  | node .call (leaf .identifier name line :: parts) =>
    if names.contains name then machineCall name line parts :: findingsAll names parts
    else findingsAll names parts
  | node _ ts => findingsAll names ts
  | leaf kind text line =>
    if (kind = .identifier ∨ kind = .shorthandProperty) ∧ names.contains text then
      [.error (.factoryNotCalled text line)]
    else []

/-- The findings in some trees. -/
def findingsAll (names : List String) : List Tree → List (Except CallError MachineCall)
  | [] => []
  | t :: rest => findings names t ++ findingsAll names rest

end

theorem findingsAll_eq_flatMap (names : List String) (ts : List Tree) :
    findingsAll names ts = ts.flatMap (findings names) := by
  induction ts with
  | nil => rfl
  | cons t rest ih => rw [findingsAll, ih, List.flatMap_cons]

/-- **The calls in a tree are the findings**, if none of them is a fault. -/
theorem callsIn_eq_mapM (names : List String) (t : Tree) :
    callsIn names t = (findings names t).mapM id := by
  refine callsIn.induct names (fun t => callsIn names t = (findings names t).mapM id)
    (fun ts => callsInAll names ts = (findingsAll names ts).mapM id)
    ?importStatement ?call ?otherCall ?node ?name ?leaf ?nil ?cons t
  case importStatement =>
    intro parts
    rw [callsIn, findings]
    rfl
  case call =>
    intro name line parts hname ih
    rw [callsIn, findings, if_pos hname, if_pos hname, List.mapM_cons, ih]
    rfl
  case otherCall =>
    intro name line parts hname ih
    rw [callsIn, findings, if_neg hname, if_neg hname, ih]
  case node =>
    intro kind ts himport hcall ih
    rw [callsIn, findings, ih]
    · exact himport
    · exact hcall
    · exact himport
    · exact hcall
  case name =>
    intro kind text line h
    rw [callsIn, findings, if_pos h, if_pos h]
    rfl
  case leaf =>
    intro kind text line h
    rw [callsIn, findings, if_neg h, if_neg h]
    rfl
  case nil =>
    rw [callsInAll, findingsAll]
    rfl
  case cons =>
    intro t rest iht ihrest
    rw [callsInAll, findingsAll, List.mapM_append, iht, ihrest]

/-- One step further to the right. -/
theorem modifyHead_succ_lt {a b : List Nat} (h : a < b) :
    a.modifyHead (· + 1) < b.modifyHead (· + 1) := by
  cases a with
  | nil =>
    cases b with
    | nil => exact h
    | cons j b => exact List.nil_lt_cons _ _
  | cons i a =>
    cases b with
    | nil => cases h
    | cons j b =>
      rw [List.modifyHead_cons, List.modifyHead_cons, List.cons_lt_cons_iff]
      rcases List.cons_lt_cons_iff.1 h with hij | ⟨hij, hab⟩
      · exact .inl (Nat.succ_lt_succ hij)
      · exact .inr ⟨congrArg (· + 1) hij, hab⟩

/-- **The findings are in the order of their addresses.** -/
theorem inOrder_findings (names : List String) (t : Tree) :
    InOrder (· < ·) (t.FindingAt (· ∈ names)) (findings names t) := by
  refine findings.induct names
    (fun t => InOrder (· < ·) (t.FindingAt (· ∈ names)) (findings names t))
    (fun ts => ∀ t ∈ ts, InOrder (· < ·) (t.FindingAt (· ∈ names)) (findings names t))
    ?importStatement ?call ?otherCall ?node ?name ?leaf ?nil ?cons t
  case importStatement =>
    intro parts
    rw [findings]
    exact .nil fun a v => not_findingAt_import
  case call =>
    intro name line parts hname ih
    rw [findings, if_pos hname, findingsAll_eq_flatMap]
    have hparts := (InOrder.flatMap parts ih).readdress (s := (· < ·)) (List.modifyHead (· + 1))
      fun _ _ => modifyHead_succ_lt
    refine ((InOrder.singleton [] _).append hparts fun a x b y ha hb => ?_).congr fun a v => ?_
    · obtain ⟨rfl, -⟩ := ha
      obtain ⟨_, rfl, i, b', c, rfl, -⟩ := hb
      exact List.nil_lt_cons _ _
    · rw [findingAt_call (List.contains_iff_mem.1 hname)]
      refine or_congr Iff.rfl ⟨fun h => ?_, fun h => ?_⟩
      · obtain ⟨i, b, c, rfl, hc, hv⟩ := h
        exact ⟨i :: b, rfl, i, b, c, rfl, hc, hv⟩
      · obtain ⟨_, rfl, i, b, c, rfl, hc, hv⟩ := h
        exact ⟨i, b, c, rfl, hc, hv⟩
  case otherCall =>
    intro name line parts hname ih
    have hleaf : findings names (leaf .identifier name line) = [] := by
      rw [findings, if_neg fun h => hname h.2]
    have hparts : ∀ t ∈ leaf .identifier name line :: parts,
        InOrder (· < ·) (t.FindingAt (· ∈ names)) (findings names t) := by
      refine List.forall_mem_cons.2 ⟨?_, ih⟩
      rw [hleaf]
      exact .nil fun a v h => hname (List.contains_iff_mem.2 (findingAt_leaf.1 h).2.2.2)
    have hall := InOrder.flatMap _ hparts
    rw [List.flatMap_cons, hleaf, List.nil_append] at hall
    rw [findings, if_neg hname, findingsAll_eq_flatMap]
    refine hall.congr fun a v => findingAt_node (by decide) fun callee l parts' hcallee h => ?_
    obtain ⟨-, hts⟩ := Tree.node.inj h
    obtain ⟨-, rfl, -⟩ := Tree.leaf.inj (List.cons.inj hts).1
    exact hname (List.contains_iff_mem.2 hcallee)
  case node =>
    intro kind ts himport hcall ih
    rw [findings, findingsAll_eq_flatMap]
    · refine (InOrder.flatMap ts ih).congr fun a v => findingAt_node himport ?_
      intro callee line parts _ h
      obtain ⟨hkind, hts⟩ := Tree.node.inj h
      exact hcall callee line parts hkind hts
    · exact himport
    · exact hcall
  case name =>
    intro kind text line h
    rw [findings, if_pos h]
    refine (InOrder.singleton [] _).congr fun a v => findingAt_leaf.trans ?_
    rw [← and_assoc, and_iff_left ⟨h.1, List.contains_iff_mem.1 h.2⟩]
  case leaf =>
    intro kind text line h
    rw [findings, if_neg h]
    refine .nil fun a v hv => h ?_
    obtain ⟨-, -, hkind, hname⟩ := findingAt_leaf.1 hv
    exact ⟨hkind, List.contains_iff_mem.2 hname⟩
  case nil => exact List.forall_mem_nil _
  case cons =>
    intro t rest iht ihrest
    exact List.forall_mem_cons.2 ⟨iht, ihrest⟩

end Source.Tree

end Statechart
