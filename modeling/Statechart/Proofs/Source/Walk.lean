import Statechart.Source.Calls

/-!
# Calls found with a stack

The calls of a tree can be looked for without recursion: trees that remain are kept on a stack, and
the topmost is looked at alone and makes room for its children. Main statement: what is found is what
`callsIn` gives, the first fault included.
-/

namespace Statechart.Source.Tree

/-! ## 1. The walk -/

/-- What is at the top of a tree: the call that is made there, if one is, and the trees to go on
with. -/
def visit (factories : List String) : Tree → Except CallError (Option MachineCall × List Tree)
  | node .importStatement _ => .ok (none, [])
  | node .call (leaf .identifier name line :: parts) =>
    if factories.contains name then
      (machineCall name line parts).map fun call => (some call, parts)
    else .ok (none, leaf .identifier name line :: parts)
  | node _ ts => .ok (none, ts)
  | leaf kind text line =>
    if (kind = .identifier ∨ kind = .shorthandProperty) ∧ factories.contains text then
      .error (.factoryNotCalled text line)
    else .ok (none, [])

/-- Puts trees on a stack one by one, the last of them first. -/
def pushAll (ts stack : List Tree) : List Tree := ts.reverse.foldl (fun stack t => t :: stack) stack

theorem pushAll_eq_append (ts stack : List Tree) : pushAll ts stack = ts ++ stack := by
  rw [pushAll, List.foldl_reverse, List.foldr_cons_eq_append, List.map_id']

mutual

/-- The number of nodes and leaves. -/
def size : Tree → Nat
  | leaf _ _ _ => 1
  | node _ ts => 1 + sizeAll ts

/-- The number of nodes and leaves of some trees. -/
def sizeAll : List Tree → Nat
  | [] => 0
  | t :: rest => size t + sizeAll rest

end

theorem sizeAll_append (ts us : List Tree) : sizeAll (ts ++ us) = sizeAll ts + sizeAll us := by
  induction ts with
  | nil => rw [List.nil_append, sizeAll, Nat.zero_add]
  | cons t ts ih => rw [List.cons_append, sizeAll, sizeAll, ih, Nat.add_assoc]

/-- The trees to go on with are smaller together than the tree they come from. -/
theorem sizeAll_of_visit {names : List String} {t : Tree} {call : Option MachineCall}
    {ts : List Tree} (h : visit names t = .ok (call, ts)) : sizeAll ts < size t := by
  unfold visit at h
  split at h
  · cases h
    rw [size, sizeAll]
    omega
  · next name line parts =>
    have hparts : sizeAll parts < size (node .call (leaf .identifier name line :: parts)) := by
      rw [size, sizeAll, size]
      omega
    split at h
    · cases hcall : machineCall name line parts with
      | error e =>
        rw [hcall] at h
        cases h
      | ok made =>
        rw [hcall] at h
        cases h
        exact hparts
    · cases h
      rw [size]
      omega
  · cases h
    rw [size]
    omega
  · split at h
    · cases h
    · cases h
      rw [size, sizeAll]
      omega

/-- Takes the topmost tree off the stack until none is left, and gathers the calls. -/
def walk (factories : List String) (stack : List Tree) (calls : List MachineCall) :
    Except CallError (List MachineCall) :=
  match stack with
  | [] => .ok calls
  | t :: stack =>
    match _h : visit factories t with
    | .error e => .error e
    | .ok (call, ts) => walk factories (pushAll ts stack) (calls ++ call.toList)
termination_by sizeAll stack
decreasing_by
  have hlt := sizeAll_of_visit ‹visit factories t = _›
  rw [pushAll_eq_append, sizeAll_append, sizeAll]
  omega

/-! ## 2. What is found -/

variable {names : List String} {t : Tree}

theorem walk_of_visit {call : Option MachineCall} {ts : List Tree}
    (h : visit names t = .ok (call, ts)) (stack : List Tree) (calls : List MachineCall) :
    walk names (t :: stack) calls = walk names (ts ++ stack) (calls ++ call.toList) := by
  rw [walk]
  split
  · next he => cases h.symm.trans he
  · next hok =>
    cases h.symm.trans hok
    rw [pushAll_eq_append]

theorem walk_of_fault {e : CallError} (h : visit names t = .error e) (stack : List Tree)
    (calls : List MachineCall) : walk names (t :: stack) calls = .error e := by
  rw [walk]
  split
  · next he =>
    cases h.symm.trans he
    rfl
  · next hok => cases h.symm.trans hok

/-- **A tree on top of the stack is walked through before the rest**, and its calls come first. The
induction is on the tree, and on the trees that are pushed together. -/
theorem walk_cons (names : List String) (t : Tree) (stack : List Tree) (calls : List MachineCall) :
    walk names (t :: stack) calls =
      (callsIn names t) >>= fun found => walk names stack (calls ++ found) := by
  refine callsIn.induct names
    (fun t => ∀ stack calls, walk names (t :: stack) calls =
      (callsIn names t) >>= fun found => walk names stack (calls ++ found))
    (fun ts => ∀ stack calls, walk names (ts ++ stack) calls =
      (callsInAll names ts) >>= fun found => walk names stack (calls ++ found))
    ?importStatement ?call ?otherCall ?node ?name ?leaf ?nil ?cons t stack calls
  case importStatement =>
    intro parts stack calls
    rw [walk_of_visit (by rw [visit]), callsIn]
    rfl
  case call =>
    intro name line parts hname ih stack calls
    have hvisit : visit names (node .call (leaf .identifier name line :: parts)) =
        (machineCall name line parts).map fun call => (some call, parts) := by
      rw [visit, if_pos hname]
    rw [callsIn, if_pos hname]
    cases hcall : machineCall name line parts with
    | error e =>
      rw [hcall] at hvisit
      rw [walk_of_fault hvisit]
      rfl
    | ok made =>
      rw [hcall] at hvisit
      rw [walk_of_visit hvisit, ih]
      cases callsInAll names parts with
      | error e => rfl
      | ok found =>
        show walk names stack (calls ++ [made] ++ found) =
          walk names stack (calls ++ made :: found)
        rw [List.append_assoc, List.singleton_append]
  case otherCall =>
    intro name line parts hname ih stack calls
    have hvisit : visit names (node .call (leaf .identifier name line :: parts)) =
        .ok (none, leaf .identifier name line :: parts) := by
      rw [visit, if_neg hname]
    have hcallee : visit names (leaf .identifier name line) = .ok (none, []) := by
      rw [visit, if_neg fun h => hname h.2]
    rw [walk_of_visit hvisit, List.cons_append, walk_of_visit hcallee, callsIn, if_neg hname]
    simpa using ih stack calls
  case node =>
    intro kind ts himport hcall ih stack calls
    have hvisit : visit names (node kind ts) = .ok (none, ts) := by
      rw [visit]
      · exact himport
      · exact hcall
    rw [walk_of_visit hvisit, callsIn]
    · simpa using ih stack calls
    · exact himport
    · exact hcall
  case name =>
    intro kind text line h stack calls
    rw [walk_of_fault (by rw [visit, if_pos h]), callsIn, if_pos h]
    rfl
  case leaf =>
    intro kind text line h stack calls
    rw [walk_of_visit (by rw [visit, if_neg h]), callsIn, if_neg h]
    rfl
  case nil =>
    intro stack calls
    show walk names stack calls = walk names stack (calls ++ [])
    rw [List.append_nil]
  case cons =>
    intro t ts iht ihts stack calls
    rw [List.cons_append, iht, callsInAll]
    cases callsIn names t with
    | error e => rfl
    | ok found =>
      show walk names (ts ++ stack) (calls ++ found) = _
      rw [ihts]
      cases callsInAll names ts with
      | error e => rfl
      | ok more =>
        show walk names stack (calls ++ found ++ more) = walk names stack (calls ++ (found ++ more))
        rw [List.append_assoc]

/-- **Walking with a stack finds what is found by recursion**, calls and faults. -/
theorem walk_eq_callsIn (names : List String) (t : Tree) : walk names [t] [] = callsIn names t := by
  rw [walk_cons]
  cases callsIn names t with
  | error e => rfl
  | ok found =>
    show walk names [] ([] ++ found) = .ok found
    rw [walk, List.nil_append]

end Statechart.Source.Tree
