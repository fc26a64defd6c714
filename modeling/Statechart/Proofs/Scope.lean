import Statechart.Scope

/-!
# Chains of names

A name that stands for an expression leads on to it, and from there on if that is a name again.
Main statement: where the chain from a name ends soon enough to be followed, the name and the
expression that it stands for are resolved alike.
-/

namespace Statechart.Scope

variable {scope : Scope} {hops k : Nat} {name : String} {e e' v : Expression}

/-! ## 1. Chains -/

/-- **Following bindings `hops` times leads from the first expression to the second.** -/
inductive Leads (scope : Scope) : (hops : Nat) → Expression → Expression → Prop
  | here (e : Expression) : Leads scope 0 e e
  | hop {hops : Nat} {name : String} {v e : Expression}
      (hv : scope.binding? name = some (.value v)) (rest : Leads scope hops v e) :
      Leads scope (hops + 1) (.name name) e

/-- The expression is no name that stands for another one. -/
def IsEnd (scope : Scope) (e : Expression) : Prop :=
  ∀ name v, e = .name name → scope.binding? name ≠ some (.value v)

/-- The chain from the expression ends after at most `hops` bindings. -/
def EndsWithin (scope : Scope) (hops : Nat) (e : Expression) : Prop :=
  ∃ k ≤ hops, ∃ e', scope.Leads k e e' ∧ scope.IsEnd e'

/-! ## 2. Following chains -/

/-- At the end of a chain more hops change nothing once there is one for looking at it. -/
theorem follow_of_isEnd (h : scope.IsEnd e) : scope.follow (hops + 1) e = scope.follow 1 e := by
  cases e with
  | name n =>
    rw [follow, follow]
    cases hb : scope.binding? n with
    | none => rfl
    | some b =>
      cases b with
      | value v => exact absurd hb (h n v rfl)
      | function => rfl
      | imported _ _ => rfl
  | _ => rfl

theorem follow_name (hv : scope.binding? name = some (.value v)) :
    scope.follow (hops + 1) (.name name) = scope.follow hops v := by
  rw [follow, hv]

/-- **After a part of a chain the rest is followed from where that part leads to.** -/
theorem follow_add_of_leads (h : scope.Leads k e e') (hops : Nat) :
    scope.follow (k + hops) e = scope.follow hops e' := by
  induction h with
  | here e => rw [Nat.zero_add]
  | hop hv rest ih =>
    rw [Nat.add_right_comm, follow_name hv]
    exact ih

/-- **A chain that is shorter than the hops is followed to its end.** -/
theorem follow_of_leads (h : scope.Leads k e e') (hend : scope.IsEnd e') (hk : k < hops) :
    scope.follow hops e = scope.follow 1 e' := by
  obtain ⟨rest, rfl⟩ : ∃ rest, hops = k + (rest + 1) := ⟨hops - (k + 1), by omega⟩
  rw [follow_add_of_leads h]
  exact follow_of_isEnd hend

/-- What a name stands for is one hop nearer to the end. -/
theorem leads_of_name (hv : scope.binding? name = some (.value v))
    (h : scope.Leads k (.name name) e') (hend : scope.IsEnd e') :
    ∃ j, k = j + 1 ∧ scope.Leads j v e' := by
  cases h with
  | here => exact absurd hv (hend name v rfl)
  | @hop j _ v' _ hv' rest =>
    obtain rfl := Binding.value.inj (Option.some.inj (hv.symm.trans hv'))
    exact ⟨j, rfl, rest⟩

/-- **A name and what it stands for are resolved alike** where the chain is followed to its end. -/
theorem resolve_name (hv : scope.binding? name = some (.value v)) (hhops : hops < maxHops)
    (h : scope.EndsWithin hops (.name name)) :
    scope.resolve (.name name) = scope.resolve v := by
  obtain ⟨k, hk, e', hleads, hend⟩ := h
  obtain ⟨j, rfl, hrest⟩ := leads_of_name hv hleads hend
  have hname : scope.follow maxHops (.name name) = scope.follow 1 e' :=
    follow_of_leads hleads hend (by omega)
  have hvalue : scope.follow maxHops v = scope.follow 1 e' :=
    follow_of_leads hrest hend (by omega)
  exact hname.trans hvalue.symm

end Statechart.Scope
