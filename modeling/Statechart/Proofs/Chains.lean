import Mathlib.Data.Nat.Find
import Statechart.Proofs.Scope

/-!
# Where chains of names end

A chain of names ends, or it comes back to a name and goes round for ever. Main statement: an end
that is near enough is what the name is resolved to. On a circle the bindings are followed as often
as they can be, so that a name is left as it is just where that goes round a number of whole times;
on any other circle it is resolved to another name.
-/

namespace Statechart.Scope

variable {scope : Scope} {hops j k length : Nat} {name : String} {x e e' e'' : Expression}

/-! ## 1. Parts of chains -/

theorem Leads.trans (h : scope.Leads j e e') (h' : scope.Leads k e' e'') :
    scope.Leads (j + k) e e'' := by
  induction h with
  | here e =>
    rw [Nat.zero_add]
    exact h'
  | @hop j name v e hv rest ih =>
    rw [Nat.add_right_comm]
    exact .hop hv (ih h')

theorem Leads.exists_between (h : scope.Leads (j + k) e e'') :
    ∃ e', scope.Leads j e e' ∧ scope.Leads k e' e'' := by
  induction j generalizing e with
  | zero =>
    rw [Nat.zero_add] at h
    exact ⟨e, .here e, h⟩
  | succ j ih =>
    rw [Nat.add_right_comm] at h
    cases h with
    | hop hv rest =>
      obtain ⟨e', hfirst, hlast⟩ := ih rest
      exact ⟨e', .hop hv hfirst, hlast⟩

theorem follow_eq_of_leads (h : scope.Leads k e e') : scope.follow k e = e' :=
  follow_add_of_leads h 0

/-! ## 2. Ends -/

/-- The expression stays what it is: it is no name, or the name of something that is imported or
unknown. -/
inductive Settled (scope : Scope) : Expression → Prop
  | expression {e : Expression} (he : ∀ name, e ≠ .name name) : Settled scope e
  | unknown {name : String} (hb : scope.binding? name = none) : Settled scope (.name name)
  | imported {name module : String} {what : Export}
      (hb : scope.binding? name = some (.imported module what)) : Settled scope (.name name)

theorem Settled.follow_eq (h : scope.Settled e) (hops : Nat) : scope.follow hops e = e := by
  cases hops with
  | zero => rfl
  | succ hops =>
    cases h with
    | expression he =>
      cases e with
      | name n => exact absurd rfl (he n)
      | _ => rfl
    | unknown hb => rw [follow, hb]
    | imported hb => rw [follow, hb]

theorem follow_of_settled (h : scope.Leads k e e') (hk : k ≤ hops) (he' : scope.Settled e') :
    scope.follow hops e = e' := by
  obtain ⟨rest, rfl⟩ : ∃ rest, hops = k + rest := ⟨hops - k, by omega⟩
  calc scope.follow (k + rest) e = scope.follow rest e' := follow_add_of_leads h rest
    _ = e' := he'.follow_eq rest

/-- A function takes one hop more than an expression, since its name is looked up. -/
theorem follow_of_function (h : scope.Leads k e (.name name)) (hk : k < hops)
    (hb : scope.binding? name = some .function) : scope.follow hops e = .function := by
  obtain ⟨rest, rfl⟩ : ∃ rest, hops = k + (rest + 1) := ⟨hops - (k + 1), by omega⟩
  calc scope.follow (k + (rest + 1)) e = scope.follow (rest + 1) (.name name) :=
        follow_add_of_leads h (rest + 1)
    _ = .function := by rw [follow, hb]

theorem IsEnd.settled_or_function (h : scope.IsEnd e) :
    scope.Settled e ∨ ∃ name, e = .name name ∧ scope.binding? name = some .function := by
  cases e with
  | name n =>
    cases hb : scope.binding? n with
    | none => exact .inl (.unknown hb)
    | some b =>
      cases b with
      | value v => exact absurd hb (h n v rfl)
      | function => exact .inr ⟨n, rfl, hb⟩
      | imported _ _ => exact .inl (.imported hb)
  | _ => exact .inl (.expression fun _ h => by cases h)

/-- **A chain goes on for any number of hops, or ends before.** -/
theorem leads_or_ends (scope : Scope) (hops : Nat) (e : Expression) :
    (∃ e', scope.Leads hops e e') ∨ ∃ k < hops, ∃ e', scope.Leads k e e' ∧ scope.IsEnd e' := by
  induction hops with
  | zero => exact .inl ⟨e, .here e⟩
  | succ hops ih =>
    rcases ih with ⟨e', h⟩ | ⟨k, hk, hends⟩
    · by_cases hend : scope.IsEnd e'
      · exact .inr ⟨hops, Nat.lt_succ_self hops, e', h, hend⟩
      · obtain ⟨name, v, rfl, hv⟩ : ∃ name v, e' = .name name ∧
            scope.binding? name = some (.value v) := by
          simpa [IsEnd] using hend
        exact .inl ⟨v, h.trans (.hop hv (.here v))⟩
    · exact .inr ⟨k, Nat.lt_succ_of_lt hk, hends⟩

/-- What stands at the end of a chain is what the chain is resolved to, unless it is too far away
and a name is left. -/
theorem resolve_eq_or_name (h : scope.Leads k e e') (he' : ∀ name, e' ≠ .name name) :
    scope.resolve e = e' ∨ ∃ name, scope.resolve e = .name name := by
  by_cases hk : k ≤ maxHops
  · exact .inl (follow_of_settled h hk (.expression he'))
  · obtain ⟨rest, rfl⟩ : ∃ rest, k = maxHops + (rest + 1) := ⟨k - (maxHops + 1), by omega⟩
    obtain ⟨e'', hfirst, hlast⟩ := h.exists_between
    rw [resolve, follow_eq_of_leads hfirst]
    cases hlast with
    | hop _ _ => exact .inr ⟨_, rfl⟩

/-! ## 3. What an expression stands for -/

/-- The chain of names that begins with the first expression leads to the second, however long it
is. -/
def StandsFor (scope : Scope) (x e : Expression) : Prop := ∃ k, scope.Leads k x e

/-- What an expression is resolved to it stands for, save that a function is no expression that a
name is bound to. -/
theorem standsFor_of_resolve (hx : scope.resolve x = e) (he : e ≠ .function) :
    scope.StandsFor x e := by
  rcases scope.leads_or_ends maxHops x with ⟨e', h⟩ | ⟨k, hk, e', h, hend⟩
  · rw [resolve, follow_eq_of_leads h] at hx
    exact hx ▸ ⟨maxHops, h⟩
  · rcases hend.settled_or_function with hsettled | ⟨name, rfl, hb⟩
    · rw [resolve, follow_of_settled h (Nat.le_of_lt hk) hsettled] at hx
      exact hx ▸ ⟨k, h⟩
    · rw [resolve, follow_of_function h hk hb] at hx
      exact absurd hx.symm he

/-- What is no name and is found at the end of a chain is what the chain leads to. -/
theorem StandsFor.eq_of_resolve (h : scope.StandsFor x e) (he : ∀ name, e ≠ .name name)
    (hx : scope.resolve x = e') (he' : ∀ name, e' ≠ .name name) : e = e' := by
  obtain ⟨k, hleads⟩ := h
  rcases resolve_eq_or_name hleads he with hresolve | ⟨name, hresolve⟩
  · exact hresolve.symm.trans hx
  · exact absurd (hx.symm.trans hresolve) (he' name)

/-! ## 4. Circles -/

/-- **The name is on a circle of names**: so many bindings lead from it back to it, and no fewer. -/
structure OnCircle (scope : Scope) (length : Nat) (name : String) : Prop where
  pos : 0 < length
  back : scope.Leads length (.name name) (.name name)
  first : ∀ k, 0 < k → scope.Leads k (.name name) (.name name) → length ≤ k

/-- A name that leads back to itself is on a circle. -/
theorem exists_onCircle (hk : 0 < k) (h : scope.Leads k (.name name) (.name name)) :
    ∃ length, scope.OnCircle length name := by
  classical
  have hex : ∃ k, 0 < k ∧ scope.Leads k (.name name) (.name name) := ⟨k, hk, h⟩
  obtain ⟨hpos, hback⟩ := Nat.find_spec hex
  exact ⟨Nat.find hex, hpos, hback, fun k hk h => Nat.find_min' hex ⟨hk, h⟩⟩

/-- Going round leads back any number of times. -/
theorem leads_mul (h : scope.Leads length e e) (rounds : Nat) :
    scope.Leads (length * rounds) e e := by
  induction rounds with
  | zero => exact .here e
  | succ rounds ih =>
    rw [Nat.mul_succ]
    exact ih.trans h

/-- **On a circle whole rounds change nothing**, and the rest of the hops leads on to what is
found. -/
theorem OnCircle.leads_follow (h : scope.OnCircle length name) (hops : Nat) :
    scope.Leads (hops % length) (.name name) (scope.follow hops (.name name)) := by
  -- the whole rounds come first, and the rest of the hops does not go round
  have hsplit : hops = length * (hops / length) + hops % length := (Nat.div_add_mod _ _).symm
  have hrest : hops % length < length := Nat.mod_lt _ h.pos
  obtain ⟨e, hfirst, -⟩ : ∃ e, scope.Leads (hops % length) (.name name) e ∧
      scope.Leads (length - hops % length) e (.name name) := by
    refine Leads.exists_between ?_
    rw [Nat.add_sub_of_le (Nat.le_of_lt hrest)]
    exact h.back
  have hfollow : scope.follow hops (.name name) = e :=
    calc scope.follow hops (.name name)
        = scope.follow (length * (hops / length) + hops % length) (.name name) := by rw [← hsplit]
      _ = scope.follow (hops % length) (.name name) :=
        follow_add_of_leads (leads_mul h.back _) _
      _ = e := follow_eq_of_leads hfirst
  rw [hfollow]
  exact hfirst

/-- A name on a circle is found again just after whole rounds. -/
theorem OnCircle.follow_eq_iff (h : scope.OnCircle length name) (hops : Nat) :
    scope.follow hops (.name name) = .name name ↔ length ∣ hops := by
  constructor
  · intro hfollow
    have hleads := h.leads_follow hops
    rw [hfollow] at hleads
    have hrest : hops % length < length := Nat.mod_lt _ h.pos
    by_contra hdvd
    have hpos : 0 < hops % length := Nat.emod_pos_of_not_dvd hdvd
    have hlength := h.first _ hpos hleads
    omega
  · intro hdvd
    obtain ⟨rounds, rfl⟩ := hdvd
    exact follow_eq_of_leads (leads_mul h.back rounds)

/-! ## 5. All chains -/

/-- **What an expression is resolved to.** The end of a chain is found if at most as many bindings
lead to it as are followed, and a function if fewer do; where a chain goes on, it is followed that
far. A name that leads back to itself is on a circle of some length, and is resolved to the name
that so many hops lead to as remain after whole rounds: to itself just where none remain. -/
theorem resolve_of_chain (scope : Scope) :
    (∀ k e e', scope.Leads k e e' → k ≤ maxHops → scope.Settled e' → scope.resolve e = e') ∧
      (∀ k e name, scope.Leads k e (.name name) → k < maxHops →
        scope.binding? name = some .function → scope.resolve e = .function) ∧
      (∀ e e', scope.Leads maxHops e e' → scope.resolve e = e') ∧
      ∀ k name, 0 < k → scope.Leads k (.name name) (.name name) →
        ∃ length, scope.OnCircle length name ∧
          scope.Leads (maxHops % length) (.name name) (scope.resolve (.name name)) ∧
          (scope.resolve (.name name) = .name name ↔ length ∣ maxHops) := by
  refine ⟨fun k e e' h hk he' => follow_of_settled h hk he',
    fun k e name h hk hb => follow_of_function h hk hb,
    fun e e' h => follow_eq_of_leads h, fun k name hk h => ?_⟩
  obtain ⟨length, hcircle⟩ := exists_onCircle hk h
  exact ⟨length, hcircle, hcircle.leads_follow maxHops, hcircle.follow_eq_iff maxHops⟩

/-- A text and a function are found two names away. Of three names in a circle, `a` is not left as
it is but resolved to the next one. -/
theorem resolve_circle_of_three :
    let scope : Scope :=
      [("title", .value (.name "label")), ("label", .value (.string "lamp")),
        ("start", .value (.name "go")), ("go", .value (.name "run")), ("run", .function),
        ("a", .value (.name "b")), ("b", .value (.name "c")), ("c", .value (.name "a"))]
    scope.Leads 2 (.name "title") (.string "lamp") ∧
      scope.resolve (.name "title") = .string "lamp" ∧
      scope.Leads 2 (.name "start") (.name "run") ∧ scope.resolve (.name "start") = .function ∧
      scope.Leads 3 (.name "a") (.name "a") ∧ scope.resolve (.name "a") = .name "b" ∧
      ∃ length, scope.OnCircle length "a" ∧ ¬ length ∣ maxHops := by
  intro scope
  obtain ⟨hend, hfunction, hfar, hcircle⟩ := resolve_of_chain scope
  have htitle : scope.Leads 2 (.name "title") (.string "lamp") := .hop rfl (.hop rfl (.here _))
  have hstart : scope.Leads 2 (.name "start") (.name "run") := .hop rfl (.hop rfl (.here _))
  have hback : scope.Leads 3 (.name "a") (.name "a") :=
    .hop rfl (.hop rfl (.hop rfl (.here _)))
  have hnext : scope.resolve (.name "a") = .name "b" :=
    hfar _ _ ((leads_mul hback 5).trans (.hop rfl (.here _)))
  obtain ⟨length, honCircle, -, hself⟩ := hcircle 3 "a" (by decide) hback
  refine ⟨htitle, hend 2 _ _ htitle (by decide) (.expression fun _ h => by cases h),
    hstart, hfunction 2 _ _ hstart (by decide) rfl, hback, hnext, length, honCircle,
    fun hlength => ?_⟩
  have hleft : scope.resolve (.name "a") = .name "a" := hself.2 hlength
  rw [hnext] at hleft
  exact absurd hleft (by simp)

end Statechart.Scope
