import Statechart.Proofs.Chains
import Statechart.Proofs.Kept
import Statechart.Proofs.Shape.Parts

/-!
# What is refused

One part that is refused on all levels makes its whole be refused: a field or an entry its object,
an item its array. Main statement: a state is refused for any state below it, and for the actions
of any of its transitions.
-/

namespace Statechart

/-! ## 1. Parts of what is written -/

namespace Scope

/-- The first expression stands for an object, and the second is written last under the key. -/
def Holds (scope : Scope) (x : Expression) (key : String) (y : Expression) : Prop :=
  ∃ entries, scope.StandsFor x (.object entries) ∧ Entry.last? entries key = some y

/-- The second expression is the first, or an item of the array that this stands for. -/
inductive Lists (scope : Scope) (x : Expression) : Expression → Prop
  | self : Lists scope x x
  | item {items : List Expression} {y : Expression} (hx : scope.StandsFor x (.array items))
      (hy : y ∈ items) : Lists scope x y

/-- The second expression is the first, or a state below it, on whatever level. -/
inductive StateWithin (scope : Scope) : Expression → Expression → Prop
  | self (e : Expression) : StateWithin scope e e
  | child {e x c s : Expression} {key : String} (hx : scope.Holds e "states" x)
      (hc : scope.Holds x key c) (rest : StateWithin scope c s) : StateWithin scope e s

/-- The second expression is a transition of the state that is the first: for an event or a delay,
without an event, or after one of its services. -/
inductive TransitionOf (scope : Scope) (s : Expression) : Expression → Prop
  | keyed {key event : String} {m x t : Expression} (hkey : key ∈ ["on", "after"])
      (hm : scope.Holds s key m) (hx : scope.Holds m event x) (ht : scope.Lists x t) :
      TransitionOf scope s t
  | plain {key : String} {x t : Expression} (hkey : key ∈ ["always", "onDone"])
      (hx : scope.Holds s key x) (ht : scope.Lists x t) : TransitionOf scope s t
  | ofService {key : String} {m i x t : Expression} (hm : scope.Holds s "invoke" m)
      (hi : scope.Lists m i) (hkey : key ∈ ["onDone", "onError"]) (hx : scope.Holds i key x)
      (ht : scope.Lists x t) : TransitionOf scope s t

theorem Holds.exists_object {scope : Scope} {x y : Expression} {key : String}
    (h : scope.Holds x key y) : ∃ entries, scope.StandsFor x (.object entries) := by
  obtain ⟨entries, hx, -⟩ := h
  exact ⟨entries, hx⟩

end Scope

namespace Shape

variable {cx : Context} {s : Shape} {x y e t : Expression} {key : String}

/-! ## 2. Parts that are refused -/

/-- **The shape accepts the expression on no level.** -/
def Refuses (cx : Context) (s : Shape) (x : Expression) : Prop :=
  ∀ n, read cx n s (some x) = .failed

/-- A shape of one form refuses what stands for another form, be it near or too far away. -/
theorem refuses_of_form {f g : Form} (hx : cx.scope.StandsFor x e)
    (he : formOf? (some e) = some g) (hs : s.form? = some f) (hne : f ≠ g) : Refuses cx s x := by
  intro n
  by_contra hread
  have hform : formOf? (some (cx.scope.resolve x)) = some f := formOf?_of_read hread hs
  obtain ⟨k, hleads⟩ := hx
  have hname : ∀ name, e ≠ .name name := by
    intro name h
    rw [h] at he
    cases he
  rcases Scope.resolve_eq_or_name hleads hname with hresolve | ⟨name, hresolve⟩
  · rw [hresolve, he] at hform
    exact hne (Option.some.inj hform).symm
  · rw [hresolve] at hform
    cases hform

theorem refuses_optional (h : Refuses cx s x) : Refuses cx (.optional s) x := by
  intro n
  rw [read_optional_some]
  exact h n

theorem refuses_rule {r : Rule} (h : Refuses cx (ofRule r) x) : Refuses cx (.rule r) x := by
  intro n
  rw [read_rule_eq]
  exact h n

theorem refuses_oneOf {alternatives : List Shape} (h : ∀ s ∈ alternatives, Refuses cx s x) :
    Refuses cx (.oneOf alternatives) x := by
  intro n
  by_contra hread
  obtain ⟨s, hs, hread⟩ := exists_alternative_of_ne_failed hread
  exact hread (h s hs n)

theorem refuses_either {s' : Shape} (hs : Refuses cx s x) (hs' : Refuses cx s' x) :
    Refuses cx (.oneOf [s, s']) x :=
  refuses_oneOf (List.forall_mem_cons.2 ⟨hs, List.forall_mem_singleton.2 hs'⟩)

theorem refuses_array {items : List Expression} (hx : cx.scope.StandsFor x (.array items))
    (hy : y ∈ items) (h : Refuses cx s y) : Refuses cx (.array s) x := by
  intro n
  by_contra hread
  obtain ⟨m, _, items', _, rfl, hxx, hx', -⟩ := exists_array hread
  obtain rfl := Option.some.inj hxx
  obtain rfl := Expression.array.inj
    (hx.eq_of_resolve (fun _ h => by cases h) hx' (fun _ h => by cases h))
  exact (read_array_ne_failed_iff hx').1 hread y hy (h m)

/-- What an accepted object holds is written in it. -/
theorem exists_of_holds {n : Nat} {fields : List (String × Shape)} {others : Option Shape}
    (hy : cx.scope.Holds x key y) (h : read cx n (.object fields others) (some x) ≠ .failed) :
    ∃ m entries, n = m + 1 ∧ cx.scope.resolve x = .object entries ∧
      Entry.last? entries key = some y := by
  obtain ⟨entries, hx, hlast⟩ := hy
  obtain ⟨m, _, entries', _, rfl, hxx, hx', -⟩ := exists_object h
  obtain rfl := Option.some.inj hxx
  obtain rfl := Expression.object.inj
    (hx.eq_of_resolve (fun _ h => by cases h) hx' (fun _ h => by cases h))
  exact ⟨m, entries, rfl, hx', hlast⟩

/-- An object is refused for what is written last under the key of a field. -/
theorem refuses_field {fields : List (String × Shape)} {others : Option Shape}
    (hy : cx.scope.Holds x key y) (hf : (key, s) ∈ fields) (h : Refuses cx s y) :
    Refuses cx (.object fields others) x := by
  intro n
  by_contra hread
  obtain ⟨m, entries, rfl, hx, hlast⟩ := exists_of_holds hy hread
  obtain ⟨-, hfields, -⟩ := (read_object_ne_failed_iff hx).1 hread
  have hfield := hfields (key, s) hf
  rw [hlast] at hfield
  exact hfield (h m)

theorem refuses_record (hy : cx.scope.Holds x key y) (h : Refuses cx s y) :
    Refuses cx (.record s) x := by
  intro n
  by_contra hread
  obtain ⟨m, entries, rfl, hx, hlast⟩ := exists_of_holds hy hread
  obtain ⟨-, -, hothers⟩ := (read_object_ne_failed_iff hx).1 hread
  exact (hothers key y hlast List.not_mem_nil).1 s rfl (h m)

/-- One thing or more is refused for one of them, where an array is not taken for a single thing. -/
theorem refuses_oneOrMore {g : Form} (hlists : cx.scope.Lists x y) (hy : cx.scope.StandsFor y e)
    (he : formOf? (some e) = some g) (hg : g ≠ .array) (h : Refuses cx s y)
    (harray : ∀ items, cx.scope.StandsFor x (.array items) → y ∈ items → Refuses cx s x) :
    Refuses cx (.oneOrMore s) x := by
  cases hlists with
  | self => exact refuses_either h (refuses_of_form hy he rfl hg.symm)
  | item hx hmem => exact refuses_either (harray _ hx hmem) (refuses_array hx hmem h)

/-! ## 3. Transitions and states -/

/-- The targets of a transition are no object. -/
theorem refuses_targets_of_object {entries : List Entry}
    (hx : cx.scope.StandsFor x (.object entries)) : Refuses cx targets x :=
  refuses_either (refuses_of_form hx rfl rfl (by decide))
    (refuses_either (refuses_of_form hx rfl rfl (by decide))
      (refuses_of_form hx rfl rfl (by decide)))

/-- An array with an object in it is no transition, since the targets in an array are texts. -/
theorem refuses_transition_of_array {items : List Expression} {entries : List Entry}
    (hx : cx.scope.StandsFor x (.array items)) (hy : y ∈ items)
    (hobject : cx.scope.StandsFor y (.object entries)) : Refuses cx transition x := by
  have htext : Refuses cx text y := refuses_of_form hobject rfl rfl (by decide)
  have htargets : Refuses cx targets x :=
    refuses_either (refuses_of_form hx rfl rfl (by decide))
      (refuses_either (refuses_of_form hx rfl rfl (by decide)) (refuses_array hx hy htext))
  exact refuses_either htargets (refuses_of_form hx rfl rfl (by decide))

/-- A transition is refused for its actions. -/
theorem refuses_transition (hy : cx.scope.Holds x "actions" y) (h : Refuses cx actions y) :
    Refuses cx transition x := by
  obtain ⟨entries, hobject⟩ := hy.exists_object
  exact refuses_either (refuses_targets_of_object hobject)
    (refuses_field hy (by simp) (refuses_optional h))

/-- Transitions are refused for the actions of one of them. -/
theorem refuses_transitions (hlists : cx.scope.Lists x t) (hy : cx.scope.Holds t "actions" y)
    (h : Refuses cx actions y) : Refuses cx transitions x := by
  obtain ⟨entries, hobject⟩ := hy.exists_object
  exact refuses_oneOrMore hlists hobject rfl (by decide) (refuses_transition hy h)
    fun items hx hmem => refuses_transition_of_array hx hmem hobject

/-- A state of any kind is refused for a field that all states have. -/
theorem refuses_state (hy : cx.scope.Holds x key y) (hf : (key, s) ∈ commonFields)
    (h : Refuses cx s y) : Refuses cx (.rule .state) x := by
  refine refuses_rule (refuses_oneOf fun kind hkind => ?_)
  obtain ⟨own, rfl, -⟩ := exists_own hkind
  exact refuses_field hy (by simp [hf]) h

/-- A state of any kind is refused for a state below it. -/
theorem refuses_parent {c : Expression} (hx : cx.scope.Holds e "states" x)
    (hc : cx.scope.Holds x key c) (h : Refuses cx (.rule .state) c) :
    Refuses cx (.rule .state) e := by
  obtain ⟨entries, hobject⟩ := hc.exists_object
  have hstates : Refuses cx states x := refuses_record hc h
  have hnoStates : Refuses cx noStates.2 x :=
    refuses_optional (refuses_of_form hobject rfl rfl (by decide))
  refine refuses_rule (refuses_oneOf fun kind hkind => ?_)
  obtain ⟨own, rfl, -, hown⟩ := exists_own hkind
  rcases hown with hown | hown | hown
  · exact refuses_field hx (List.mem_append_left _ (List.mem_append_right _ hown)) hnoStates
  · exact refuses_field hx (by simp [hown]) (refuses_optional hstates)
  · exact refuses_field hx (by simp [hown]) hstates

/-- A state is refused for the actions of one of its transitions. -/
theorem refuses_state_of_transition (ht : cx.scope.TransitionOf x t)
    (hy : cx.scope.Holds t "actions" y) (h : Refuses cx actions y) :
    Refuses cx (.rule .state) x := by
  cases ht with
  | @keyed key event m z _ hkey hm hz hlists =>
    have hmap : Refuses cx transitionMap m := refuses_record hz (refuses_transitions hlists hy h)
    have hfields : ∀ key ∈ ["on", "after"], (key, .optional transitionMap) ∈ commonFields := by
      simp [commonFields]
    exact refuses_state hm (hfields key hkey) (refuses_optional hmap)
  | @plain key z _ hkey hz hlists =>
    have htransitions : Refuses cx transitions z := refuses_transitions hlists hy h
    have hfields : ∀ key ∈ ["always", "onDone"], (key, .optional transitions) ∈ commonFields := by
      simp [commonFields]
    exact refuses_state hz (hfields key hkey) (refuses_optional htransitions)
  | @ofService key m i z _ hm hi hkey hz hlists =>
    have htransitions : Refuses cx transitions z := refuses_transitions hlists hy h
    have hservice : Refuses cx service i := by
      simp only [List.mem_cons, List.not_mem_nil, or_false] at hkey
      refine refuses_field hz ?_ (refuses_optional htransitions)
      rcases hkey with rfl | rfl <;> simp
    obtain ⟨entries, hobject⟩ := hz.exists_object
    have hservices : Refuses cx (.oneOrMore service) m :=
      refuses_oneOrMore hi hobject rfl (by decide) hservice fun items hm _ =>
        refuses_of_form hm rfl rfl (by decide)
    exact refuses_state hm (by simp [commonFields]) (refuses_optional hservices)

/-- **A state is refused for any state below it**, on whatever level. -/
theorem refuses_of_stateWithin {c : Expression} (hc : cx.scope.StateWithin e c)
    (h : Refuses cx (.rule .state) c) : Refuses cx (.rule .state) e := by
  induction hc with
  | self => exact h
  | child hx hc _ ih => exact refuses_parent hx hc (ih h)

end Shape

end Statechart
