import Statechart.Proofs.Literal.Value
import Statechart.Proofs.Shape.Levels

/-!
# Literals of definitions are read

Within enough levels for its nesting, the literal of a state tree that can be written is read to
the value of the tree, part by part: the value of each field is that of its literal, and of the
shapes of states those before the right one turn the literal down.
-/

namespace Statechart.Shape

variable {cx : Context} {chooser : String} {n levels : Nat} {α : Type} {s : Shape}
  {literal : α → Expression} {value : α → Value}

/-! ## 1. Fields that may be left out -/

theorem read_map? {o : Option α}
    (h : ∀ a, o = some a → read cx (n + 1) s (some (literal a)) = .present (value a)) :
    read cx (n + 1) (.optional s) (o.map literal) = .ofField (o.map value) := by
  cases o with
  | none => rfl
  | some a => exact h a rfl

theorem read_array? {as : List α}
    (hn : ∀ e, Expression.array? (as.map literal) = some e → e.nesting < n + 1)
    (h : (Expression.array (as.map literal)).nesting < n + 1 →
      read cx (n + 1) s (some (.array (as.map literal))) = .present (.array (as.map value))) :
    read cx (n + 1) (.optional s) (Expression.array? (as.map literal)) =
      .ofField (Value.array? (as.map value)) := by
  cases as with
  | nil => rfl
  | cons a rest => exact h (hn _ rfl)

/-- **Several things are read one by one**, where the array of them is not one such thing. -/
theorem read_several {as : List α}
    (hn : (Expression.array (as.map literal)).nesting < levels)
    (hone : ∀ n, read cx (n + 1) s (some (.array (as.map literal))) = .failed)
    (h : ∀ a ∈ as, ∀ levels, (literal a).nesting < levels →
      read cx levels s (some (literal a)) = .present (value a)) :
    read cx levels (.oneOrMore s) (some (.array (as.map literal))) =
      .present (.array (as.map value)) := by
  obtain ⟨n, rfl, hitems⟩ := Expression.exists_levels_array hn
  refine read_oneOrMore (hone _) (readItems_map fun a ha => ?_)
  exact h a ha _ (hitems _ (List.mem_map_of_mem ha))

/-! ## 2. References and actions -/

theorem read_reference (r : Ref) :
    read cx (n + 1) reference (some r.literal) = .present r.value := by
  cases r <;> rfl

theorem read_reference_of_nesting (r : Ref) (levels : Nat) (hn : r.literal.nesting < levels) :
    read cx levels reference (some r.literal) = .present r.value := by
  obtain ⟨n, rfl⟩ := Nat.exists_eq_add_one.2 (Nat.zero_lt_of_lt hn)
  exact read_reference r

/-- Actions in an array are read where each of them is. -/
theorem read_actions {as : List Action}
    (hn : (Expression.array (as.map (Action.literal chooser))).nesting < levels)
    (h : ∀ a ∈ as, ∀ levels, (a.literal chooser).nesting < levels →
      read cx levels (.rule .action) (some (a.literal chooser)) = .present a.value) :
    read cx levels actions (some (.array (as.map (Action.literal chooser)))) =
      .present (.array (as.map Action.value)) :=
  read_several hn (fun _ => rfl) h

theorem read_branch {cond : Option Ref} {as : List Action}
    (hn : ((Branch.mk cond as).literal chooser).nesting < levels)
    (h : ∀ a ∈ as, ∀ levels, (a.literal chooser).nesting < levels →
      read cx levels (.rule .action) (some (a.literal chooser)) = .present a.value) :
    read cx levels branch (some ((Branch.mk cond as).literal chooser)) =
      .present (Branch.mk cond as).value := by
  rw [Branch.literal, Action.literals_eq] at hn ⊢
  rw [Branch.value, Action.values_eq]
  obtain ⟨n, rfl, hwritten⟩ := Expression.exists_levels_ofFields hn
  refine read_ofFields
    [("cond", cond.map Ref.value), ("actions", Value.array? (as.map Action.value))] ?_ ?_ ?_
  · show ["cond", "actions"].Nodup
    decide
  · refine List.forall_mem_cons.2 ⟨?_, List.forall_mem_cons.2 ⟨?_, List.forall_mem_nil _⟩⟩
    · exact read_map? fun r _ => read_reference r
    · exact read_array? (hwritten "actions") fun hn => read_actions hn h
  · show ∀ key ∈ ["cond", "actions"], key ∈ ["cond", "actions"] ∨ _
    exact fun key hkey => Or.inl hkey

theorem read_branches {branches : List Branch}
    (hn : (Expression.array (branches.map (Branch.literal chooser))).nesting < levels)
    (h : ∀ cond as, .mk cond as ∈ branches → ∀ a ∈ as, ∀ levels,
      (a.literal chooser).nesting < levels →
        read cx levels (.rule .action) (some (a.literal chooser)) = .present a.value) :
    read cx levels (.rule .branches) (some (.array (branches.map (Branch.literal chooser)))) =
      .present (.array (branches.map Branch.value)) := by
  obtain ⟨n, rfl, hitems⟩ := Expression.exists_levels_array hn
  have hread : readItems (read cx (n + 1)) branch (branches.map (Branch.literal chooser)) =
      some (branches.map Branch.value) := by
    refine readItems_map fun b hb => ?_
    have hn' := hitems _ (List.mem_map_of_mem hb)
    cases b with
    | mk cond as => exact read_branch hn' (h cond as hb)
  rw [read_rule]
  show Reading.ofOption ((readItems (read cx (n + 1)) branch _).map .array) = _
  rw [hread]
  rfl

theorem creator?_of_importsChoose (h : cx.ImportsChoose chooser) :
    cx.creator? (.name chooser) = some "choose" := by
  obtain ⟨module, himport, hmodule⟩ := h
  unfold Context.creator?
  simp only [himport, hmodule, if_true]
  rfl

/-- A call to the creator of choices is read where its branches are. -/
theorem read_choice (hchooser : cx.ImportsChoose chooser) {branches : Expression} {v : Value}
    (h : read cx n (.rule .branches) (some branches) = .present v) :
    read cx (n + 1) .creatorCall (some (.call (.name chooser) [branches])) =
      .present (.object [("type", .string Value.chooseType), ("conds", v)]) := by
  show Reading.ofOption (readCreatorCall (read cx n) cx (.call (.name chooser) [branches])) = _
  unfold readCreatorCall
  simp only [creator?_of_importsChoose hchooser, List.head?_cons, h, if_true]
  rfl

/-- **The literal of an action is read to its value.** -/
theorem read_action {a : Action} (h : a.Expressible cx chooser) (levels : Nat)
    (hn : (a.literal chooser).nesting < levels) :
    read cx levels (.rule .action) (some (a.literal chooser)) = .present a.value := by
  induction h generalizing levels with
  | named name =>
    obtain ⟨n, rfl⟩ := Nat.exists_eq_add_one.2 (Nat.zero_lt_of_lt hn)
    rfl
  | inline =>
    obtain ⟨n, rfl⟩ := Nat.exists_eq_add_one.2 (Nat.zero_lt_of_lt hn)
    rfl
  | builtin =>
    obtain ⟨n, rfl, -⟩ := Expression.exists_levels_ofFields hn
    rfl
  | @choose branches hchooser _ ih =>
    rw [Action.literal, Branch.literals_eq] at hn ⊢
    rw [Action.value, Branch.values_eq]
    obtain ⟨n, rfl⟩ := Nat.exists_eq_add_one.2 (Nat.zero_lt_of_lt hn)
    -- the call takes a level of its own, above that of the array
    have harray : (Expression.array (branches.map (Branch.literal chooser))).nesting < n := by
      rw [Expression.nesting, Expression.nestingOfItems, Expression.nestingOfItems] at hn
      omega
    rw [read_rule, ofRule, read_oneOf_of_failed (by rfl), read_oneOf_of_failed (by rfl),
      read_oneOf_of_failed (by rfl)]
    exact read_oneOf_of_present (read_choice hchooser (read_branches harray ih))

/-! ## 3. Transitions and services -/

theorem read_text (text : String) (levels : Nat)
    (hn : (Expression.string text).nesting < levels) :
    read cx levels .text (some (.string text)) = .present (.string text) := by
  obtain ⟨n, rfl⟩ := Nat.exists_eq_add_one.2 (Nat.zero_lt_of_lt hn)
  rfl

theorem read_targets {ts : List String}
    (hn : (Expression.array (ts.map .string)).nesting < n + 1) :
    read cx (n + 1) targets (some (.array (ts.map .string))) =
      .present (.array (ts.map .string)) := by
  rw [targets, read_oneOf_of_failed rfl]
  exact read_oneOf_of_present (read_several hn (fun _ => rfl) fun text _ => read_text text)

theorem read_transition {t : TransitionDecl} (ht : t.Expressible cx chooser) (levels : Nat)
    (hn : (t.literal chooser).nesting < levels) :
    read cx levels transition (some (t.literal chooser)) = .present t.value := by
  obtain ⟨n, rfl, hwritten⟩ := Expression.exists_levels_ofFields hn
  have htargets : read cx (n + 2) targets (some (t.literal chooser)) = .failed := rfl
  rw [transition, read_oneOf_of_failed htargets]
  refine read_oneOf_of_present (read_ofFields [
    ("target", Value.array? (t.targets.map .string)),
    ("cond", t.cond.map Ref.value),
    ("actions", Value.array? (t.actions.map Action.value)),
    ("internal", t.internal.map .bool)] ?_ ?_ ?_)
  · show ["target", "cond", "actions", "internal"].Nodup
    decide
  · simp only [List.forall_mem_cons]
    refine ⟨?_, ?_, ?_, ?_, rfl, rfl, rfl, List.forall_mem_nil _⟩
    · exact read_array? (hwritten "target") fun hn => read_targets hn
    · exact read_map? fun r _ => read_reference r
    · exact read_array? (hwritten "actions") fun hn => read_actions hn fun a ha =>
        read_action (ht a ha)
    · exact read_map? fun b _ => rfl
  · intro key hkey
    exact Or.inl (List.mem_append_left ["in", "description", "meta"] hkey)

/-- An array of transitions is not one transition, unless it is empty. -/
theorem read_transition_array {t : TransitionDecl} {rest : List Expression} :
    read cx (n + 1) transition (some (.array (t.literal chooser :: rest))) = .failed := by
  cases n with
  | zero => rfl
  | succ n => rfl

theorem read_transitions {ts : List TransitionDecl} (h : ∀ t ∈ ts, t.Expressible cx chooser)
    (levels : Nat)
    (hn : (Expression.array (ts.map (TransitionDecl.literal chooser))).nesting < levels) :
    read cx levels transitions (some (.array (ts.map (TransitionDecl.literal chooser)))) =
      .present (.array (ts.map TransitionDecl.value)) := by
  cases ts with
  | nil =>
    -- an empty list is read as one transition without targets
    obtain ⟨n, rfl, -⟩ := Expression.exists_levels_array hn
    rfl
  | cons t rest =>
    exact read_several hn (fun _ => read_transition_array) fun t ht => read_transition (h t ht)

theorem read_transitionMap {m : Assoc (List TransitionDecl)} (hd : Assoc.Distinct m)
    (h : ∀ key ts, (key, ts) ∈ m → ∀ t ∈ ts, t.Expressible cx chooser)
    (hn : ∀ e, transitionMapLiteral chooser m = some e → e.nesting < n + 1) :
    read cx (n + 1) (.optional transitionMap) (transitionMapLiteral chooser m) =
      .ofField (transitionMapValue m) := by
  cases m with
  | nil => rfl
  | cons entry rest =>
    obtain ⟨n, hlevels, hwritten⟩ := Expression.exists_levels_record (hn _ rfl)
    obtain rfl := Nat.succ.inj hlevels
    refine read_record (fun ts => .array (ts.map (TransitionDecl.literal chooser)))
      (fun ts => .array (ts.map TransitionDecl.value)) hd fun key ts hts => ?_
    exact read_transitions (h key ts hts) _ (hwritten key _ (List.mem_map_of_mem hts))

theorem read_service {i : InvokeDecl} (hdone : ∀ t ∈ i.onDone, t.Expressible cx chooser)
    (herror : ∀ t ∈ i.onError, t.Expressible cx chooser) (levels : Nat)
    (hn : (i.literal chooser).nesting < levels) :
    read cx levels service (some (i.literal chooser)) = .present i.value := by
  obtain ⟨n, rfl, hwritten⟩ := Expression.exists_levels_ofFields hn
  refine read_ofFields [
    ("src", some i.src.value),
    ("id", i.id.map .string),
    ("onDone", Value.array? (i.onDone.map TransitionDecl.value)),
    ("onError", Value.array? (i.onError.map TransitionDecl.value)),
    ("autoForward", if i.autoForward then some (.bool true) else none)] ?_ ?_ ?_
  · show ["src", "id", "onDone", "onError", "autoForward"].Nodup
    decide
  · simp only [List.forall_mem_cons]
    refine ⟨?_, ?_, ?_, ?_, ?_, rfl, List.forall_mem_nil _⟩
    · exact read_reference i.src
    · exact read_map? fun text _ => rfl
    · exact read_array? (hwritten "onDone") fun hn => read_transitions hdone _ hn
    · exact read_array? (hwritten "onError") fun hn => read_transitions herror _ hn
    · cases i.autoForward <;> rfl
  · intro key hkey
    exact Or.inl (List.mem_append_left ["data"] hkey)

end Statechart.Shape
