import Statechart.Proofs.Outcome
import Statechart.Proofs.Shape.Fits
import Statechart.Value.Definition

/-!
# Definitions read from values that fit

A value that fits the shape of a position is read there without a misfit, with one exception: the
shapes accept that a state says of the states below it that they are undefined, and reading asks
for an object there. Main statement: no other misfit comes from a value that fits, and that one
always does.
-/

namespace Statechart

open Shape (Fits FitsEntry Omissible)

/-! ## 1. Entries of objects that fit -/

namespace Shape

variable {fields : List (String × Shape)} {s : Shape} {key : String} {v : Value}

theorem exists_field_of_none (h : FitsEntry fields none key v) :
    ∃ s, (key, s) ∈ fields ∧ Fits s v := by
  cases h with
  | field hs h => exact ⟨_, hs, h⟩

theorem exists_field_of_ignored (h : FitsEntry fields (some .ignored) key v) :
    ∃ s, (key, s) ∈ fields ∧ Fits s v := by
  cases h with
  | field hs h => exact ⟨_, hs, h⟩
  | other _ h => exact absurd h (not_fits_ignored v)

theorem fits_of_record (h : FitsEntry [] (some s) key v) : Fits s v := by
  cases h with
  | field hs => cases hs
  | other _ h => exact h

theorem not_omissible_text : ¬ Omissible text := by
  intro h
  cases h

theorem not_omissible_reference : ¬ Omissible reference := by
  intro h
  cases h with
  | oneOf hs h =>
    simp only [List.mem_cons, List.not_mem_nil, or_false] at hs
    rcases hs with rfl | rfl | rfl <;> cases h

theorem fits_oneOrMore : Fits (.oneOrMore s) v ↔
    Fits s v ∨ ∃ items, v = .array items ∧ ∀ v ∈ items, Fits s v := by
  rw [oneOrMore, fits_oneOf]
  constructor
  · rintro ⟨s', hs', h⟩
    simp only [List.mem_cons, List.not_mem_nil, or_false] at hs'
    rcases hs' with rfl | rfl
    · exact Or.inl h
    · cases h with
      | array h => exact Or.inr ⟨_, rfl, h⟩
  · rintro (h | ⟨items, rfl, h⟩)
    · exact ⟨s, by simp, h⟩
    · exact ⟨.array s, by simp, .array h⟩

theorem exists_string (h : Fits text v) : ∃ s, v = .string s := by
  cases h with
  | string => exact ⟨_, rfl⟩

/-- An object with a type has just that entry. -/
theorem exists_typed (h : Fits typed v) : ∃ entries kind, v = .object entries ∧
    entries.lookup "type" = some (.string kind) ∧ ∀ key v, (key, v) ∈ entries → key = "type" := by
  cases h with
  | @object _ _ entries hentries hdemanded =>
    have hfield (key : String) (v : Value) (hv : (key, v) ∈ entries) :
        key = "type" ∧ Fits text v := by
      obtain ⟨s, hs, h⟩ := exists_field_of_ignored (hentries key v hv)
      obtain ⟨rfl, rfl⟩ := Prod.mk.inj (List.mem_singleton.1 hs)
      exact ⟨rfl, h⟩
    obtain ⟨v, hv⟩ := hdemanded "type" text List.mem_cons_self not_omissible_text
    obtain ⟨v', hlookup⟩ := Assoc.exists_lookup_of_mem hv
    obtain ⟨kind, rfl⟩ := exists_string (hfield "type" v' (Assoc.mem_of_lookup hlookup)).2
    exact ⟨entries, kind, rfl, hlookup, fun key v hv => (hfield key v hv).1⟩

end Shape

namespace Value

variable {v : Value}

/-! ## 2. Texts and references -/

@[simp] theorem inside_ok {α : Type} (key : String) (a : α) : inside key (.ok a) = .ok a := rfl

theorem inside_eq_ok {α : Type} {key : String} {r : Read α} {a : α} :
    inside key r = .ok a ↔ r = .ok a := by
  cases r with
  | ok a' => rfl
  | error m =>
    constructor
    · intro h
      cases h
    · intro h
      cases h

theorem exists_inside {α : Type} (key : String) {r : Read α} (h : ∃ a, r = .ok a) :
    ∃ a, inside key r = .ok a := by
  obtain ⟨a, rfl⟩ := h
  exact ⟨a, rfl⟩

theorem readString_of_fits (h : Fits Shape.text v) : ∃ s, readString v = .ok s := by
  obtain ⟨s, rfl⟩ := Shape.exists_string h
  exact ⟨s, rfl⟩

theorem readItems_of_forall {α : Type} {f : Value → Read α} {items : List Value}
    (h : ∀ v ∈ items, ∃ a, f v = .ok a) (index : Nat) : ∃ as, readItems f index items = .ok as := by
  induction items generalizing index with
  | nil => exact ⟨[], rfl⟩
  | cons v rest ih =>
    refine Outcome.exists_bind (exists_inside _ (h v List.mem_cons_self)) fun a => ?_
    exact Outcome.exists_bind (ih (fun v' hv' => h v' (List.mem_cons_of_mem v hv')) (index + 1))
      fun as => ⟨_, rfl⟩

/-- Where one thing is read, so are several of them, unless the one may be an array itself. -/
theorem readEach_of_fits {α : Type} {s : Shape} {f : Value → Read α}
    (hf : ∀ {v}, Fits s v → ∃ a, f v = .ok a) (hs : ∀ items, ¬ Fits s (.array items))
    (h : Fits (.oneOrMore s) v) : ∃ as, readEach f v = .ok as := by
  rcases Shape.fits_oneOrMore.1 h with h | ⟨items, rfl, hitems⟩
  · have hone := Outcome.exists_map ([·]) (hf h)
    cases v with
    | array items => exact absurd h (hs items)
    | _ => exact hone
  · exact readItems_of_forall (fun v hv => hf (hitems v hv)) 0

theorem readRef_of_fits (h : Fits Shape.reference v) : ∃ r, readRef v = .ok r := by
  obtain ⟨s, hs, h⟩ := Shape.fits_oneOf.1 h
  simp only [List.mem_cons, List.not_mem_nil, or_false] at hs
  rcases hs with rfl | rfl | rfl
  · obtain ⟨name, rfl⟩ := Shape.exists_string h
    exact ⟨_, rfl⟩
  · cases h with
    | function => exact ⟨_, rfl⟩
  · obtain ⟨entries, kind, rfl, hlookup, -⟩ := Shape.exists_typed h
    refine ⟨.named kind, ?_⟩
    rw [readRef, hlookup]

theorem not_fits_reference_array (items : List Value) : ¬ Fits Shape.reference (.array items) := by
  intro h
  obtain ⟨r, hr⟩ := readRef_of_fits h
  cases hr

/-! ## 3. Actions -/

/-- An action is an object with a type, whose branches are those of a choice, or a plain one. -/
theorem action_cases (h : Fits (.rule .action) v) :
    (∃ a, readPlainAction v = .ok a ∧ readAction v = .ok a ∧ ∀ items, v ≠ .array items) ∨
      ∃ entries kind, v = .object entries ∧ entries.lookup "type" = some (.string kind) ∧
        ∀ branches, ("conds", branches) ∈ entries → Fits (.rule .branches) branches := by
  obtain ⟨s, hs, h⟩ := Shape.fits_oneOf.1 (Shape.fits_rule.1 h)
  simp only [List.mem_cons, List.not_mem_nil, or_false] at hs
  rcases hs with rfl | rfl | rfl | rfl
  · obtain ⟨name, rfl⟩ := Shape.exists_string h
    exact Or.inl ⟨_, rfl, rfl, fun items h => nomatch h⟩
  · cases h with
    | function => exact Or.inl ⟨_, rfl, rfl, fun items h => nomatch h⟩
  · obtain ⟨entries, kind, rfl, hlookup, hkeys⟩ := Shape.exists_typed h
    refine Or.inr ⟨entries, kind, rfl, hlookup, fun branches hb => ?_⟩
    exact absurd (hkeys _ _ hb) (by decide)
  · cases h with
    | creator type => exact Or.inr ⟨_, type, rfl, rfl, fun branches hb => by simp at hb⟩
    | choice type hbranches =>
      refine Or.inr ⟨_, type, rfl, rfl, fun branches hb => ?_⟩
      obtain rfl : branches = _ := by simpa using hb
      exact hbranches

theorem typedAction_of_lookup {entries : Assoc Value} {kind : String}
    (hlookup : entries.lookup "type" = some (.string kind)) {branches : Read (List Branch)}
    (h : ∃ bs, branches = .ok bs) : ∃ a, typedAction entries branches = .ok a := by
  unfold typedAction
  simp only [hlookup]
  split
  · exact Outcome.exists_map _ h
  · split
    · exact ⟨_, rfl⟩
    · exact ⟨_, rfl⟩

/-- The entries of a branch. -/
theorem branch_cases (h : Fits Shape.branch v) : ∃ entries, v = .object entries ∧
    (∀ cond, ("cond", cond) ∈ entries → Fits Shape.reference cond) ∧
      ∀ actions, ("actions", actions) ∈ entries → Fits Shape.actions actions := by
  cases h with
  | @object _ _ entries hentries =>
    refine ⟨entries, rfl, fun cond hc => ?_, fun actions ha => ?_⟩
    · obtain ⟨s, hs, h⟩ := Shape.exists_field_of_none (hentries _ _ hc)
      obtain rfl : s = .optional Shape.reference := by simpa using hs
      exact Shape.fits_optional.1 h
    · obtain ⟨s, hs, h⟩ := Shape.exists_field_of_none (hentries _ _ ha)
      obtain rfl : s = .optional Shape.actions := by simpa using hs
      exact Shape.fits_optional.1 h

theorem branchOf_of_fits {entries : Assoc Value}
    (hcond : ∀ cond, ("cond", cond) ∈ entries → Fits Shape.reference cond)
    {actions : Read (List Action)} (h : ∃ as, actions = .ok as) :
    ∃ b, branchOf entries actions = .ok b := by
  have hactions (cond : Option Ref) :
      ∃ b, (actions >>= fun as => .ok (Branch.mk cond as) : Read Branch) = .ok b :=
    Outcome.exists_bind h fun as => ⟨_, rfl⟩
  unfold branchOf
  cases hlookup : entries.lookup "cond" with
  | none => exact hactions none
  | some cond =>
    have hread := readRef_of_fits (hcond cond (Assoc.mem_of_lookup hlookup))
    exact Outcome.exists_bind (Outcome.exists_map some (exists_inside "cond" hread)) hactions

mutual

/-- **Every action that fits is read.** -/
theorem readAction_of_fits : {v : Value} → Fits (.rule .action) v → ∃ a, readAction v = .ok a
  | .object entries, h => by
    rcases action_cases h with ⟨a, -, ha, -⟩ | ⟨entries', kind, he, hlookup, hconds⟩
    · exact ⟨a, ha⟩
    · obtain rfl := Value.object.inj he
      exact typedAction_of_lookup hlookup (readBranchesIn_of_fits hconds)
  | .undefined, h | .bool _, h | .number _, h | .string _, h | .array _, h | .function, h => by
    rcases action_cases h with ⟨a, -, ha, -⟩ | ⟨entries', kind, he, -⟩
    · exact ⟨a, ha⟩
    · cases he

theorem readBranchesIn_of_fits : {entries : List (String × Value)} →
    (∀ v, ("conds", v) ∈ entries → Fits (.rule .branches) v) →
    ∃ bs, readBranchesIn entries = .ok bs
  | [], _ => ⟨[], rfl⟩
  | (key, v) :: rest, h => by
    rw [readBranchesIn]
    split
    · next hkey =>
      subst hkey
      exact exists_inside _ (readBranches_of_fits (h v List.mem_cons_self))
    · exact readBranchesIn_of_fits fun v' hv' => h v' (List.mem_cons_of_mem _ hv')

theorem readBranches_of_fits : {v : Value} → Fits (.rule .branches) v →
    ∃ bs, readBranches v = .ok bs
  | .array items, h => by
    cases Shape.fits_rule.1 h with
    | array h => exact readBranchItems_of_fits 0 h
  | .object _, h | .undefined, h | .bool _, h | .number _, h | .string _, h | .function, h => by
    cases Shape.fits_rule.1 h

theorem readBranchItems_of_fits : (index : Nat) → {items : List Value} →
    (∀ v ∈ items, Fits Shape.branch v) → ∃ bs, readBranchItems index items = .ok bs
  | _, [], _ => ⟨[], rfl⟩
  | index, v :: rest, h => by
    have hfirst := readBranch_of_fits (h v List.mem_cons_self)
    refine Outcome.exists_bind (exists_inside _ hfirst) fun b => ?_
    exact Outcome.exists_bind
      (readBranchItems_of_fits (index + 1) fun v' hv' => h v' (List.mem_cons_of_mem v hv'))
      fun bs => ⟨_, rfl⟩

theorem readBranch_of_fits : {v : Value} → Fits Shape.branch v → ∃ b, readBranch v = .ok b
  | .object entries, h => by
    obtain ⟨entries', he, hcond, hactions⟩ := branch_cases h
    obtain rfl := Value.object.inj he
    exact branchOf_of_fits hcond (readActionsIn_of_fits hactions)
  | .array _, h | .undefined, h | .bool _, h | .number _, h | .string _, h | .function, h => by
    obtain ⟨entries, he, -⟩ := branch_cases h
    cases he

theorem readActionsIn_of_fits : {entries : List (String × Value)} →
    (∀ v, ("actions", v) ∈ entries → Fits Shape.actions v) →
    ∃ as, readActionsIn entries = .ok as
  | [], _ => ⟨[], rfl⟩
  | (key, v) :: rest, h => by
    rw [readActionsIn]
    split
    · next hkey =>
      subst hkey
      exact exists_inside _ (readActions_of_fits (h v List.mem_cons_self))
    · exact readActionsIn_of_fits fun v' hv' => h v' (List.mem_cons_of_mem _ hv')

/-- **Some actions that fit are read**, and so is a single one. -/
theorem readActions_of_fits : {v : Value} → Fits Shape.actions v → ∃ as, readActions v = .ok as
  | .array items, h => by
    rcases Shape.fits_oneOrMore.1 h with h | ⟨items', he, hitems⟩
    · rcases action_cases h with ⟨a, -, -, hne⟩ | ⟨entries, kind, he, -⟩
      · exact absurd rfl (hne items)
      · cases he
    · obtain rfl := Value.array.inj he
      exact readActionItems_of_fits 0 hitems
  | .object entries, h => by
    rcases Shape.fits_oneOrMore.1 h with h | ⟨items, he, -⟩
    · rcases action_cases h with ⟨a, ha, -⟩ | ⟨entries', kind, he, hlookup, hconds⟩
      · cases ha
      · obtain rfl := Value.object.inj he
        exact Outcome.exists_map _ (typedAction_of_lookup hlookup (readBranchesIn_of_fits hconds))
    · cases he
  | .undefined, h | .bool _, h | .number _, h | .string _, h | .function, h => by
    rcases Shape.fits_oneOrMore.1 h with h | ⟨items, he, -⟩
    · rcases action_cases h with ⟨a, ha, -⟩ | ⟨entries, kind, he, -⟩
      · exact Outcome.exists_map (fun a => [a]) ⟨a, ha⟩
      · cases he
    · cases he

theorem readActionItems_of_fits : (index : Nat) → {items : List Value} →
    (∀ v ∈ items, Fits (.rule .action) v) → ∃ as, readActionItems index items = .ok as
  | _, [], _ => ⟨[], rfl⟩
  | index, v :: rest, h => by
    have hfirst := readAction_of_fits (h v List.mem_cons_self)
    refine Outcome.exists_bind (exists_inside _ hfirst) fun a => ?_
    exact Outcome.exists_bind
      (readActionItems_of_fits (index + 1) fun v' hv' => h v' (List.mem_cons_of_mem v hv'))
      fun as => ⟨_, rfl⟩

end

/-! ## 4. Transitions and services -/

theorem readTargets_of_fits (h : Fits Shape.targets v) : ∃ ts, readTargets v = .ok ts := by
  obtain ⟨s, hs, h⟩ := Shape.fits_oneOf.1 h
  simp only [List.mem_cons, List.not_mem_nil, or_false] at hs
  rcases hs with rfl | rfl
  · cases h with
    | undefined => exact ⟨[], rfl⟩
  · have heach := readEach_of_fits readString_of_fits (fun items h => nomatch h) h
    cases v with
    | undefined => exact ⟨[], rfl⟩
    | _ => exact heach

theorem readTransition_of_fits (h : Fits Shape.transition v) : ∃ t, readTransition v = .ok t := by
  obtain ⟨s, hs, h⟩ := Shape.fits_oneOf.1 h
  simp only [List.mem_cons, List.not_mem_nil, or_false] at hs
  rcases hs with rfl | rfl
  · have htargets := readTargets_of_fits h
    cases v with
    | object entries =>
      obtain ⟨ts, hts⟩ := htargets
      cases hts
    | _ => exact Outcome.exists_bind htargets fun ts => ⟨_, rfl⟩
  · cases h with
    | @object _ _ entries hentries =>
      have hentry (key : String) (v : Value) (hv : (key, v) ∈ entries) (t : TransitionDecl) :
          ∃ t', readTransitionEntry t key v = .ok t' := by
        obtain ⟨s, hs, h⟩ := Shape.exists_field_of_none (hentries key v hv)
        simp only [List.mem_cons, List.not_mem_nil, or_false, Prod.mk.injEq] at hs
        rcases hs with ⟨rfl, rfl⟩ | ⟨rfl, rfl⟩ | ⟨rfl, rfl⟩ | ⟨rfl, rfl⟩ | ⟨rfl, rfl⟩ |
          ⟨rfl, rfl⟩ | ⟨rfl, rfl⟩
        · have hread := readTargets_of_fits (Shape.fits_optional.1 h)
          exact Outcome.exists_bind hread fun _ => ⟨_, rfl⟩
        · have hread := readRef_of_fits (Shape.fits_optional.1 h)
          exact Outcome.exists_bind hread fun _ => ⟨_, rfl⟩
        · have hread := readActions_of_fits (Shape.fits_optional.1 h)
          exact Outcome.exists_bind hread fun _ => ⟨_, rfl⟩
        · exact ⟨_, rfl⟩
        · exact ⟨t, rfl⟩
        · exact ⟨t, rfl⟩
        · exact ⟨t, rfl⟩
      exact Outcome.exists_foldlM (fun entry hv t => exists_inside _ (hentry _ _ hv t))
        ({} : TransitionDecl)

/-- An array that is one transition is one of targets, each of which is a transition too. -/
theorem fits_transition_of_mem {items : List Value} (h : Fits Shape.transition (.array items)) :
    ∀ v ∈ items, Fits Shape.transition v := by
  intro v hv
  have htransition {s : Shape} (hs : s ∈ [Shape.undefined, .oneOrMore .text]) {v : Value}
      (h : Fits s v) : Fits Shape.transition v :=
    Shape.fits_oneOf.2 ⟨Shape.targets, by simp, .oneOf hs h⟩
  obtain ⟨s, hs, h⟩ := Shape.fits_oneOf.1 h
  simp only [List.mem_cons, List.not_mem_nil, or_false] at hs
  rcases hs with rfl | rfl
  · obtain ⟨s, hs, h⟩ := Shape.fits_oneOf.1 h
    simp only [List.mem_cons, List.not_mem_nil, or_false] at hs
    rcases hs with rfl | rfl
    · cases h
    · rcases Shape.fits_oneOrMore.1 h with h | ⟨items', he, hitems⟩
      · cases h
      · obtain rfl := Value.array.inj he
        exact htransition (by simp) (Shape.fits_oneOrMore.2 (Or.inl (hitems v hv)))
  · cases h

theorem readTransitions_of_fits (h : Fits Shape.transitions v) :
    ∃ ts, readTransitions v = .ok ts := by
  cases v with
  | undefined => exact ⟨[], rfl⟩
  | array items =>
    have hitems : ∀ v ∈ items, Fits Shape.transition v := by
      rcases Shape.fits_oneOrMore.1 h with h | ⟨items', he, hitems⟩
      · exact fits_transition_of_mem h
      · obtain rfl := Value.array.inj he
        exact hitems
    rw [readTransitions]
    split
    · exact ⟨[], rfl⟩
    · split
      · next hall =>
        -- a list of texts, which are the targets of one transition
        have htargets : ∃ ts, readTargets (.array items) = .ok ts := by
          refine readItems_of_forall (fun v hv => ?_) 0
          have hstring := List.all_eq_true.1 hall v hv
          cases v with
          | string s => exact ⟨s, rfl⟩
          | _ => cases hstring
        exact Outcome.exists_bind htargets fun ts => ⟨_, rfl⟩
      · exact readItems_of_forall (fun v hv => readTransition_of_fits (hitems v hv)) 0
  | _ =>
    rcases Shape.fits_oneOrMore.1 h with h | ⟨items, he, -⟩
    · exact Outcome.exists_map (fun t => [t]) (readTransition_of_fits h)
    · cases he

theorem readTransitionMap_of_fits (h : Fits Shape.transitionMap v) :
    ∃ m, readTransitionMap v = .ok m := by
  cases h with
  | @object _ _ entries hentries =>
    refine Outcome.exists_mapM fun ⟨key, v⟩ hv => ?_
    have hv' := Shape.fits_of_record (hentries key v hv)
    exact Outcome.exists_bind (exists_inside key (readTransitions_of_fits hv')) fun ts => ⟨_, rfl⟩

theorem readInvoke_of_fits (h : Fits Shape.service v) : ∃ i, readInvoke v = .ok i := by
  cases h with
  | @object _ _ entries hentries hdemanded =>
    have hfield (key : String) (v : Value) (hv : (key, v) ∈ entries) :=
      Shape.exists_field_of_none (hentries key v hv)
    obtain ⟨v, hv⟩ := hdemanded "src" _ List.mem_cons_self Shape.not_omissible_reference
    obtain ⟨src, hlookup⟩ := Assoc.exists_lookup_of_mem hv
    have hsrc : ∃ r, readRef src = .ok r := by
      obtain ⟨s, hs, h⟩ := hfield "src" src (Assoc.mem_of_lookup hlookup)
      obtain rfl : s = Shape.reference := by simpa using hs
      exact readRef_of_fits h
    have hread : readInvoke (.object entries) = (inside "src" (readRef src) >>= fun src =>
        entries.foldlM (fun i entry => inside entry.1 (readInvokeEntry i entry.1 entry.2))
          { src }) := by
      have hobject : readObject (.object entries) = .ok entries := rfl
      rw [readInvoke, hobject, Outcome.ok_bind, hlookup]
    have hentry (key : String) (v : Value) (hv : (key, v) ∈ entries) (i : InvokeDecl) :
        ∃ i', readInvokeEntry i key v = .ok i' := by
      obtain ⟨s, hs, h⟩ := hfield key v hv
      simp only [List.mem_cons, List.not_mem_nil, or_false, Prod.mk.injEq] at hs
      rcases hs with ⟨rfl, rfl⟩ | ⟨rfl, rfl⟩ | ⟨rfl, rfl⟩ | ⟨rfl, rfl⟩ | ⟨rfl, rfl⟩ | ⟨rfl, rfl⟩
      · exact ⟨i, rfl⟩
      · have hread := readString_of_fits (Shape.fits_optional.1 h)
        exact Outcome.exists_bind hread fun _ => ⟨_, rfl⟩
      · have hread := readTransitions_of_fits (Shape.fits_optional.1 h)
        exact Outcome.exists_bind hread fun _ => ⟨_, rfl⟩
      · have hread := readTransitions_of_fits (Shape.fits_optional.1 h)
        exact Outcome.exists_bind hread fun _ => ⟨_, rfl⟩
      · exact ⟨_, rfl⟩
      · exact ⟨i, rfl⟩
    rw [hread]
    refine Outcome.exists_bind (exists_inside "src" hsrc) fun src => ?_
    exact Outcome.exists_foldlM (fun entry hv i => exists_inside _ (hentry _ _ hv i)) _

theorem not_fits_service_array (items : List Value) : ¬ Fits Shape.service (.array items) := by
  intro h
  cases h

/-! ## 5. Provided implementations -/

/-- **Provided implementations that fit are read.** -/
theorem readProvided_of_fits (h : Fits Shape.providedShape v) : ∃ p, readProvided v = .ok p := by
  cases h with
  | @object _ _ entries hentries =>
    have hobject (h : Handler) (v : Value) (hlookup : entries.lookup h.plural = some v) :
        ∃ names, readObject v = .ok names := by
      obtain ⟨s, hs, hv⟩ :=
        Shape.exists_field_of_ignored (hentries _ _ (Assoc.mem_of_lookup hlookup))
      obtain ⟨values, rfl⟩ : ∃ values, s = .optional (.record values) := by
        simp only [List.mem_cons, List.not_mem_nil, or_false, Prod.mk.injEq] at hs
        rcases hs with ⟨-, rfl⟩ | ⟨-, rfl⟩ | ⟨-, rfl⟩ | ⟨-, rfl⟩ | ⟨-, rfl⟩ <;> exact ⟨_, rfl⟩
      cases Shape.fits_optional.1 hv with
      | object => exact ⟨_, rfl⟩
    show ∃ p, Handler.all.foldlM (readProvidedIn entries) {} = .ok p
    refine Outcome.exists_foldlM (fun h _ p => ?_) ({} : Provided)
    unfold readProvidedIn
    cases hlookup : entries.lookup h.plural with
    | none => exact ⟨p, rfl⟩
    | some v =>
      exact Outcome.exists_bind (exists_inside _ (hobject h v hlookup)) fun names => ⟨_, rfl⟩

end Value

end Statechart
