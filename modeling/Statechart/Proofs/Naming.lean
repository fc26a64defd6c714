import Mathlib.Data.List.Forall2
import Statechart.Proofs.Scope
import Statechart.Proofs.Shape.Induction

/-!
# Names for parts

A part of a definition may be written in its place or under a name. Main statement: where the chain
of names ends soon enough to be followed, it makes no difference which; reading sees the same at all
places where values stand, and a name takes up none of the levels.
-/

namespace Statechart

/-! ## 1. Spelling a name out -/

mutual

/-- **The second expression is the first with a name spelled out** at some of the places where
values stand: as the whole, under the keys of objects, in arrays and as arguments of calls. What is
called and what a property is taken of stay as they are. -/
inductive Expression.SpellsOut (name : String) (v : Expression) : Expression → Expression → Prop
  | same (e : Expression) : Expression.SpellsOut name v e e
  | here : Expression.SpellsOut name v (.name name) v
  | object {entries entries' : List Entry}
      (h : List.Forall₂ (Entry.SpellsOut name v) entries entries') :
      Expression.SpellsOut name v (.object entries) (.object entries')
  | array {items items' : List Expression}
      (h : List.Forall₂ (Expression.SpellsOut name v) items items') :
      Expression.SpellsOut name v (.array items) (.array items')
  | call (callee : Expression) {args args' : List Expression}
      (h : List.Forall₂ (Expression.SpellsOut name v) args args') :
      Expression.SpellsOut name v (.call callee args) (.call callee args')

/-- The second entry is the first with a name spelled out in its value. -/
inductive Entry.SpellsOut (name : String) (v : Expression) : Entry → Entry → Prop
  | keyed (key : String) {x x' : Expression} (h : Expression.SpellsOut name v x x') :
      Entry.SpellsOut name v (.keyed key x) (.keyed key x')
  | computed {x x' : Expression} (h : Expression.SpellsOut name v x x') :
      Entry.SpellsOut name v (.computed x) (.computed x')
  | spread {x x' : Expression} (h : Expression.SpellsOut name v x x') :
      Entry.SpellsOut name v (.spread x) (.spread x')

end

/-! ## 2. Lists side by side -/

/-- What is built up from related lists step by step is related. -/
theorem foldlM_of_forall₂ {α α' β β' : Type} {R : α → α' → Prop} {S : β → β' → Prop}
    {step : β → α → Option β} {step' : β' → α' → Option β'}
    (hstep : ∀ b b' a a', S b b' → R a a' → Option.Rel S (step b a) (step' b' a')) {as : List α}
    {as' : List α'} (h : List.Forall₂ R as as') {b : β} {b' : β'} (hb : S b b') :
    Option.Rel S (as.foldlM step b) (as'.foldlM step' b') := by
  induction h generalizing b b' with
  | nil => exact .some hb
  | @cons a a' rest rest' ha _ ih =>
    rw [List.foldlM_cons, List.foldlM_cons]
    have hfirst := hstep b b' a a' hb ha
    generalize step b a = o at hfirst ⊢
    generalize step' b' a' = o' at hfirst ⊢
    cases hfirst with
    | none => exact .none
    | some hnext => exact ih hnext

namespace Assoc

variable {α β : Type} {R : α → β → Prop} {m : Assoc α} {m' : Assoc β}

/-- The lists have the same keys in the same order, with related values. -/
def Related (R : α → β → Prop) (m : Assoc α) (m' : Assoc β) : Prop :=
  List.Forall₂ (fun p q => p.1 = q.1 ∧ R p.2 q.2) m m'

theorem Related.put (h : Related R m m') (key : String) {a : α} {b : β} (hab : R a b) :
    Related R (put key a m) (put key b m') := by
  induction h with
  | nil => exact .cons ⟨rfl, hab⟩ .nil
  | @cons p q rest rest' hpq hrest ih =>
    obtain ⟨k, x⟩ := p
    obtain ⟨k', y⟩ := q
    obtain ⟨rfl, hxy⟩ : k = k' ∧ R x y := hpq
    by_cases hk : k = key
    · rw [Assoc.put, Assoc.put, if_pos hk, if_pos hk]
      exact .cons ⟨rfl, hab⟩ hrest
    · rw [Assoc.put, Assoc.put, if_neg hk, if_neg hk]
      exact .cons ⟨rfl, hxy⟩ ih

theorem Related.lookup (h : Related R m m') (key : String) :
    Option.Rel R (m.lookup key) (m'.lookup key) := by
  induction h with
  | nil => exact .none
  | @cons p q rest rest' hpq hrest ih =>
    obtain ⟨k, x⟩ := p
    obtain ⟨k', y⟩ := q
    obtain ⟨rfl, hxy⟩ : k = k' ∧ R x y := hpq
    rw [List.lookup_cons, List.lookup_cons]
    cases key == k with
    | true => exact .some hxy
    | false => exact ih

/-- What is kept for its keys is kept on both sides. -/
theorem Related.filter (h : Related R m m') (keep : String → Bool) :
    Related R (m.filter fun p => keep p.1) (m'.filter fun q => keep q.1) :=
  List.rel_filter (fun _ _ hpq => Iff.of_eq (congrArg (keep · = true) hpq.1)) h

end Assoc

/-! ## 3. One level -/

namespace Reading

/-- Items that are read alike are collected alike. -/
theorem collect_congr {α α' β : Type} {read : α → Reading} {read' : α' → Reading}
    {keep : α → Value → β} {keep' : α' → Value → β} {as : List α} {as' : List α'}
    (h : List.Forall₂ (fun a a' => read a = read' a' ∧ keep a = keep' a') as as') :
    collect read keep as = collect read' keep' as' := by
  induction h with
  | nil => rfl
  | cons ha hrest ih =>
    obtain ⟨hread, hkeep⟩ := ha
    rw [collect, collect, hread, hkeep, ih]

end Reading

namespace Shape

variable {name : String} {v : Expression} {below : Reader} {s : Shape}

/-- The reader gives the same for the shape when the name is spelled out. -/
def ReadsAlike (name : String) (v : Expression) (below : Reader) (s : Shape) : Prop :=
  ∀ e e', Expression.SpellsOut name v e e' → below s (some e) = below s (some e')

/-- The same keys are written out, with values that spell out each other's. -/
theorem keyed?_of_spellsOut {entries entries' : List Entry}
    (h : List.Forall₂ (Entry.SpellsOut name v) entries entries') :
    Option.Rel (Assoc.Related (Expression.SpellsOut name v)) (Entry.keyed? entries)
      (Entry.keyed? entries') := by
  unfold Entry.keyed?
  refine foldlM_of_forall₂ (fun m m' entry entry' hm hentry => ?_) h .nil
  cases hentry with
  | keyed key hx => exact .some (hm.put key hx)
  | computed _ => exact .none
  | spread _ => exact .none

theorem readItems_of_spellsOut (hbelow : ReadsAlike name v below s) {items items' : List Expression}
    (h : List.Forall₂ (Expression.SpellsOut name v) items items') :
    readItems below s items = readItems below s items' :=
  Reading.collect_congr (h.imp fun e e' he => ⟨hbelow e e' he, rfl⟩)

/-- **Objects whose entries are read alike side by side are read alike.** -/
theorem readObject_of_related {R : Expression → Expression → Prop} {mode : Mode}
    {fields : List (String × Shape)} {others : Option Shape}
    (hfields : ∀ field ∈ fields, ∀ x x', R x x' → below field.2 (some x) = below field.2 (some x'))
    (hothers : ∀ s, others = some s → ∀ x x', R x x' → below s (some x) = below s (some x'))
    {entries entries' : List Entry}
    (h : Option.Rel (Assoc.Related R) (Entry.keyed? entries) (Entry.keyed? entries')) :
    readObject below mode fields others entries = readObject below mode fields others entries' := by
  unfold readObject
  generalize Entry.keyed? entries = w at h ⊢
  generalize Entry.keyed? entries' = w' at h ⊢
  cases h with
  | none => rfl
  | @some m m' hm =>
    have hknown : readFields below m fields = readFields below m' fields := by
      refine Reading.collect_congr (List.forall₂_same.2 fun field hf => ⟨?_, rfl⟩)
      have hlookup := hm.lookup field.1
      generalize m.lookup field.1 = o at hlookup ⊢
      generalize m'.lookup field.1 = o' at hlookup ⊢
      cases hlookup with
      | none => rfl
      | some hx => exact hfields field hf _ _ hx
    have hrest : Assoc.Related R
        (m.filter fun entry => !fields.any fun field => field.1 == entry.1)
        (m'.filter fun entry => !fields.any fun field => field.1 == entry.1) :=
      hm.filter fun key => !fields.any fun field => field.1 == key
    have hothers : readOthers below mode others
          (m.filter fun entry => !fields.any fun field => field.1 == entry.1) =
        readOthers below mode others
          (m'.filter fun entry => !fields.any fun field => field.1 == entry.1) := by
      refine Reading.collect_congr (hrest.imp fun p q hpq => ⟨?_, by rw [hpq.1]⟩)
      cases others with
      | none => rfl
      | some s => exact hothers s rfl p.2 q.2 hpq.2
    rw [Option.bind_eq_bind, Option.bind_some, Option.bind_eq_bind, Option.bind_some, hknown,
      hothers]

theorem readObject_of_spellsOut {mode : Mode} {fields : List (String × Shape)}
    {others : Option Shape} (hfields : ∀ field ∈ fields, ReadsAlike name v below field.2)
    (hothers : ∀ s, others = some s → ReadsAlike name v below s) {entries entries' : List Entry}
    (h : List.Forall₂ (Entry.SpellsOut name v) entries entries') :
    readObject below mode fields others entries = readObject below mode fields others entries' :=
  readObject_of_related hfields hothers (keyed?_of_spellsOut h)

theorem readCreatorCall_of_spellsOut {cx : Context}
    (hbelow : ReadsAlike name v below (.rule .branches)) (callee : Expression)
    {args args' : List Expression} (h : List.Forall₂ (Expression.SpellsOut name v) args args') :
    readCreatorCall below cx (.call callee args) =
      readCreatorCall below cx (.call callee args') := by
  have hhead : below (.rule .branches) args.head? = below (.rule .branches) args'.head? := by
    cases h with
    | nil => rfl
    | cons hx _ => exact hbelow _ _ hx
  unfold readCreatorCall
  simp only [hhead]

/-! ## 4. All levels -/

/-- Several alternatives read alike if each of them does. -/
theorem read_oneOf_congr {cx : Context} {n : Nat} {alternatives : List Shape}
    {o o' : Option Expression} (h : ∀ s ∈ alternatives, read cx n s o = read cx n s o') :
    read cx n (.oneOf alternatives) o = read cx n (.oneOf alternatives) o' := by
  cases n with
  | zero => rfl
  | succ n =>
    induction alternatives with
    | nil => rfl
    | cons s rest ih =>
      obtain ⟨hs, hrest⟩ := List.forall_mem_cons.1 h
      by_cases hfailed : read cx (n + 1) s o = .failed
      · rw [read_oneOf_of_failed hfailed, read_oneOf_of_failed (hs ▸ hfailed), ih hrest]
      · rw [read_oneOf_of_ne_failed hfailed, read_oneOf_of_ne_failed (hs ▸ hfailed), hs]

section Levels

variable {cx : Context} {n : Nat}
  (hname : cx.scope.resolve (.name name) = cx.scope.resolve v)
include hname

/-- A shape that looks at what an expression is reads alike if it does so where a name is spelled
out inside an object, an array or a call. -/
theorem readsAlike_of_direct (hs : s.Direct)
    (hobject : ∀ m < n, ∀ entries entries',
      List.Forall₂ (Entry.SpellsOut name v) entries entries' →
        readResolved (read cx m) cx s (.object entries) =
          readResolved (read cx m) cx s (.object entries'))
    (harray : ∀ m < n, ∀ items items',
      List.Forall₂ (Expression.SpellsOut name v) items items' →
        readResolved (read cx m) cx s (.array items) =
          readResolved (read cx m) cx s (.array items'))
    (hcall : ∀ m < n, ∀ callee args args',
      List.Forall₂ (Expression.SpellsOut name v) args args' →
        readResolved (read cx m) cx s (.call callee args) =
          readResolved (read cx m) cx s (.call callee args')) :
    ReadsAlike name v (read cx n) s := by
  intro e e' h
  cases n with
  | zero => rfl
  | succ m =>
    have hm : m < m + 1 := Nat.lt_succ_self m
    have hresolved : readResolved (read cx m) cx s (cx.scope.resolve e) =
        readResolved (read cx m) cx s (cx.scope.resolve e') := by
      cases h with
      | same => rfl
      | here => rw [hname]
      | object h => exact hobject m hm _ _ h
      | array h => exact harray m hm _ _ h
      | call callee h => exact hcall m hm callee _ _ h
    rw [read_some hs, read_some hs, hresolved]

/-- **A shape reads alike when a name is spelled out**, on every level. -/
theorem readsAlike_read (n : Nat) (s : Shape) : ReadsAlike name v (read cx n) s := by
  induction n, s using level_induction with
  | plain n s hs =>
    -- plain data are no objects, arrays or calls
    refine readsAlike_of_direct hname hs.direct ?_ ?_ ?_
    all_goals
      intros
      rcases hs with rfl | rfl | rfl | rfl | ⟨_ | _, rfl⟩ <;> rfl
  | ignored n =>
    intro e e' _
    cases n <;> rfl
  | creatorCall n ih =>
    refine readsAlike_of_direct hname trivial (fun _ _ _ _ _ => rfl) (fun _ _ _ _ _ => rfl) ?_
    intro m hm callee args args' h
    exact readCreatorCall_of_spellsOut (ih m hm) callee h
  | implementation n ih =>
    refine readsAlike_of_direct hname trivial (fun _ _ _ _ _ => rfl) (fun _ _ _ _ _ => rfl) ?_
    intro m hm callee args args' h
    exact readCreatorCall_of_spellsOut (ih m hm) callee h
  | rule n r ih =>
    intro e e' h
    rw [read_rule_eq, read_rule_eq]
    exact ih e e' h
  | array n element ih =>
    refine readsAlike_of_direct hname trivial (fun _ _ _ _ _ => rfl) ?_ (fun _ _ _ _ _ _ => rfl)
    intro m hm items items' h
    rw [readResolved, readResolved, readItems_of_spellsOut (ih m hm) h]
  | object n fields others hfields hothers =>
    refine readsAlike_of_direct hname trivial ?_ (fun _ _ _ _ _ => rfl) (fun _ _ _ _ _ _ => rfl)
    intro m hm entries entries' h
    exact readObject_of_spellsOut (fun field hf => hfields field hf m hm)
      (fun s hs => hothers s hs m hm) h
  | optional n inner ih =>
    intro e e' h
    rw [read_optional_some, read_optional_some]
    exact ih e e' h
  | oneOf n alternatives ih =>
    intro e e' h
    exact read_oneOf_congr fun s hs => ih s hs e e' h

end Levels

/-! ## 5. Definitions -/

/-- **A name may be spelled out anywhere in a definition or in what is provided for it.** -/
theorem read_spelled_out (cx : Context) (name : String) (v e e' : Expression)
    (hv : cx.scope.binding? name = some (.value v)) (hend : cx.scope.EndsWithin 15 (.name name))
    (h : Expression.SpellsOut name v e e') :
    readDefinition cx e = readDefinition cx e' ∧
      readProvided cx (some e) = readProvided cx (some e') := by
  have hname : cx.scope.resolve (.name name) = cx.scope.resolve v :=
    Scope.resolve_name hv (by decide) hend
  exact ⟨readsAlike_read hname _ _ e e' h, readsAlike_read hname _ _ e e' h⟩

/-- The name of a name of a state is spelled out as a target in an array and inside the argument of
an action, and stays under a key; both are read as the text at the end. -/
theorem start_spelled_out :
    let cx : Context := ⟨[("start", .value (.name "first")), ("first", .value (.string "a")),
      ("choose", .imported "xstate" (.named "choose"))], {}⟩
    let tree (there : Expression) := Expression.object [.keyed "initial" (.name "start"),
      .keyed "states" (.object [.keyed "a" (.object
        [.keyed "always" (.array [.name "start", there]),
         .keyed "entry" (.call (.name "choose") [.array [.object [.keyed "cond" there]]])])])]
    let value := Value.object [("initial", .string "a"), ("states", .object [("a", .object
      [("entry", .object [("type", .string "xstate.choose"),
         ("conds", .array [.object [("cond", .string "a")]])]),
       ("always", .array [.string "a", .string "a"])])])]
    cx.scope.binding? "start" = some (.value (.name "first")) ∧
      cx.scope.EndsWithin 15 (.name "start") ∧
      Expression.SpellsOut "start" (.name "first") (tree (.name "start")) (tree (.name "first")) ∧
      readDefinition cx (tree (.name "start")) = .present value ∧
      readDefinition cx (tree (.name "first")) = .present value := by
  intro cx tree value
  have hv : cx.scope.binding? "start" = some (.value (.name "first")) := by rfl
  have hend : cx.scope.EndsWithin 15 (.name "start") := by
    refine ⟨2, by decide, .string "a", .hop hv (.hop rfl (.here _)), ?_⟩
    intro name v h
    cases h
  have htargets : Expression.SpellsOut "start" (.name "first")
      (.array [.name "start", .name "start"]) (.array [.name "start", .name "first"]) :=
    .array (.cons (.same _) (.cons .here .nil))
  have haction : Expression.SpellsOut "start" (.name "first")
      (.call (.name "choose") [.array [.object [.keyed "cond" (.name "start")]]])
      (.call (.name "choose") [.array [.object [.keyed "cond" (.name "first")]]]) :=
    .call _ (.cons (.array (.cons (.object (.cons (.keyed _ .here) .nil)) .nil)) .nil)
  have htree : Expression.SpellsOut "start" (.name "first") (tree (.name "start"))
      (tree (.name "first")) :=
    .object (.cons (.keyed _ (.same _)) (.cons (.keyed _ (.object (.cons (.keyed _ (.object
      (.cons (.keyed _ htargets) (.cons (.keyed _ haction) .nil)))) .nil))) .nil))
  have hread : readDefinition cx (tree (.name "start")) = .present value := by rfl
  exact ⟨hv, hend, htree, hread, (read_spelled_out cx _ _ _ _ hv hend htree).1.symm.trans hread⟩

end Shape
end Statechart
