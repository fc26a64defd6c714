import Statechart.Proofs.Literal.Read
import Statechart.Proofs.Obstacle

/-!
# Obstacles in literals of definitions

A literal holds nothing that cannot be read: it is made of written keys, arrays, texts, functions
and calls to the creator of choices. Main statement: what the search comes upon in the literal of a
tree that can be written is at most the end of the levels.
-/

namespace Statechart

/-- The search comes upon nothing in the expression but the end of the levels. -/
def Expression.Clear (cx : Context) (allow : Bool) (e : Expression) : Prop :=
  ∀ n o, Obstacle.findWithin cx allow n e = some o → o.construct = .tooDeep

variable {cx : Context} {allow : Bool} {chooser : String} {α : Type}

/-! ## 1. Objects, arrays and calls -/

namespace Expression

/-- With no level left the search comes upon their end and nothing else. -/
theorem clear_of_levels {e : Expression}
    (h : ∀ n o, Obstacle.findWithin cx allow (n + 1) e = some o → o.construct = .tooDeep) :
    e.Clear cx allow := by
  intro n o ho
  cases n with
  | zero =>
    obtain rfl := Option.some.inj ho
    rfl
  | succ n => exact h n o ho

theorem clear_of_find {e : Expression} (h : ∀ n, Obstacle.findWithin cx allow (n + 1) e = none) :
    e.Clear cx allow :=
  clear_of_levels fun n o ho => by cases (h n).symm.trans ho

theorem clear_string (text : String) : (string text).Clear cx allow := clear_of_find fun _ => rfl

theorem clear_bool (b : Bool) : (bool b).Clear cx allow := clear_of_find fun _ => rfl

theorem clear_array {items : List Expression} (h : ∀ e ∈ items, e.Clear cx allow) :
    (array items).Clear cx allow := by
  refine clear_of_levels fun n o ho => ?_
  obtain ⟨i, y, o', hy, hfound, rfl⟩ := Obstacle.exists_of_findWithin_array rfl ho
  exact h y (List.mem_of_getElem? hy) n o' hfound

theorem clear_record {m : Assoc Expression} (h : ∀ key e, (key, e) ∈ m → e.Clear cx allow) :
    (record m).Clear cx allow := by
  have hwritten : Entry.AllWritten (m.map fun p => .keyed p.1 p.2) := by
    intro entry hentry
    obtain ⟨p, -, rfl⟩ := List.mem_map.1 hentry
    exact ⟨p.1, p.2, rfl⟩
  refine clear_of_levels fun n o ho => ?_
  obtain ⟨key, y, o', hy, hfound, rfl⟩ := Obstacle.exists_of_findWithin_object rfl hwritten ho
  obtain ⟨p, hmem, he⟩ := List.mem_map.1 hy
  obtain ⟨rfl, rfl⟩ := Entry.keyed.inj he
  exact h p.1 p.2 hmem n o' hfound

theorem clear_ofFields {fields : Assoc (Option Expression)}
    (h : ∀ field ∈ fields, ∀ e, field.2 = some e → e.Clear cx allow) :
    (ofFields fields).Clear cx allow :=
  clear_record fun _ e he => h _ (Assoc.mem_present.1 he) e rfl

theorem clear_call {callee : Expression} {args : List Expression} {name : String}
    (hname : cx.creator? callee = some name) (h : ∀ e ∈ args, e.Clear cx allow) :
    (call callee args).Clear cx allow := by
  refine clear_of_levels fun n o ho => ?_
  obtain ⟨i, y, hy, hfound⟩ := Obstacle.exists_of_findWithin_call rfl hname ho
  exact h y (List.mem_of_getElem? hy) n o hfound

/-! ## 2. Fields that may be left out -/

theorem clear_map? {o : Option α} {literal : α → Expression}
    (h : ∀ a, o = some a → (literal a).Clear cx allow) (e : Expression)
    (he : o.map literal = some e) : e.Clear cx allow := by
  obtain ⟨a, ha, rfl⟩ := Option.map_eq_some_iff.1 he
  exact h a ha

theorem clear_several {as : List α} {literal : α → Expression}
    (h : ∀ a ∈ as, (literal a).Clear cx allow) : (array (as.map literal)).Clear cx allow := by
  refine clear_array fun e he => ?_
  obtain ⟨a, ha, rfl⟩ := List.mem_map.1 he
  exact h a ha

theorem clear_array? {as : List α} {literal : α → Expression}
    (h : ∀ a ∈ as, (literal a).Clear cx allow) (e : Expression)
    (he : array? (as.map literal) = some e) : e.Clear cx allow := by
  unfold array? at he
  split at he
  · cases he
  · obtain rfl := Option.some.inj he
    exact clear_several h

end Expression

open Expression

/-! ## 3. Actions, transitions and services -/

theorem Ref.clear_literal (r : Ref) : r.literal.Clear cx allow := by
  cases r with
  | named name => exact clear_string name
  | inline => exact clear_of_find fun _ => rfl

theorem Action.clear_literal {a : Action} (h : a.Expressible cx chooser) :
    (a.literal chooser).Clear cx allow := by
  induction h with
  | named name => exact clear_string name
  | inline => exact clear_of_find fun _ => rfl
  | builtin =>
    refine clear_ofFields ?_
    simp only [List.forall_mem_cons]
    refine ⟨fun e he => ?_, List.forall_mem_nil _⟩
    obtain rfl := Option.some.inj he
    exact clear_string _
  | @choose branches hchooser _ ih =>
    rw [Action.literal, Branch.literals_eq]
    refine clear_call (Shape.creator?_of_importsChoose hchooser) (List.forall_mem_singleton.2 ?_)
    refine clear_several fun b hb => ?_
    obtain ⟨cond, as⟩ := b
    rw [Branch.literal, Action.literals_eq]
    refine clear_ofFields ?_
    simp only [List.forall_mem_cons]
    exact ⟨clear_map? fun r _ => r.clear_literal, clear_array? (ih cond as hb),
      List.forall_mem_nil _⟩

theorem TransitionDecl.clear_literal {t : TransitionDecl} (h : t.Expressible cx chooser) :
    (t.literal chooser).Clear cx allow := by
  refine clear_ofFields ?_
  simp only [List.forall_mem_cons]
  exact ⟨clear_array? fun text _ => clear_string text, clear_map? fun r _ => r.clear_literal,
    clear_array? fun a ha => Action.clear_literal (h a ha), clear_map? fun b _ => clear_bool b,
    List.forall_mem_nil _⟩

theorem clear_transitionMapLiteral {m : Assoc (List TransitionDecl)}
    (h : ∀ key ts, (key, ts) ∈ m → ∀ t ∈ ts, t.Expressible cx chooser) (e : Expression)
    (he : transitionMapLiteral chooser m = some e) : e.Clear cx allow := by
  unfold transitionMapLiteral Expression.record? at he
  split at he
  · cases he
  · obtain rfl := Option.some.inj he
    refine clear_record fun key e hmem => ?_
    obtain ⟨⟨key', ts⟩, hts, he⟩ := List.mem_map.1 hmem
    obtain ⟨rfl, rfl⟩ := Prod.mk.inj he
    exact clear_several fun t ht => TransitionDecl.clear_literal (h key' ts hts t ht)

theorem InvokeDecl.clear_literal {i : InvokeDecl}
    (hdone : ∀ t ∈ i.onDone, t.Expressible cx chooser)
    (herror : ∀ t ∈ i.onError, t.Expressible cx chooser) : (i.literal chooser).Clear cx allow := by
  refine clear_ofFields ?_
  simp only [List.forall_mem_cons]
  refine ⟨fun e he => ?_, clear_map? fun text _ => clear_string text,
    clear_array? fun t ht => TransitionDecl.clear_literal (hdone t ht),
    clear_array? fun t ht => TransitionDecl.clear_literal (herror t ht), fun e he => ?_,
    List.forall_mem_nil _⟩
  · obtain rfl := Option.some.inj he
    exact i.src.clear_literal
  · split at he
    · obtain rfl := Option.some.inj he
      exact clear_bool true
    · cases he

/-! ## 4. States -/

/-- The fields of a state are clear if what is written of the states below it is. -/
theorem StateDecl.clear_literal {d : StateDecl} {cs : Assoc StateTree} {below : Option Expression}
    (hd : d.Expressible cx chooser cs) (hbelow : ∀ e, below = some e → e.Clear cx allow) :
    (Expression.ofFields (d.literalFields chooser below)).Clear cx allow := by
  refine clear_ofFields ?_
  unfold StateDecl.literalFields
  simp only [List.forall_mem_cons]
  exact ⟨clear_map? fun k _ => clear_string k.word, clear_map? fun id _ => clear_string id,
    clear_map? fun child _ => clear_string child, hbelow, clear_transitionMapLiteral hd.on,
    clear_array? fun t ht => TransitionDecl.clear_literal (hd.always t ht),
    clear_transitionMapLiteral hd.after,
    clear_array? fun t ht => TransitionDecl.clear_literal (hd.onDone t ht),
    clear_array? fun i hi => InvokeDecl.clear_literal (hd.invoke i hi).1 (hd.invoke i hi).2,
    clear_array? fun a ha => Action.clear_literal (hd.entry a ha),
    clear_array? fun a ha => Action.clear_literal (hd.exit a ha),
    clear_array? fun r _ => r.clear_literal, clear_map? fun depth _ => clear_string depth.word,
    clear_map? fun target _ => clear_string target, List.forall_mem_nil _⟩

namespace StateTree

mutual

/-- **Nothing is in the way in the literal of a tree that can be written** but its depth. -/
theorem clear_literal : {t : StateTree} → t.Expressible cx chooser →
    (t.literal chooser).Clear cx allow
  | .state d cs, h => by
    rw [Expressible, Everywhere] at h
    obtain ⟨hd, hcs⟩ := h
    refine StateDecl.clear_literal hd fun e he => ?_
    split at he
    · obtain rfl := Option.some.inj he
      exact clear_record (clear_literals hcs)
    · cases he

theorem clear_literals : {cs : List (String × StateTree)} →
    EverywhereIn (fun d cs => d.Expressible cx chooser cs) cs →
    ∀ key e, (key, e) ∈ literals chooser cs → e.Clear cx allow
  | [], _, _, _, hmem => by cases hmem
  | (_, t) :: rest, h, key, e, hmem => by
    rw [EverywhereIn] at h
    rcases List.mem_cons.1 hmem with he | hmem
    · obtain ⟨-, rfl⟩ := Prod.mk.inj he
      exact clear_literal h.1
    · exact clear_literals h.2 key e hmem

end

end StateTree

end Statechart
