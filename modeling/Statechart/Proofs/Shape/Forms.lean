import Statechart.Proofs.Shape.Induction

/-!
# Forms of what is accepted

What a shape might accept can be told from the outermost form of an expression, or from there being
none. Main statement: whatever is accepted has a form that the shape admits; shapes that admit no
form in common never accept the same.
-/

namespace Statechart.Shape

/-! ## 1. Admitted forms -/

/-- The shape might accept what stands at a position at the end of its names, if anything does. -/
inductive Admits : Shape → Option Expression → Prop
  | string {allowed : Option (List String)} {text : String}
      (h : ∀ texts, allowed = some texts → text ∈ texts) :
      Admits (.string allowed) (some (.string text))
  | bool (b : Bool) : Admits .bool (some (.bool b))
  | number (text : String) : Admits .number (some (.number text))
  | undefined : Admits .undefined (some .undefined)
  | function : Admits .function (some .function)
  | object (fields : List (String × Shape)) (others : Option Shape) (entries : List Entry) :
      Admits (.object fields others) (some (.object entries))
  | array (element : Shape) (items : List Expression) :
      Admits (.array element) (some (.array items))
  | oneOf {alternatives : List Shape} {s : Shape} {o : Option Expression}
      (hs : s ∈ alternatives) (h : Admits s o) : Admits (.oneOf alternatives) o
  | omitted (inner : Shape) : Admits (.optional inner) none
  | optional {inner : Shape} {x : Expression} (h : Admits inner (some x)) :
      Admits (.optional inner) (some x)
  | ignored (o : Option Expression) : Admits .ignored o
  | rule {r : Rule} {o : Option Expression} (h : Admits (ofRule r) o) : Admits (.rule r) o
  | creatorCall (callee : Expression) (args : List Expression) :
      Admits .creatorCall (some (.call callee args))
  | implemented : Admits .implementation (some .function)
  | named (name : String) : Admits .implementation (some (.name name))
  | member (inner : Expression) (property : String) :
      Admits .implementation (some (.member inner property))
  | created (callee : Expression) (args : List Expression) :
      Admits .implementation (some (.call callee args))

theorem admits_oneOf {alternatives : List Shape} {o : Option Expression} :
    Admits (.oneOf alternatives) o ↔ ∃ s ∈ alternatives, Admits s o := by
  constructor
  · intro h
    cases h with
    | oneOf hs h => exact ⟨_, hs, h⟩
  · intro h
    obtain ⟨s, hs, h⟩ := h
    exact .oneOf hs h

/-- The two shapes admit no form in common. -/
def Disjoint (s t : Shape) : Prop := ∀ o, Admits s o → ¬ Admits t o

theorem Disjoint.symm {s t : Shape} (h : Disjoint s t) : Disjoint t s := fun o ht hs => h o hs ht

theorem disjoint_oneOf {alternatives : List Shape} {t : Shape}
    (h : ∀ s ∈ alternatives, Disjoint s t) : Disjoint (.oneOf alternatives) t := by
  intro o hs ht
  obtain ⟨s, hmem, hs⟩ := admits_oneOf.1 hs
  exact h s hmem o hs ht

theorem disjoint_rule {r : Rule} {t : Shape} (h : Disjoint (ofRule r) t) :
    Disjoint (.rule r) t := by
  intro o hs ht
  cases hs with
  | rule hs => exact h o hs ht

/-- A key that must not be left out is none that may be. -/
theorem disjoint_optional {s inner : Shape} (hs : ¬ Admits s none) (h : Disjoint s inner) :
    Disjoint s (.optional inner) := by
  intro o hadmits ht
  cases ht with
  | omitted => exact hs hadmits
  | optional ht => exact h _ hadmits ht

theorem disjoint_oneOfTexts {texts texts' : List String} (h : ∀ text ∈ texts, text ∉ texts') :
    Disjoint (oneOfTexts texts) (oneOfTexts texts') := by
  intro o hs ht
  cases hs with
  | string hs =>
    cases ht with
    | string ht => exact h _ (hs _ rfl) (ht _ rfl)

/-! ## 2. Shapes of one form -/

/-- The forms that many shapes ask for. -/
inductive Form
  | string
  | bool
  | number
  | undefined
  | function
  | object
  | array
  | call
deriving DecidableEq, Repr

/-- The form that a shape asks for, if it is one. -/
def form? : Shape → Option Form
  | .string _ => some .string
  | .bool => some .bool
  | .number => some .number
  | .undefined => some .undefined
  | .function => some .function
  | .object _ _ => some .object
  | .array _ => some .array
  | .creatorCall => some .call
  | _ => none

/-- The form of what stands at a position. -/
def formOf? : Option Expression → Option Form
  | some (.string _) => some .string
  | some (.bool _) => some .bool
  | some (.number _) => some .number
  | some .undefined => some .undefined
  | some .function => some .function
  | some (.object _) => some .object
  | some (.array _) => some .array
  | some (.call _ _) => some .call
  | _ => none

theorem formOf?_of_admits {s : Shape} {o : Option Expression} (h : Admits s o) {f : Form}
    (hf : s.form? = some f) : formOf? o = some f := by
  cases h <;> first | exact hf | cases hf

theorem disjoint_of_form {s t : Shape} {f g : Form} (hs : s.form? = some f)
    (ht : t.form? = some g) (h : f ≠ g) : Disjoint s t := by
  intro o hadmits hadmits'
  have hf := formOf?_of_admits hadmits hs
  rw [formOf?_of_admits hadmits' ht] at hf
  exact h (Option.some.inj hf).symm

/-- Alternatives of some forms admit nothing of another. -/
theorem disjoint_oneOf_of_forms {alternatives : List Shape} {t : Shape} {g : Form}
    (forms : List Form) (h : alternatives.map form? = forms.map some) (ht : t.form? = some g)
    (hg : g ∉ forms) : Disjoint (.oneOf alternatives) t := by
  refine disjoint_oneOf fun s hs => ?_
  have hmem : s.form? ∈ forms.map some := h ▸ List.mem_map_of_mem hs
  obtain ⟨f, hf, hsf⟩ := List.mem_map.1 hmem
  exact disjoint_of_form hsf.symm ht fun e => hg (e ▸ hf)

/-- Alternatives of different forms admit nothing in common. -/
theorem pairwise_disjoint_of_forms {alternatives : List Shape} (forms : List Form)
    (h : alternatives.map form? = forms.map some) (hforms : forms.Nodup) :
    alternatives.Pairwise Disjoint := by
  have hpairs : (alternatives.map form?).Pairwise (· ≠ ·) := by
    rw [h, List.pairwise_map]
    exact hforms.imp fun hfg e => hfg (Option.some.inj e)
  rw [List.pairwise_map] at hpairs
  refine hpairs.imp_of_mem fun {s t} hs ht hne => ?_
  have hmem : s.form? ∈ forms.map some := h ▸ List.mem_map_of_mem hs
  have hmem' : t.form? ∈ forms.map some := h ▸ List.mem_map_of_mem ht
  obtain ⟨f, -, hf⟩ := List.mem_map.1 hmem
  obtain ⟨g, -, hg⟩ := List.mem_map.1 hmem'
  exact disjoint_of_form hf.symm hg.symm fun e => hne (by rw [← hf, ← hg, e])

/-! ## 3. What is accepted -/

section Level

variable {below : Reader} {cx : Context}

theorem admits_of_readResolved {s : Shape} {x : Expression} {v : Value}
    (h : readResolved below cx s x = some v) : Admits s (some x) := by
  unfold readResolved at h
  split at h
  · exact .object _ _ _
  · exact .array _ _
  · exact .string fun _ h => by cases h
  · next hmem =>
    split at h
    · next allowed _ hmem =>
      exact .string fun texts htexts => by
        obtain rfl := Option.some.inj htexts
        exact List.contains_iff_mem.1 hmem
    · cases h
  · exact .bool _
  · exact .undefined
  · exact .number _
  · exact .function
  · unfold readCreatorCall at h
    split at h
    · exact .creatorCall _ _
    · cases h
  · exact .implemented
  · exact .named _
  · exact .member _ _
  · exact .created _ _
  · cases h

theorem admits_of_direct {n : Nat} {s : Shape} {o : Option Expression} (hs : s.Direct)
    (h : read cx n s o ≠ .failed) : Admits s (o.map cx.scope.resolve) := by
  obtain ⟨m, x, v, rfl, rfl, hv, -⟩ := exists_resolved h hs
  exact admits_of_readResolved hv

end Level

/-- **Whatever is accepted has a form that is admitted.** -/
theorem admits_of_read {cx : Context} {n : Nat} {s : Shape} {o : Option Expression}
    (h : read cx n s o ≠ .failed) : Admits s (o.map cx.scope.resolve) := by
  induction n, s using level_induction generalizing o with
  | plain n s hs => exact admits_of_direct hs.direct h
  | ignored n => exact .ignored _
  | creatorCall n _ => exact admits_of_direct trivial h
  | implementation n _ => exact admits_of_direct trivial h
  | rule n r ih =>
    rw [read_rule_eq] at h
    exact .rule (ih h)
  | array n element _ => exact admits_of_direct trivial h
  | object n fields others _ _ => exact admits_of_direct trivial h
  | optional n inner ih =>
    cases o with
    | none => exact .omitted inner
    | some x =>
      rw [read_optional_some] at h
      exact .optional (ih h)
  | oneOf n alternatives ih =>
    obtain ⟨s, hs, hread⟩ := exists_alternative_of_ne_failed h
    exact .oneOf hs (ih s hs hread)

theorem formOf?_of_read {cx : Context} {n : Nat} {s : Shape} {x : Expression}
    (h : read cx n s (some x) ≠ .failed) {f : Form} (hf : s.form? = some f) :
    formOf? (some (cx.scope.resolve x)) = some f :=
  formOf?_of_admits (admits_of_read h) hf

end Statechart.Shape
