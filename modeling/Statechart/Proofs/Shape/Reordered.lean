import Statechart.Proofs.Naming
import Statechart.Proofs.Reordering
import Statechart.Proofs.Shape.Objects

/-!
# Reading fields in any order

An object whose keys mean nothing to its shape but as names of fields is read field by field, in the
order of the shape. Main statement: a definition is read to the same whatever the order of the
fields, on all levels.
-/

namespace Statechart

namespace Shape

/-! ## 1. Shapes that do not ask for an order -/

mutual

/-- Where the order of an object counts or not, as said, the shape asks for nothing that the order
of others decides: objects are of known fields where it does not count, and records where it does.
-/
def orderless : (counts : Bool) → Shape → Bool
  | true, .object fields others => fields.isEmpty && orderlessOthers others
  | false, .object fields none => orderlessFields fields
  | false, .object fields (some .ignored) => orderlessFields fields
  | false, .object _ (some _) => false
  | _, .array element => orderless false element
  | counts, .oneOf alternatives => orderlessAll counts alternatives
  | counts, .optional inner => orderless counts inner
  | counts, .rule _ => !counts
  | _, _ => true

def orderlessFields : List (String × Shape) → Bool
  | [] => true
  | (key, s) :: rest => orderless (countsUnder false key) s && orderlessFields rest

def orderlessAll (counts : Bool) : List Shape → Bool
  | [] => true
  | s :: rest => orderless counts s && orderlessAll counts rest

def orderlessOthers : Option Shape → Bool
  | none => true
  | some s => orderless false s

end

theorem orderless_ofRule (r : Rule) : orderless false (ofRule r) = true := by
  cases r <;> decide

theorem orderless_of_mem_fields {fields : List (String × Shape)}
    (h : orderlessFields fields = true) {field : String × Shape} (hf : field ∈ fields) :
    orderless (countsUnder false field.1) field.2 = true := by
  induction fields with
  | nil => cases hf
  | cons first rest ih =>
    obtain ⟨key, s⟩ := first
    rw [orderlessFields, Bool.and_eq_true] at h
    rcases List.mem_cons.1 hf with rfl | hf
    · exact h.1
    · exact ih h.2 hf

theorem orderless_of_mem {counts : Bool} {alternatives : List Shape}
    (h : orderlessAll counts alternatives = true) {s : Shape} (hs : s ∈ alternatives) :
    orderless counts s = true := by
  induction alternatives with
  | nil => cases hs
  | cons first rest ih =>
    rw [orderlessAll, Bool.and_eq_true] at h
    rcases List.mem_cons.1 hs with rfl | hs
    · exact h.1
    · exact ih h.2 hs

/-- Where the order does not count, other keys than those of the fields mean nothing. -/
theorem orderless_object {fields : List (String × Shape)} {others : Option Shape}
    (h : orderless false (.object fields others) = true) :
    (others = none ∨ others = some .ignored) ∧ orderlessFields fields = true := by
  cases others with
  | none => exact ⟨.inl rfl, h⟩
  | some s =>
    cases s with
    | ignored => exact ⟨.inr rfl, h⟩
    | _ => cases h

end Shape

/-! ## 2. Entries -/

/-- An entry whose key is not written out leaves no object to read. -/
theorem Entry.not_allWritten {entry : Entry} (hentry : entry.pair? = none)
    (before after : List Entry) : ¬ AllWritten (before ++ entry :: after) := by
  intro hwritten
  obtain ⟨key, value, rfl⟩ := hwritten entry (List.mem_append_right _ List.mem_cons_self)
  cases hentry

theorem Entry.keyed?_eq_none {entries : List Entry} (h : ¬ AllWritten entries) :
    keyed? entries = none :=
  Option.eq_none_iff_forall_ne_some.2 fun _ hw => h (keys_of_keyed? hw).1

namespace Expression.Reorders

variable {counts : Bool} {entries entries' : List Entry} {e e' : Expression}

/-- The same keys are written out, in another order or with another value under one of them. -/
theorem pairs (h : Reorders false (.object entries) (.object entries'))
    (hwritten : Entry.AllWritten entries) :
    Assoc.Rearranged (fun key => Reorders (countsUnder false key))
      (entries.filterMap Entry.pair?) (entries'.filterMap Entry.pair?) := by
  cases h with
  | permute _ hd h => exact .permute hd (h.filterMap Entry.pair?)
  | entry h =>
    rw [List.filterMap_append, List.filterMap_append]
    exact .replace h
  | computed | spread => exact absurd hwritten (Entry.not_allWritten rfl _ _)

theorem last? (h : Reorders false (.object entries) (.object entries'))
    (hwritten : Entry.AllWritten entries) (key : String) :
    Entry.last? entries key = Entry.last? entries' key ∨
      ∃ x x', Reorders (countsUnder false key) x x' ∧ Entry.last? entries key = some x ∧
        Entry.last? entries' key = some x' :=
  (h.pairs hwritten).reverse.lookup key

theorem allWritten_iff (h : Reorders counts (.object entries) (.object entries')) :
    Entry.AllWritten entries ↔ Entry.AllWritten entries' := by
  unfold Entry.AllWritten
  cases h with
  | permute _ _ h => exact forall_congr' fun entry => by rw [h.mem_iff]
  | entry | computed | spread => simp [or_imp, forall_and]

/-- What may be reordered is no name. -/
theorem resolve (h : Reorders counts e e') (scope : Scope) :
    scope.resolve e = e ∧ scope.resolve e' = e' := by
  cases h <;> exact ⟨rfl, rfl⟩

end Expression.Reorders

theorem forall₂_replace {α : Type} {R : α → α → Prop} (hR : ∀ a, R a a) {a a' : α} (h : R a a')
    (before after : List α) : List.Forall₂ R (before ++ a :: after) (before ++ a' :: after) :=
  List.rel_append (List.forall₂_same.2 fun b _ => hR b)
    (.cons h (List.forall₂_same.2 fun b _ => hR b))

namespace Shape

variable {cx : Context} {n : Nat} {mode : Mode} {fields : List (String × Shape)}
  {others : Option Shape}

/-! ## 3. One level -/

/-- The reader gives the same for the shape when fields are in another order. -/
def OrderFree (counts : Bool) (below : Reader) (s : Shape) : Prop :=
  ∀ x x', Expression.Reorders counts x x' → below s (some x) = below s (some x')

/-- Things of which nothing is kept are told apart only by there being any. -/
theorem collect_of_const {α α' β : Type} {read : α → Reading} {read' : α' → Reading}
    {keep : α → Value → β} {keep' : α' → Value → β} {items : List α} {items' : List α'}
    {r : Reading} (hr : r = .failed ∨ r = .absent) (hread : ∀ a, read a = r)
    (hread' : ∀ a, read' a = r) (h : items = [] ↔ items' = []) :
    Reading.collect read keep items = Reading.collect read' keep' items' := by
  rcases hr with rfl | rfl
  · cases items with
    | nil =>
      rw [h.1 rfl]
      rfl
    | cons a rest =>
      obtain ⟨a', ha'⟩ := List.exists_mem_of_ne_nil items' fun hnil => by cases h.2 hnil
      rw [collect_eq_none List.mem_cons_self (hread a), collect_eq_none ha' (hread' a')]
  · have hnil {α : Type} {read : α → Reading} {keep : α → Value → β} {items : List α}
        (hread : ∀ a, read a = .absent) : Reading.collect read keep items = some [] :=
      Reading.collect_eq_some_iff.2 ⟨fun a _ => by simp [hread a],
        (List.filterMap_eq_nil_iff.2 fun a _ => by simp [hread a, Reading.value?]).symm⟩
    rw [hnil hread, hnil hread']

/-- Other keys that mean nothing are told apart only by there being any. -/
theorem readOthers_congr (hothers : others = none ∨ others = some .ignored)
    {w w' : Assoc Expression} (h : w = [] ↔ w' = []) :
    readOthers (read cx n) mode others w = readOthers (read cx n) mode others w' := by
  unfold readOthers
  rcases hothers with rfl | rfl
  · by_cases hmode : mode = .strict
    · exact collect_of_const (.inl rfl) (fun _ => by simp [hmode]) (fun _ => by simp [hmode]) h
    · exact collect_of_const (.inr rfl) (fun _ => by simp [hmode]) (fun _ => by simp [hmode]) h
  · cases n with
    | zero => exact collect_of_const (.inl rfl) (fun _ => rfl) (fun _ => rfl) h
    | succ n => exact collect_of_const (.inr rfl) (fun _ => rfl) (fun _ => rfl) h

/-- Whether there are keys of a sort is seen by looking up. -/
theorem filter_keys_eq_nil_iff {α : Type} {w : Assoc α} {p : String → Bool} :
    (w.filter fun entry => p entry.1) = [] ↔ ∀ key, w.lookup key ≠ none → p key = false := by
  rw [List.filter_eq_nil_iff]
  constructor
  · intro h key hkey
    obtain ⟨a, ha⟩ := Option.ne_none_iff_exists'.1 hkey
    exact Bool.eq_false_iff.2 (h (key, a) (Assoc.mem_of_lookup ha))
  · intro h entry hentry
    obtain ⟨a, ha⟩ := Assoc.exists_lookup_of_mem hentry
    exact Bool.eq_false_iff.1 (h entry.1 (by simp [ha]))

/-- Objects with a key that is not written out are not read. -/
theorem readObject_of_not_allWritten {counts : Bool} {entries entries' : List Entry}
    (h : Expression.Reorders counts (.object entries) (.object entries'))
    (hwritten : ¬ Entry.AllWritten entries) :
    readObject (read cx n) mode fields others entries =
      readObject (read cx n) mode fields others entries' := by
  unfold readObject
  rw [Entry.keyed?_eq_none hwritten, Entry.keyed?_eq_none (mt h.allWritten_iff.2 hwritten)]

/-- **Objects of fields are read alike in any order.** -/
theorem readObject_of_reorders (hothers : others = none ∨ others = some .ignored)
    (hfields : ∀ field ∈ fields, OrderFree (countsUnder false field.1) (read cx n) field.2)
    {entries entries' : List Entry}
    (h : Expression.Reorders false (.object entries) (.object entries')) :
    readObject (read cx n) mode fields others entries =
      readObject (read cx n) mode fields others entries' := by
  by_cases hwritten : Entry.AllWritten entries
  · obtain ⟨w, hw⟩ := Entry.exists_keyed? hwritten
    obtain ⟨w', hw'⟩ := Entry.exists_keyed? (h.allWritten_iff.1 hwritten)
    have hlookup (key : String) : w.lookup key = w'.lookup key ∨
        ∃ x x', Expression.Reorders (countsUnder false key) x x' ∧ w.lookup key = some x ∧
          w'.lookup key = some x' := by
      rw [(Entry.keys_of_keyed? hw).2.2, (Entry.keys_of_keyed? hw').2.2]
      exact h.last? hwritten key
    have hknown : readFields (read cx n) w fields = readFields (read cx n) w' fields := by
      refine Reading.collect_congr (List.forall₂_same.2 fun field hf => ⟨?_, rfl⟩)
      rcases hlookup field.1 with heq | ⟨x, x', hx, hlast, hlast'⟩
      · rw [heq]
      · rw [hlast, hlast']
        exact hfields field hf x x' hx
    have hnone (key : String) : w.lookup key ≠ none ↔ w'.lookup key ≠ none := by
      rcases hlookup key with heq | ⟨x, x', -, hlast, hlast'⟩
      · rw [heq]
      · simp [hlast, hlast']
    have hempty : (w.filter fun entry => !fields.any fun field => field.1 == entry.1) = [] ↔
        (w'.filter fun entry => !fields.any fun field => field.1 == entry.1) = [] := by
      rw [filter_keys_eq_nil_iff (p := fun key => !fields.any fun field => field.1 == key),
        filter_keys_eq_nil_iff (p := fun key => !fields.any fun field => field.1 == key)]
      simp only [hnone]
    unfold readObject
    rw [hw, hw', Option.bind_eq_bind, Option.bind_some, Option.bind_eq_bind, Option.bind_some,
      hknown, readOthers_congr hothers hempty]
  · exact readObject_of_not_allWritten h hwritten

/-- Where one value is another, the same keys are written out side by side. -/
theorem keyed?_replace (before after : List Entry) (key : String) {x x' : Expression}
    {R : Expression → Expression → Prop} (hR : ∀ x, R x x) (h : R x x') :
    Option.Rel (Assoc.Related R) (Entry.keyed? (before ++ .keyed key x :: after))
      (Entry.keyed? (before ++ .keyed key x' :: after)) := by
  let S : Entry → Entry → Prop := fun entry entry' =>
    entry = entry' ∨ ∃ key x x', R x x' ∧ entry = .keyed key x ∧ entry' = .keyed key x'
  have hS : List.Forall₂ S (before ++ .keyed key x :: after) (before ++ .keyed key x' :: after) :=
    forall₂_replace (fun _ => .inl rfl) (.inr ⟨key, x, x', h, rfl, rfl⟩) before after
  unfold Entry.keyed?
  refine foldlM_of_forall₂ (fun m m' entry entry' hm hentry => ?_) hS .nil
  rcases hentry with rfl | ⟨key, x, x', hx, rfl, rfl⟩
  · cases entry with
    | keyed key x => exact .some (hm.put key (hR x))
    | computed _ => exact .none
    | spread _ => exact .none
  · exact .some (hm.put key hx)

/-- Records are read alike where one of their values is. -/
theorem readObject_of_reorders_record (hothers : ∀ s, others = some s → OrderFree false (read cx n) s)
    {entries entries' : List Entry}
    (h : Expression.Reorders true (.object entries) (.object entries')) :
    readObject (read cx n) mode [] others entries =
      readObject (read cx n) mode [] others entries' := by
  by_cases hwritten : Entry.AllWritten entries
  · cases h with
    | @entry _ before after key x x' h =>
      refine readObject_of_related (R := fun x x' => x = x' ∨ Expression.Reorders false x x')
        (fun field hf => absurd hf List.not_mem_nil) (fun s hs y y' hy => ?_)
        (keyed?_replace before after key (fun _ => .inl rfl) (.inr h))
      rcases hy with rfl | hy
      · rfl
      · exact hothers s hs y y' hy
    | computed | spread => exact absurd hwritten (Entry.not_allWritten rfl _ _)
  · exact readObject_of_not_allWritten h hwritten

theorem readCreatorCall_of_reorders {counts : Bool} {e e' : Expression}
    (hbranches : OrderFree false (read cx n) (.rule .branches))
    (h : Expression.Reorders counts e e') :
    readCreatorCall (read cx n) cx e = readCreatorCall (read cx n) cx e' := by
  cases h with
  | @argument _ callee before after x x' h =>
    have hhead : read cx n (.rule .branches) (before ++ x :: after).head? =
        read cx n (.rule .branches) (before ++ x' :: after).head? := by
      cases before with
      | nil => exact hbranches x x' h
      | cons _ _ => rfl
    unfold readCreatorCall
    simp only [hhead]
  | _ => rfl

/-! ## 4. All levels -/

/-- A shape that looks at what an expression is. -/
theorem orderFree_of_direct {s : Shape} (hs : s.Direct) {counts : Bool}
    (h : ∀ m < n, ∀ e e', Expression.Reorders counts e e' →
      readResolved (read cx m) cx s e = readResolved (read cx m) cx s e') :
    OrderFree counts (read cx n) s := by
  intro e e' he
  cases n with
  | zero => rfl
  | succ m =>
    obtain ⟨hresolve, hresolve'⟩ := he.resolve cx.scope
    rw [read_some hs, read_some hs, hresolve, hresolve', h m (Nat.lt_succ_self m) e e' he]

/-- **A shape that does not ask for an order is read alike in any**, on every level. -/
theorem orderFree_read (n : Nat) (s : Shape) :
    ∀ counts, orderless counts s = true → OrderFree counts (read cx n) s := by
  induction n, s using level_induction with
  | plain n s hs =>
    intro counts _
    refine orderFree_of_direct hs.direct fun m _ e e' h => ?_
    -- plain data are no objects, arrays or calls
    rcases hs with rfl | rfl | rfl | rfl | ⟨_ | _, rfl⟩ <;> cases h <;> rfl
  | ignored n =>
    intro counts _ e e' _
    cases n <;> rfl
  | creatorCall n ih =>
    intro counts _
    refine orderFree_of_direct (s := .creatorCall) trivial fun m hm e e' h => ?_
    exact readCreatorCall_of_reorders (ih m hm false rfl) h
  | implementation n ih =>
    intro counts _
    refine orderFree_of_direct (s := .implementation) trivial fun m hm e e' h => ?_
    have hcall := readCreatorCall_of_reorders (ih m hm false rfl) h
    cases h with
    | argument h => exact hcall
    | _ => rfl
  | rule n r ih =>
    intro counts hs e e' h
    rw [read_rule_eq, read_rule_eq]
    cases counts with
    | false => exact ih false (orderless_ofRule r) e e' h
    | true => cases hs
  | array n element ih =>
    intro counts hs
    have helement : orderless false element = true := by cases counts <;> exact hs
    refine orderFree_of_direct (s := .array element) trivial fun m hm e e' h => ?_
    cases h with
    | @item _ before after x x' h =>
      have hitems : readItems (read cx m) element (before ++ x :: after) =
          readItems (read cx m) element (before ++ x' :: after) :=
        Reading.collect_congr (forall₂_replace (fun _ => ⟨rfl, rfl⟩)
          ⟨ih m hm false helement x x' h, rfl⟩ before after)
      rw [readResolved, readResolved, hitems]
    | _ => rfl
  | object n fields others hfields hothers =>
    intro counts hs
    refine orderFree_of_direct (s := .object fields others) trivial fun m hm e e' h => ?_
    have hreorders := h
    cases counts with
    | false =>
      obtain ⟨hloose, hall⟩ := orderless_object hs
      have hread (field : String × Shape) (hf : field ∈ fields) :
          OrderFree (countsUnder false field.1) (read cx m) field.2 :=
        hfields field hf m hm _ (orderless_of_mem_fields hall hf)
      cases h with
      | permute | entry | computed | spread => exact readObject_of_reorders hloose hread hreorders
      | _ => rfl
    | true =>
      obtain ⟨hempty, hall⟩ := Bool.and_eq_true_iff.1 hs
      obtain rfl := List.isEmpty_iff.1 hempty
      cases h with
      | entry | computed | spread =>
        refine readObject_of_reorders_record (fun s hs' => ?_) hreorders
        exact hothers s hs' m hm false (by rwa [hs'] at hall)
      | _ => rfl
  | optional n inner ih =>
    intro counts hs e e' h
    rw [read_optional_some, read_optional_some]
    exact ih counts (by cases counts <;> exact hs) e e' h
  | oneOf n alternatives ih =>
    intro counts hs e e' h
    have hall : orderlessAll counts alternatives = true := by cases counts <;> exact hs
    exact read_oneOf_congr fun s hmem => ih s hmem counts (orderless_of_mem hall hmem) e e' h

end Shape

end Statechart
