import Statechart.Proofs.Chains
import Statechart.Proofs.Kept
import Statechart.Proofs.Shape.Parts
import Statechart.Proofs.Value.Fits

/-!
# Provided implementations as they are written

For each category the implementations stand in a table of their own. What is an implementation, and
which tables are accepted, is said in terms of the expression alone. Main statement: provided
implementations are accepted just where each table holds nothing but implementations, and their
names are then the keys of the tables, no more and no fewer.
-/

namespace Statechart

/-! ## 1. Out of sight -/

/-- The expression leads out of the file: to a property of something, or to a name that is not bound
to an expression or a function. A chain of names that is too long to be followed leads nowhere
else. -/
def Scope.OutOfSight (scope : Scope) (x : Expression) : Prop :=
  (∃ inner property, scope.resolve x = .member inner property) ∨
    ∃ name, scope.resolve x = .name name ∧
      (((∀ v, scope.binding? name ≠ some (.value v)) ∧ scope.binding? name ≠ some .function) ∨
        scope.Leads Scope.maxHops x (.name name))

/-- A name that is left when names were followed is not bound to anything that can be seen, or is
as far away as can be followed. -/
theorem Scope.of_follow_eq_name {scope : Scope} {hops : Nat} {x : Expression} {name : String}
    (h : scope.follow hops x = .name name) :
    ((∀ v, scope.binding? name ≠ some (.value v)) ∧ scope.binding? name ≠ some .function) ∨
      scope.Leads hops x (.name name) := by
  rcases scope.leads_or_ends hops x with ⟨e, hleads⟩ | ⟨k, hk, e, hleads, hend⟩
  · obtain rfl := (follow_eq_of_leads hleads).symm.trans h
    exact .inr hleads
  · rcases hend.settled_or_function with hsettled | ⟨_, rfl, hb⟩
    · obtain rfl := (follow_of_settled hleads (Nat.le_of_lt hk) hsettled).symm.trans h
      cases hsettled with
      | expression he => exact absurd rfl (he name)
      | unknown hb | imported hb => exact .inl (by simp [hb])
    · rw [follow_of_function hleads hk hb] at h
      cases h

theorem Scope.outOfSight_of_name {scope : Scope} {x : Expression} {name : String}
    (h : scope.resolve x = .name name) : scope.OutOfSight x :=
  .inr ⟨name, h, of_follow_eq_name h⟩

/-! ## 2. Implementations -/

/-- **The expression is an implementation** of something in a category. An action that chooses must
have branches that are accepted; only a delay may be a number. -/
inductive Context.Implements (cx : Context) (h : Handler) (x : Expression) : Prop
  | function (hx : cx.scope.resolve x = .function)
  | outOfSight (hx : cx.scope.OutOfSight x)
  | created {callee : Expression} {args : List Expression} {name : String}
      (hx : cx.scope.resolve x = .call callee args) (hname : cx.creator? callee = some name)
      (hbranches : name = "choose" →
        Shape.read cx (Shape.maxNesting - 2) (.rule .branches) args.head? ≠ .failed)
  | number {text : String} (hdelay : h = .delay) (hx : cx.scope.resolve x = .number text)
      (htext : ∃ value, Numeral.value? text = some value)

/-- The entries of the table of a category: those of the object that is written last under its
plural. There are none where nothing is written under it. -/
inductive Scope.Table (scope : Scope) (entries : List Entry) (h : Handler) : List Entry → Prop
  | missing (hlast : Entry.last? entries h.plural = none) : Table scope entries h []
  | written {x : Expression} {inner : List Entry} (hlast : Entry.last? entries h.plural = some x)
      (hx : scope.WrittenOut x inner) : Table scope entries h inner

/-- **The expression provides the tables**: it is an object that is written out, and what is written
last under each key of a table is an implementation. -/
structure Context.Provides (cx : Context) (e : Expression) (tables : Handler → List Entry) :
    Prop where
  written : ∃ entries, cx.scope.WrittenOut e entries ∧
    ∀ h, cx.scope.Table entries h (tables h)
  implements : ∀ h key x, Entry.last? (tables h) key = some x → cx.Implements h x

namespace Shape

variable {cx : Context} {n : Nat} {h : Handler} {x e : Expression} {o : Option Expression}
  {v : Value}

/-- The shape of one implementation. -/
def ofHandler : Handler → Shape
  | .delay => .oneOf [.number, .implementation]
  | _ => .implementation

theorem providedShape_eq :
    providedShape = .object (Handler.all.map fun h => (h.plural, .optional (.record (ofHandler h))))
      (some .ignored) := rfl

theorem not_omissible_ofHandler (h : Handler) : ¬ Omissible (ofHandler h) := by
  intro homissible
  cases h with
  | delay =>
    cases homissible with
    | oneOf hs hs' =>
      simp only [List.mem_cons, List.not_mem_nil, or_false] at hs
      rcases hs with rfl | rfl <;> cases hs'
  | _ => cases homissible

/-- A number is accepted if it is one that can be told. -/
theorem read_number_ne_failed_iff :
    read cx (n + 1) .number (some x) ≠ .failed ↔
      ∃ text, cx.scope.resolve x = .number text ∧ ∃ value, Numeral.value? text = some value := by
  rw [read_some (s := .number) trivial]
  cases hx : cx.scope.resolve x with
  | number text =>
    cases hvalue : Numeral.value? text with
    | none => simp [readResolved, hvalue, Reading.ofOption]
    | some value => simp [readResolved, hvalue, Reading.ofOption]
  | _ => simp [readResolved, Reading.ofOption]

/-- **An implementation that is no number is accepted by what it is** at the end of its names. -/
theorem read_implementation_ne_failed_iff :
    read cx (n + 1) .implementation (some x) ≠ .failed ↔
      cx.scope.resolve x = .function ∨ cx.scope.OutOfSight x ∨
        ∃ callee args name, cx.scope.resolve x = .call callee args ∧
          cx.creator? callee = some name ∧
          (name = "choose" → read cx n (.rule .branches) args.head? ≠ .failed) := by
  cases hx : cx.scope.resolve x with
  | call callee args =>
    have hsight : ¬ cx.scope.OutOfSight x := by
      rintro (⟨_, _, hx'⟩ | ⟨_, hx', -⟩)
      · rw [hx] at hx'
        cases hx'
      · rw [hx] at hx'
        cases hx'
    rw [read_implementation_of_call hx, read_creatorCall_ne_failed_iff hx]
    constructor
    · intro h
      obtain ⟨name, hname, hbranches⟩ := h
      exact .inr (.inr ⟨callee, args, name, rfl, hname, hbranches⟩)
    · intro h
      rcases h with hfunction | hout | ⟨_, _, name, hcall, hname, hbranches⟩
      · cases hfunction
      · exact absurd hout hsight
      · obtain ⟨rfl, rfl⟩ := Expression.call.inj hcall
        exact ⟨name, hname, hbranches⟩
  | name name =>
    have hread : read cx (n + 1) .implementation (some x) = .present .function := by
      rw [read_some (s := .implementation) trivial, hx]
      rfl
    simp [hread, Scope.outOfSight_of_name hx]
  | member inner property =>
    have hread : read cx (n + 1) .implementation (some x) = .present .function := by
      rw [read_some (s := .implementation) trivial, hx]
      rfl
    have hsight : cx.scope.OutOfSight x := .inl ⟨inner, property, hx⟩
    simp [hread, hsight]
  | function =>
    have hread : read cx (n + 1) .implementation (some x) = .present .function := by
      rw [read_some (s := .implementation) trivial, hx]
      rfl
    simp [hread]
  | _ =>
    have hsight : ¬ cx.scope.OutOfSight x := by
      simp [Scope.OutOfSight, hx]
    have hread : read cx (n + 1) .implementation (some x) = .failed := by
      rw [read_some (s := .implementation) trivial, hx]
      rfl
    simp [hread, hsight]

/-- **What is accepted in a table are the implementations.** -/
theorem read_ofHandler_ne_failed_iff :
    read cx (maxNesting - 1) (ofHandler h) (some x) ≠ .failed ↔ cx.Implements h x := by
  have himplementation :
      read cx (maxNesting - 1) .implementation (some x) ≠ .failed → cx.Implements h x := by
    intro hread
    rcases read_implementation_ne_failed_iff.1 hread with
      hx | hx | ⟨callee, args, name, hx, hname, hbranches⟩
    · exact .function hx
    · exact .outOfSight hx
    · exact .created hx hname hbranches
  have hread (himplements : cx.Implements h x)
      (hnumber : ∀ text, cx.scope.resolve x ≠ .number text) :
      read cx (maxNesting - 1) .implementation (some x) ≠ .failed := by
    refine read_implementation_ne_failed_iff.2 ?_
    cases himplements with
    | function hx => exact .inl hx
    | outOfSight hx => exact .inr (.inl hx)
    | created hx hname hbranches => exact .inr (.inr ⟨_, _, _, hx, hname, hbranches⟩)
    | number _ hx => exact absurd hx (hnumber _)
  cases h with
  | delay =>
    constructor
    · intro h
      obtain ⟨s, hs, h⟩ := exists_alternative_of_ne_failed h
      simp only [List.mem_cons, List.not_mem_nil, or_false] at hs
      rcases hs with rfl | rfl
      · obtain ⟨text, hx, hvalue⟩ := read_number_ne_failed_iff.1 h
        exact .number rfl hx hvalue
      · exact himplementation h
    · intro himplements
      by_cases hnumber : ∃ text, cx.scope.resolve x = .number text
      · obtain ⟨text, hx⟩ := hnumber
        refine read_oneOf_ne_failed (s := .number) (by simp) (read_number_ne_failed_iff.2 ?_)
        cases himplements with
        | number _ hx' htext => exact ⟨_, hx', htext⟩
        | function hx' | created hx' _ _ =>
          rw [hx] at hx'
          cases hx'
        | outOfSight hx' => simp [Scope.OutOfSight, hx] at hx'
      · refine read_oneOf_ne_failed (s := .implementation) (by simp) (hread himplements ?_)
        exact fun text hx => hnumber ⟨text, hx⟩
  | _ =>
    refine ⟨himplementation, fun himplements => hread himplements fun text hx => ?_⟩
    cases himplements with
    | number hdelay => cases hdelay
    | function hx' | created hx' _ _ =>
      rw [hx] at hx'
      cases hx'
    | outOfSight hx' => simp [Scope.OutOfSight, hx] at hx'

/-! ## 3. Tables -/

/-- A record is accepted if it is written out and each of its last values is. -/
theorem read_record_ne_failed_iff {s : Shape} :
    read cx (n + 1) (.record s) (some x) ≠ .failed ↔
      ∃ inner, cx.scope.WrittenOut x inner ∧
        ∀ key y, Entry.last? inner key = some y → read cx n s (some y) ≠ .failed := by
  constructor
  · intro h
    obtain ⟨-, x', inner, -, -, hxx, hx, -⟩ := exists_object h
    obtain rfl := Option.some.inj hxx
    obtain ⟨⟨w, hw⟩, -, hothers⟩ := (read_object_ne_failed_iff hx).1 h
    obtain ⟨hwritten, -⟩ := Entry.keys_of_keyed? hw
    exact ⟨inner, ⟨hx, hwritten⟩, fun key y hy => (hothers key y hy (by simp)).1 s rfl⟩
  · intro h
    obtain ⟨inner, hx, hread⟩ := h
    refine (read_object_ne_failed_iff hx.resolve).2
      ⟨Entry.exists_keyed? hx.written, List.forall_mem_nil _, fun key y hy _ => ⟨?_, ?_⟩⟩
    · intro s' hs'
      obtain rfl := Option.some.inj hs'
      exact hread key y hy
    · intro hnone
      cases hnone

/-- A table is accepted if it holds implementations. -/
theorem read_table_ne_failed_iff {entries : List Entry} :
    read cx maxNesting (.optional (.record (ofHandler h))) (Entry.last? entries h.plural) ≠
        .failed ↔
      ∃ inner, cx.scope.Table entries h inner ∧
        ∀ key x, Entry.last? inner key = some x → cx.Implements h x := by
  cases hlast : Entry.last? entries h.plural with
  | none =>
    have habsent : read cx maxNesting (.optional (.record (ofHandler h))) none ≠ .failed := by
      intro hfailed
      cases hfailed
    refine ⟨fun _ => ⟨[], .missing hlast, fun key x hx => ?_⟩, fun _ => habsent⟩
    cases hx
  | some x =>
    have hlevels : maxNesting = maxNesting - 1 + 1 := rfl
    rw [read_optional_some, hlevels, read_record_ne_failed_iff]
    simp only [read_ofHandler_ne_failed_iff]
    constructor
    · intro h
      obtain ⟨inner, hx, himplements⟩ := h
      exact ⟨inner, .written hlast hx, himplements⟩
    · intro h
      obtain ⟨inner, htable, himplements⟩ := h
      cases htable with
      | missing hnone =>
        rw [hlast] at hnone
        cases hnone
      | written hlast' hx =>
        obtain rfl := Option.some.inj (hlast.symm.trans hlast')
        exact ⟨inner, hx, himplements⟩

/-- **Provided implementations are accepted just where there are tables of them.** -/
theorem readProvided_ne_failed_iff :
    readProvided cx (some e) ≠ .failed ↔ ∃ tables, cx.Provides e tables := by
  have hfields (entries : List Entry) :
      (∀ field ∈ Handler.all.map fun h => (h.plural, Shape.optional (.record (ofHandler h))),
        read cx maxNesting field.2 (Entry.last? entries field.1) ≠ .failed) ↔
      ∀ h, ∃ inner, cx.scope.Table entries h inner ∧
        ∀ key x, Entry.last? inner key = some x → cx.Implements h x := by
    rw [List.forall_mem_map]
    exact ⟨fun hread h => read_table_ne_failed_iff.1 (hread h h.mem_all),
      fun htables h _ => read_table_ne_failed_iff.2 (htables h)⟩
  rw [readProvided, read_optional_some, providedShape_eq]
  constructor
  · intro h
    obtain ⟨-, x, entries, -, -, hxx, hx, -⟩ := exists_object h
    obtain rfl := Option.some.inj hxx
    obtain ⟨⟨w, hw⟩, hread, -⟩ := (read_object_ne_failed_iff hx).1 h
    obtain ⟨hwritten, -⟩ := Entry.keys_of_keyed? hw
    obtain ⟨tables, htables⟩ := Classical.axiomOfChoice ((hfields entries).1 hread)
    exact ⟨tables, ⟨entries, ⟨hx, hwritten⟩, fun h => (htables h).1⟩, fun h => (htables h).2⟩
  · intro h
    obtain ⟨tables, ⟨entries, hx, htables⟩, himplements⟩ := h
    refine (read_object_ne_failed_iff hx.resolve).2 ⟨Entry.exists_keyed? hx.written,
      (hfields entries).2 fun h => ⟨tables h, htables h, himplements h⟩,
      fun key y _ _ => ⟨fun s hs => ?_, fun hnone => ?_⟩⟩
    · obtain rfl := Option.some.inj hs
      intro hfailed
      cases hfailed
    · cases hnone

end Shape

/-! ## 4. Names -/

namespace Provided

/-- Names that are all new go to the end. -/
theorem foldl_addName {keys names : List String} (h : (names ++ keys).Nodup) :
    keys.foldl (fun names name => addName name names) names = names ++ keys := by
  have hnames : names.eraseDups = names := eraseDups_of_nodup (List.nodup_append.1 h).1
  have hfold := foldl_addName_eraseDups names keys
  rw [hnames, eraseDups_of_nodup h] at hfold
  exact hfold

theorem names_foldl_insert_self (keys : List String) (p : Provided) (h : Handler) :
    (keys.foldl (fun p name => p.insert h name) p).names h =
      keys.foldl (fun names name => addName name names) (p.names h) := by
  induction keys generalizing p with
  | nil => rfl
  | cons key rest ih => rw [List.foldl_cons, ih, names_insert_self, List.foldl_cons]

theorem names_foldl_insert_ne {h h' : Handler} (hne : h' ≠ h) (keys : List String)
    (p : Provided) : (keys.foldl (fun p name => p.insert h name) p).names h' = p.names h' := by
  induction keys generalizing p with
  | nil => rfl
  | cons key rest ih => rw [List.foldl_cons, ih, names_insert_ne hne]

end Provided

namespace Value

variable {entries : Assoc Value} {p p' : Provided} {h : Handler}

/-- The names that an object has under the plural of a category. -/
def namesIn (entries : Assoc Value) (h : Handler) : List String :=
  match entries.lookup h.plural with
  | some (.object values) => Assoc.keys values
  | _ => []

theorem eq_of_readProvidedIn (hread : readProvidedIn entries p h = .ok p') :
    p' = (namesIn entries h).foldl (fun p name => p.insert h name) p := by
  unfold readProvidedIn at hread
  unfold namesIn
  cases hlookup : entries.lookup h.plural with
  | none =>
    rw [hlookup] at hread
    exact (Except.ok.inj hread).symm
  | some v =>
    rw [hlookup] at hread
    cases v with
    | object values => exact (Except.ok.inj hread).symm
    | _ => cases hread

/-- One category after the other is provided, and none of the others is touched. -/
theorem names_of_foldlM {hs : List Handler} (hd : hs.Nodup)
    (hread : hs.foldlM (readProvidedIn entries) p = .ok p') :
    (∀ h ∈ hs, (namesIn entries h).Nodup → p.names h = [] → p'.names h = namesIn entries h) ∧
      ∀ h ∉ hs, p'.names h = p.names h := by
  induction hs generalizing p with
  | nil =>
    obtain rfl := Except.ok.inj hread
    exact ⟨List.forall_mem_nil _, fun _ _ => rfl⟩
  | cons first rest ih =>
    rw [List.foldlM_cons] at hread
    obtain ⟨p₁, hfirst, hread⟩ := Outcome.bind_eq_ok.1 hread
    obtain rfl := eq_of_readProvidedIn hfirst
    obtain ⟨hfirst, hrest⟩ := List.nodup_cons.1 hd
    obtain ⟨hmem, hother⟩ := ih hrest hread
    refine ⟨List.forall_mem_cons.2 ⟨fun hnodup hempty => ?_, fun h hh hnodup hempty => ?_⟩,
      fun h hh => ?_⟩
    · rw [hother first hfirst, Provided.names_foldl_insert_self, hempty]
      exact Provided.foldl_addName hnodup
    · have hne : h ≠ first := fun heq => hfirst (heq ▸ hh)
      exact hmem h hh hnodup (by rw [Provided.names_foldl_insert_ne hne, hempty])
    · obtain ⟨hne, hh⟩ := List.ne_and_not_mem_of_not_mem_cons hh
      rw [hother h hh, Provided.names_foldl_insert_ne hne]

/-- **The names of a category are those that stand under its plural.** -/
theorem names_of_readProvided (hread : readProvided (.object entries) = .ok p)
    (hd : (namesIn entries h).Nodup) : p.names h = namesIn entries h := by
  have hfold : Handler.all.foldlM (readProvidedIn entries) {} = .ok p := hread
  refine (names_of_foldlM (by decide) hfold).1 h h.mem_all hd ?_
  cases h <;> rfl

end Value

namespace Shape

variable {cx : Context} {e : Expression} {v : Value}

/-- The value of a table has the keys of the table. -/
theorem namesIn_of_read {entries inner : List Entry} {vs : Assoc Value} {h : Handler}
    (htable : cx.scope.Table entries h inner)
    (hread : read cx maxNesting (.optional (.record (ofHandler h)))
      (Entry.last? entries h.plural) = .ofField (vs.lookup h.plural)) :
    Value.namesIn vs h = Entry.keys inner := by
  unfold Value.namesIn
  rcases exists_of_read_optional hread with ⟨hlast, hlookup⟩ | ⟨x, hlast, hread⟩
  · rw [hlookup]
    cases htable with
    | missing => rfl
    | written hlast' =>
      rw [hlast] at hlast'
      cases hlast'
  · obtain ⟨-, inner', ws, -, hx, hlookup, hkeys, -⟩ :=
      exists_written_record (not_omissible_ofHandler h) hread
    rw [hlookup]
    cases htable with
    | missing hnone =>
      rw [hlast] at hnone
      cases hnone
    | written hlast' hx' =>
      obtain rfl := Option.some.inj (hlast.symm.trans hlast')
      obtain rfl := Expression.object.inj (hx.resolve.symm.trans hx'.resolve)
      exact hkeys

/-- The value of provided implementations has the keys of the tables. -/
theorem names_of_provides {tables : Handler → List Entry} (hprovides : cx.Provides e tables)
    (hread : readProvided cx (some e) = .present v) :
    ∃ p, v.readProvided = .ok p ∧ ∀ h, p.names h = Entry.keys (tables h) := by
  obtain ⟨p, hp⟩ := Value.readProvided_of_fits (fits_of_readProvided hread)
  rw [readProvided, read_optional_some, providedShape_eq] at hread
  obtain ⟨m, x, entries, v', hm, hxx, hx, hv, hpresent⟩ :=
    exists_object (Reading.ne_failed_of_eq_ofField (v := some v) hread)
  obtain rfl := Nat.succ.inj hm
  obtain rfl := Option.some.inj hxx
  obtain rfl := Reading.present.inj (hread.symm.trans hpresent)
  obtain ⟨w, hw, known, hknown, rest, hrest, rfl⟩ := readObject_eq_some_iff.1 hv
  obtain ⟨-, -, hlast⟩ := Entry.keys_of_keyed? hw
  -- nothing is kept of what stands under other keys
  obtain rfl : rest = [] := by
    obtain ⟨-, rfl⟩ := Reading.collect_eq_some_iff.1 hrest
    exact List.filterMap_eq_nil_iff.2 fun _ _ => rfl
  rw [List.append_nil] at hp
  refine ⟨p, by rwa [List.append_nil], fun h => ?_⟩
  obtain ⟨entries', hx', htables⟩ := hprovides.written
  obtain rfl := Expression.object.inj (hx.symm.trans hx'.resolve)
  have hfield : (h.plural, Shape.optional (.record (ofHandler h))) ∈
      Handler.all.map fun h => (h.plural, Shape.optional (.record (ofHandler h))) :=
    List.mem_map_of_mem h.mem_all
  have hlookup := lookup_of_readFields (by decide) hknown hfield
  rw [hlast] at hlookup
  have hnames := namesIn_of_read (htables h) hlookup
  rw [← hnames]
  refine Value.names_of_readProvided hp ?_
  rw [hnames]
  exact nodup_eraseDups _

end Shape

/-! ## 5. All tables -/

/-- **The provided names are the keys of the tables.** Provided implementations that are accepted
are described, and the names of each category are the distinct keys of its table in the order in
which they first come; what is written last under each key is an implementation. They are refused
just where there are no such tables: where one of them is no object that is written out, or where
something else is written last under one of its keys. -/
theorem provided_names_are_keys (cx : Context) (e : Expression) :
    (∀ v, Shape.readProvided cx (some e) = .present v →
      ∃ tables p, cx.Provides e tables ∧ v.readProvided = .ok p ∧
        ∀ h, p.names h = Entry.keys (tables h)) ∧
    (Shape.readProvided cx (some e) = .failed ↔ ∀ tables, ¬ cx.Provides e tables) ∧
      Shape.readProvided cx (some e) ≠ .absent := by
  refine ⟨fun v hread => ?_, ?_, fun habsent => ?_⟩
  · obtain ⟨tables, htables⟩ := Shape.readProvided_ne_failed_iff.1
      (by simp [hread] : Shape.readProvided cx (some e) ≠ .failed)
    obtain ⟨p, hp, hnames⟩ := Shape.names_of_provides htables hread
    exact ⟨tables, p, htables, hp, hnames⟩
  · rw [← not_exists, ← Shape.readProvided_ne_failed_iff, not_not]
  · rw [Shape.readProvided, Shape.read_optional_some, Shape.providedShape_eq] at habsent
    obtain ⟨_, _, _, _, -, -, -, -, hpresent⟩ :=
      Shape.exists_object (Reading.ne_failed_of_eq_ofField (v := none) habsent)
    cases habsent.symm.trans hpresent

/-- A table under the name of a name, with a key that is written twice and a choice, and one of
delays, with a number and an import; what is written first under a repeated key does not count. -/
theorem provided_names_of_tables :
    let table := Expression.object [.keyed "a" .null,
      .keyed "b" (.call (.name "choose") [.array [.object [.keyed "cond" (.string "g")]]]),
      .keyed "a" .function, .keyed "c" (.member (.name "module") "c")]
    let cx : Context := ⟨[("all", .value (.name "table")), ("table", .value table),
      ("later", .imported "./later" .default), ("choose", .imported "xstate" (.named "choose"))], {}⟩
    let e := Expression.object [.keyed "actions" .null, .keyed "delays" (.object
        [.keyed "D" (.number "0"), .keyed "E" (.name "later")]),
      .keyed "actions" (.name "all"), .keyed "comment" .null]
    let v := Value.object [
      ("actions", .object [("a", .function), ("b", .object [("type", .string "xstate.choose"),
        ("conds", .array [.object [("cond", .string "g")]])]), ("c", .function)]),
      ("delays", .object [("D", .number ⟨false, 0⟩), ("E", .function)])]
    Shape.readProvided cx (some e) = .present v ∧ ∃ tables p, cx.Provides e tables ∧
      v.readProvided = .ok p ∧ (∀ h, p.names h = Entry.keys (tables h)) ∧
      p = { actions := ["a", "b", "c"], delays := ["D", "E"] } := by
  intro table cx e v
  have hread : Shape.readProvided cx (some e) = .present v := by rfl
  obtain ⟨tables, p, hprovides, hp, hnames⟩ := (provided_names_are_keys cx e).1 v hread
  have hnamed : v.readProvided = .ok { actions := ["a", "b", "c"], delays := ["D", "E"] } := by rfl
  exact ⟨hread, tables, p, hprovides, hp, hnames, Except.ok.inj (hp.symm.trans hnamed)⟩

end Statechart
