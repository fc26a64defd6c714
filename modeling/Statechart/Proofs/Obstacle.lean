import Statechart.Obstacle
import Statechart.Proofs.Entries
import Statechart.Proofs.Shape.Forms

/-!
# Obstacles in what is accepted

The search for obstacles looks into every part of an expression, and reading passes over some: over
keys that have no bearing, over values that are written again and over most arguments of creators of
actions. Main statement: an obstacle in an accepted expression stands in a part that is passed over,
and one is found as soon as such a part has any.
-/

namespace Statechart

/-! ## 1. The search -/

namespace Obstacle

variable {cx : Context} {allow : Bool} {n : Nat} {x : Expression} {o : Obstacle}

/-- An obstacle in an object that is written out is one in the value of an entry. -/
theorem exists_of_findWithin_object {entries : List Entry}
    (hx : cx.scope.resolve x = .object entries) (hentries : Entry.AllWritten entries)
    (h : findWithin cx allow (n + 1) x = some o) :
    ∃ key y o', .keyed key y ∈ entries ∧ findWithin cx allow n y = some o' ∧ o = o'.under key := by
  rw [findWithin, hx] at h
  obtain ⟨entry, hentry, hfound⟩ := List.exists_of_findSome?_eq_some h
  obtain ⟨key, y, rfl⟩ := hentries entry hentry
  obtain ⟨o', ho', rfl⟩ := Option.map_eq_some_iff.1 hfound
  exact ⟨key, y, o', hentry, ho', rfl⟩

theorem exists_findWithin_object {entries : List Entry} {key : String} {y : Expression}
    (hx : cx.scope.resolve x = .object entries) (hy : .keyed key y ∈ entries)
    (h : ∃ o, findWithin cx allow n y = some o) : ∃ o, findWithin cx allow (n + 1) x = some o := by
  obtain ⟨o, ho⟩ := h
  rw [findWithin, hx, ← Option.isSome_iff_exists, List.isSome_findSome?]
  refine List.any_eq_true.2 ⟨_, hy, ?_⟩
  simp [ho]

theorem exists_of_findWithin_array {items : List Expression}
    (hx : cx.scope.resolve x = .array items) (h : findWithin cx allow (n + 1) x = some o) :
    ∃ (i : Nat) (y : Expression) (o' : Obstacle), items[i]? = some y ∧
      findWithin cx allow n y = some o' ∧ o = o'.under (toString i) := by
  rw [findWithin, hx] at h
  obtain ⟨⟨y, i⟩, hy, hfound⟩ := List.exists_of_findSome?_eq_some h
  obtain ⟨o', ho', rfl⟩ := Option.map_eq_some_iff.1 hfound
  exact ⟨i, y, o', List.mem_zipIdx_iff_getElem?.1 hy, ho', rfl⟩

theorem exists_findWithin_array {items : List Expression} {i : Nat} {y : Expression}
    (hx : cx.scope.resolve x = .array items) (hy : items[i]? = some y)
    (h : ∃ o, findWithin cx allow n y = some o) : ∃ o, findWithin cx allow (n + 1) x = some o := by
  obtain ⟨o, ho⟩ := h
  rw [findWithin, hx, ← Option.isSome_iff_exists, List.isSome_findSome?]
  refine List.any_eq_true.2 ⟨(y, i), ?_, ?_⟩
  · exact List.mem_zipIdx_iff_getElem?.2 hy
  · simp [ho]

/-- An obstacle in a call to a creator of actions is one in an argument. -/
theorem exists_of_findWithin_call {callee : Expression} {args : List Expression} {name : String}
    (hx : cx.scope.resolve x = .call callee args) (hname : cx.creator? callee = some name)
    (h : findWithin cx allow (n + 1) x = some o) :
    ∃ (i : Nat) (y : Expression), args[i]? = some y ∧ findWithin cx allow n y = some o := by
  rw [findWithin, hx] at h
  simp only [hname] at h
  obtain ⟨y, hy, hfound⟩ := List.exists_of_findSome?_eq_some h
  obtain ⟨i, hi⟩ := List.mem_iff_getElem?.1 hy
  exact ⟨i, y, hi, hfound⟩

theorem exists_findWithin_call {callee : Expression} {args : List Expression} {name : String}
    {i : Nat} {y : Expression} (hx : cx.scope.resolve x = .call callee args)
    (hname : cx.creator? callee = some name) (hy : args[i]? = some y)
    (h : ∃ o, findWithin cx allow n y = some o) : ∃ o, findWithin cx allow (n + 1) x = some o := by
  obtain ⟨o, ho⟩ := h
  rw [findWithin, hx]
  simp only [hname]
  rw [← Option.isSome_iff_exists, List.isSome_findSome?]
  refine List.any_eq_true.2 ⟨y, List.mem_of_getElem? hy, ?_⟩
  simp [ho]

end Obstacle

/-! ## 2. What is passed over -/

namespace Shape

/-- Within so many levels, reading against the shape passes over the part in which the obstacle
stands. -/
inductive PassesOver (cx : Context) (allow : Bool) : Nat → Shape → Expression → Obstacle → Prop
  /-- Nothing is kept of the expression. -/
  | ignored {n : Nat} {x : Expression} {o : Obstacle}
      (h : Obstacle.findWithin cx allow n x = some o) : PassesOver cx allow n .ignored x o
  /-- The value is written again under the same key. -/
  | shadowed {n : Nat} {fields : List (String × Shape)} {others : Option Shape}
      {x y : Expression} {o : Obstacle} {before after : List Entry} {key : String}
      (hx : cx.scope.resolve x = .object (before ++ .keyed key y :: after))
      (hkey : key ∈ Entry.keys after) (h : Obstacle.findWithin cx allow n y = some o) :
      PassesOver cx allow (n + 1) (.object fields others) x (o.under key)
  /-- The key means nothing. -/
  | unknown {n : Nat} {fields : List (String × Shape)} {x y : Expression} {o : Obstacle}
      {entries : List Entry} {key : String} (hx : cx.scope.resolve x = .object entries)
      (hkey : key ∉ Assoc.keys fields) (hy : Entry.last? entries key = some y)
      (h : Obstacle.findWithin cx allow n y = some o) :
      PassesOver cx allow (n + 1) (.object fields none) x (o.under key)
  /-- The argument has no bearing on the action: it is none of the branches of a choice. -/
  | argument {n : Nat} {x y callee : Expression} {args : List Expression} {name : String} {i : Nat}
      {o : Obstacle} (hx : cx.scope.resolve x = .call callee args)
      (hname : cx.creator? callee = some name) (hy : args[i]? = some y)
      (hi : name ≠ "choose" ∨ i ≠ 0) (h : Obstacle.findWithin cx allow n y = some o) :
      PassesOver cx allow (n + 1) .creatorCall x o
  /-- The implementation stands elsewhere. -/
  | named {n : Nat} {x : Expression} {o : Obstacle} {name : String}
      (hx : cx.scope.resolve x = .name name) (h : Obstacle.findWithin cx allow n x = some o) :
      PassesOver cx allow n .implementation x o
  | member {n : Nat} {x inner : Expression} {o : Obstacle} {property : String}
      (hx : cx.scope.resolve x = .member inner property)
      (h : Obstacle.findWithin cx allow n x = some o) : PassesOver cx allow n .implementation x o
  | field {n : Nat} {fields : List (String × Shape)} {others : Option Shape} {s : Shape}
      {x y : Expression} {o : Obstacle} {entries : List Entry} {key : String}
      (hx : cx.scope.resolve x = .object entries) (hs : (key, s) ∈ fields)
      (hy : Entry.last? entries key = some y) (h : PassesOver cx allow n s y o) :
      PassesOver cx allow (n + 1) (.object fields others) x (o.under key)
  | other {n : Nat} {fields : List (String × Shape)} {s : Shape} {x y : Expression} {o : Obstacle}
      {entries : List Entry} {key : String} (hx : cx.scope.resolve x = .object entries)
      (hkey : key ∉ Assoc.keys fields) (hy : Entry.last? entries key = some y)
      (h : PassesOver cx allow n s y o) :
      PassesOver cx allow (n + 1) (.object fields (some s)) x (o.under key)
  | item {n : Nat} {s : Shape} {x y : Expression} {o : Obstacle} {items : List Expression} {i : Nat}
      (hx : cx.scope.resolve x = .array items) (hy : items[i]? = some y)
      (h : PassesOver cx allow n s y o) :
      PassesOver cx allow (n + 1) (.array s) x (o.under (toString i))
  | branches {n : Nat} {x y callee : Expression} {args : List Expression} {o : Obstacle}
      (hx : cx.scope.resolve x = .call callee args) (hname : cx.creator? callee = some "choose")
      (hy : args[0]? = some y) (h : PassesOver cx allow n (.rule .branches) y o) :
      PassesOver cx allow (n + 1) .creatorCall x o
  | created {n : Nat} {x : Expression} {o : Obstacle} (h : PassesOver cx allow n .creatorCall x o) :
      PassesOver cx allow n .implementation x o
  /-- The alternative is the one that the expression is read against. -/
  | oneOf {n : Nat} {alternatives : List Shape} {s : Shape} {x : Expression} {o : Obstacle}
      (hs : s ∈ alternatives) (hread : read cx n s (some x) ≠ .failed)
      (h : PassesOver cx allow n s x o) : PassesOver cx allow n (.oneOf alternatives) x o
  | optional {n : Nat} {inner : Shape} {x : Expression} {o : Obstacle}
      (h : PassesOver cx allow n inner x o) : PassesOver cx allow n (.optional inner) x o
  | rule {n : Nat} {r : Rule} {x : Expression} {o : Obstacle}
      (h : PassesOver cx allow n (ofRule r) x o) : PassesOver cx allow n (.rule r) x o

variable {cx : Context} {allow : Bool} {n : Nat} {s : Shape} {x : Expression} {o : Obstacle}

/-- **A part that is passed over is searched**: where it has an obstacle, one is found. -/
theorem PassesOver.exists_find (h : PassesOver cx allow n s x o) :
    ∃ o, Obstacle.findWithin cx allow n x = some o := by
  induction h with
  | ignored h | named _ h | member _ h => exact ⟨_, h⟩
  | shadowed hx _ h =>
    exact Obstacle.exists_findWithin_object hx (List.mem_append_right _ List.mem_cons_self) ⟨_, h⟩
  | unknown hx _ hy h => exact Obstacle.exists_findWithin_object hx (Entry.mem_of_last? hy) ⟨_, h⟩
  | argument hx hname hy _ h => exact Obstacle.exists_findWithin_call hx hname hy ⟨_, h⟩
  | field hx _ hy _ ih => exact Obstacle.exists_findWithin_object hx (Entry.mem_of_last? hy) ih
  | other hx _ hy _ ih => exact Obstacle.exists_findWithin_object hx (Entry.mem_of_last? hy) ih
  | item hx hy _ ih => exact Obstacle.exists_findWithin_array hx hy ih
  | branches hx hname hy _ ih => exact Obstacle.exists_findWithin_call hx hname hy ih
  | created _ ih | oneOf _ _ _ ih | optional _ ih | rule _ ih => exact ih

/-! ## 3. What is accepted -/

/-- There is no obstacle in plain data. -/
theorem find_eq_none_of_plain (hs : Plain s) (h : read cx n s (some x) ≠ .failed) :
    Obstacle.findWithin cx allow n x = none := by
  obtain ⟨m, rfl⟩ := exists_level h
  have hadmits := admits_of_read h
  rw [Option.map_some] at hadmits
  rw [Obstacle.findWithin]
  generalize cx.scope.resolve x = y at hadmits ⊢
  rcases hs with rfl | rfl | rfl | rfl | ⟨allowed, rfl⟩ <;> cases hadmits <;> rfl

/-- An obstacle in a call that is accepted stands in an argument without bearing, or in a branch. -/
theorem passesOver_of_call {callee : Expression} {args : List Expression} {v : Value}
    (hbranches : ∀ y o, read cx n (.rule .branches) (some y) ≠ .failed →
      Obstacle.findWithin cx allow n y = some o → PassesOver cx allow n (.rule .branches) y o)
    (hx : cx.scope.resolve x = .call callee args)
    (hv : readCreatorCall (read cx n) cx (.call callee args) = some v)
    (ho : Obstacle.findWithin cx allow (n + 1) x = some o) :
    PassesOver cx allow (n + 1) .creatorCall x o := by
  unfold readCreatorCall at hv
  cases hname : cx.creator? callee with
  | none =>
    simp only [hname] at hv
    cases hv
  | some name =>
    obtain ⟨i, y, hy, hfound⟩ := Obstacle.exists_of_findWithin_call hx hname ho
    by_cases hi : name ≠ "choose" ∨ i ≠ 0
    · exact .argument hx hname hy hi hfound
    · obtain ⟨rfl, rfl⟩ : name = "choose" ∧ i = 0 := by
        simpa only [not_or, Classical.not_not] using hi
      refine .branches hx hname hy (hbranches y o (fun hfailed => ?_) hfound)
      rw [← List.head?_eq_getElem?] at hy
      simp only [hname, if_true, hy, hfailed] at hv
      cases hv

/-- An obstacle in an object that is accepted stands in a value that is written again, under a key
that means nothing or in a value that is read. -/
theorem passesOver_of_object {fields : List (String × Shape)} {others : Option Shape}
    (hfields : ∀ field ∈ fields, ∀ y o, read cx n field.2 (some y) ≠ .failed →
      Obstacle.findWithin cx allow n y = some o → PassesOver cx allow n field.2 y o)
    (hothers : ∀ s, others = some s → ∀ y o, read cx n s (some y) ≠ .failed →
      Obstacle.findWithin cx allow n y = some o → PassesOver cx allow n s y o)
    {entries : List Entry} (hx : cx.scope.resolve x = .object entries) {v : Value}
    (hv : readObject (read cx n) cx.settings.mode fields others entries = some v)
    (ho : Obstacle.findWithin cx allow (n + 1) x = some o) :
    PassesOver cx allow (n + 1) (.object fields others) x o := by
  obtain ⟨w, hw, known, hknown, rest, hrest, -⟩ := readObject_eq_some_iff.1 hv
  obtain ⟨hwritten, -, hlast⟩ := Entry.keys_of_keyed? hw
  obtain ⟨key, y, o', hmem, hfound, rfl⟩ := Obstacle.exists_of_findWithin_object hx hwritten ho
  obtain ⟨before, after, rfl⟩ := List.append_of_mem hmem
  by_cases hafter : key ∈ Entry.keys after
  · exact .shadowed hx hafter hfound
  · have hy : Entry.last? (before ++ .keyed key y :: after) key = some y :=
      Entry.last?_of_split hafter
    have hlookup : w.lookup key = some y := by rw [hlast, hy]
    by_cases hkey : key ∈ Assoc.keys fields
    · obtain ⟨⟨key, s⟩, hs, rfl⟩ := List.mem_map.1 hkey
      have hread := (Reading.collect_eq_some_iff.1 hknown).1 _ hs
      rw [hlookup] at hread
      exact .field hx hs hy (hfields _ hs y o' hread hfound)
    · cases others with
      | none => exact .unknown hx hkey hy hfound
      | some s =>
        have hany : fields.any (fun field => field.1 == key) = false := by
          refine List.any_eq_false.2 fun field hf he => hkey ?_
          rw [← eq_of_beq he]
          exact List.mem_map_of_mem hf
        have hmem : (key, y) ∈ w.filter fun entry => !fields.any fun field => field.1 == entry.1 :=
          List.mem_filter.2 ⟨Assoc.mem_of_lookup hlookup, by rw [hany]; rfl⟩
        have hread := (Reading.collect_eq_some_iff.1 hrest).1 _ hmem
        exact .other hx hkey hy (hothers s rfl y o' hread hfound)

/-- **An obstacle in what is accepted stands in a part that is passed over.** -/
theorem passesOver_of_find (h : read cx n s (some x) ≠ .failed)
    (ho : Obstacle.findWithin cx allow n x = some o) : PassesOver cx allow n s x o := by
  induction n, s using level_induction generalizing x o with
  | plain n s hs =>
    rw [find_eq_none_of_plain hs h] at ho
    cases ho
  | ignored n => exact .ignored ho
  | creatorCall n ih =>
    obtain ⟨m, _, callee, args, v, rfl, hxx, hx, hv, -⟩ := exists_creatorCall h
    obtain rfl := Option.some.inj hxx
    exact passesOver_of_call (fun y o => ih m (Nat.lt_succ_self m)) hx hv ho
  | implementation n ih =>
    obtain ⟨m, _, v, rfl, hxx, hv, -⟩ := exists_resolved h trivial
    obtain rfl := Option.some.inj hxx
    cases hx : cx.scope.resolve x with
    | name name => exact .named hx ho
    | member inner property => exact .member hx ho
    | call callee args =>
      rw [hx] at hv
      exact .created (passesOver_of_call (fun y o => ih m (Nat.lt_succ_self m)) hx hv ho)
    | function =>
      rw [Obstacle.findWithin, hx] at ho
      cases ho
    | _ =>
      rw [hx] at hv
      cases hv
  | rule n r ih =>
    rw [read_rule_eq] at h
    exact .rule (ih h ho)
  | array n element ih =>
    obtain ⟨m, _, items, vs, rfl, hxx, hx, hvs, -⟩ := exists_array h
    obtain rfl := Option.some.inj hxx
    obtain ⟨i, y, o', hy, hfound, rfl⟩ := Obstacle.exists_of_findWithin_array hx ho
    have hread := (Reading.collect_eq_some_iff.1 hvs).1 y (List.mem_of_getElem? hy)
    exact .item hx hy (ih m (Nat.lt_succ_self m) hread hfound)
  | object n fields others hfields hothers =>
    obtain ⟨m, _, entries, v, rfl, hxx, hx, hv, -⟩ := exists_object h
    obtain rfl := Option.some.inj hxx
    have hm : m < m + 1 := Nat.lt_succ_self m
    exact passesOver_of_object (fun field hf y o => hfields field hf m hm)
      (fun s hs y o => hothers s hs m hm) hx hv ho
  | optional n inner ih =>
    rw [read_optional_some] at h
    exact .optional (ih h ho)
  | oneOf n alternatives ih =>
    obtain ⟨s, hs, hread⟩ := exists_alternative_of_ne_failed h
    exact .oneOf hs hread (ih s hs hread ho)

theorem find_eq_none_iff (h : read cx n s (some x) ≠ .failed) :
    Obstacle.findWithin cx allow n x = none ↔ ∀ o, ¬ PassesOver cx allow n s x o := by
  constructor
  · intro hnone o ho
    obtain ⟨o', ho'⟩ := ho.exists_find
    rw [hnone] at ho'
    cases ho'
  · intro hnone
    refine Option.eq_none_iff_forall_ne_some.2 fun o ho => hnone o ?_
    exact passesOver_of_find h ho

end Shape

/-! ## 4. Definitions and provided implementations -/

/-- **Obstacles in what is accepted are passed over.** The obstacle that is found in an accepted
definition stands in a part that reading passes over, and none is found just where no such part has
any. So it is with provided implementations, in which references are no obstacles. -/
theorem obstacles_passed_over (cx : Context) :
    (∀ (e : Expression) (v : Value), Shape.readDefinition cx e = .present v →
      (∀ o, Obstacle.find? cx false e = some o →
        Shape.PassesOver cx false (Shape.maxNesting + 1) (.rule .state) e o) ∧
      (Obstacle.find? cx false e = none ↔
        ∀ o, ¬ Shape.PassesOver cx false (Shape.maxNesting + 1) (.rule .state) e o)) ∧
    ∀ (e : Expression) (v : Value), Shape.readProvided cx (some e) = .present v →
      (∀ o, Obstacle.find? cx true e = some o →
        Shape.PassesOver cx true (Shape.maxNesting + 1) Shape.providedShape e o) ∧
      (Obstacle.find? cx true e = none ↔
        ∀ o, ¬ Shape.PassesOver cx true (Shape.maxNesting + 1) Shape.providedShape e o) := by
  refine ⟨fun e v h => ?_, fun e v h => ?_⟩
  · have hread : Shape.read cx (Shape.maxNesting + 1) (.rule .state) (some e) ≠ .failed := by
      intro hfailed
      cases hfailed.symm.trans h
    exact ⟨fun o ho => Shape.passesOver_of_find hread ho, Shape.find_eq_none_iff hread⟩
  · have hread : Shape.read cx (Shape.maxNesting + 1) Shape.providedShape (some e) ≠ .failed := by
      intro hfailed
      rw [← Shape.read_optional_some] at hfailed
      cases hfailed.symm.trans h
    exact ⟨fun o ho => Shape.passesOver_of_find hread ho, Shape.find_eq_none_iff hread⟩

/-- A reference that leads out of sight is found in the metadata of a definition that is accepted,
and an unknown call in the argument of an action. -/
theorem obstacle_in_metadata :
    let cx : Context := ⟨[("assign", .imported "xstate" (.named "assign"))], {}⟩
    let tree := Expression.object [.keyed "meta" (.name "foo")]
    let provided := Expression.object [.keyed "actions" (.object
      [.keyed "add" (.call (.name "assign") [.call (.name "next") []])])]
    let reference : Obstacle := ⟨["meta"], .reference "foo"⟩
    let call : Obstacle := ⟨["actions", "add"], .call "next"⟩
    Shape.readDefinition cx tree = .present (.object []) ∧
      Obstacle.find? cx false tree = some reference ∧
      Shape.PassesOver cx false (Shape.maxNesting + 1) (.rule .state) tree reference ∧
      Shape.readProvided cx (some provided) = .present (.object [("actions", .object
        [("add", .object [("type", .string "xstate.assign")])])]) ∧
      Obstacle.find? cx true provided = some call ∧
      Shape.PassesOver cx true (Shape.maxNesting + 1) Shape.providedShape provided call := by
  intro cx tree provided reference call
  have htree : Shape.readDefinition cx tree = .present (.object []) := by rfl
  have hprovided : Shape.readProvided cx (some provided) = .present (.object [("actions", .object
      [("add", .object [("type", .string "xstate.assign")])])]) := by rfl
  have hreference : Obstacle.find? cx false tree = some reference := by rfl
  have hcall : Obstacle.find? cx true provided = some call := by rfl
  exact ⟨htree, hreference, ((obstacles_passed_over cx).1 tree _ htree).1 _ hreference,
    hprovided, hcall, ((obstacles_passed_over cx).2 provided _ hprovided).1 _ hcall⟩

end Statechart
