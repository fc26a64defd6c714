import Statechart.Proofs.Shape.Reordered
import Statechart.Proofs.Value.OwnFields

/-!
# Definitions in any order of fields

A reader that sees no order gives the same for a value and for the value with the fields of one
object permuted. Main statement: neither reading a definition nor describing its value depends on
the order in which fields are written.
-/

namespace Statechart

namespace Value

/-! ## 1. Readers that see no order -/

/-- What is read of the first value is read of the second. -/
def Alike {α : Type} (f : Value → Read α) (v v' : Value) : Prop := ∀ a, f v = .ok a → f v' = .ok a

/-- The values are both objects or both arrays. -/
def SameForm (v v' : Value) : Prop :=
  (∃ entries entries', v = .object entries ∧ v' = .object entries') ∨
    ∃ items items', v = .array items ∧ v' = .array items'

/-- **The values are read alike where the order of fields does not count.** -/
structure FieldAlike (v v' : Value) : Prop where
  form : SameForm v v'
  targets : Alike readTargets v v'
  ref : Alike readRef v v'
  refs : Alike (readEach readRef) v v'
  action : Alike readAction v v'
  actions : Alike readActions v v'
  branch : Alike readBranch v v'
  branches : Alike readBranches v v'
  transition : Alike readTransition v v'
  transitions : Alike readTransitions v v'
  invoke : Alike readInvoke v v'
  invokes : Alike (readEach readInvoke) v v'
  tree : Alike readTree v v'

/-- **The values are read alike where the order of entries counts.** -/
structure RecordAlike (v v' : Value) : Prop where
  children : Alike readChildren v v'
  transitionMap : Alike readTransitionMap v v'

/-- The values are read alike where the order counts or not, as said. -/
def ReadAlike : (counts : Bool) → Value → Value → Prop
  | false => FieldAlike
  | true => RecordAlike

section Readers

variable {α β : Type} {f : Value → Read α} {v v' : Value}

theorem Alike.map (h : Alike f v v') (g : α → β) : Alike (fun v => (f v).map g) v v' := by
  intro b hb
  obtain ⟨a, ha, hb⟩ := Outcome.map_eq_ok.1 hb
  exact Outcome.map_eq_ok.2 ⟨a, h a ha, hb⟩

theorem Alike.bind (h : Alike f v v') (g : α → Read β) : Alike (fun v => f v >>= g) v v' := by
  intro b hb
  obtain ⟨a, ha, hb⟩ := Outcome.bind_eq_ok.1 hb
  exact Outcome.bind_eq_ok.2 ⟨a, h a ha, hb⟩

theorem Alike.inside (h : Alike f v v') (key : String) : Alike (fun v => inside key (f v)) v v' :=
  fun a ha => inside_eq_ok.2 (h a (inside_eq_ok.1 ha))

theorem SameForm.string (h : SameForm v v') : Alike readString v v' := by
  intro s hs
  rcases h with ⟨_, _, rfl, -⟩ | ⟨_, _, rfl, -⟩
  · cases hs
  · cases hs

theorem SameForm.kind (h : SameForm v v') : Alike readKind v v' :=
  h.string.bind _

theorem SameForm.isString (h : SameForm v v') : v.isString = false ∧ v'.isString = false := by
  rcases h with ⟨_, _, rfl, rfl⟩ | ⟨_, _, rfl, rfl⟩
  · exact ⟨rfl, rfl⟩
  · exact ⟨rfl, rfl⟩

end Readers

/-! ## 2. Arrays -/

section Arrays

variable {α : Type} {f : Value → Read α} {v v' : Value} {before after : List Value}

theorem readItems_replace (h : Alike f v v') (index : Nat) {as : List α}
    (has : readItems f index (before ++ v :: after) = .ok as) :
    readItems f index (before ++ v' :: after) = .ok as := by
  induction before generalizing index as with
  | nil =>
    obtain ⟨a, ha, has⟩ := Outcome.bind_eq_ok.1 has
    exact Outcome.bind_eq_ok.2 ⟨a, h.inside _ a ha, has⟩
  | cons w rest ih =>
    obtain ⟨a, ha, has⟩ := Outcome.bind_eq_ok.1 has
    obtain ⟨rest', hrest, has⟩ := Outcome.bind_eq_ok.1 has
    exact Outcome.bind_eq_ok.2 ⟨a, ha, Outcome.bind_eq_ok.2 ⟨rest', ih (index + 1) hrest, has⟩⟩

theorem Alike.each_array (h : Alike f v v') :
    Alike (readEach f) (.array (before ++ v :: after)) (.array (before ++ v' :: after)) :=
  fun _ has => readItems_replace h 0 has

/-- A list that is not one of texts alone is one of several transitions. -/
theorem readTransitions_array (hv : v.isString = false) :
    readTransitions (.array (before ++ v :: after)) =
      readItems readTransition 0 (before ++ v :: after) := by
  have hempty : (before ++ v :: after).isEmpty = false := by simp
  have htexts : (before ++ v :: after).all isString = false := by simp [hv]
  rw [readTransitions, if_neg (by simp [hempty]), if_neg (by simp [htexts])]

/-- Arrays with items that are read alike are read alike. -/
theorem fieldAlike_of_arrays (h : FieldAlike v v') (before after : List Value) :
    FieldAlike (.array (before ++ v :: after)) (.array (before ++ v' :: after)) where
  form := .inr ⟨_, _, rfl, rfl⟩
  targets := h.form.string.each_array
  ref _ ha := by cases ha
  refs := h.ref.each_array
  action _ ha := by cases ha
  actions := by
    intro as has
    rw [readActions_eq] at has ⊢
    exact h.action.each_array as has
  branch _ ha := by cases ha
  branches := by
    intro bs hbs
    rw [readBranches_eq] at hbs ⊢
    exact h.branch.each_array bs hbs
  transition := by
    intro t ht
    obtain ⟨targets, htargets, ht⟩ := Outcome.bind_eq_ok.1 ht
    exact Outcome.bind_eq_ok.2 ⟨targets, h.form.string.each_array targets htargets, ht⟩
  transitions := by
    intro ts hts
    rw [readTransitions_array h.form.isString.1] at hts
    rw [readTransitions_array h.form.isString.2]
    exact readItems_replace h.transition 0 hts
  invoke _ ha := by cases ha
  invokes := h.invoke.each_array
  tree _ ha := by cases ha

end Arrays

/-! ## 3. Entries of fields -/

section Entries

variable {key : String} {v v' : Value}

theorem readTransitionEntry_alike (h : ReadAlike (countsUnder false key) v v')
    (t : TransitionDecl) : Alike (readTransitionEntry t key) v v' := by
  intro t' ht
  unfold readTransitionEntry at ht ⊢
  split at ht
  · exact Alike.bind (FieldAlike.targets h) _ t' ht
  · exact Alike.bind (FieldAlike.ref h) _ t' ht
  · exact Alike.bind (FieldAlike.actions h) _ t' ht
  · rcases FieldAlike.form h with ⟨_, _, rfl, rfl⟩ | ⟨_, _, rfl, rfl⟩
    · exact ht
    · exact ht
  · exact ht

theorem readInvokeEntry_alike (h : ReadAlike (countsUnder false key) v v')
    (i : InvokeDecl) : Alike (readInvokeEntry i key) v v' := by
  intro i' hi
  unfold readInvokeEntry at hi ⊢
  split at hi
  · exact Alike.bind (FieldAlike.form h).string _ i' hi
  · exact Alike.bind (FieldAlike.transitions h) _ i' hi
  · exact Alike.bind (FieldAlike.transitions h) _ i' hi
  · rcases FieldAlike.form h with ⟨_, _, rfl, rfl⟩ | ⟨_, _, rfl, rfl⟩
    · exact hi
    · exact hi
  · exact hi

theorem readStateEntry_alike (h : ReadAlike (countsUnder false key) v v') (d : StateDecl) :
    Alike (readStateEntry d key) v v' := by
  intro d' hd
  unfold readStateEntry at hd ⊢
  split at hd
  · exact Alike.bind (FieldAlike.form h).string _ d' hd
  · exact Alike.bind (FieldAlike.form h).kind _ d' hd
  · exact Alike.bind (FieldAlike.form h).string _ d' hd
  · exact Alike.bind (RecordAlike.transitionMap h) _ d' hd
  · exact Alike.bind (RecordAlike.transitionMap h) _ d' hd
  · exact Alike.bind (FieldAlike.transitions h) _ d' hd
  · exact Alike.bind (FieldAlike.transitions h) _ d' hd
  · exact Alike.bind (FieldAlike.invokes h) _ d' hd
  · exact Alike.bind (FieldAlike.actions h) _ d' hd
  · exact Alike.bind (FieldAlike.actions h) _ d' hd
  · exact Alike.bind (FieldAlike.refs h) _ d' hd
  · rcases FieldAlike.form h with ⟨_, _, rfl, rfl⟩ | ⟨_, _, rfl, rfl⟩
    · exact hd
    · exact hd
  · exact Alike.bind (FieldAlike.form h).string _ d' hd
  · exact hd

theorem readTreeEntry_alike (h : ReadAlike (countsUnder false key) v v') (t : StateTree) :
    Alike (readTreeEntry t key) v v' := by
  intro t' ht
  unfold readTreeEntry at ht ⊢
  by_cases hkey : key = "states"
  · subst hkey
    rw [if_pos rfl] at ht ⊢
    exact (RecordAlike.children h).map _ t' ht
  · rw [if_neg hkey] at ht ⊢
    exact (readStateEntry_alike h t.decl).map _ t' ht

end Entries

/-! ## 4. Objects of fields -/

section Objects

variable {entries entries' : List (String × Value)}

/-- The entries stand in another order, or one of them has a value that is read alike. -/
abbrev EntriesAlike (entries entries' : List (String × Value)) : Prop :=
  Assoc.Rearranged (fun key => ReadAlike (countsUnder false key)) entries entries'

/-- **Entries that fill fields of their own are worked through alike.** -/
theorem foldlM_alike {β : Type} {g : β → String → Value → Read β}
    (hcomm : Assoc.Commutes fun b (entry : String × Value) =>
      inside entry.1 (g b entry.1 entry.2))
    (hg : ∀ {key v v'}, ReadAlike (countsUnder false key) v v' → ∀ b, Alike (g b key) v v')
    (h : EntriesAlike entries entries') {b c : β}
    (hc : entries.foldlM (fun b entry => inside entry.1 (g b entry.1 entry.2)) b = .ok c) :
    entries'.foldlM (fun b entry => inside entry.1 (g b entry.1 entry.2)) b = .ok c :=
  h.foldlM hcomm (fun b key _ _ c hv hc => (hg hv b).inside key c hc) hc

/-- What is looked up is read alike where the order does not count. -/
theorem lookup_alike (h : EntriesAlike entries entries') (key : String)
    (hkey : countsUnder false key = false) :
    entries.lookup key = entries'.lookup key ∨
      ∃ v v', FieldAlike v v' ∧ entries.lookup key = some v ∧ entries'.lookup key = some v' := by
  have hlookup := h.lookup key
  rwa [hkey] at hlookup

/-- A text stays what it is. -/
theorem lookup_string (h : EntriesAlike entries entries') {key s : String}
    (hkey : countsUnder false key = false) (hs : entries.lookup key = some (.string s)) :
    entries'.lookup key = some (.string s) := by
  rcases lookup_alike h key hkey with heq | ⟨v, v', hv, hlookup, -⟩
  · rw [← heq, hs]
  · rw [hs] at hlookup
    obtain rfl := Option.some.inj hlookup
    rcases hv.form with ⟨_, _, hform, -⟩ | ⟨_, _, hform, -⟩
    · cases hform
    · cases hform

theorem readRef_of_entries (h : EntriesAlike entries entries') :
    Alike readRef (.object entries) (.object entries') := by
  intro r hr
  rw [readRef] at hr ⊢
  split at hr
  · next name hname => rwa [lookup_string h rfl hname]
  · cases hr

theorem readBranchesIn_alike (h : EntriesAlike entries entries') {bs : List Branch}
    (hbs : readBranchesIn entries = .ok bs) : readBranchesIn entries' = .ok bs := by
  rw [readBranchesIn_eq] at hbs ⊢
  rcases lookup_alike h "conds" rfl with heq | ⟨v, v', hv, hlookup, hlookup'⟩
  · rwa [← heq]
  · rw [hlookup] at hbs
    rw [hlookup']
    exact hv.branches.inside "conds" bs hbs

theorem readActionsIn_alike (h : EntriesAlike entries entries') {as : List Action}
    (has : readActionsIn entries = .ok as) : readActionsIn entries' = .ok as := by
  rw [readActionsIn_eq] at has ⊢
  rcases lookup_alike h "actions" rfl with heq | ⟨v, v', hv, hlookup, hlookup'⟩
  · rwa [← heq]
  · rw [hlookup] at has
    rw [hlookup']
    exact hv.actions.inside "actions" as has

theorem readAction_of_entries (h : EntriesAlike entries entries') :
    Alike readAction (.object entries) (.object entries') := by
  intro a ha
  rw [readAction] at ha ⊢
  unfold typedAction at ha ⊢
  split at ha
  · next kind hkind =>
    simp only [lookup_string h rfl hkind]
    by_cases hchoose : kind = chooseType
    · rw [if_pos hchoose] at ha ⊢
      obtain ⟨bs, hbs, ha⟩ := Outcome.map_eq_ok.1 ha
      exact Outcome.map_eq_ok.2 ⟨bs, readBranchesIn_alike h hbs, ha⟩
    · rwa [if_neg hchoose] at ha ⊢
  · cases ha

/-- A branch has its guard, if any, and its actions. -/
theorem branchOf_eq (entries : Assoc Value) (actions : Read (List Action)) :
    branchOf entries actions =
      (entries.lookup "cond").elim (.ok none) (fun v => (inside "cond" (readRef v)).map some) >>=
        fun cond => actions >>= fun as => .ok (.mk cond as) := by
  unfold branchOf
  cases entries.lookup "cond" with
  | none => rfl
  | some v => rfl

theorem readBranch_of_entries (h : EntriesAlike entries entries') :
    Alike readBranch (.object entries) (.object entries') := by
  intro b hb
  rw [readBranch, branchOf_eq] at hb ⊢
  obtain ⟨cond, hcond, hb⟩ := Outcome.bind_eq_ok.1 hb
  obtain ⟨as, has, hb⟩ := Outcome.bind_eq_ok.1 hb
  refine Outcome.bind_eq_ok.2 ⟨cond, ?_,
    Outcome.bind_eq_ok.2 ⟨as, readActionsIn_alike h has, hb⟩⟩
  rcases lookup_alike h "cond" rfl with heq | ⟨v, v', hv, hlookup, hlookup'⟩
  · rwa [← heq]
  · rw [hlookup] at hcond
    rw [hlookup']
    exact (hv.ref.inside "cond").map some cond hcond

theorem readTransition_of_entries (h : EntriesAlike entries entries') :
    Alike readTransition (.object entries) (.object entries') := by
  intro t ht
  exact foldlM_alike (commutes_of_fields {} readTransitionEntry_eq TransitionDecl.withField_comm)
    readTransitionEntry_alike h ht

theorem readInvoke_of_entries (h : EntriesAlike entries entries') :
    Alike readInvoke (.object entries) (.object entries') := by
  intro i hi
  rw [readInvoke, readObject, Outcome.ok_bind] at hi ⊢
  cases hsrc : entries.lookup "src" with
  | none =>
    rw [hsrc] at hi
    cases hi
  | some v =>
    rw [hsrc] at hi
    obtain ⟨src, hread, hi⟩ := Outcome.bind_eq_ok.1 hi
    have hsrc' : ∃ v', entries'.lookup "src" = some v' ∧ inside "src" (readRef v') = .ok src := by
      rcases lookup_alike h "src" rfl with heq | ⟨w, v', hv, hlookup, hlookup'⟩
      · exact ⟨v, heq ▸ hsrc, hread⟩
      · obtain rfl := Option.some.inj (hsrc.symm.trans hlookup)
        exact ⟨v', hlookup', hv.ref.inside "src" src hread⟩
    obtain ⟨v', hsrc', hread'⟩ := hsrc'
    rw [hsrc']
    refine Outcome.bind_eq_ok.2 ⟨src, hread', ?_⟩
    exact foldlM_alike (commutes_of_fields { src } (fun i => readInvokeEntry_eq i { src })
      InvokeDecl.withField_comm) readInvokeEntry_alike h hi

theorem readTree_of_entries (h : EntriesAlike entries entries') :
    Alike readTree (.object entries) (.object entries') := by
  intro t ht
  rw [readTree] at ht ⊢
  obtain ⟨t', ht', ht⟩ := Outcome.bind_eq_ok.1 ht
  refine Outcome.bind_eq_ok.2 ⟨t', ?_, ht⟩
  rw [readTreeEntries_eq] at ht' ⊢
  exact foldlM_alike (commutes_of_fields .empty readTreeEntry_eq StateTree.withEntry_comm)
    readTreeEntry_alike h ht'

/-- **Objects of fields are read alike in any order.** -/
theorem fieldAlike_of_entries (h : EntriesAlike entries entries') :
    FieldAlike (.object entries) (.object entries') where
  form := .inl ⟨entries, entries', rfl, rfl⟩
  targets _ ha := by cases ha
  ref := readRef_of_entries h
  refs := (readRef_of_entries h).map ([·])
  action := readAction_of_entries h
  actions := (readAction_of_entries h).map ([·])
  branch := readBranch_of_entries h
  branches := (readBranch_of_entries h).map ([·])
  transition := readTransition_of_entries h
  transitions := (readTransition_of_entries h).map ([·])
  invoke := readInvoke_of_entries h
  invokes := (readInvoke_of_entries h).map ([·])
  tree := readTree_of_entries h

end Objects

/-! ## 5. Records -/

section Records

theorem mapM_replace {α β : Type} {f : α → Read β} {a a' : α} (h : ∀ b, f a = .ok b → f a' = .ok b)
    {before after : List α} {bs : List β} (hbs : (before ++ a :: after).mapM f = .ok bs) :
    (before ++ a' :: after).mapM f = .ok bs := by
  rw [List.mapM_append] at hbs ⊢
  obtain ⟨bs₁, hbs₁, hbs⟩ := Outcome.bind_eq_ok.1 hbs
  obtain ⟨bs₂, hbs₂, hbs⟩ := Outcome.bind_eq_ok.1 hbs
  refine Outcome.bind_eq_ok.2 ⟨bs₁, hbs₁, Outcome.bind_eq_ok.2 ⟨bs₂, ?_, hbs⟩⟩
  rw [List.mapM_cons] at hbs₂ ⊢
  obtain ⟨b, hb, hbs₂⟩ := Outcome.bind_eq_ok.1 hbs₂
  exact Outcome.bind_eq_ok.2 ⟨b, h b hb, hbs₂⟩

variable {v v' : Value}

/-- Records with a value that is read alike are read alike. -/
theorem recordAlike_of_entry (h : FieldAlike v v') (before after : List (String × Value))
    (key : String) : RecordAlike (.object (before ++ (key, v) :: after))
      (.object (before ++ (key, v') :: after)) where
  children := by
    intro ts hts
    rw [readChildren, readChildEntries_eq] at hts ⊢
    refine mapM_replace (fun t ht => ?_) hts
    exact (h.tree.inside key).map (key, ·) t ht
  transitionMap := by
    intro ts hts
    refine mapM_replace (fun t ht => ?_) hts
    exact (h.transitions.inside key).bind _ t ht

end Records

/-! ## 6. All levels -/

/-- **Values that differ only in the order of fields are read alike.** -/
theorem readAlike_of_reorders {counts : Bool} {v v' : Value} (h : Reorders counts v v') :
    ReadAlike counts v v' := by
  -- from the object that is permuted up to the whole value
  induction h with
  | permute hd h => exact fieldAlike_of_entries (.permute hd h)
  | @entry counts before after key v v' _ ih =>
    cases counts with
    | false => exact fieldAlike_of_entries (.replace ih)
    | true =>
      have ih : FieldAlike v v' := ih
      exact recordAlike_of_entry ih before after key
  | @item counts before after v v' _ ih =>
    have ih : FieldAlike v v' := ih
    cases counts with
    | false => exact fieldAlike_of_arrays ih before after
    | true =>
      -- where the order counts an array stands for nothing
      have hchildren : Alike readChildren (.array (before ++ v :: after))
          (.array (before ++ v' :: after)) := by
        intro ts hts
        cases hts
      have htransitions : Alike readTransitionMap (.array (before ++ v :: after))
          (.array (before ++ v' :: after)) := by
        intro ts hts
        cases hts
      exact ⟨hchildren, htransitions⟩

end Value

/-- **The order in which fields are written is irrelevant.** Permuting the fields of objects, as
often and as deep as one likes, changes neither what a definition is read to nor the states that a
value describes; only among the states below a state, its events and its delays does the order
count. -/
theorem field_order_irrelevant (cx : Context) {e e' : Expression} {v v' : Value}
    (he : Relation.ReflTransGen (Expression.Reorders false) e e')
    (hv : Relation.ReflTransGen (Value.Reorders false) v v') :
    Shape.readDefinition cx e = Shape.readDefinition cx e' ∧
      v.readTree.toOption = v'.readTree.toOption := by
  constructor
  · induction he with
    | refl => rfl
    | tail _ h ih =>
      exact ih.trans (Shape.orderFree_read _ (.rule .state) false rfl _ _ h)
  · induction hv with
    | refl => rfl
    | tail _ h ih =>
      refine ih.trans (Option.ext fun t => ?_)
      rw [Outcome.toOption_eq_some_iff, Outcome.toOption_eq_some_iff]
      exact ⟨(Value.readAlike_of_reorders h).tree t, (Value.readAlike_of_reorders h.symm).tree t⟩

/-- The fields of a state that is named like one, of its transition and of a branch of its action
are written the other way round. -/
theorem heater_in_any_order :
    let cx : Context := ⟨[("choose", .imported "xstate" (.named "choose"))], {}⟩
    let machine (fields : List Entry) := Expression.object
      [.keyed "states" (.object [.keyed "on" (.object fields), .keyed "off" (.object [])])]
    let entry (branch : List Entry) : Entry :=
      .keyed "entry" (.call (.name "choose") [.array [.object branch]])
    let on (go : List Entry) : Entry := .keyed "on" (.object [.keyed "GO" (.object go)])
    let value (fields : List (String × Value)) := Value.object
      [("states", .object [("on", .object fields), ("off", .object [])])]
    let entryValue : String × Value := ("entry", .object [("type", .string "xstate.choose"),
      ("conds", .array [.object [("cond", .string "hot"), ("actions", .string "stop")]])])
    let onValue (go : List (String × Value)) : String × Value :=
      ("on", .object [("GO", .object go)])
    let hot := Entry.keyed "cond" (.string "hot")
    let stop := Entry.keyed "actions" (.string "stop")
    let off := Entry.keyed "target" (.string "off")
    let ready := Entry.keyed "cond" (.string "ready")
    let offValue : String × Value := ("target", .string "off")
    let readyValue : String × Value := ("cond", .string "ready")
    let e := machine [entry [hot, stop], on [off, ready]]
    let e' := machine [on [ready, off], entry [stop, hot]]
    let v := value [entryValue, onValue [offValue, readyValue]]
    let v' := value [onValue [readyValue, offValue], entryValue]
    let tree := StateTree.state {} [
      ("on", .state { entry := [.choose [.mk (some (.named "hot")) [.named "stop"]]],
                      on := [("GO", [{ targets := ["off"], cond := some (.named "ready") }])] } []),
      ("off", .state {} [])]
    Relation.ReflTransGen (Expression.Reorders false) e e' ∧
      Relation.ReflTransGen (Value.Reorders false) v v' ∧
      Shape.readDefinition cx e = .present v ∧ Shape.readDefinition cx e' = .present v ∧
      v.readTree.toOption = some tree ∧ v'.readTree.toOption = some tree := by
  intro cx machine entry on value entryValue onValue hot stop off ready offValue readyValue e e' v v'
    tree
  have hswap (key key' : String) (x x' : Expression) (hne : key ≠ key') :
      Expression.Reorders false (.object [.keyed key x, .keyed key' x'])
        (.object [.keyed key' x', .keyed key x]) :=
    .permute (by simp [Entry.AllWritten])
      (by simp [Assoc.Distinct, Assoc.keys, Entry.pair?, hne]) (.swap _ _ _)
  have hmachine {fields fields' : List Entry}
      (h : Expression.Reorders false (.object fields) (.object fields')) :
      Expression.Reorders false (machine fields) (machine fields') :=
    @Expression.Reorders.entry false [] [] "states" _ _
      (@Expression.Reorders.entry true [] [.keyed "off" (.object [])] "on" _ _ h)
  have hentry : Expression.Reorders false (.object [entry [hot, stop], on [off, ready]])
      (.object [entry [stop, hot], on [off, ready]]) :=
    @Expression.Reorders.entry false [] [on [off, ready]] "entry" _ _
      (@Expression.Reorders.argument false (.name "choose") [] [] _ _
        (@Expression.Reorders.item false [] [] _ _ (hswap _ _ _ _ (by decide))))
  have hon : Expression.Reorders false (.object [entry [stop, hot], on [off, ready]])
      (.object [entry [stop, hot], on [ready, off]]) :=
    @Expression.Reorders.entry false [entry [stop, hot]] [] "on" _ _
      (@Expression.Reorders.entry true [] [] "GO" _ _ (hswap _ _ _ _ (by decide)))
  have he : Relation.ReflTransGen (Expression.Reorders false) e e' :=
    .tail (.tail (.single (hmachine hentry)) (hmachine hon))
      (hmachine (hswap _ _ _ _ (by decide)))
  have hvalue {fields fields' : List (String × Value)}
      (h : Value.Reorders false (.object fields) (.object fields')) :
      Value.Reorders false (value fields) (value fields') :=
    @Value.Reorders.entry false [] [] "states" _ _
      (@Value.Reorders.entry true [] [("off", .object [])] "on" _ _ h)
  have honValue : Value.Reorders false (.object [entryValue, onValue [offValue, readyValue]])
      (.object [entryValue, onValue [readyValue, offValue]]) :=
    @Value.Reorders.entry false [entryValue] [] "on" _ _
      (@Value.Reorders.entry true [] [] "GO" _ _
        (.permute (by simp [Assoc.Distinct, Assoc.keys, offValue, readyValue]) (.swap _ _ _)))
  have hv : Relation.ReflTransGen (Value.Reorders false) v v' :=
    .tail (.single (hvalue honValue)) (hvalue (.permute
      (by simp [Assoc.Distinct, Assoc.keys, entryValue, onValue]) (.swap _ _ _)))
  have hread : Shape.readDefinition cx e = .present v := by rfl
  have htree : v.readTree.toOption = some tree := by rfl
  obtain ⟨heq, hsame⟩ := field_order_irrelevant cx he hv
  exact ⟨he, hv, hread, heq.symm.trans hread, htree, hsame.symm.trans htree⟩

end Statechart
