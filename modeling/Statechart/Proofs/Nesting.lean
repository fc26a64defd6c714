import Statechart.Extraction
import Statechart.Proofs.Kept
import Statechart.Proofs.Literal.Obstacle
import Statechart.Proofs.Literal.State
import Statechart.Proofs.Shape.Parts
import Statechart.Proofs.Shape.Unambiguous

/-!
# Definitions that are nested too deep

Reading looks for the fields of an object on the level below it, even if nothing is written in the
object; the search for obstacles goes down only to what is written. So the two come to the end of
the levels at different places where an object is empty. Main statement: a definition that only the
bound on levels keeps from being accepted has an obstacle, unless it comes to an empty object on the
last level; that one is rejected without any, and one level more would be enough for it.
-/

namespace Statechart

/-! ## 1. The search on more levels -/

/-- What is found first stays, unless what is found with fewer levels has a certain property. -/
theorem findSome?_eq_or {α β : Type} {f g : α → Option β} {P : β → Prop} {as : List α}
    (h : ∀ a ∈ as, f a = g a ∨ ∃ b, f a = some b ∧ P b) :
    as.findSome? f = as.findSome? g ∨ ∃ b, as.findSome? f = some b ∧ P b := by
  induction as with
  | nil => exact .inl rfl
  | cons a as ih =>
    rw [List.findSome?_cons, List.findSome?_cons]
    rcases h a List.mem_cons_self with ha | ⟨b, ha, hb⟩
    · rw [ha]
      cases g a with
      | none => exact ih fun a' ha' => h a' (List.mem_cons_of_mem a ha')
      | some b => exact .inl rfl
    · exact .inr ⟨b, by rw [ha], hb⟩

namespace Obstacle

variable {cx : Context} {allow : Bool} {n : Nat} {x : Expression} {o : Obstacle}

theorem exists_level_of_eq_none (h : findWithin cx allow n x = none) : ∃ m, n = m + 1 := by
  cases n with
  | zero => cases h
  | succ m => exact ⟨m, rfl⟩

/-- Where there is no obstacle, there is none in a part that is searched. -/
theorem eq_none_of_part {m : Nat} {y : Expression}
    (hpart : (∃ o, findWithin cx allow m y = some o) → ∃ o, findWithin cx allow n x = some o)
    (h : findWithin cx allow n x = none) : findWithin cx allow m y = none := by
  refine Option.eq_none_iff_forall_ne_some.2 fun o ho => ?_
  obtain ⟨o', ho'⟩ := hpart ⟨o, ho⟩
  cases h.symm.trans ho'

theorem eq_none_of_entry {entries : List Entry} {key : String} {y : Expression}
    (hx : cx.scope.resolve x = .object entries) (hy : .keyed key y ∈ entries)
    (h : findWithin cx allow (n + 1) x = none) : findWithin cx allow n y = none :=
  eq_none_of_part (exists_findWithin_object hx hy) h

theorem eq_none_of_item {items : List Expression} {y : Expression}
    (hx : cx.scope.resolve x = .array items) (hy : y ∈ items)
    (h : findWithin cx allow (n + 1) x = none) : findWithin cx allow n y = none := by
  obtain ⟨i, hi⟩ := List.mem_iff_getElem?.1 hy
  exact eq_none_of_part (exists_findWithin_array hx hi) h

theorem eq_none_of_argument {callee y : Expression} {args : List Expression} {name : String}
    (hx : cx.scope.resolve x = .call callee args) (hname : cx.creator? callee = some name)
    (hy : args.head? = some y) (h : findWithin cx allow (n + 1) x = none) :
    findWithin cx allow n y = none := by
  rw [List.head?_eq_getElem?] at hy
  exact eq_none_of_part (exists_findWithin_call hx hname hy) h

/-- **With more levels the same is found**, unless the levels were too few. -/
theorem findWithin_add (more : Nat) (x : Expression) :
    findWithin cx allow n x = findWithin cx allow (n + more) x ∨
      ∃ o, findWithin cx allow n x = some o ∧ o.construct = .tooDeep := by
  induction n generalizing x with
  | zero => exact .inr ⟨_, rfl, rfl⟩
  | succ n ih =>
    rw [Nat.add_right_comm, findWithin, findWithin]
    cases cx.scope.resolve x with
    | object entries =>
      refine findSome?_eq_or fun entry _ => ?_
      cases entry with
      | keyed key y =>
        rcases ih y with hy | ⟨o, hy, ho⟩
        · exact .inl (by simp only [hy])
        · exact .inr ⟨o.under key, by simp only [hy, Option.map_some], ho⟩
      | computed y => exact .inl rfl
      | spread y => exact .inl rfl
    | array items =>
      refine findSome?_eq_or fun item _ => ?_
      obtain ⟨y, i⟩ := item
      rcases ih y with hy | ⟨o, hy, ho⟩
      · exact .inl (by simp only [hy])
      · exact .inr ⟨o.under (toString i), by simp only [hy, Option.map_some], ho⟩
    | call callee args =>
      dsimp only
      cases cx.creator? callee with
      | none => exact .inl rfl
      | some name => exact findSome?_eq_or fun y _ => ih y
    | _ => exact .inl rfl

end Obstacle

namespace Shape

variable {cx : Context} {more n : Nat} {s : Shape} {x : Expression} {o : Obstacle}

/-! ## 2. Running out of levels -/

/-- **Within so many levels, reading against the shape comes to an empty object on the last one**,
where it looks for fields in vain. The alternatives that it goes by are those which accept the
expression with `more` levels. -/
inductive Exhausts (cx : Context) (more : Nat) : Nat → Shape → Expression → Prop
  /-- There is no level for the fields, though none of them is written. -/
  | empty {fields : List (String × Shape)} {others : Option Shape} {x : Expression}
      (hx : cx.scope.resolve x = .object []) (hfields : fields ≠ []) :
      Exhausts cx more 1 (.object fields others) x
  | field {n : Nat} {fields : List (String × Shape)} {others : Option Shape} {s : Shape}
      {x y : Expression} {entries : List Entry} {key : String}
      (hx : cx.scope.resolve x = .object entries) (hs : (key, s) ∈ fields)
      (hy : Entry.last? entries key = some y) (h : Exhausts cx more n s y) :
      Exhausts cx more (n + 1) (.object fields others) x
  | other {n : Nat} {fields : List (String × Shape)} {s : Shape} {x y : Expression}
      {entries : List Entry} {key : String} (hx : cx.scope.resolve x = .object entries)
      (hkey : key ∉ Assoc.keys fields) (hy : Entry.last? entries key = some y)
      (h : Exhausts cx more n s y) : Exhausts cx more (n + 1) (.object fields (some s)) x
  | item {n : Nat} {s : Shape} {x y : Expression} {items : List Expression}
      (hx : cx.scope.resolve x = .array items) (hy : y ∈ items) (h : Exhausts cx more n s y) :
      Exhausts cx more (n + 1) (.array s) x
  | branches {n : Nat} {x y callee : Expression} {args : List Expression}
      (hx : cx.scope.resolve x = .call callee args) (hname : cx.creator? callee = some "choose")
      (hy : args.head? = some y) (h : Exhausts cx more n (.rule .branches) y) :
      Exhausts cx more (n + 1) .creatorCall x
  | created {n : Nat} {x callee : Expression} {args : List Expression}
      (hx : cx.scope.resolve x = .call callee args) (h : Exhausts cx more n .creatorCall x) :
      Exhausts cx more n .implementation x
  | oneOf {n : Nat} {before after : List Shape} {s : Shape} {x : Expression}
      (hbefore : ∀ t ∈ before, read cx (n + more) t (some x) = .failed)
      (hread : read cx (n + more) s (some x) ≠ .failed) (h : Exhausts cx more n s x) :
      Exhausts cx more n (.oneOf (before ++ s :: after)) x
  | optional {n : Nat} {inner : Shape} {x : Expression} (h : Exhausts cx more n inner x) :
      Exhausts cx more n (.optional inner) x
  | rule {n : Nat} {r : Rule} {x : Expression} (h : Exhausts cx more n (ofRule r) x) :
      Exhausts cx more n (.rule r) x

/-- An empty object stands on some level. -/
theorem Exhausts.exists_level (h : Exhausts cx more n s x) : ∃ m, n = m + 1 := by
  induction h with
  | empty | field | other | item | branches => exact ⟨_, rfl⟩
  | created _ _ ih | oneOf _ _ _ ih | optional _ ih | rule _ ih => exact ih

/-- The search, with one level less, comes to its end at the empty object or before. -/
theorem Exhausts.exists_find {allow : Bool} (h : Exhausts cx more (n + 1) s x) :
    ∃ o, Obstacle.findWithin cx allow n x = some o := by
  generalize hm : n + 1 = m at h
  induction h generalizing n with
  | empty hx hfields =>
    obtain rfl := Nat.succ.inj hm
    exact ⟨_, rfl⟩
  | field hx _ hy h ih | other hx _ hy h ih =>
    obtain ⟨k, rfl⟩ := h.exists_level
    obtain rfl := Nat.succ.inj hm
    exact Obstacle.exists_findWithin_object hx (Entry.mem_of_last? hy) (ih rfl)
  | item hx hy h ih =>
    obtain ⟨k, rfl⟩ := h.exists_level
    obtain rfl := Nat.succ.inj hm
    obtain ⟨i, hi⟩ := List.mem_iff_getElem?.1 hy
    exact Obstacle.exists_findWithin_array hx hi (ih rfl)
  | branches hx hname hy h ih =>
    obtain ⟨k, rfl⟩ := h.exists_level
    obtain rfl := Nat.succ.inj hm
    rw [List.head?_eq_getElem?] at hy
    exact Obstacle.exists_findWithin_call hx hname hy (ih rfl)
  | created _ h ih | oneOf _ _ h ih | optional h ih | rule h ih => exact ih hm

/-! ## 3. What is rejected -/

/-- **Where reading comes to an empty object on the last level, the expression is rejected.** -/
theorem Exhausts.failed (h : Exhausts cx more n s x) (hs : Unambiguous s) :
    read cx n s (some x) = .failed := by
  refine Classical.byContradiction fun hread => ?_
  induction h with
  | empty hx hfields =>
    obtain ⟨-, hread, -⟩ := (read_object_ne_failed_iff hx).1 hread
    obtain ⟨field, hf⟩ := List.exists_mem_of_ne_nil _ hfields
    exact hread field hf rfl
  | field hx hmem hy _ ih =>
    obtain ⟨-, hread, -⟩ := (read_object_ne_failed_iff hx).1 hread
    obtain ⟨hfields, -⟩ := hs.object_parts
    have hread := hread _ hmem
    rw [hy] at hread
    exact ih (hfields _ hmem) hread
  | other hx hkey hy _ ih =>
    obtain ⟨-, -, hread⟩ := (read_object_ne_failed_iff hx).1 hread
    obtain ⟨-, hothers⟩ := hs.object_parts
    exact ih (hothers _ rfl) ((hread _ _ hy hkey).1 _ rfl)
  | item hx hy _ ih => exact ih hs.element ((read_array_ne_failed_iff hx).1 hread _ hy)
  | branches hx hname hy _ ih =>
    obtain ⟨name, hname', hbranches⟩ := (read_creatorCall_ne_failed_iff hx).1 hread
    obtain rfl := Option.some.inj (hname.symm.trans hname')
    rw [hy] at hbranches
    exact ih (.rule .branches) (hbranches rfl)
  | created hx _ ih =>
    rw [read_implementation_of_call hx] at hread
    exact ih .creatorCall hread
  | @oneOf n before after s x hbefore haccepts _ ih =>
    obtain ⟨hparts, hapart⟩ := hs.alternatives
    obtain ⟨t, ht, htread⟩ := exists_alternative_of_ne_failed hread
    have hmore : NoStricter cx (n + more) cx n :=
      ⟨rfl, fun _ => rfl, id, Nat.le_add_right n more⟩
    have hs : s ∈ before ++ s :: after := List.mem_append_right _ List.mem_cons_self
    rcases List.mem_append.1 ht with hmem | hmem
    · have hstable := (hparts t ht).stable n cx (n + more) cx hmore (some x)
      exact hstable.ne_failed htread (hbefore t hmem)
    · rcases List.mem_cons.1 hmem with rfl | hmem
      · exact ih (hparts t ht) htread
      · have hfailed : read cx n s (some x) = .failed :=
          Classical.byContradiction fun hsread => ih (hparts s hs) hsread
        have hst : Apart s t :=
          (List.pairwise_cons.1 (List.pairwise_append.1 hapart).2.1).1 t hmem
        exact haccepts (hst cx (n + more) cx n hmore (some x) hfailed htread)
  | optional _ ih =>
    rw [read_optional_some] at hread
    exact ih hs.inner hread
  | rule _ ih =>
    rw [read_rule_eq] at hread
    exact ih (unambiguous_ofRule _) hread

section Parts

variable {allow : Bool}

/-- Reading an object comes to its end in a field, under another key or at once. -/
theorem exhausts_of_object {fields : List (String × Shape)} {others : Option Shape}
    (hfields : ∀ field ∈ fields, ∀ y, read cx (n + more) field.2 (some y) ≠ .failed →
      Obstacle.findWithin cx allow n y = none → read cx n field.2 (some y) = .failed →
        Exhausts cx more n field.2 y)
    (hothers : ∀ s, others = some s → ∀ y, read cx (n + more) s (some y) ≠ .failed →
      Obstacle.findWithin cx allow n y = none → read cx n s (some y) = .failed →
        Exhausts cx more n s y)
    (hmore : read cx (n + 1 + more) (.object fields others) (some x) ≠ .failed)
    (hfind : Obstacle.findWithin cx allow (n + 1) x = none)
    (hfailed : read cx (n + 1) (.object fields others) (some x) = .failed) :
    Exhausts cx more (n + 1) (.object fields others) x := by
  rw [Nat.add_right_comm] at hmore
  obtain ⟨_, _, entries, _, -, hxx, hx, -, -⟩ := exists_object hmore
  obtain rfl := Option.some.inj hxx
  obtain ⟨⟨w, hw⟩, hknown, hrest⟩ := (read_object_ne_failed_iff hx).1 hmore
  have hentry {key : String} {y : Expression} (hy : .keyed key y ∈ entries) :
      Obstacle.findWithin cx allow n y = none := Obstacle.eq_none_of_entry hx hy hfind
  refine Classical.byContradiction fun hnot => ?_
  refine (read_object_ne_failed_iff hx).2 ⟨⟨w, hw⟩, fun field hf hread => ?_,
    fun key y hy hkey => ⟨fun s hs hread => ?_, (hrest key y hy hkey).2⟩⟩ hfailed
  · have hknown := hknown field hf
    cases hy : Entry.last? entries field.1 with
    | some y =>
      rw [hy] at hread hknown
      have hnone := hentry (Entry.mem_of_last? hy)
      exact hnot (.field hx hf hy (hfields field hf y hknown hnone hread))
    | none =>
      -- the key may be left out, so there is no level for the fields, nor one for any entry
      rw [hy] at hread hknown
      obtain rfl : n = 0 := by
        cases n with
        | zero => rfl
        | succ m => exact absurd hread (read_none_ne_failed hknown m)
      have hempty : entries = [] := by
        refine List.eq_nil_iff_forall_not_mem.2 fun entry hmem => ?_
        obtain ⟨hwritten, -, -⟩ := Entry.keys_of_keyed? hw
        obtain ⟨key, y, rfl⟩ := hwritten entry hmem
        cases hentry hmem
      rw [hempty] at hx
      exact hnot (.empty hx (List.ne_nil_of_mem hf))
  · subst hs
    have hrest := (hrest key y hy hkey).1 s rfl
    have hnone := hentry (Entry.mem_of_last? hy)
    exact hnot (.other hx hkey hy (hothers s rfl y hrest hnone hread))

theorem exhausts_of_array {element : Shape}
    (hitems : ∀ y, read cx (n + more) element (some y) ≠ .failed →
      Obstacle.findWithin cx allow n y = none → read cx n element (some y) = .failed →
        Exhausts cx more n element y)
    (hmore : read cx (n + 1 + more) (.array element) (some x) ≠ .failed)
    (hfind : Obstacle.findWithin cx allow (n + 1) x = none)
    (hfailed : read cx (n + 1) (.array element) (some x) = .failed) :
    Exhausts cx more (n + 1) (.array element) x := by
  rw [Nat.add_right_comm] at hmore
  obtain ⟨_, _, items, _, -, hxx, hx, -, -⟩ := exists_array hmore
  obtain rfl := Option.some.inj hxx
  have hitem := (read_array_ne_failed_iff hx).1 hmore
  refine Classical.byContradiction fun hnot => ?_
  refine (read_array_ne_failed_iff hx).2 (fun y hy hread => hnot ?_) hfailed
  exact .item hx hy (hitems y (hitem y hy) (Obstacle.eq_none_of_item hx hy hfind) hread)

theorem exhausts_of_call
    (hbranches : ∀ y, read cx (n + more) (.rule .branches) (some y) ≠ .failed →
      Obstacle.findWithin cx allow n y = none → read cx n (.rule .branches) (some y) = .failed →
        Exhausts cx more n (.rule .branches) y)
    (hmore : read cx (n + 1 + more) .creatorCall (some x) ≠ .failed)
    (hfind : Obstacle.findWithin cx allow (n + 1) x = none)
    (hfailed : read cx (n + 1) .creatorCall (some x) = .failed) :
    Exhausts cx more (n + 1) .creatorCall x := by
  rw [Nat.add_right_comm] at hmore
  obtain ⟨_, _, callee, args, _, -, hxx, hx, -, -⟩ := exists_creatorCall hmore
  obtain rfl := Option.some.inj hxx
  obtain ⟨name, hname, hchoose⟩ := (read_creatorCall_ne_failed_iff hx).1 hmore
  refine Classical.byContradiction fun hnot => ?_
  refine (read_creatorCall_ne_failed_iff hx).2 ⟨name, hname, fun hn hread => hnot ?_⟩ hfailed
  subst hn
  have hchoose := hchoose rfl
  cases hy : args.head? with
  | some y =>
    rw [hy] at hread hchoose
    have hnone := Obstacle.eq_none_of_argument hx hname hy hfind
    exact .branches hx hname hy (hbranches y hchoose hnone hread)
  | none =>
    rw [hy, read_rule_eq] at hchoose
    exact absurd (read_none (s := .array branch) trivial) hchoose

end Parts

/-- **What more levels would make accepted** has an obstacle, or reading it comes to an empty object
on the last level; unless it is accepted as it is. -/
theorem exhausts_of_failed {allow : Bool} (hmore : read cx (n + more) s (some x) ≠ .failed)
    (hfind : Obstacle.findWithin cx allow n x = none) (hfailed : read cx n s (some x) = .failed) :
    Exhausts cx more n s x := by
  induction n, s using level_induction generalizing x with
  | plain n s hs =>
    obtain ⟨_, x', v, -, hxx, hv, -⟩ := exists_resolved hmore hs.direct
    obtain rfl := Option.some.inj hxx
    obtain ⟨m, rfl⟩ := Obstacle.exists_level_of_eq_none hfind
    rw [readResolved_plain hs] at hv
    cases hfailed.symm.trans (read_of_readResolved hs.direct hv)
  | ignored n =>
    obtain ⟨m, rfl⟩ := Obstacle.exists_level_of_eq_none hfind
    cases hfailed
  | creatorCall n ih =>
    obtain ⟨m, rfl⟩ := Obstacle.exists_level_of_eq_none hfind
    exact exhausts_of_call (fun y => ih m (Nat.lt_succ_self m)) hmore hfind hfailed
  | implementation n ih =>
    obtain ⟨m, rfl⟩ := Obstacle.exists_level_of_eq_none hfind
    obtain ⟨_, x', v, -, hxx, hv, -⟩ := exists_resolved hmore trivial
    obtain rfl := Option.some.inj hxx
    cases hx : cx.scope.resolve x with
    | call callee args =>
      rw [read_implementation_of_call hx] at hmore hfailed
      exact .created hx (exhausts_of_call (fun y => ih m (Nat.lt_succ_self m)) hmore hfind hfailed)
    | function | name _ | member _ _ =>
      rw [read_some (s := .implementation) trivial, hx] at hfailed
      cases hfailed
    | _ =>
      rw [hx] at hv
      cases hv
  | rule n r ih =>
    rw [read_rule_eq] at hmore hfailed
    exact .rule (ih hmore hfind hfailed)
  | array n element ih =>
    obtain ⟨m, rfl⟩ := Obstacle.exists_level_of_eq_none hfind
    exact exhausts_of_array (fun y => ih m (Nat.lt_succ_self m)) hmore hfind hfailed
  | object n fields others hfields hothers =>
    obtain ⟨m, rfl⟩ := Obstacle.exists_level_of_eq_none hfind
    have hm : m < m + 1 := Nat.lt_succ_self m
    exact exhausts_of_object (fun field hf y => hfields field hf m hm)
      (fun s hs y => hothers s hs m hm) hmore hfind hfailed
  | optional n inner ih =>
    rw [read_optional_some] at hmore hfailed
    exact .optional (ih hmore hfind hfailed)
  | oneOf n alternatives ih =>
    obtain ⟨before, s, after, rfl, hbefore, hs⟩ := (read_oneOf_eq_iff hmore).1 rfl
    have hmem : s ∈ before ++ s :: after := List.mem_append_right _ List.mem_cons_self
    rw [← hs] at hmore
    have hsfailed : read cx n s (some x) = .failed :=
      Classical.byContradiction fun h => read_oneOf_ne_failed hmem h hfailed
    exact .oneOf hbefore hmore (ih s hmem hmore hfind hsfailed)

end Shape

/-! ## 4. What is told -/

/-- The words for an obstacle do not start like those for none. -/
theorem Obstacle.head?_text (o : Obstacle) : o.text.toList.head? ≠ some 'd' := by
  have happend {s : String} {a : Char} (h : s.toList.head? = some a) (t : String) :
      (s ++ t).toList.head? = some a := by
    rw [String.toList_append, List.head?_append, h, Option.some_or]
  have hconstruct : ∃ a, o.construct.text.toList.head? = some a ∧ a ≠ 'd' := by
    cases o.construct with
    | tooDeep => exact ⟨'n', happend (happend (by decide) _) _, by decide⟩
    | computedKey => exact ⟨'c', by decide, by decide⟩
    | spread d => exact ⟨'s', happend (happend (by decide) _) _, by decide⟩
    | reference d => exact ⟨'r', happend (happend (by decide) _) _, by decide⟩
    | call d => exact ⟨'c', happend (happend (by decide) _) _, by decide⟩
    | unsupported kind => exact ⟨'u', happend (by decide) _, by decide⟩
  obtain ⟨a, hhead, ha⟩ := hconstruct
  have htext : o.text.toList.head? = some a := by
    unfold Obstacle.text
    split
    · exact hhead
    · exact happend (happend (happend hhead _) _) _
  rw [htext]
  exact fun h => ha (Option.some.inj h)

/-- **That nothing is supported is told just where there is no obstacle.** -/
theorem Source.refusal_eq_iff {cx : Context} {allow : Bool} {e : Expression} :
    refusal cx allow e = "does not match any supported configuration shape" ↔
      Obstacle.find? cx allow e = none := by
  unfold refusal
  cases Obstacle.find? cx allow e with
  | none => simp [unexplained]
  | some o =>
    refine ⟨fun h => ?_, fun h => by cases h⟩
    have hhead := o.head?_text
    rw [show o.text = "does not match any supported configuration shape" from h] at hhead
    exact absurd (by decide) hhead

variable {cx : Context} {more : Nat} {e : Expression} {v : Value}

/-- Where no obstacle is told, one level more is enough. -/
theorem Shape.exhausts_of_readDefinition
    (hread : Shape.read cx (Shape.maxNesting + 1 + more) (.rule .state) (some e) = .present v)
    (hfailed : Shape.readDefinition cx e = .failed) (hfind : Obstacle.find? cx false e = none) :
    Shape.Exhausts cx more (Shape.maxNesting + 1) (.rule .state) e ∧
      Shape.read cx (Shape.maxNesting + 2) (.rule .state) (some e) = .present v := by
  have hmore : Shape.read cx (Shape.maxNesting + 1 + more) (.rule .state) (some e) ≠ .failed := by
    simp [hread]
  refine ⟨Shape.exhausts_of_failed hmore hfind hfailed, ?_⟩
  cases more with
  | zero => exact absurd hfailed hmore
  | succ more =>
    have hlevels : Shape.maxNesting + 1 + (more + 1) = Shape.maxNesting + 2 + more := by omega
    rw [hlevels] at hread hmore
    have hfind' : Obstacle.findWithin cx false (Shape.maxNesting + 2) e = none := by
      rcases Obstacle.findWithin_add 1 e with h | ⟨o, ho, -⟩
      · exact h.symm.trans hfind
      · cases hfind.symm.trans ho
    have hnext : Shape.read cx (Shape.maxNesting + 2) (.rule .state) (some e) ≠ .failed := by
      intro hfailed'
      obtain ⟨o, ho⟩ := (Shape.exhausts_of_failed hmore hfind' hfailed').exists_find
      cases hfind.symm.trans ho
    have hlax : Shape.NoStricter cx (Shape.maxNesting + 2 + more) cx (Shape.maxNesting + 2) :=
      ⟨rfl, fun _ => rfl, id, Nat.le_add_right _ _⟩
    have hstable := (Shape.Unambiguous.rule .state).stable _ _ _ _ hlax (some e) hnext
    rw [← hstable, hread]

/-- A definition without a value is rejected, since none is passed over. -/
theorem Shape.readDefinition_of_value? (h : (Shape.readDefinition cx e).value?.isNone = true) :
    Shape.readDefinition cx e = .failed := by
  refine Classical.byContradiction fun hread => ?_
  obtain ⟨_, _, _, _, vs, -, -, -, -, hpresent, -⟩ := Shape.exists_state hread
  rw [Shape.readDefinition, hpresent] at h
  cases h

/-- **Definitions that are nested too deep.** A definition that more levels would make accepted is
rejected if reading it comes to an empty object on the last level. If it is rejected, the obstacle
that is told is that the levels end, or it stands in a part that is passed over; and none is told
only where reading comes to an empty object on the last level, for which one level more would be
enough. For the literal of a tree there are no parts that are passed over. -/
theorem refused_for_nesting (cx : Context) :
    (∀ (e : Expression) (v : Value) (more : Nat),
      Shape.read cx (Shape.maxNesting + 1 + more) (.rule .state) (some e) = .present v →
      (Shape.Exhausts cx more (Shape.maxNesting + 1) (.rule .state) e →
        Shape.readDefinition cx e = .failed) ∧
      (Shape.readDefinition cx e = .failed →
        (∀ o, Obstacle.find? cx false e = some o → o.construct = .tooDeep ∨
          Shape.PassesOver cx false (Shape.maxNesting + 1 + more) (.rule .state) e o) ∧
        (Source.refusal cx false e = "does not match any supported configuration shape" →
          Shape.Exhausts cx more (Shape.maxNesting + 1) (.rule .state) e ∧
            Shape.read cx (Shape.maxNesting + 2) (.rule .state) (some e) = .present v))) ∧
    ∀ (chooser : String) (t : StateTree), t.KeysDistinct → t.Expressible cx chooser →
      Shape.readDefinition cx (t.literal chooser) = .failed →
        (∃ o, Obstacle.find? cx false (t.literal chooser) = some o ∧ o.construct = .tooDeep) ∨
        Source.refusal cx false (t.literal chooser) =
            "does not match any supported configuration shape" ∧
          Shape.Exhausts cx (t.literal chooser).nesting (Shape.maxNesting + 1) (.rule .state)
            (t.literal chooser) ∧
          Shape.read cx (Shape.maxNesting + 2) (.rule .state) (some (t.literal chooser)) =
            .present t.value := by
  refine ⟨fun e v more hread => ⟨fun h => h.failed (.rule .state), fun hfailed =>
    ⟨fun o ho => ?_, fun htold => ?_⟩⟩, fun chooser t ht h hfailed => ?_⟩
  · have hsearch : Obstacle.find? cx false e =
          Obstacle.findWithin cx false (Shape.maxNesting + 1 + more) e ∨
        ∃ o, Obstacle.find? cx false e = some o ∧ o.construct = .tooDeep :=
      Obstacle.findWithin_add more e
    rcases hsearch with hadd | ⟨o', ho', hdeep⟩
    · right
      refine Shape.passesOver_of_find (by simp [hread]) ?_
      rw [← hadd]
      exact ho
    · obtain rfl := Option.some.inj (ho.symm.trans ho')
      exact .inl hdeep
  · exact Shape.exhausts_of_readDefinition hread hfailed (Source.refusal_eq_iff.1 htold)
  · cases hfind : Obstacle.find? cx false (t.literal chooser) with
    | some o => exact .inl ⟨o, rfl, StateTree.clear_literal h _ o hfind⟩
    | none =>
      have hlevels : (t.literal chooser).nesting <
          Shape.maxNesting + 1 + (t.literal chooser).nesting := by omega
      have hread := Shape.read_tree h ht _ hlevels
      exact .inr ⟨Source.refusal_eq_iff.2 hfind,
        Shape.exhausts_of_readDefinition hread hfailed hfind⟩

/-- States inside one another, the innermost of which is empty. -/
def tower : Nat → StateTree
  | 0 => .empty
  | n + 1 => .state {} [("a", tower n)]

theorem keysDistinct_tower (n : Nat) : (tower n).KeysDistinct := by
  induction n with
  | zero => simp [tower, StateTree.empty, StateTree.KeysDistinct, StateTree.KeysDistinctAll,
      Assoc.Distinct]
  | succ n ih => simp [tower, StateTree.KeysDistinct, StateTree.KeysDistinctAll, Assoc.Distinct, ih]

theorem expressible_tower (cx : Context) (chooser : String) (n : Nat) :
    (tower n).Expressible cx chooser := by
  induction n with
  | zero =>
    simp only [tower, StateTree.empty, StateTree.Expressible, StateTree.Everywhere,
      StateTree.EverywhereIn, and_true]
    constructor <;> simp
  | succ n ih =>
    simp only [tower, StateTree.Expressible, StateTree.Everywhere, StateTree.EverywhereIn, and_true]
    refine ⟨?_, ih⟩
    constructor <;> simp

/-- No obstacle is told where the empty state stands on the last level; one is told a floor
higher. -/
theorem tower_refused :
    let cx : Context := ⟨[], {}⟩
    let e := (tower 32).literal "choose"
    Shape.readDefinition cx e = .failed ∧
      Source.refusal cx false e = "does not match any supported configuration shape" ∧
      Shape.Exhausts cx 1 (Shape.maxNesting + 1) (.rule .state) e ∧
      Shape.read cx (Shape.maxNesting + 2) (.rule .state) (some e) = .present (tower 32).value ∧
      Shape.readDefinition cx ((tower 33).literal "choose") = .failed ∧
      ∃ o, Obstacle.find? cx false ((tower 33).literal "choose") = some o ∧
        o.construct = .tooDeep := by
  intro cx e
  have hfailed : Shape.readDefinition cx e = .failed :=
    Shape.readDefinition_of_value? (by decide +kernel)
  have hfailed' : Shape.readDefinition cx ((tower 33).literal "choose") = .failed :=
    Shape.readDefinition_of_value? (by decide +kernel)
  have hnone : Obstacle.find? cx false e = none := by decide +kernel
  have hsome : Obstacle.find? cx false ((tower 33).literal "choose") ≠ none := by decide +kernel
  have htold := Source.refusal_eq_iff.2 hnone
  have hread : Shape.read cx (Shape.maxNesting + 2) (.rule .state) (some e) =
      .present (tower 32).value :=
    Shape.read_tree (expressible_tower cx "choose" 32) (keysDistinct_tower 32) _ (by decide +kernel)
  obtain ⟨hdefinitions, hliterals⟩ := refused_for_nesting cx
  obtain ⟨-, hrefused⟩ := hdefinitions e (tower 32).value 1 hread
  obtain ⟨-, hexhausts⟩ := hrefused hfailed
  refine ⟨hfailed, htold, (hexhausts htold).1, hread, hfailed', ?_⟩
  rcases hliterals "choose" (tower 33) (keysDistinct_tower 33) (expressible_tower cx "choose" 33)
    hfailed' with hfound | ⟨htold', -⟩
  · exact hfound
  · exact absurd (Source.refusal_eq_iff.1 htold') hsome

end Statechart
