import Statechart.Shape.Read

/-!
# Values that fit shapes

What reading against a shape can give, said without the expression that was read: a string among
those allowed, an object whose entries fit their fields and which lacks none that the shape
demands, and so on. Main statement: whatever is read against a shape fits it.
-/

namespace Statechart.Shape

/-! ## 1. Fitting -/

/-- The shape accepts that nothing is kept of what stands at a position. -/
inductive Omissible : Shape → Prop
  | optional (inner : Shape) : Omissible (.optional inner)
  | ignored : Omissible .ignored
  | oneOf {alternatives : List Shape} {s : Shape} (hs : s ∈ alternatives) (h : Omissible s) :
      Omissible (.oneOf alternatives)
  | rule {r : Rule} (h : Omissible (ofRule r)) : Omissible (.rule r)

mutual

/-- **The value is of the shape.** -/
inductive Fits : Shape → Value → Prop
  | string {allowed : Option (List String)} {text : String}
      (h : ∀ texts, allowed = some texts → text ∈ texts) : Fits (.string allowed) (.string text)
  | bool (b : Bool) : Fits .bool (.bool b)
  | number (x : Binary64) : Fits .number (.number x)
  | undefined : Fits .undefined .undefined
  | function : Fits .function .function
  | object {fields : List (String × Shape)} {others : Option Shape}
      {entries : List (String × Value)}
      (hentries : ∀ key v, (key, v) ∈ entries → FitsEntry fields others key v)
      (hdemanded : ∀ key s, (key, s) ∈ fields → ¬ Omissible s → ∃ v, (key, v) ∈ entries) :
      Fits (.object fields others) (.object entries)
  | array {element : Shape} {items : List Value} (h : ∀ v ∈ items, Fits element v) :
      Fits (.array element) (.array items)
  | oneOf {alternatives : List Shape} {s : Shape} {v : Value} (hs : s ∈ alternatives)
      (h : Fits s v) : Fits (.oneOf alternatives) v
  | optional {inner : Shape} {v : Value} (h : Fits inner v) : Fits (.optional inner) v
  | rule {r : Rule} {v : Value} (h : Fits (ofRule r) v) : Fits (.rule r) v
  | creator (type : String) : Fits .creatorCall (.object [("type", .string type)])
  | choice {branches : Value} (type : String) (h : Fits (.rule .branches) branches) :
      Fits .creatorCall (.object [("type", .string type), ("conds", branches)])
  | implementation : Fits .implementation .function
  | created {v : Value} (h : Fits .creatorCall v) : Fits .implementation v

/-- The entry is one of the fields, or its key is none of theirs and it is of the shape of the
others. -/
inductive FitsEntry : List (String × Shape) → Option Shape → String → Value → Prop
  | field {fields : List (String × Shape)} {others : Option Shape} {key : String} {s : Shape}
      {v : Value} (hs : (key, s) ∈ fields) (h : Fits s v) : FitsEntry fields others key v
  | other {fields : List (String × Shape)} {s : Shape} {key : String} {v : Value}
      (hkey : key ∉ Assoc.keys fields) (h : Fits s v) : FitsEntry fields (some s) key v

end

theorem not_fits_ignored (v : Value) : ¬ Fits .ignored v := by
  intro h
  cases h

theorem fits_optional {s : Shape} {v : Value} : Fits (.optional s) v ↔ Fits s v := by
  constructor
  · intro h
    cases h with
    | optional h => exact h
  · exact .optional

theorem fits_rule {r : Rule} {v : Value} : Fits (.rule r) v ↔ Fits (ofRule r) v := by
  constructor
  · intro h
    cases h with
    | rule h => exact h
  · exact .rule

theorem fits_oneOf {alternatives : List Shape} {v : Value} :
    Fits (.oneOf alternatives) v ↔ ∃ s ∈ alternatives, Fits s v := by
  constructor
  · intro h
    cases h with
    | oneOf hs h => exact ⟨_, hs, h⟩
  · rintro ⟨s, hs, h⟩
    exact .oneOf hs h

/-! ## 2. Lists of readings -/

/-- **What is collected comes from some of the items, and only of those that are absent nothing
does.** -/
theorem collect_eq_some {α β : Type} {read : α → Reading} {keep : α → Value → β} {items : List α}
    {out : List β} (h : Reading.collect read keep items = some out) :
    (∀ b ∈ out, ∃ a ∈ items, ∃ v, read a = .present v ∧ b = keep a v) ∧
      ∀ a ∈ items, read a ≠ .absent → ∃ v, keep a v ∈ out := by
  induction items generalizing out with
  | nil =>
    obtain rfl := Option.some.inj h
    exact ⟨fun b hb => absurd hb (List.not_mem_nil), fun a ha => absurd ha (List.not_mem_nil)⟩
  | cons a rest ih =>
    rw [Reading.collect] at h
    split at h
    · cases h
    · next habsent =>
      obtain ⟨hout, hin⟩ := ih h
      refine ⟨fun b hb => ?_, fun a' ha' hread => ?_⟩
      · obtain ⟨a', ha', hv⟩ := hout b hb
        exact ⟨a', List.mem_cons_of_mem a ha', hv⟩
      · rcases List.mem_cons.1 ha' with rfl | ha'
        · exact absurd habsent hread
        · exact hin a' ha' hread
    · next v hpresent =>
      obtain ⟨out', hout', rfl⟩ := Option.map_eq_some_iff.1 h
      obtain ⟨hout, hin⟩ := ih hout'
      refine ⟨fun b hb => ?_, fun a' ha' hread => ?_⟩
      · rcases List.mem_cons.1 hb with rfl | hb
        · exact ⟨a, List.mem_cons_self, v, hpresent, rfl⟩
        · obtain ⟨a', ha', hv⟩ := hout b hb
          exact ⟨a', List.mem_cons_of_mem a ha', hv⟩
      · rcases List.mem_cons.1 ha' with rfl | ha'
        · exact ⟨v, List.mem_cons_self⟩
        · obtain ⟨v', hv'⟩ := hin a' ha' hread
          exact ⟨v', List.mem_cons_of_mem _ hv'⟩

/-! ## 3. One level -/

/-- The reading is one that the shape allows. -/
inductive Suits (s : Shape) : Reading → Prop
  | failed : Suits s .failed
  | absent (h : Omissible s) : Suits s .absent
  | present {v : Value} (h : Fits s v) : Suits s (.present v)

theorem Suits.fits {s : Shape} {v : Value} (h : Suits s (.present v)) : Fits s v := by
  cases h with
  | present h => exact h

theorem Suits.omissible {s : Shape} (h : Suits s .absent) : Omissible s := by
  cases h with
  | absent h => exact h

/-- Whatever suits one shape suits another that accepts as much. -/
theorem Suits.imp {s s' : Shape} {r : Reading} (h : Suits s r) (hfits : ∀ v, Fits s v → Fits s' v)
    (homissible : Omissible s → Omissible s') : Suits s' r := by
  cases h with
  | failed => exact .failed
  | absent h => exact .absent (homissible h)
  | present h => exact .present (hfits _ h)

section Level

variable {below : Reader} (hbelow : ∀ s e, Suits s (below s e)) {cx : Context}
include hbelow

theorem fits_of_below {s : Shape} {e : Option Expression} {v : Value}
    (h : below s e = .present v) : Fits s v := by
  have hsuits := hbelow s e
  rw [h] at hsuits
  exact hsuits.fits

theorem fits_of_readObject {mode : Mode} {fields : List (String × Shape)} {others : Option Shape}
    {entries : List Entry} {v : Value}
    (h : readObject below mode fields others entries = some v) :
    Fits (.object fields others) v := by
  obtain ⟨m, -, h⟩ := Option.bind_eq_some_iff.1 h
  obtain ⟨known, hknown, h⟩ := Option.bind_eq_some_iff.1 h
  obtain ⟨rest, hrest, h⟩ := Option.bind_eq_some_iff.1 h
  obtain rfl := Option.some.inj h
  obtain ⟨hknown, hfields⟩ := collect_eq_some hknown
  obtain ⟨hrest, -⟩ := collect_eq_some hrest
  refine .object (fun key v hv => ?_) (fun key s hs hdemanded => ?_)
  · rcases List.mem_append.1 hv with hv | hv
    · obtain ⟨⟨key', s⟩, hs, v', hread, hv⟩ := hknown _ hv
      obtain ⟨rfl, rfl⟩ := Prod.mk.inj hv
      exact .field hs (fits_of_below hbelow hread)
    · obtain ⟨⟨key', e⟩, he, v', hread, hv⟩ := hrest _ hv
      obtain ⟨rfl, rfl⟩ := Prod.mk.inj hv
      have hkey : key ∉ Assoc.keys fields := by
        intro hmem
        obtain ⟨⟨name, s⟩, hs, rfl⟩ := List.mem_map.1 hmem
        have := (List.mem_filter.1 he).2
        simp only [Bool.not_eq_true', List.any_eq_false] at this
        exact this _ hs (beq_self_eq_true _)
      cases others with
      | some s => exact .other hkey (fits_of_below hbelow hread)
      | none =>
        dsimp only at hread
        split at hread <;> cases hread
  · have hread : below s (m.lookup key) ≠ .absent := by
      intro habsent
      have hsuits := hbelow s (m.lookup key)
      rw [habsent] at hsuits
      exact hdemanded hsuits.omissible
    obtain ⟨v, hv⟩ := hfields (key, s) hs hread
    exact ⟨v, List.mem_append_left rest hv⟩

theorem fits_of_readCreatorCall {e : Expression} {v : Value}
    (h : readCreatorCall below cx e = some v) : Fits .creatorCall v := by
  unfold readCreatorCall at h
  split at h
  · split at h
    · cases h
    · dsimp only at h
      split at h
      · split at h
        · next branches hbranches =>
          obtain rfl := Option.some.inj h
          exact .choice _ (fits_of_below hbelow hbranches)
        · cases h
      · obtain rfl := Option.some.inj h
        exact .creator _
  · cases h

/-- Whatever an expression at the end of its names is read to fits. -/
theorem fits_of_readResolved {s : Shape} {e : Expression} {v : Value}
    (h : readResolved below cx s e = some v) : Fits s v := by
  unfold readResolved at h
  split at h
  · exact fits_of_readObject hbelow h
  · obtain ⟨items, hitems, rfl⟩ := Option.map_eq_some_iff.1 h
    refine .array fun v hv => ?_
    obtain ⟨e, -, v', hread, rfl⟩ := (collect_eq_some hitems).1 v hv
    exact fits_of_below hbelow hread
  · obtain rfl := Option.some.inj h
    exact .string fun _ htexts => by cases htexts
  · split at h
    · next hmem =>
      obtain rfl := Option.some.inj h
      refine .string fun texts htexts => ?_
      obtain rfl := Option.some.inj htexts
      exact List.contains_iff_mem.1 hmem
    · cases h
  · obtain rfl := Option.some.inj h
    exact .bool _
  · obtain rfl := Option.some.inj h
    exact .undefined
  · obtain ⟨x, -, rfl⟩ := Option.map_eq_some_iff.1 h
    exact .number x
  · obtain rfl := Option.some.inj h
    exact .function
  · exact fits_of_readCreatorCall hbelow h
  · obtain rfl := Option.some.inj h
    exact .implementation
  · obtain rfl := Option.some.inj h
    exact .implementation
  · obtain rfl := Option.some.inj h
    exact .implementation
  · exact .created (fits_of_readCreatorCall hbelow h)
  · cases h

theorem suits_ofOption {s : Shape} {e : Expression} :
    Suits s (.ofOption (readResolved below cx s e)) := by
  cases h : readResolved below cx s e with
  | none => exact .failed
  | some v => exact .present (fits_of_readResolved hbelow h)

end Level

mutual

/-- **One level is read as its shape allows**, where rules and the level below are. -/
theorem suits_readLevel {below : Reader} (hbelow : ∀ s e, Suits s (below s e)) {cx : Context}
    {ofRule : Rule → Option Expression → Reading} (hrule : ∀ r e, Suits (.rule r) (ofRule r e)) :
    (s : Shape) → (e : Option Expression) → Suits s (readLevel ofRule below cx s e)
  | .optional inner, none => .absent (.optional inner)
  | .optional inner, some e =>
    (suits_readLevel hbelow hrule inner (some e)).imp (fun _ => .optional) fun _ => .optional inner
  | .ignored, _ => .absent .ignored
  | .rule r, e => hrule r e
  | .oneOf alternatives, e => suits_readFirst hbelow hrule alternatives e fun _ hs => hs
  | .string _, some _ => suits_ofOption hbelow
  | .bool, some _ => suits_ofOption hbelow
  | .number, some _ => suits_ofOption hbelow
  | .undefined, some _ => suits_ofOption hbelow
  | .function, some _ => suits_ofOption hbelow
  | .object _ _, some _ => suits_ofOption hbelow
  | .array _, some _ => suits_ofOption hbelow
  | .creatorCall, some _ => suits_ofOption hbelow
  | .implementation, some _ => suits_ofOption hbelow
  | .string _, none => .failed
  | .bool, none => .failed
  | .number, none => .failed
  | .undefined, none => .failed
  | .function, none => .failed
  | .object _ _, none => .failed
  | .array _, none => .failed
  | .creatorCall, none => .failed
  | .implementation, none => .failed

theorem suits_readFirst {below : Reader} (hbelow : ∀ s e, Suits s (below s e)) {cx : Context}
    {ofRule : Rule → Option Expression → Reading} (hrule : ∀ r e, Suits (.rule r) (ofRule r e))
    {alternatives : List Shape} : (tried : List Shape) → (e : Option Expression) →
    (∀ s ∈ tried, s ∈ alternatives) →
      Suits (.oneOf alternatives) (readFirst ofRule below cx tried e)
  | [], _, _ => .failed
  | s :: rest, e, htried => by
    have hs := htried s List.mem_cons_self
    have hfirst : Suits s (readLevel ofRule below cx s e) := suits_readLevel hbelow hrule s e
    rw [readFirst]
    split
    · exact suits_readFirst hbelow hrule rest e fun s' hs' => htried s' (List.mem_cons_of_mem s hs')
    · exact hfirst.imp (fun _ => .oneOf hs) (.oneOf hs)

end

/-! ## 4. All levels -/

/-- **Whatever is read against a shape fits it**, within any number of levels. -/
theorem suits_read (cx : Context) (levels : Nat) (s : Shape) (e : Option Expression) :
    Suits s (read cx levels s e) := by
  induction levels generalizing s e with
  | zero => exact .failed
  | succ levels ih =>
    -- a rule stands for a shape in which no rule is met on the same level
    have hrule (r : Rule) (e : Option Expression) : Suits (ofRule r)
        (readLevel (fun _ _ => .failed) (read cx levels) cx (ofRule r) e) :=
      suits_readLevel ih (fun _ _ => .failed) (ofRule r) e
    exact suits_readLevel ih (fun r e => (hrule r e).imp (fun _ => .rule) .rule) s e

theorem fits_of_read {cx : Context} {levels : Nat} {s : Shape} {e : Option Expression} {v : Value}
    (h : read cx levels s e = .present v) : Fits s v := by
  have hsuits := suits_read cx levels s e
  rw [h] at hsuits
  exact hsuits.fits

/-- The definition of a machine is read to a value of a state. -/
theorem fits_of_readDefinition {cx : Context} {e : Expression} {v : Value}
    (h : readDefinition cx e = .present v) : Fits (.rule .state) v :=
  fits_of_read h

/-- Provided implementations are read to a value of theirs. -/
theorem fits_of_readProvided {cx : Context} {e : Option Expression} {v : Value}
    (h : readProvided cx e = .present v) : Fits providedShape v :=
  fits_optional.1 (fits_of_read h)

end Statechart.Shape
