import Statechart.Proofs.Expression
import Statechart.Shape.Read

/-!
# Reading one level

What reading gives at one kind of shape, one lemma for each, and what the fields of an object and
the items of an array add up to.
-/

namespace Statechart

/-- What reading a field gives that may be left out. -/
def Reading.ofField : Option Value → Reading
  | some v => present v
  | none => absent

namespace Shape

variable {cx : Context} {n : Nat} {s : Shape} {e : Expression} {v : Value}

/-! ## 1. Alternatives and rules -/

theorem read_oneOf_of_failed {o : Option Expression} {rest : List Shape}
    (h : read cx (n + 1) s o = .failed) :
    read cx (n + 1) (.oneOf (s :: rest)) o = read cx (n + 1) (.oneOf rest) o := by
  rw [read] at h ⊢
  rw [readLevel, readFirst, h, readLevel]

theorem read_oneOf_of_present {o : Option Expression} {rest : List Shape}
    (h : read cx (n + 1) s o = .present v) :
    read cx (n + 1) (.oneOf (s :: rest)) o = .present v := by
  rw [read] at h ⊢
  rw [readLevel, readFirst, h]

/-- A rule is read as the shape that it stands for. -/
theorem read_rule (r : Rule) (o : Option Expression) :
    read cx (n + 1) (.rule r) o = read cx (n + 1) (ofRule r) o := by
  cases r <;> cases o <;> rfl

/-- An array is read as several things where it is not one. -/
theorem read_oneOrMore {items : List Expression} {vs : List Value}
    (hone : read cx (n + 1) s (some (.array items)) = .failed)
    (hitems : readItems (read cx n) s items = some vs) :
    read cx (n + 1) (.oneOrMore s) (some (.array items)) = .present (.array vs) := by
  have harray : read cx (n + 1) (.array s) (some (.array items)) = .present (.array vs) := by
    show Reading.ofOption ((readItems (read cx n) s items).map .array) = _
    rw [hitems]
    rfl
  rw [oneOrMore, read_oneOf_of_failed hone]
  exact read_oneOf_of_present harray

/-! ## 2. Lists of readings -/

theorem readItems_map {below : Reader} {α : Type} {literal : α → Expression} {value : α → Value}
    {as : List α} (h : ∀ a ∈ as, below s (some (literal a)) = .present (value a)) :
    readItems below s (as.map literal) = some (as.map value) := by
  induction as with
  | nil => rfl
  | cons a rest ih =>
    have hrest := ih fun a' ha' => h a' (List.mem_cons_of_mem a ha')
    rw [readItems] at hrest ⊢
    rw [List.map_cons, Reading.collect, h a List.mem_cons_self]
    simp only [hrest]
    rfl

/-- Nothing is collected where one item is not accepted. -/
theorem collect_eq_none {α β : Type} {read : α → Reading} {keep : α → Value → β} {items : List α}
    {a : α} (ha : a ∈ items) (h : read a = .failed) : Reading.collect read keep items = none := by
  induction items with
  | nil => cases ha
  | cons a' rest ih =>
    rw [Reading.collect]
    rcases List.mem_cons.1 ha with rfl | ha
    · rw [h]
    · split
      · rfl
      · exact ih ha
      · rw [ih ha]
        rfl

/-- **Fields that are all read or left out are collected in the order of the shape.** -/
theorem readFields_eq {below : Reader} {entries : Assoc Expression} {fields : List (String × Shape)}
    {values : Assoc (Option Value)}
    (h : ∀ field ∈ fields, below field.2 (entries.lookup field.1) =
      .ofField (values.lookup field.1).join) :
    readFields below entries fields =
      some (fields.filterMap fun field => (values.lookup field.1).join.map (field.1, ·)) := by
  induction fields with
  | nil => rfl
  | cons field rest ih =>
    have hrest := ih fun field' hf => h field' (List.mem_cons_of_mem field hf)
    rw [readFields] at hrest
    rw [readFields, Reading.collect, h field List.mem_cons_self, hrest]
    cases hv : (values.lookup field.1).join with
    | none =>
      rw [List.filterMap_cons, hv]
      rfl
    | some v =>
      rw [List.filterMap_cons, hv]
      rfl

/-! ## 3. Objects -/

theorem foldlM_keyed {m written : Assoc Expression} (h : Assoc.Distinct (written ++ m)) :
    (m.map fun (key, e) => Entry.keyed key e).foldlM (fun w entry =>
      match entry with
      | .keyed key value => some (Assoc.put key value w)
      | _ => none) written = some (written ++ m) := by
  induction m generalizing written with
  | nil => rw [List.append_nil]; rfl
  | cons entry rest ih =>
    obtain ⟨key, e⟩ := entry
    have hkey : key ∉ Assoc.keys written := by
      intro hmem
      unfold Assoc.Distinct Assoc.keys at h
      rw [List.map_append, List.nodup_append] at h
      exact h.2.2 key hmem key List.mem_cons_self rfl
    have hput := Assoc.put_of_not_mem hkey e
    rw [List.map_cons, List.foldlM_cons]
    show (some (Assoc.put key e written) >>= _) = _
    rw [hput, Option.bind_eq_bind, Option.bind_some, ih (by rwa [List.append_assoc]),
      List.append_assoc]
    rfl

/-- **Where keys are distinct, all of them keep their values.** -/
theorem keyed?_record {m : Assoc Expression} (h : Assoc.Distinct m) :
    Entry.keyed? (m.map fun (key, e) => .keyed key e) = some m := by
  have hm : Assoc.Distinct ([] ++ m) := h
  exact foldlM_keyed hm

/-- **An object of fields is read field by field**, where each of them is one of the shape's. -/
theorem read_ofFields {fields : List (String × Shape)} {others : Option Shape}
    {written : Assoc (Option Expression)} (values : Assoc (Option Value))
    (hd : Assoc.Distinct written)
    (hfields : ∀ field ∈ fields, read cx n field.2 (written.lookup field.1).join =
      .ofField (values.lookup field.1).join)
    (hothers : ∀ key ∈ Assoc.keys written,
      key ∈ Assoc.keys fields ∨ (written.lookup key).join = none) :
    read cx (n + 1) (.object fields others) (some (.ofFields written)) =
      .present (.object (fields.filterMap fun field =>
        (values.lookup field.1).join.map (field.1, ·))) := by
  have hknown : readFields (read cx n) (Assoc.present written) fields =
      some (fields.filterMap fun field => (values.lookup field.1).join.map (field.1, ·)) := by
    refine readFields_eq fun field hf => ?_
    rw [hd.lookup_present]
    exact hfields field hf
  have hrest : (Assoc.present written).filter (fun entry =>
      !fields.any fun field => field.1 == entry.1) = [] := by
    refine List.filter_eq_nil_iff.2 fun entry hentry => ?_
    obtain ⟨key, e⟩ := entry
    have hwritten := Assoc.mem_present.1 hentry
    have hkey : key ∈ Assoc.keys fields := by
      rcases hothers key (List.mem_map_of_mem hwritten) with hkey | hnone
      · exact hkey
      · rw [hd.lookup_of_mem hwritten] at hnone
        cases hnone
    obtain ⟨field, hf, rfl⟩ := List.mem_map.1 hkey
    have hany : fields.any (fun field' => field'.1 == field.1) = true :=
      List.any_eq_true.2 ⟨field, hf, beq_self_eq_true _⟩
    simp [hany]
  have hobject : readObject (read cx n) cx.settings.mode fields others
      ((Assoc.present written).map fun (key, e) => .keyed key e) =
        some (.object (fields.filterMap fun field =>
          (values.lookup field.1).join.map (field.1, ·))) := by
    unfold readObject
    rw [keyed?_record hd.present]
    show (readFields (read cx n) (Assoc.present written) fields >>= _) = _
    rw [hknown]
    show (readOthers (read cx n) cx.settings.mode others (List.filter _ _) >>= _) = _
    rw [hrest]
    show some (Value.object (_ ++ [])) = _
    rw [List.append_nil]
  show Reading.ofOption (readObject (read cx n) cx.settings.mode fields others _) = _
  rw [hobject]
  rfl

/-- An object is not accepted where one of its fields is not. -/
theorem read_ofFields_failed {fields : List (String × Shape)} {others : Option Shape}
    {written : Assoc (Option Expression)} (hd : Assoc.Distinct written) {field : String × Shape}
    (hf : field ∈ fields) (h : read cx n field.2 (written.lookup field.1).join = .failed) :
    read cx (n + 1) (.object fields others) (some (.ofFields written)) = .failed := by
  have hknown : readFields (read cx n) (Assoc.present written) fields = none := by
    refine collect_eq_none hf ?_
    rw [hd.lookup_present]
    exact h
  have hobject : readObject (read cx n) cx.settings.mode fields others
      ((Assoc.present written).map fun (key, e) => .keyed key e) = none := by
    unfold readObject
    rw [keyed?_record hd.present]
    show (readFields (read cx n) (Assoc.present written) fields >>= _) = _
    rw [hknown]
    rfl
  show Reading.ofOption (readObject (read cx n) cx.settings.mode fields others _) = _
  rw [hobject]
  rfl

theorem readOthers_map {below : Reader} {mode : Mode} {α : Type} {m : Assoc α}
    {literal : α → Expression} {value : α → Value}
    (h : ∀ key a, (key, a) ∈ m → below s (some (literal a)) = .present (value a)) :
    readOthers below mode (some s) (m.map fun (key, a) => (key, literal a)) =
      some (m.map fun (key, a) => (key, value a)) := by
  induction m with
  | nil => rfl
  | cons entry rest ih =>
    obtain ⟨key, a⟩ := entry
    have hrest := ih fun key' a' ha' => h key' a' (List.mem_cons_of_mem _ ha')
    rw [readOthers] at hrest
    rw [List.map_cons, readOthers, Reading.collect]
    simp only [h key a List.mem_cons_self]
    rw [hrest]
    rfl

/-- **A record is read entry by entry.** -/
theorem read_record {α : Type} {m : Assoc α} (literal : α → Expression) (value : α → Value)
    (hd : Assoc.Distinct m)
    (h : ∀ key a, (key, a) ∈ m → read cx n s (some (literal a)) = .present (value a)) :
    read cx (n + 1) (.record s) (some (.record (m.map fun (key, a) => (key, literal a)))) =
      .present (.object (m.map fun (key, a) => (key, value a))) := by
  have hkeys : Assoc.Distinct (m.map fun (key, a) => (key, literal a)) := by
    unfold Assoc.Distinct Assoc.keys at *
    rwa [List.map_map]
  have hobject : readObject (read cx n) cx.settings.mode [] (some s)
      ((m.map fun (key, a) => (key, literal a)).map fun (key, e) => .keyed key e) =
        some (.object (m.map fun (key, a) => (key, value a))) := by
    unfold readObject
    rw [keyed?_record hkeys]
    show (readOthers (read cx n) cx.settings.mode (some s) (List.filter (fun _ => true) _) >>= _) = _
    rw [List.filter_eq_self.2 fun _ _ => rfl, readOthers_map h]
    rfl
  show Reading.ofOption (readObject (read cx n) cx.settings.mode [] (some s) _) = _
  rw [hobject]
  rfl

end Shape

end Statechart
