import Statechart.Proofs.Graph.Kinds
import Statechart.Proofs.Graph.Unresolved

/-!
# Duplicate ids

A state with a written id stays known under the id that its path spells, unless that one is taken
already. Main statement: where a duplicate id is reported, a state has the id by which an earlier
state is known, as its own or as the one that its path spells; and where no id that a path spells
beside a written one is another state's own, this says that two states share an id, whatever the
order of the siblings.
-/

namespace Statechart

/-! ## 1. Registering -/

namespace StateTree

variable {rootKey : String} {t : StateTree} {i : Nat} {path : List String} {ids ids' : Assoc Nat}
  {r : String}

/-- A name is known after registering one state if it was before or is one of the state's names. -/
theorem known_of_registerAt (h : registerAt rootKey i path t ids = .ok ids')
    (hr : (ids'.lookup r).isSome) : (ids.lookup r).isSome ∨
      t.idAt rootKey path = r ∨ derivedId rootKey path = r := by
  rw [(registerAt_spec h).2 r, Option.isSome_or, Bool.or_eq_true] at hr
  refine hr.imp_right fun hnew => ?_
  by_cases hcalled : t.idAt rootKey path = r ∨ derivedId rootKey path = r
  · exact hcalled
  · rw [if_neg hcalled] at hnew
    cases hnew

/-- A name is known after registering a tree if it was before or is that of one of its states. -/
theorem known_of_register {parent : Option Nat} (h : register rootKey i path ids t = .ok ids')
    (hr : (ids'.lookup r).isSome) : (ids.lookup r).isSome ∨
      ∃ q ∈ placesFrom rootKey i path parent t, q.1.Called rootKey r := by
  rw [lookup_register parent h r, Option.isSome_or, Bool.or_eq_true] at hr
  refine hr.imp_right fun hnew => ?_
  rw [Option.isSome_map, List.findIdx?_isSome, List.any_eq_true] at hnew
  obtain ⟨q, hq, hcalled⟩ := hnew
  exact ⟨q, hq, of_decide_eq_true hcalled⟩

theorem registerAt_eq_error {e : BuildError} (h : registerAt rootKey i path t ids = .error e) :
    e = .duplicateId (t.idAt rootKey path) ∧ (ids.lookup (t.idAt rootKey path)).isSome := by
  simp only [registerAt] at h
  split at h
  · next hknown => exact ⟨(Except.error.inj h).symm, hknown⟩
  · split at h <;> cases h

theorem checkLeaf_ne_duplicateId : checkLeaf rootKey path t ≠ .error (.duplicateId r) := by
  intro h
  unfold checkLeaf at h
  split at h <;> cases h

theorem checkInitial_ne_duplicateId : checkInitial rootKey path t ≠ .error (.duplicateId r) := by
  intro h
  unfold checkInitial at h
  split at h
  · split at h <;> cases h
  · cases h

/-- A state has an id that is known before, or by which one of the states before it is called. -/
def Collides (rootKey : String) (ids : Assoc Nat) (r : String) (places : List (Place × StateDecl)) :
    Prop :=
  ∃ before q after, places = before ++ q :: after ∧ q.1.id = r ∧
    ((ids.lookup r).isSome ∨ ∃ p ∈ before, p.1.Called rootKey r)

/-- What collides in the first part of a list collides in the list. -/
theorem Collides.append {places : List (Place × StateDecl)} (h : Collides rootKey ids r places)
    (more : List (Place × StateDecl)) : Collides rootKey ids r (places ++ more) := by
  obtain ⟨before, q, after, rfl, hid, hknown⟩ := h
  exact ⟨before, q, after ++ more, by simp, hid, hknown⟩

/-- What collides in the last part of a list with what is known after the first collides in the
list. -/
theorem Collides.after {places : List (Place × StateDecl)} (h : Collides rootKey ids' r places)
    (first : List (Place × StateDecl))
    (hfirst : (ids'.lookup r).isSome → (ids.lookup r).isSome ∨
      ∃ p ∈ first, p.1.Called rootKey r) : Collides rootKey ids r (first ++ places) := by
  obtain ⟨before, q, after, rfl, hid, hknown⟩ := h
  refine ⟨first ++ before, q, after, by simp, hid, ?_⟩
  rcases hknown with hknown | ⟨p, hp, hcalled⟩
  · rcases hfirst hknown with hknown | ⟨p, hp, hcalled⟩
    · exact .inl hknown
    · exact .inr ⟨p, List.mem_append_left before hp, hcalled⟩
  · exact .inr ⟨p, List.mem_append_right first hp, hcalled⟩

mutual

/-- **A duplicate id is reported only of a state whose id is known.** -/
theorem collides_of_register : {t : StateTree} → {i : Nat} → {path : List String} →
    {ids : Assoc Nat} → (parent : Option Nat) →
    register rootKey i path ids t = .error (.duplicateId r) →
    Collides rootKey ids r (placesFrom rootKey i path parent t)
  | state d cs, i, path, ids, parent, h => by
    rcases Outcome.bind_eq_error.1 h with h | ⟨-, -, h⟩
    · exact absurd h checkLeaf_ne_duplicateId
    rw [placesFrom]
    rcases Outcome.bind_eq_error.1 h with h | ⟨ids₁, h₁, h⟩
    · obtain ⟨he, hknown⟩ := registerAt_eq_error h
      obtain rfl := BuildError.duplicateId.inj he
      exact ⟨[], _, _, rfl, rfl, .inl hknown⟩
    rcases Outcome.bind_eq_error.1 h with h | ⟨ids₂, -, h⟩
    · refine (collides_of_registerAll i h).after [_] fun hknown => ?_
      refine (known_of_registerAt h₁ hknown).imp_right fun hcalled => ?_
      exact ⟨_, List.mem_singleton_self _, hcalled⟩
    rcases Outcome.bind_eq_error.1 h with h | ⟨-, -, h⟩
    · exact absurd h checkInitial_ne_duplicateId
    · cases h

theorem collides_of_registerAll : {cs : List (String × StateTree)} → {next : Nat} →
    {path : List String} → {ids : Assoc Nat} → (parent : Nat) →
    registerAll rootKey next path ids cs = .error (.duplicateId r) →
    Collides rootKey ids r (placesOfAll rootKey next path parent cs)
  | [], _, _, _, _, h => by cases h
  | (key, c) :: rest, next, path, ids, parent, h => by
    rw [placesOfAll]
    rcases Outcome.bind_eq_error.1 h with h | ⟨ids₁, h₁, h⟩
    · exact (collides_of_register (some parent) h).append _
    · exact (collides_of_registerAll parent h).after _ (known_of_register h₁)

end

/-! ## 2. No other fault -/

/-- A state is as its kind demands: it has no children that it may not have, and the initial child
that it names. -/
def Suited (d : StateDecl) (cs : Assoc StateTree) : Prop := ChildlessLeaf d cs ∧ InitialThere d cs

theorem checkInitial_of_initialThere {d : StateDecl} {cs : Assoc StateTree}
    (h : InitialThere d cs) : checkInitial rootKey path (state d cs) = .ok () := by
  unfold checkInitial
  rw [decl_state, children_state]
  split
  · next key hkey =>
    refine if_neg fun hfault => ?_
    obtain ⟨hkind, hnone⟩ := Bool.and_eq_true_iff.1 hfault
    obtain ⟨c, hc⟩ := h (of_decide_eq_true hkind) key hkey
    rw [hc] at hnone
    cases hnone
  · rfl

mutual

/-- **Where every state is as its kind demands, nothing but a duplicate id is reported.** -/
theorem duplicateId_of_register : {t : StateTree} → {i : Nat} → {path : List String} →
    {ids : Assoc Nat} → {e : BuildError} → t.Everywhere Suited →
    register rootKey i path ids t = .error e → ∃ r, e = .duplicateId r
  | state d cs, i, path, ids, e, ht, h => by
    rw [Everywhere] at ht
    obtain ⟨⟨hleaf, hinitial⟩, hcs⟩ := ht
    rw [register, checkLeaf_eq_ok_iff.2 hleaf, Outcome.ok_bind] at h
    rcases Outcome.bind_eq_error.1 h with h | ⟨ids₁, -, h⟩
    · exact ⟨_, (registerAt_eq_error h).1⟩
    rcases Outcome.bind_eq_error.1 h with h | ⟨ids₂, -, h⟩
    · exact duplicateId_of_registerAll hcs h
    · rw [checkInitial_of_initialThere hinitial, Outcome.ok_bind] at h
      cases h

theorem duplicateId_of_registerAll : {cs : List (String × StateTree)} → {next : Nat} →
    {path : List String} → {ids : Assoc Nat} → {e : BuildError} → EverywhereIn Suited cs →
    registerAll rootKey next path ids cs = .error e → ∃ r, e = .duplicateId r
  | [], _, _, _, _, _, h => by cases h
  | (key, c) :: rest, next, path, ids, e, hcs, h => by
    rw [EverywhereIn] at hcs
    rcases Outcome.bind_eq_error.1 h with h | ⟨ids₁, -, h⟩
    · exact duplicateId_of_register hcs.1 h
    · exact duplicateId_of_registerAll hcs.2 h

end

/-! ## 3. Ids by path -/

/-- The state at the end of `path` has the id `r`. -/
def HasId (t : StateTree) (path : List String) (r : String) : Prop :=
  ∃ s, t.at? path = some s ∧ s.idAt t.rootKey path = r

/-- The state at the end of `path` has a written id, and beside it the id `r` that its path
spells. -/
def KeepsId (t : StateTree) (path : List String) (r : String) : Prop :=
  ∃ s, t.at? path = some s ∧ s.decl.id.isSome ∧ derivedId t.rootKey path = r

/-- The state at the end of `path` comes before the one at the end of `path'`. -/
def Precedes (t : StateTree) (path path' : List String) : Prop :=
  ∃ i parent s j parent' s', t.Located i path parent s ∧ t.Located j path' parent' s' ∧ i < j

/-- A state does not come before itself. -/
theorem Precedes.ne {path' : List String} (ht : t.KeysDistinct) (h : t.Precedes path path') :
    path ≠ path' := by
  obtain ⟨i, parent, s, j, parent', s', hs, hs', hij⟩ := h
  rintro rfl
  exact absurd (hs.number_unique ht.everywhere hs').1 (Nat.ne_of_lt hij)

/-- Two states have the id `r`. -/
def Shared (t : StateTree) (r : String) : Prop :=
  ∃ path path', path ≠ path' ∧ t.HasId path r ∧ t.HasId path' r

/-- A state has the id `r`, which an earlier state keeps beside its written one. -/
def Foretaken (t : StateTree) (r : String) : Prop :=
  ∃ path path', t.Precedes path path' ∧ t.KeepsId path r ∧ t.HasId path' r

/-- A state is called by its id, and by the one that it keeps. -/
theorem called_iff {s : StateTree} (hs : t.at? path = some s) :
    (s.idAt t.rootKey path = r ∨ derivedId t.rootKey path = r) ↔
      t.HasId path r ∨ t.KeepsId path r := by
  constructor
  · intro h
    rcases h with h | h
    · exact .inl ⟨s, hs, h⟩
    · cases hid : s.decl.id with
      | none => exact .inl ⟨s, hs, by rw [idAt, hid]; exact h⟩
      | some id => exact .inr ⟨s, hs, by rw [hid]; rfl, h⟩
  · intro h
    rcases h with ⟨s', hs', h⟩ | ⟨s', hs', -, h⟩
    · obtain rfl := Option.some.inj (hs.symm.trans hs')
      exact .inl h
    · exact .inr h

theorem located_of_getElem? {q : Place × StateDecl} (hq : t.placesWithDecls[i]? = some q) :
    ∃ path parent s, t.Located i path parent s ∧
      q = (placeAt t.rootKey i path parent s, s.decl) := by
  have hi : i < t.size := by
    rw [← length_placesWithDecls]
    exact (List.getElem?_eq_some_iff.1 hq).1
  obtain ⟨path, parent, s, hs⟩ := exists_located t hi
  exact ⟨path, parent, s, hs, Option.some.inj (hq.symm.trans hs.getElem?)⟩

theorem exists_located_of_hasId (h : t.HasId path r) : ∃ i parent s, t.Located i path parent s ∧
    s.idAt t.rootKey path = r := by
  obtain ⟨s, hs, hid⟩ := h
  obtain ⟨i, parent, hloc⟩ := Located.of_at? .root hs
  exact ⟨i, parent, s, hloc, hid⟩

/-- The id of a state stands at its place. -/
theorem mem_of_hasId (h : t.HasId path r) :
    (path, r) ∈ t.placesWithDecls.map fun q => (q.1.path, q.1.id) := by
  obtain ⟨i, parent, s, hs, rfl⟩ := exists_located_of_hasId h
  exact List.mem_map.2 ⟨_, List.mem_of_getElem? hs.getElem?, rfl⟩

/-- The id of a state collides where an earlier state is called by it. -/
theorem collides_of_located {path' : List String} {parent parent' : Option Nat} {j : Nat}
    {s s' : StateTree} (hs : t.Located i path parent s) (hs' : t.Located j path' parent' s')
    (hij : i < j) (hcalled : s.idAt t.rootKey path = r ∨ derivedId t.rootKey path = r)
    (hid : s'.idAt t.rootKey path' = r) : Collides t.rootKey [] r t.placesWithDecls := by
  obtain ⟨before, after, hps, rfl, -⟩ := hs'.run
  have hp := hs.getElem?
  rw [hps, List.getElem?_append_left hij] at hp
  cases s' with
  | state d cs =>
    rw [placesFrom, List.cons_append] at hps
    exact ⟨before, _, _, hps, hid, .inr ⟨_, List.mem_of_getElem? hp, hcalled⟩⟩

/-- **An id collides exactly if two states share it or an earlier state keeps it beside its own.** -/
theorem collides_iff (ht : t.KeysDistinct) :
    Collides t.rootKey [] r t.placesWithDecls ↔ t.Shared r ∨ t.Foretaken r := by
  constructor
  · intro h
    obtain ⟨before, q, after, hps, hid, hknown⟩ := h
    obtain ⟨p, hp, hcalled⟩ := hknown.resolve_left Bool.false_ne_true
    obtain ⟨i, hi⟩ := List.mem_iff_getElem?.1 hp
    have hlt : i < before.length := (List.getElem?_eq_some_iff.1 hi).1
    have hpi : t.placesWithDecls[i]? = some p := by rw [hps, List.getElem?_append_left hlt, hi]
    have hqj : t.placesWithDecls[before.length]? = some q := by
      rw [hps, List.getElem?_append_right (Nat.le_refl _), Nat.sub_self, List.getElem?_cons_zero]
    obtain ⟨path, parent, s, hs, rfl⟩ := located_of_getElem? hpi
    obtain ⟨path', parent', s', hs', rfl⟩ := located_of_getElem? hqj
    have hat' : t.HasId path' r := ⟨s', hs'.at?_eq ht.everywhere, hid⟩
    rcases (called_iff (hs.at?_eq ht.everywhere)).1 hcalled with hhas | hkeeps
    · refine .inl ⟨path, path', fun he => ?_, hhas, hat'⟩
      subst he
      exact absurd (hs.number_unique ht.everywhere hs').1 (Nat.ne_of_lt hlt)
    · exact .inr ⟨path, path', ⟨i, parent, s, _, parent', s', hs, hs', hlt⟩, hkeeps, hat'⟩
  · intro h
    rcases h with ⟨path, path', hne, hid, hid'⟩ | ⟨path, path', hbefore, hkeeps, hid'⟩
    · obtain ⟨i, parent, s, hs, hr⟩ := exists_located_of_hasId hid
      obtain ⟨j, parent', s', hs', hr'⟩ := exists_located_of_hasId hid'
      rcases Nat.lt_trichotomy i j with hij | rfl | hji
      · exact collides_of_located hs hs' hij (.inl hr) hr'
      · exact absurd (hs.path_unique hs') hne
      · exact collides_of_located hs' hs hji (.inl hr') hr
    · obtain ⟨i, parent, s, j, parent', s', hs, hs', hij⟩ := hbefore
      obtain ⟨s₀, hs₀, hr'⟩ := hid'
      obtain rfl := Option.some.inj ((hs'.at?_eq ht.everywhere).symm.trans hs₀)
      exact collides_of_located hs hs' hij
        ((called_iff (hs.at?_eq ht.everywhere)).2 (.inr hkeeps)) hr'

/-! ## 4. When the ids of a tree can be registered -/

/-- A registered tree has no id that collides. -/
theorem not_collides_of_layout? {l : Layout} (hl : t.layout? = .ok l) :
    ¬ Collides t.rootKey [] r t.placesWithDecls := by
  intro h
  obtain ⟨before, q, after, hps, rfl, hknown⟩ := h
  obtain ⟨p, hp, hcalled⟩ := hknown.resolve_left Bool.false_ne_true
  obtain ⟨i, hi⟩ := List.mem_iff_getElem?.1 hp
  have hlt : i < before.length := (List.getElem?_eq_some_iff.1 hi).1
  have hplaces := places_of_layout? hl
  have hpi : l.places[i]? = some p.1 := by
    rw [hplaces, List.getElem?_map, hps, List.getElem?_append_left hlt, hi]
    rfl
  have hqj : l.places[before.length]? = some q.1 := by
    rw [hplaces, List.getElem?_map, hps, List.getElem?_append_right (Nat.le_refl _), Nat.sub_self]
    rfl
  exact ((byId?_eq_some_iff hl).1 (byId?_own hl hqj)).2 i hlt p.1 hpi hcalled

theorem layout?_eq_error_iff {e : BuildError} :
    t.layout? = .error e ↔ register t.rootKey 0 [] [] t = .error e := by
  unfold layout?
  rw [Outcome.bind_eq_error]
  constructor
  · intro h
    rcases h with h | ⟨_, -, h⟩
    · exact h
    · cases h
  · exact .inl

/-- **The ids of a tree can be registered exactly if every state is as its kind demands and no id
collides.** -/
theorem exists_layout?_iff (ht : t.KeysDistinct) : (∃ l, t.layout? = .ok l) ↔
    t.Everywhere Suited ∧ ∀ r, ¬ (t.Shared r ∨ t.Foretaken r) := by
  constructor
  · intro h
    obtain ⟨l, hl⟩ := h
    refine ⟨everywhere_of_register (register_of_layout? hl), fun r hr => ?_⟩
    exact not_collides_of_layout? hl ((collides_iff ht).2 hr)
  · intro h
    obtain ⟨hsuited, hnone⟩ := h
    cases hl : t.layout? with
    | ok l => exact ⟨l, rfl⟩
    | error e =>
      have herror := layout?_eq_error_iff.1 hl
      obtain ⟨r, rfl⟩ := duplicateId_of_register hsuited herror
      exact absurd ((collides_iff ht).1 (collides_of_register none herror)) (hnone r)

/-! ## 5. The order of siblings -/

mutual

/-- What holds of every state that a path leads to holds everywhere. -/
theorem everywhere_of_at? {P : StateDecl → Assoc StateTree → Prop} : {t : StateTree} →
    (t.Everywhere fun _ cs => Assoc.Distinct cs) →
    (∀ path s, t.at? path = some s → P s.decl s.children) → t.Everywhere P
  | state d cs, hd, h => by
    rw [Everywhere] at hd ⊢
    refine ⟨h [] (state d cs) rfl, everywhereIn_of_at? hd.2 fun key c hc path s hs => ?_⟩
    refine h (key :: path) s ?_
    rw [at?, children_state, hd.1.lookup_of_mem hc]
    exact hs

theorem everywhereIn_of_at? {P : StateDecl → Assoc StateTree → Prop} :
    {cs : List (String × StateTree)} → EverywhereIn (fun _ cs => Assoc.Distinct cs) cs →
    (∀ key c, (key, c) ∈ cs → ∀ path s, c.at? path = some s → P s.decl s.children) →
    EverywhereIn P cs
  | [], _, _ => trivial
  | (key, c) :: rest, hd, h => by
    rw [EverywhereIn] at hd ⊢
    exact ⟨everywhere_of_at? hd.1 (h key c List.mem_cons_self),
      everywhereIn_of_at? hd.2 fun key' c' hc' => h key' c' (List.mem_cons_of_mem _ hc')⟩

end

/-- The same is declared at the end of every path: where keys are distinct, the trees differ in
nothing but the order of siblings. -/
def SameStates (t t' : StateTree) : Prop := ∀ path, (t'.at? path).map decl = (t.at? path).map decl

namespace SameStates

variable {t' s s' : StateTree}

theorem symm (h : t.SameStates t') : t'.SameStates t := fun path => (h path).symm

theorem exists_at? (h : t.SameStates t') (hs : t.at? path = some s) :
    ∃ s', t'.at? path = some s' ∧ s'.decl = s.decl := by
  have hdecl := h path
  rw [hs] at hdecl
  exact Option.map_eq_some_iff.1 hdecl

theorem rootKey_eq (h : t.SameStates t') : t'.rootKey = t.rootKey := by
  obtain ⟨s', hs', hdecl⟩ := h.exists_at? (at?_nil t)
  obtain rfl := Option.some.inj hs'
  rw [rootKey, rootKey, hdecl]

theorem hasId (h : t.SameStates t') (hid : t.HasId path r) : t'.HasId path r := by
  obtain ⟨s, hs, hr⟩ := hid
  obtain ⟨s', hs', hdecl⟩ := h.exists_at? hs
  exact ⟨s', hs', by rw [idAt, hdecl, h.rootKey_eq]; exact hr⟩

theorem keepsId (h : t.SameStates t') (hid : t.KeepsId path r) : t'.KeepsId path r := by
  obtain ⟨s, hs, hwritten, hr⟩ := hid
  obtain ⟨s', hs', hdecl⟩ := h.exists_at? hs
  exact ⟨s', hs', by rw [hdecl]; exact hwritten, by rw [h.rootKey_eq]; exact hr⟩

theorem shared (h : t.SameStates t') (hr : t.Shared r) : t'.Shared r := by
  obtain ⟨path, path', hne, hid, hid'⟩ := hr
  exact ⟨path, path', hne, h.hasId hid, h.hasId hid'⟩

theorem exists_child (h : t.SameStates t') (hs : t.at? path = some s) (hs' : t'.at? path = some s')
    {key : String} {c : StateTree} (hc : s.children.lookup key = some c) :
    ∃ c', s'.children.lookup key = some c' := by
  obtain ⟨c', hc', -⟩ := h.exists_at? (at?_concat hs hc)
  rw [at?_append, hs', Option.bind_some, at?] at hc'
  obtain ⟨c'', hc'', -⟩ := Option.bind_eq_some_iff.1 hc'
  exact ⟨c'', hc''⟩

theorem children_eq_nil (h : t.SameStates t') (hs : t.at? path = some s)
    (hs' : t'.at? path = some s') (hnil : s.children = []) : s'.children = [] := by
  refine List.eq_nil_iff_forall_not_mem.2 fun entry hentry => ?_
  obtain ⟨c', hc'⟩ := Assoc.exists_lookup_of_mem (k := entry.1) (v := entry.2) hentry
  obtain ⟨c, hc⟩ := h.symm.exists_child hs' hs hc'
  rw [hnil] at hc
  cases hc

theorem kind_eq (h : t.SameStates t') (hs : t.at? path = some s) (hs' : t'.at? path = some s')
    (hdecl : s'.decl = s.decl) : s'.kind = s.kind := by
  have hempty : s'.children.isEmpty = s.children.isEmpty := by
    rw [Bool.eq_iff_iff, List.isEmpty_iff, List.isEmpty_iff]
    exact ⟨h.symm.children_eq_nil hs' hs, h.children_eq_nil hs hs'⟩
  rw [StateTree.kind, StateTree.kind, hdecl, hempty]

theorem suited (h : t.SameStates t') (hd' : t'.KeysDistinct) (ht : t.Everywhere Suited) :
    t'.Everywhere Suited := by
  refine everywhere_of_at? hd'.everywhere fun path s' hs' => ?_
  obtain ⟨s, hs, hdecl⟩ := h.symm.exists_at? hs'
  obtain ⟨i, parent, hloc⟩ := Located.of_at? .root hs
  obtain ⟨hleaf, hinitial⟩ := (hloc.everywhere_of ht).here
  have hkind := h.kind_eq hs hs' hdecl.symm
  cases s with
  | state d cs =>
    cases s' with
    | state d' cs' =>
      obtain rfl : d = d' := hdecl
      refine ⟨fun hends => ?_, fun hcompound key hkey => ?_⟩
      · exact h.children_eq_nil hs hs' (hleaf (hkind ▸ hends))
      · obtain ⟨c, hc⟩ := hinitial (hkind ▸ hcompound) key hkey
        exact h.exists_child hs hs' hc

end SameStates

end StateTree

/-! ## 6. Duplicate ids of a definition -/

namespace Graph

open StateTree

variable {t : StateTree}

/-- Duplicate ids are told before any target is looked up. -/
theorem ofTree?_eq_duplicateId_iff {provided : Provided} {r : String} :
    ofTree? t provided = .error (.duplicateId r) ↔ t.layout? = .error (.duplicateId r) := by
  constructor
  · intro h
    rcases Outcome.bind_eq_error.1 h with hl | ⟨l, hl, -⟩
    · exact hl
    · have hfirst := error?_ofTree? hl provided
      rw [Outcome.error?_eq_some_iff.2 h] at hfirst
      obtain ⟨a, ha, hfault⟩ := List.exists_of_findSome?_eq_some hfirst.symm
      obtain ⟨-, hfault⟩ := l.fault?_eq_some_iff.1 hfault
      obtain ⟨⟨⟨path, s⟩, i⟩, -, ha⟩ := List.mem_flatMap.1 ha
      rcases Layout.fault_of_mem_lookups ha with ⟨event, htold⟩ | htold
      · cases hfault.trans htold
      · cases hfault.trans htold
  · intro h
    rw [ofTree?, h]
    rfl

/-- **What a duplicate id tells.** It is the id of two states, or that of one state and kept by an
earlier one beside its own; where every state is as its kind demands, it is reported as soon as
there is such an id. If no id that is kept is another state's own, then two states share the id, and
whether the ids can be registered does not hang on the order of siblings. -/
theorem duplicateIds_of_ofTree? (ht : t.KeysDistinct) (provided : Provided) :
    (∀ r, ofTree? t provided = .error (.duplicateId r) → t.Shared r ∨ t.Foretaken r) ∧
    (t.Everywhere Suited →
      ((∃ r, ofTree? t provided = .error (.duplicateId r)) ↔ ∃ r, t.Shared r ∨ t.Foretaken r)) ∧
    ((∀ r path path', path ≠ path' → t.KeepsId path r → ¬ t.HasId path' r) →
      (∀ r, ofTree? t provided = .error (.duplicateId r) → t.Shared r) ∧
      ∀ t' : StateTree, t'.KeysDistinct → t.SameStates t' →
        ((∃ l, t.layout? = .ok l) ↔ ∃ l, t'.layout? = .ok l)) := by
  have htold (r : String) (h : ofTree? t provided = .error (.duplicateId r)) :
      t.Shared r ∨ t.Foretaken r := by
    have herror := layout?_eq_error_iff.1 (ofTree?_eq_duplicateId_iff.1 h)
    exact (collides_iff ht).1 (collides_of_register none herror)
  refine ⟨htold, fun hsuited => ?_, fun hkept => ?_⟩
  · constructor
    · intro h
      obtain ⟨r, hr⟩ := h
      exact ⟨r, htold r hr⟩
    · intro h
      obtain ⟨r, hr⟩ := h
      cases hl : t.layout? with
      | ok l => exact absurd hr (((exists_layout?_iff ht).1 ⟨l, hl⟩).2 r)
      | error e =>
        obtain ⟨r', rfl⟩ := duplicateId_of_register hsuited (layout?_eq_error_iff.1 hl)
        exact ⟨r', ofTree?_eq_duplicateId_iff.2 hl⟩
  · have hnone {t' : StateTree} (ht' : t'.KeysDistinct) (hsame : t'.SameStates t) (r : String) :
        ¬ t'.Foretaken r := by
      intro h
      obtain ⟨path, path', hbefore, hkeeps, hid⟩ := h
      exact hkept r path path' (hbefore.ne ht') (hsame.keepsId hkeeps) (hsame.hasId hid)
    refine ⟨fun r hr => (htold r hr).resolve_right (hnone ht (fun _ => rfl) r), ?_⟩
    intro t' ht' hsame
    rw [exists_layout?_iff ht, exists_layout?_iff ht']
    refine and_congr ⟨hsame.suited ht', hsame.symm.suited ht⟩ (forall_congr' fun r => ?_)
    rw [or_iff_left (hnone ht (fun _ => rfl) r), or_iff_left (hnone ht' hsame.symm r)]
    exact not_congr ⟨hsame.shared, hsame.symm.shared⟩

/-- An office with a lamp whose id is the one that the path of the desk spells. -/
def office (states : List (String × StateTree)) : StateTree :=
  .state { id := some "office", initial := some "desk" } states

/-- The desk has an id of its own, and keeps the one that its path spells. -/
def desk : String × StateTree := ("desk", .state { id := some "table" } [])

/-- The lamp has the id that the path of the desk spells. -/
def deskLamp : String × StateTree := ("lamp", .state { id := some "office.desk" } [])

theorem keysDistinct_office : (office [desk, deskLamp]).KeysDistinct := by
  simp [office, desk, deskLamp, KeysDistinct, KeysDistinctAll, Assoc.Distinct]

/-- The lamp after the desk is reported, although no other state has its id; before the desk it is
not. -/
theorem duplicateId_of_office :
    ofTree? (office [desk, deskLamp]) {} = .error (.duplicateId "office.desk") ∧
      (office [desk, deskLamp]).Foretaken "office.desk" ∧
      ¬ (office [desk, deskLamp]).Shared "office.desk" ∧
      ∃ g, ofTree? (office [deskLamp, desk]) {} = .ok g := by
  have herror : ofTree? (office [desk, deskLamp]) {} = .error (.duplicateId "office.desk") :=
    Outcome.error?_eq_some_iff.1 (by decide +kernel)
  have hshared : ¬ (office [desk, deskLamp]).Shared "office.desk" := by
    intro h
    obtain ⟨path, path', hne, hid, hid'⟩ := h
    have hids : (office [desk, deskLamp]).placesWithDecls.map (fun q => (q.1.path, q.1.id)) =
        [([], "office"), (["desk"], "table"), (["lamp"], "office.desk")] := by decide +kernel
    have hlamp {path : List String} (h : (office [desk, deskLamp]).HasId path "office.desk") :
        path = ["lamp"] := by
      have hmem := mem_of_hasId h
      rw [hids] at hmem
      simpa using hmem
    exact hne ((hlamp hid).trans (hlamp hid').symm)
  have hgraph : ∃ g, ofTree? (office [deskLamp, desk]) {} = .ok g :=
    Outcome.error?_eq_none_iff.1 (by decide +kernel)
  exact ⟨herror, ((duplicateIds_of_ofTree? keysDistinct_office {}).1 _ herror).resolve_left hshared,
    hshared, hgraph⟩

end Graph

end Statechart
