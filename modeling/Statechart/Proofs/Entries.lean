import Mathlib.Data.List.Induction
import Statechart.Proofs.InOrder
import Statechart.Shape.Read

/-!
# Entries of objects

What the entries of an object that is written out say about its keys. Main statement: where each
key is written out, the keys keep the places where they come first and have the values that come
last under them.
-/

namespace Statechart.Entry

/-! ## 1. Keys and values -/

/-- The key and the value of an entry whose key is written out. -/
def pair? : Entry → Option (String × Expression)
  | keyed key value => some (key, value)
  | _ => none

/-- No key is computed, and no entries are taken over from elsewhere. -/
def AllWritten (entries : List Entry) : Prop :=
  ∀ entry ∈ entries, ∃ key value, entry = keyed key value

/-- The distinct keys that are written out, in the order in which they first come. -/
def keys (entries : List Entry) : List String :=
  ((entries.filterMap pair?).map Prod.fst).eraseDups

/-- The value that is written last under a key. -/
def last? (entries : List Entry) (key : String) : Option Expression :=
  (entries.filterMap pair?).reverse.lookup key

/-! ## 2. One entry more -/

variable {entries : List Entry} {key : String} {value : Expression}

theorem keyed?_concat (entries : List Entry) (entry : Entry) :
    keyed? (entries ++ [entry]) =
      (keyed? entries).bind fun m => entry.pair?.map fun p => Assoc.put p.1 p.2 m := by
  unfold keyed?
  rw [List.foldlM_append]
  cases entry <;> rfl

theorem keys_concat :
    keys (entries ++ [keyed key value]) =
      if key ∈ keys entries then keys entries else keys entries ++ [key] := by
  have hpairs : (entries ++ [keyed key value]).filterMap pair? =
      entries.filterMap pair? ++ [(key, value)] := by
    rw [List.filterMap_append]
    rfl
  unfold keys
  rw [hpairs, List.map_append, eraseDups_append_filter]
  generalize (entries.filterMap pair?).map Prod.fst = before
  by_cases hkey : key ∈ before
  · rw [if_pos (List.mem_eraseDups.2 hkey)]
    simp [List.eraseDups_cons, hkey]
  · rw [if_neg fun hmem => hkey (List.mem_eraseDups.1 hmem)]
    simp [List.eraseDups_cons, hkey]

theorem last?_concat (key' : String) :
    last? (entries ++ [keyed key value]) key' =
      if key' = key then some value else last? entries key' := by
  have hpairs : (entries ++ [keyed key value]).filterMap pair? =
      entries.filterMap pair? ++ [(key, value)] := by
    rw [List.filterMap_append]
    rfl
  unfold last?
  rw [hpairs, List.reverse_append, List.reverse_singleton, List.singleton_append, List.lookup_cons]
  by_cases hkey : key' = key
  · rw [if_pos hkey, hkey, beq_self_eq_true]
  · have hne : (key' == key) = false := by simpa using hkey
    rw [if_neg hkey, hne]

/-! ## 3. All entries -/

/-- **The keys of an object keep their first places and their last values**, and there is an object
only where all of them are written out. -/
theorem keys_of_keyed? {m : Assoc Expression} (h : keyed? entries = some m) :
    AllWritten entries ∧ m.keys = keys entries ∧ ∀ key, m.lookup key = last? entries key := by
  induction entries using List.reverseRecOn generalizing m with
  | nil =>
    obtain rfl := Option.some.inj h
    exact ⟨List.forall_mem_nil _, rfl, fun _ => rfl⟩
  | append_singleton rest entry ih =>
    rw [keyed?_concat] at h
    obtain ⟨m', hm', h⟩ := Option.bind_eq_some_iff.1 h
    obtain ⟨hwritten, hkeys, hlookup⟩ := ih hm'
    cases entry with
    | keyed key value =>
      obtain rfl := Option.some.inj h
      refine ⟨fun entry hentry => ?_, ?_, fun key' => ?_⟩
      · rcases List.mem_append.1 hentry with hentry | hentry
        · exact hwritten entry hentry
        · exact ⟨key, value, List.mem_singleton.1 hentry⟩
      · rw [Assoc.keys_put, keys_concat, hkeys]
      · rw [last?_concat]
        by_cases hkey : key' = key
        · rw [if_pos hkey, hkey, Assoc.lookup_put_self]
        · rw [if_neg hkey, Assoc.lookup_put_ne hkey, hlookup]
    | computed _ => cases h
    | spread _ => cases h

/-- Where all keys are written out there is an object. -/
theorem exists_keyed? (h : AllWritten entries) : ∃ m, keyed? entries = some m := by
  induction entries using List.reverseRecOn with
  | nil => exact ⟨[], rfl⟩
  | append_singleton rest entry ih =>
    obtain ⟨m, hm⟩ := ih fun entry' hentry' => h entry' (List.mem_append_left _ hentry')
    obtain ⟨key, value, rfl⟩ := h entry (by simp)
    exact ⟨Assoc.put key value m, by rw [keyed?_concat, hm]; rfl⟩

/-! ## 4. One entry among others -/

theorem mem_of_last? (h : last? entries key = some value) : keyed key value ∈ entries := by
  have hmem := List.mem_reverse.1 (Assoc.mem_of_lookup h)
  obtain ⟨entry, hentry, hpair⟩ := List.mem_filterMap.1 hmem
  cases entry with
  | keyed key' value' =>
    obtain ⟨rfl, rfl⟩ := Prod.mk.inj (Option.some.inj hpair)
    exact hentry
  | computed _ => cases hpair
  | spread _ => cases hpair

/-- What is written under a key is the last that is, unless it is written again. -/
theorem last?_of_split {before after : List Entry} (h : key ∉ keys after) :
    last? (before ++ keyed key value :: after) key = some value := by
  have hpairs : (before ++ keyed key value :: after).filterMap pair? =
      before.filterMap pair? ++ (key, value) :: after.filterMap pair? := by
    rw [List.filterMap_append]
    rfl
  have hafter : key ∉ Assoc.keys (after.filterMap pair?).reverse := by
    intro hmem
    refine h (List.mem_eraseDups.2 ?_)
    simpa [Assoc.keys] using hmem
  unfold last?
  rw [hpairs, List.reverse_append, List.reverse_cons, List.append_assoc]
  exact Assoc.lookup_eq_some_iff.2 ⟨_, _, rfl, hafter⟩

end Statechart.Entry
