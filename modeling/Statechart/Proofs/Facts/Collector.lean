import Mathlib.Data.List.Induction
import Statechart.Facts
import Statechart.Proofs.InOrder

/-!
# Tables gathered mention by mention

A collector takes mentions one by one, and keeps for each name what has come of events and states
so far. Main statement: once it has taken all mentions in a graph, its tables are those of the graph.
-/

namespace Statechart

/-! ## 1. The collector -/

/-- What has come so far for one name: events and states, each once and in the order in which they
came. -/
structure Usage where
  events : List String := []
  states : List String := []

namespace Usage

/-- Adds the events and the state of a mention, none of them empty. -/
def add (m : Mention) (u : Usage) : Usage where
  events := (m.events.filter fun e => e != "").foldl (fun es e => Provided.addName e es) u.events
  states := if m.state = "" then u.states else Provided.addName m.state u.states

/-- What some mentions say of a name. -/
def ofMentions (mentions : List Mention) (name : String) : Usage :=
  let own := mentions.filter fun m => m.name == name
  { events := Table.distinctNonempty (own.flatMap Mention.events)
    states := Table.distinctNonempty (own.map Mention.state) }

end Usage

/-- For each category the usages of names, in the order in which the names first came. -/
abbrev Collector := Handler → Assoc Usage

namespace Collector

/-- Takes a mention, unless its name belongs to the runtime. -/
def record (c : Collector) (m : Mention) : Collector :=
  if m.isReserved then c
  else fun h => if m.handler = h then Assoc.adjust m.name {} (Usage.add m) (c h) else c h

/-- What has been taken once all of some mentions are. -/
def ofMentions (mentions : List Mention) : Collector := mentions.foldl record fun _ => []

/-- The table of a category. -/
def finish (c : Collector) (provided : Provided) (h : Handler) : Table :=
  let lines := (c h).map fun (name, usage) =>
    { name, required := !provided.provides h name, events := usage.events, states := usage.states }
  { lines, required := lines.any Line.required }

end Collector

/-! ## 2. Usages -/

theorem Table.distinctNonempty_append (xs ys : List String) :
    distinctNonempty (xs ++ ys) =
      (ys.filter fun s => s != "").foldl (fun zs y => Provided.addName y zs)
        (distinctNonempty xs) := by
  rw [distinctNonempty, distinctNonempty, List.filter_append, foldl_addName_eraseDups]

section

variable {own : List Mention} {m : Mention} {x : String}

/-- A mention changes the usage of its own name. -/
theorem Usage.ofMentions_concat_self (own : List Mention) (m : Mention) :
    ofMentions (own ++ [m]) m.name = add m (ofMentions own m.name) := by
  have hown : (own ++ [m]).filter (fun m' => m'.name == m.name) =
      own.filter (fun m' => m'.name == m.name) ++ [m] := by simp
  rw [ofMentions, hown, List.flatMap_append, List.map_append, Table.distinctNonempty_append,
    Table.distinctNonempty_append, List.flatMap_singleton, List.map_singleton, add]
  by_cases hstate : m.state = ""
  · simp [hstate, ofMentions]
  · simp [hstate, ofMentions]

theorem Usage.ofMentions_concat_ne (own : List Mention) (h : x ≠ m.name) :
    ofMentions (own ++ [m]) x = ofMentions own x := by
  have hown : (own ++ [m]).filter (fun m' => m'.name == x) = own.filter fun m' => m'.name == x := by
    simp [h.symm]
  rw [ofMentions, hown, ofMentions]

/-- Nothing is known of a name that has no mention. -/
theorem Usage.ofMentions_of_not_mem (h : x ∉ own.map Mention.name) : ofMentions own x = {} := by
  have hown : own.filter (fun m => m.name == x) = [] := by
    refine List.filter_eq_nil_iff.2 fun m hm heq => h ?_
    exact List.mem_map.2 ⟨m, hm, beq_iff_eq.1 heq⟩
  rw [ofMentions, hown]
  rfl

end

/-! ## 3. Tables -/

section

variable {α : Type} {f : α → α} {value : String → α} {k : String} {names : List String}

/-- Under a key that is there the value is changed, and no other one is. -/
theorem Assoc.adjust_of_mem (new : α) (hnames : names.Nodup) (hk : k ∈ names) :
    adjust k new f (names.map fun x => (x, value x)) =
      names.map fun x => (x, if x = k then f (value x) else value x) := by
  induction names with
  | nil => cases hk
  | cons x names ih =>
    obtain ⟨hx, hnames⟩ := List.nodup_cons.1 hnames
    rw [List.map_cons, List.map_cons, adjust]
    by_cases hxk : x = k
    · subst hxk
      have hrest : ∀ y ∈ names, (y, value y) = (y, if y = x then f (value y) else value y) := by
        intro y hy
        rw [if_neg fun (e : y = x) => hx (e ▸ hy)]
      rw [if_pos rfl, if_pos rfl, List.map_congr_left hrest]
    · rw [if_neg hxk, if_neg hxk, ih hnames ((List.mem_cons.1 hk).resolve_left (Ne.symm hxk))]

/-- A key that is not there goes to the end. -/
theorem Assoc.adjust_of_not_mem (new : α) (hk : k ∉ names) :
    adjust k new f (names.map fun x => (x, value x)) =
      (names.map fun x => (x, value x)) ++ [(k, f new)] := by
  induction names with
  | nil => rfl
  | cons x names ih =>
    obtain ⟨hx, hnames⟩ := List.ne_and_not_mem_of_not_mem_cons hk
    rw [List.map_cons, adjust, if_neg hx.symm, ih hnames, List.cons_append]

end

/-- One mention more of a category goes into the usages of the names so far. -/
theorem Assoc.adjust_usages (own : List Mention) (m : Mention) :
    adjust m.name {} (Usage.add m)
        ((own.map Mention.name).eraseDups.map fun x => (x, Usage.ofMentions own x)) =
      ((own ++ [m]).map Mention.name).eraseDups.map fun x =>
        (x, Usage.ofMentions (own ++ [m]) x) := by
  rw [List.map_append, List.map_singleton, eraseDups_concat, Provided.addName]
  by_cases hm : m.name ∈ (own.map Mention.name).eraseDups
  · rw [if_pos hm, adjust_of_mem _ (nodup_eraseDups _) hm]
    refine List.map_congr_left fun x _ => ?_
    by_cases hx : x = m.name
    · rw [if_pos hx, hx, Usage.ofMentions_concat_self]
    · rw [if_neg hx, Usage.ofMentions_concat_ne own hx]
  · have hnew := Usage.ofMentions_of_not_mem (mt List.mem_eraseDups.2 hm)
    rw [if_neg hm, adjust_of_not_mem _ hm, List.map_append, List.map_singleton,
      Usage.ofMentions_concat_self, hnew]
    refine congrArg (· ++ _) (List.map_congr_left fun x hx => ?_)
    rw [Usage.ofMentions_concat_ne own fun e => hm (e ▸ hx)]

namespace Collector

theorem ofMentions_concat (mentions : List Mention) (m : Mention) :
    ofMentions (mentions ++ [m]) = (ofMentions mentions).record m := by
  rw [ofMentions, List.foldl_append, List.foldl_cons, List.foldl_nil, ofMentions]

/-- **What a collector keeps after some mentions**: the names of each category, in the order of
first mention, each with what the mentions say of it. The induction is on the mentions, from the
last one on. -/
theorem ofMentions_eq (mentions : List Mention) (h : Handler) :
    let own := (mentions.filter fun m => !m.isReserved).filter fun m => m.handler == h
    ofMentions mentions h =
      (own.map Mention.name).eraseDups.map fun x => (x, Usage.ofMentions own x) := by
  induction mentions using List.reverseRecOn with
  | nil => rfl
  | append_singleton mentions m ih =>
    dsimp only at ih ⊢
    rw [ofMentions_concat, record, List.filter_append, List.filter_append]
    by_cases hreserved : m.isReserved = true
    · simpa [hreserved] using ih
    · by_cases hm : m.handler = h
      · simpa [hreserved, hm, ih] using Assoc.adjust_usages _ m
      · simpa [hreserved, hm] using ih

/-- **The collector gives the tables of the mentions it has taken.** -/
theorem finish_ofMentions (mentions : List Mention) (provided : Provided) (h : Handler) :
    (ofMentions mentions).finish provided h =
      Table.ofMentions (mentions.filter fun m => !m.isReserved) provided h := by
  have hlines : ((ofMentions mentions h).map fun (name, usage) =>
      ({ name, required := !provided.provides h name, events := usage.events,
         states := usage.states } : Line)) =
      (Table.ofMentions (mentions.filter fun m => !m.isReserved) provided h).lines := by
    rw [ofMentions_eq, List.map_map]
    rfl
  rw [finish, hlines]
  rfl

end Collector

/-- **The tables of a graph are those of a collector** that takes the mentions of its nodes one by
one, those of the runtime's names among them. -/
theorem Graph.table_eq_finish (g : Graph) (h : Handler) :
    g.table h = (Collector.ofMentions
      (g.nodes.zipIdx.flatMap fun (n, i) => Mention.ofNode (g.sources i) n)).finish
        g.provided h :=
  (Collector.finish_ofMentions _ g.provided h).symm

end Statechart
