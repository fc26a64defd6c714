import Statechart.Proofs.Facts.Tables

/-!
# What provided implementations change

Two machines of one definition that bring different implementations, side by side. Nothing that is
built or reported looks at what is provided, save the flags that say what is still required. Main
statement: either both definitions have the same fault, or both machines have the same nodes and
their reports differ in these flags alone; a flag tells whether its own name is provided, so where
more is provided less is required.
-/

namespace Statechart

/-! ## 1. Reports that differ in their flags -/

/-- Two lines tell the same of one name, whether it is required apart. -/
structure Line.Alike (line line' : Line) : Prop where
  name_eq : line.name = line'.name
  events_eq : line.events = line'.events
  states_eq : line.states = line'.states

/-- **Two reports tell the same, the flags apart**: the tables of each category have the same lines
in the same order. -/
structure Facts.Alike (f f' : Facts) : Prop where
  id_eq : f.id = f'.id
  paths_eq : f.paths = f'.paths
  states_eq : f.states = f'.states
  lines : ∀ h, List.Forall₂ Line.Alike (f.table h).lines (f'.table h).lines

/-- **A table requires what another one does**: each line does whose line there does, and the table
does where the other one does. -/
structure Table.RequiresAllOf (table table' : Table) : Prop where
  lines : List.Forall₂ (fun line line' => line'.required = true → line.required = true)
    table.lines table'.lines
  whole : table'.required = true → table.required = true

/-- Where each line requires what its line there does, the whole table does. -/
theorem Table.any_required_of_forall₂ {lines lines' : List Line}
    (h : List.Forall₂ (fun line line' => line'.required = true → line.required = true) lines lines')
    (hany : lines'.any Line.required = true) : lines.any Line.required = true := by
  obtain ⟨line', hline', hrequired⟩ := List.any_eq_true.1 hany
  obtain ⟨line, hline, himp⟩ := Outcome.exists_left_of_mem h hline'
  exact List.any_eq_true.2 ⟨line, hline, himp hrequired⟩

/-! ## 2. One graph with other implementations -/

namespace Graph

/-- The graph of the same nodes that brings other implementations. -/
def providing (g : Graph) (p : Provided) : Graph := { g with provided := p }

variable (g : Graph) (p p' : Provided)

@[simp] theorem nodes_providing : (g.providing p).nodes = g.nodes := rfl

@[simp] theorem layout_providing : (g.providing p).layout = g.layout := rfl

@[simp] theorem sources_providing (i : Nat) : (g.providing p).sources i = g.sources i := rfl

@[simp] theorem mentionsOf_providing (h : Handler) :
    (g.providing p).mentionsOf h = g.mentionsOf h := rfl

@[simp] theorem factsWithin_providing (height i : Nat) :
    (g.providing p).factsWithin height i = g.factsWithin height i := by
  induction height generalizing i with
  | zero => rfl
  | succ height ih => simp only [factsWithin, layout_providing, sources_providing, nodes_providing, ih]

/-- **A definition is built without a look at what is provided.** -/
theorem ofTree?_provided (t : StateTree) :
    ofTree? t p' = (fun g => g.providing p') <$> ofTree? t p := by
  simp only [ofTree?, map_bind]
  rfl

/-- Lines are related one by one where those of one name are. -/
theorem forall₂_lines_providing {R : Line → Line → Prop} {h : Handler}
    (hR : ∀ name, R (Table.lineOf (g.mentionsOf h) h g.provided name)
      (Table.lineOf (g.mentionsOf h) h p name)) :
    List.Forall₂ R (g.table h).lines ((g.providing p).table h).lines := by
  rw [lines_table, lines_table, mentionsOf_providing, List.forall₂_map_left_iff,
    List.forall₂_map_right_iff, List.forall₂_same]
  exact fun name _ => hR name

theorem alike_providing (id : String) :
    (Facts.ofGraph g id).Alike (Facts.ofGraph (g.providing p) id) where
  id_eq := rfl
  paths_eq := rfl
  states_eq := (g.factsWithin_providing p g.size 0).symm
  lines h := by
    rw [Facts.table_ofGraph, Facts.table_ofGraph]
    exact g.forall₂_lines_providing p fun name => ⟨rfl, rfl, rfl⟩

/-- A line is required where its name is not provided. -/
theorem required_lineOf (mentions : List Mention) (h : Handler) (name : String) :
    (Table.lineOf mentions h p name).required = true ↔ name ∉ p.names h := by
  rw [Table.lineOf, Bool.not_eq_true', Provided.provides, List.contains_eq_mem,
    decide_eq_false_iff_not]

theorem requiresAllOf_providing {h : Handler} (hnames : g.provided.names h ⊆ p.names h) :
    (g.table h).RequiresAllOf ((g.providing p).table h) := by
  have hlines := g.forall₂_lines_providing p (h := h)
    (R := fun line line' => line'.required = true → line.required = true) fun name hname => by
      rw [required_lineOf] at hname ⊢
      exact fun hg => hname (hnames hg)
  exact ⟨hlines, Table.any_required_of_forall₂ hlines⟩

/-! ## 3. One definition, two sets of implementations -/

/-- **What is provided decides nothing but the flags.** With other implementations a definition has
the same fault, or else the same nodes, and the reports of both machines are alike. The flags of a
line differ just where one machine provides the name and the other does not; where one provides
whatever the other does in a category, the other requires in that category whatever the one does. -/
theorem alike_of_other_provided (t : StateTree) (p p' : Provided) (id : String) :
    (∃ e, ofTree? t p = .error e ∧ ofTree? t p' = .error e) ∨
      ∃ g g', ofTree? t p = .ok g ∧ ofTree? t p' = .ok g' ∧ g.nodes = g'.nodes ∧ g.ids = g'.ids ∧
        (Facts.ofGraph g id).Alike (Facts.ofGraph g' id) ∧
        ∀ h, List.Forall₂ (fun line line' => line.required = line'.required ↔
              (line.name ∈ p.names h ↔ line'.name ∈ p'.names h))
            ((Facts.ofGraph g id).table h).lines ((Facts.ofGraph g' id).table h).lines ∧
          (p.names h ⊆ p'.names h →
            ((Facts.ofGraph g id).table h).RequiresAllOf ((Facts.ofGraph g' id).table h)) := by
  have hother := ofTree?_provided p p' t
  cases hg : ofTree? t p with
  | error e =>
    rw [hg] at hother
    exact Or.inl ⟨e, rfl, hother⟩
  | ok g =>
    rw [hg] at hother
    obtain rfl := provided_of_ofTree? hg
    refine Or.inr ⟨g, g.providing p', rfl, hother, rfl, rfl, g.alike_providing p' id, fun h => ?_⟩
    rw [Facts.table_ofGraph, Facts.table_ofGraph]
    refine ⟨g.forall₂_lines_providing p' fun name => ?_, g.requiresAllOf_providing p'⟩
    rw [Bool.eq_iff_iff, required_lineOf, required_lineOf]
    exact not_iff_not

/-- A boiler that brings its own way to be noisy, beside one that brings nothing. -/
theorem flags_of_noisy_boiler : ∃ g g', ofTree? boiler {} = .ok g ∧
    ofTree? boiler { guards := ["noisy"] } = .ok g' ∧
    ((Facts.ofGraph g "boiler").table .guard).lines.map (fun line => (line.name, line.required)) =
      [("filled", true), ("noisy", true), ("late", true)] ∧
    ((Facts.ofGraph g' "boiler").table .guard).lines.map (fun line => (line.name, line.required)) =
      [("filled", true), ("noisy", false), ("late", true)] ∧
    (Facts.ofGraph g "boiler").Alike (Facts.ofGraph g' "boiler") ∧
    ((Facts.ofGraph g "boiler").table .guard).RequiresAllOf
      ((Facts.ofGraph g' "boiler").table .guard) := by
  obtain ⟨g, hg, hflags⟩ := Outcome.exists_eq_ok (x := ofTree? boiler {})
    (p := fun g => decide (((Facts.ofGraph g "boiler").table .guard).lines.map
      (fun line => (line.name, line.required)) =
        [("filled", true), ("noisy", true), ("late", true)])) (by decide +kernel)
  obtain ⟨g', hg', hflags'⟩ := Outcome.exists_eq_ok (x := ofTree? boiler { guards := ["noisy"] })
    (p := fun g => decide (((Facts.ofGraph g "boiler").table .guard).lines.map
      (fun line => (line.name, line.required)) =
        [("filled", true), ("noisy", false), ("late", true)])) (by decide +kernel)
  rcases alike_of_other_provided boiler {} { guards := ["noisy"] } "boiler" with
    ⟨e, he, -⟩ | ⟨g₀, g₀', hg₀, hg₀', -, -, halike, hflag⟩
  · cases hg.symm.trans he
  · obtain rfl := Except.ok.inj (hg₀.symm.trans hg)
    obtain rfl := Except.ok.inj (hg₀'.symm.trans hg')
    exact ⟨g₀, g₀', hg, hg', of_decide_eq_true hflags, of_decide_eq_true hflags', halike,
      (hflag .guard).2 (List.nil_subset _)⟩

end Graph

end Statechart
