import Statechart.Proofs.Reordering
import Statechart.Proofs.Value.Fits
import Statechart.Proofs.Value.Loops

/-!
# Entries with fields of their own

An entry of a state, a transition or a service fills the field that its key stands for, and what it
fills it with does not depend on the other fields. Main statement: such entries may be worked
through in any order.
-/

namespace Statechart

/-! ## 1. Fields -/

/-- A declaration with what another one has in the field of a key. -/
def StateDecl.withField (key : String) (c d : StateDecl) : StateDecl :=
  match key with
  | "id" => { d with id := c.id }
  | "type" => { d with kind := c.kind }
  | "initial" => { d with initial := c.initial }
  | "on" => { d with on := c.on }
  | "after" => { d with after := c.after }
  | "always" => { d with always := c.always }
  | "onDone" => { d with onDone := c.onDone }
  | "invoke" => { d with invoke := c.invoke }
  | "entry" => { d with entry := c.entry }
  | "exit" => { d with exit := c.exit }
  | "activities" => { d with activities := c.activities }
  | "history" => { d with history := c.history }
  | "target" => { d with target := c.target }
  | _ => d

def TransitionDecl.withField (key : String) (c t : TransitionDecl) : TransitionDecl :=
  match key with
  | "target" => { t with targets := c.targets }
  | "cond" => { t with cond := c.cond }
  | "actions" => { t with actions := c.actions }
  | "internal" => { t with internal := c.internal }
  | _ => t

def InvokeDecl.withField (key : String) (c i : InvokeDecl) : InvokeDecl :=
  match key with
  | "id" => { i with id := c.id }
  | "onDone" => { i with onDone := c.onDone }
  | "onError" => { i with onError := c.onError }
  | "autoForward" => { i with autoForward := c.autoForward }
  | _ => i

theorem StateDecl.withField_comm {key key' : String} (h : key ≠ key') (c c' d : StateDecl) :
    withField key c (withField key' c' d) = withField key' c' (withField key c d) := by
  unfold withField
  split <;> split <;> first
    | rfl
    | exact absurd rfl h

theorem TransitionDecl.withField_comm {key key' : String} (h : key ≠ key')
    (c c' t : TransitionDecl) :
    withField key c (withField key' c' t) = withField key' c' (withField key c t) := by
  unfold withField
  split <;> split <;> first
    | rfl
    | exact absurd rfl h

theorem InvokeDecl.withField_comm {key key' : String} (h : key ≠ key') (c c' i : InvokeDecl) :
    withField key c (withField key' c' i) = withField key' c' (withField key c i) := by
  unfold withField
  split <;> split <;> first
    | rfl
    | exact absurd rfl h

/-- A state with what another one has under a key: the states below it, or a field. -/
def StateTree.withEntry (key : String) (c t : StateTree) : StateTree :=
  if key = "states" then .state t.decl c.children
  else .state (StateDecl.withField key c.decl t.decl) t.children

theorem StateTree.withEntry_comm {key key' : String} (h : key ≠ key') (c c' t : StateTree) :
    withEntry key c (withEntry key' c' t) = withEntry key' c' (withEntry key c t) := by
  unfold withEntry
  by_cases hkey : key = "states"
  · have hkey' : key' ≠ "states" := fun h' => h (hkey.trans h'.symm)
    rw [if_pos hkey, if_neg hkey', if_pos hkey, if_neg hkey']
    rfl
  · by_cases hkey' : key' = "states"
    · rw [if_neg hkey, if_pos hkey', if_neg hkey, if_pos hkey']
      rfl
    · rw [if_neg hkey, if_neg hkey', if_neg hkey, if_neg hkey']
      exact congrArg (StateTree.state · t.children) (StateDecl.withField_comm h c.decl c'.decl t.decl)

namespace Value

/-! ## 2. Entries -/

/-- What an entry of a state says does not depend on what was read before. -/
theorem readStateEntry_eq (d : StateDecl) (key : String) (v : Value) :
    readStateEntry d key v = (readStateEntry {} key v).map (StateDecl.withField key · d) := by
  unfold readStateEntry
  split
  · cases readString v <;> rfl
  · cases readKind v <;> rfl
  · cases readString v <;> rfl
  · cases readTransitionMap v <;> rfl
  · cases readTransitionMap v <;> rfl
  · cases readTransitions v <;> rfl
  · cases readTransitions v <;> rfl
  · cases readEach readInvoke v <;> rfl
  · cases readActions v <;> rfl
  · cases readActions v <;> rfl
  · cases readEach readRef v <;> rfl
  · rfl
  · cases readString v <;> rfl
  · unfold StateDecl.withField
    split <;> first
      | rfl
      | contradiction

theorem readTransitionEntry_eq (t : TransitionDecl) (key : String) (v : Value) :
    readTransitionEntry t key v =
      (readTransitionEntry {} key v).map (TransitionDecl.withField key · t) := by
  unfold readTransitionEntry
  split
  · cases readTargets v <;> rfl
  · cases readRef v <;> rfl
  · cases readActions v <;> rfl
  · rfl
  · unfold TransitionDecl.withField
    split <;> first
      | rfl
      | contradiction

theorem readInvokeEntry_eq (i i₀ : InvokeDecl) (key : String) (v : Value) :
    readInvokeEntry i key v = (readInvokeEntry i₀ key v).map (InvokeDecl.withField key · i) := by
  unfold readInvokeEntry
  split
  · cases readString v <;> rfl
  · cases readTransitions v <;> rfl
  · cases readTransitions v <;> rfl
  · rfl
  · unfold InvokeDecl.withField
    split <;> first
      | rfl
      | contradiction

theorem readTreeEntry_eq (t : StateTree) (key : String) (v : Value) :
    readTreeEntry t key v = (readTreeEntry .empty key v).map (StateTree.withEntry key · t) := by
  unfold readTreeEntry StateTree.withEntry
  split
  · cases readChildren v <;> rfl
  · rw [readStateEntry_eq]
    show _ = ((readStateEntry {} key v).map _).map _
    cases readStateEntry {} key v <;> rfl

/-- **Entries that fill fields of their own do not get in each other's way.** -/
theorem commutes_of_fields {β : Type} {g : β → String → Value → Read β}
    {withField : String → β → β → β} (b₀ : β)
    (hg : ∀ b key v, g b key v = (g b₀ key v).map (withField key · b))
    (hcomm : ∀ {key key' : String}, key ≠ key' → ∀ c c' b,
      withField key c (withField key' c' b) = withField key' c' (withField key c b)) :
    Assoc.Commutes fun b (entry : String × Value) => inside entry.1 (g b entry.1 entry.2) := by
  have hread {b c : β} {key : String} {v : Value} :
      inside key (g b key v) = .ok c ↔ ∃ a, g b₀ key v = .ok a ∧ withField key a b = c := by
    rw [inside_eq_ok, hg b key v, Outcome.map_eq_ok]
  intro b p q c hne h
  obtain ⟨b₁, hb₁, hc⟩ := Outcome.bind_eq_ok.1 h
  obtain ⟨a, ha, rfl⟩ := hread.1 hb₁
  obtain ⟨a', ha', rfl⟩ := hread.1 hc
  refine Outcome.bind_eq_ok.2 ⟨withField q.1 a' b, hread.2 ⟨a', ha', rfl⟩, hread.2 ⟨a, ha, ?_⟩⟩
  exact hcomm hne a a' b

end Value

end Statechart
