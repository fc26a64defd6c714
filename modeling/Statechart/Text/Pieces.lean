/-!
# Pieces of a text

A text is cut at every occurrence of one character. The pieces hold that character nowhere, and
with it between them they are the text again.
-/

namespace Statechart.Text

variable {mark : Char}

/-- The pieces of a text between its marks; a text without a mark is one piece. -/
def pieces (mark : Char) : List Char → List (List Char)
  | [] => [[]]
  | c :: rest =>
    if c = mark then [] :: pieces mark rest
    else
      match pieces mark rest with
      | [] => [[c]]
      | piece :: more => (c :: piece) :: more

@[simp] theorem pieces_nil : pieces mark [] = [[]] := rfl

theorem pieces_ne_nil (cs : List Char) : pieces mark cs ≠ [] := by
  induction cs with
  | nil => simp
  | cons c rest ih =>
    rw [pieces]
    split
    · simp
    · split <;> simp

@[simp] theorem pieces_mark (rest : List Char) :
    pieces mark (mark :: rest) = [] :: pieces mark rest := by
  simp [pieces]

/-- **A text is cut at any of its marks**: what stands before it is cut, and what stands behind. -/
theorem pieces_append (cs rest : List Char) :
    pieces mark (cs ++ mark :: rest) = pieces mark cs ++ pieces mark rest := by
  induction cs with
  | nil => simp
  | cons c cs ih =>
    rw [List.cons_append, pieces, pieces, ih]
    split
    · rfl
    · cases h : pieces mark cs with
      | nil => exact absurd h (pieces_ne_nil cs)
      | cons piece more => rfl

theorem pieces_of_not_mem {piece : List Char} (h : mark ∉ piece) :
    pieces mark piece = [piece] := by
  induction piece with
  | nil => rfl
  | cons c piece ih =>
    have hne : ¬ c = mark := fun e => h (e ▸ List.mem_cons_self)
    simp [pieces, hne, ih fun hp => h (List.mem_cons_of_mem c hp)]

end Statechart.Text
