import Statechart.Proofs.Source.Escape
import Statechart.Source.Expression
import Statechart.Source.Grammar.Statements

/-!
# String literals

What is read of a quoted string or of a template without substitutions, beside the value that it has
in a module. A literal is given by its parts, each a character that stands for itself or an escape;
what is recognised may join several parts in one leaf. Main statement: what is read is the value of
the literal exactly if none of its escapes is misread.
-/

namespace Statechart.Source

open Text Pattern

/-! ## 1. Literals and their values -/

/-- A part of a literal: a character that stands for itself, or an escape. -/
inductive Piece
  | plain (c : Char)
  | escape (e : LegalEscape)

namespace Piece

/-- The text of a part. -/
def text : Piece → List Char
  | plain c => [c]
  | escape e => e.text

/-- The code units that a part stands for. -/
def units : Piece → List Nat
  | plain c => unitsOfCode c.toNat
  | escape e => e.units

/-- What is decoded from a part. -/
def decoded : Piece → List Char
  | plain c => [c]
  | escape e => e.decoded

/-- The text of some parts. -/
def textOf (pieces : List Piece) : List Char := pieces.flatMap text

end Piece

/-- What stands around a literal; between backquotes it is a template. -/
inductive Quote
  | single
  | double
  | back
deriving DecidableEq

namespace Quote

/-- The character of a quote. -/
def char : Quote → Char
  | single => '\''
  | double => '"'
  | back => '\x60'

/-- The part may stand before a character. Of a template, line feeds are parts, but not what begins
a substitution; no digit follows a zero that is escaped, and no line feed a carriage return. -/
def Allows (q : Quote) : Piece → Char → Prop
  | .plain c, next =>
    c ≠ q.char ∧ c ≠ '\\' ∧ c ≠ '\r' ∧ (if q = back then c = '$' → next ≠ '{' else c ≠ '\n')
  | .escape e, next =>
    (e.body = ['0'] → next.isDigit = false) ∧ (e.body = ['\r'] → next ≠ '\n')

/-- Each part may stand before what follows it, which is the closing quote at the end. -/
def AllowsAll (q : Quote) : List Piece → Prop
  | [] => True
  | p :: rest => q.Allows p ((Piece.textOf rest).headD q.char) ∧ q.AllowsAll rest

end Quote

/-- **A quoted string, or a template without substitutions**, as a module may hold it. -/
structure StringLiteral where
  quote : Quote
  pieces : List Piece
  legal : quote.AllowsAll pieces

namespace StringLiteral

/-- The text of a literal with its quotes. -/
def text (l : StringLiteral) : List Char :=
  l.quote.char :: Piece.textOf l.pieces ++ [l.quote.char]

/-- The value of a literal, in code units. -/
def units (l : StringLiteral) : List Nat := l.pieces.flatMap Piece.units

end StringLiteral

/-! ## 2. Plain text -/

namespace Quote

/-- The unit of plain text. -/
def lexeme : Quote → Lexeme
  | single => .singleQuoted
  | double => .doubleQuoted
  | back => .templateText

/-- The character is plain text between quotes that close a line. -/
def isPlain (q : Quote) (c : Char) : Bool := c != q.char && c != '\\' && c != '\n' && c != '\r'

/-- The plain text at the front, and what remains. -/
def front (q : Quote) (cs : List Char) : List Char × List Char :=
  if q = back then Lexeme.templateChars cs else (cs.takeWhile q.isPlain, cs.dropWhile q.isPlain)

theorem read_lexeme (q : Quote) (cs : List Char) :
    q.lexeme.read cs = if (q.front cs).1.isEmpty then none else some (q.front cs) := by
  cases q <;> rfl

variable {q : Quote} {c next : Char} {cs : List Char}

theorem front_plain (h : q.Allows (.plain c) next) :
    q.front (c :: next :: cs) = (c :: (q.front (next :: cs)).1, (q.front (next :: cs)).2) := by
  obtain ⟨hquote, hbackslash, hreturn, hrest⟩ := h
  by_cases hq : q = back
  · subst hq
    rw [if_pos rfl] at hrest
    show Lexeme.templateChars (c :: next :: cs) = _
    have hbackquote : ¬ (c.toNat = 0x60 ∨ c = '\\') :=
      not_or.2 ⟨fun h => hquote (Char.toNat_inj.1 h), hbackslash⟩
    rw [Lexeme.templateChars]
    · simp only [Bool.or_eq_true, decide_eq_true_eq, if_neg hbackquote]
      rfl
    · intro rest hc hnext
      exact hrest hc (List.cons.inj hnext).1
  · rw [if_neg hq] at hrest
    have hc : q.isPlain c = true := by simp [isPlain, hquote, hbackslash, hreturn, hrest]
    simp only [front, if_neg hq]
    rw [List.takeWhile_cons_of_pos hc, List.dropWhile_cons_of_pos hc]

theorem front_stop (h : c = '\\' ∨ c = q.char) : q.front (c :: cs) = ([], c :: cs) := by
  by_cases hq : q = back
  · subst hq
    show Lexeme.templateChars (c :: cs) = _
    obtain rfl | rfl := h <;> rfl
  · have hc : ¬ q.isPlain c = true := by
      obtain rfl | rfl := h <;> simp [isPlain]
    simp only [front, if_neg hq]
    rw [List.takeWhile_cons_of_neg hc, List.dropWhile_cons_of_neg hc]

/-- What remains of a literal starts with the character that the parts may stand before. -/
theorem exists_headD (q : Quote) (pieces : List Piece) (after : List Char) :
    ∃ cs, Piece.textOf pieces ++ q.char :: after =
      (Piece.textOf pieces).headD q.char :: cs := by
  cases Piece.textOf pieces with
  | nil => exact ⟨after, rfl⟩
  | cons c cs => exact ⟨cs ++ q.char :: after, rfl⟩

/-- **The plain text at the front of some parts** is that of the plain ones, one after the other. -/
theorem exists_front {pieces : List Piece} (h : q.AllowsAll pieces) (after : List Char) :
    ∃ cs left, pieces = cs.map .plain ++ left ∧
      q.front (Piece.textOf pieces ++ q.char :: after) =
        (cs, Piece.textOf left ++ q.char :: after) ∧
      (cs = [] → ∀ c rest, pieces ≠ .plain c :: rest) := by
  induction pieces with
  | nil => exact ⟨[], [], rfl, front_stop (.inr rfl), fun _ => nofun⟩
  | cons p rest ih =>
    obtain ⟨hp, hrest⟩ := h
    cases p with
    | escape e => exact ⟨[], _, rfl, front_stop (.inl rfl), fun _ => nofun⟩
    | plain c =>
      obtain ⟨cs, left, rfl, hfront, -⟩ := ih hrest
      obtain ⟨after', hafter⟩ := exists_headD q (cs.map .plain ++ left) after
      refine ⟨c :: cs, left, rfl, ?_, nofun⟩
      show q.front (c :: (Piece.textOf _ ++ q.char :: after)) = _
      rw [hafter, front_plain hp, ← hafter, hfront]

end Quote

/-! ## 3. Patterns -/

section Patterns

variable {grammar : Phrase → Pattern} {fuel : Nat} {s : Surroundings} {p : Cursor}

theorem run_bare (c : String) :
    (bare c).run grammar (fuel + 1) s p =
      (afterFront? c.toList p.rest).map fun rest => ([], p.rightAfter [] rest) := rfl

theorem run_mark (c : String) :
    (mark c).run grammar (fuel + 1) s p =
      match afterFront? c.toList p.rest with
      | some rest =>
        if rest.head?.any fun d => "".toList.contains d then none
        else some ([], (p.rightAfter [] rest).skip)
      | none => none := rfl

theorem run_bareLeaf (kind : Kind) (lexeme : Lexeme) :
    (bareLeaf kind lexeme).run grammar (fuel + 1) s p =
      (lexeme.read p.rest).map fun (front, rest) =>
        ([.leaf kind (String.ofList front) p.line], p.rightAfter front rest) := rfl

theorem run_seq (parts : List Pattern) :
    (seq parts).run grammar (fuel + 1) s p = runSeq (run grammar fuel s) parts p := rfl

theorem run_choice (options : List Pattern) :
    (choice options).run grammar (fuel + 1) s p =
      options.findSome? fun q => q.run grammar fuel s p := rfl

theorem run_many (inner : Pattern) :
    (many inner).run grammar (fuel + 1) s p =
      some (runMany (inner.run grammar fuel s) fuel p) := rfl

theorem run_node (kind : Kind) (inner : Pattern) :
    (Pattern.node kind inner).run grammar (fuel + 1) s p =
      (inner.run grammar fuel s p).map fun (ts, q) => ([.node kind ts], q) := rfl

theorem run_phrase (f : Phrase) :
    (Pattern.phrase f).run grammar (fuel + 1) s p = (grammar f).run grammar fuel s p := rfl

theorem run_bareLeaf_eq_none {kind : Kind} {lexeme : Lexeme} (h : lexeme.read p.rest = none)
    (fuel : Nat) : (bareLeaf kind lexeme).run grammar fuel s p = none := by
  cases fuel with
  | zero => rfl
  | succ fuel =>
    rw [run_bareLeaf, h]
    rfl

theorem run_node_eq_none {kind : Kind} {inner : Pattern}
    (h : ∀ fuel, inner.run grammar fuel s p = none) (fuel : Nat) :
    (Pattern.node kind inner).run grammar fuel s p = none := by
  cases fuel with
  | zero => rfl
  | succ fuel =>
    rw [run_node, h fuel]
    rfl

theorem run_seq_eq_none {first : Pattern} {rest : List Pattern}
    (h : ∀ fuel, first.run grammar fuel s p = none) (fuel : Nat) :
    (seq (first :: rest)).run grammar fuel s p = none := by
  cases fuel with
  | zero => rfl
  | succ fuel => rw [run_seq, runSeq, h fuel]

theorem run_choice_eq_none {options : List Pattern}
    (h : ∀ o ∈ options, ∀ fuel, o.run grammar fuel s p = none) (fuel : Nat) :
    (choice options).run grammar fuel s p = none := by
  cases fuel with
  | zero => rfl
  | succ fuel =>
    rw [run_choice]
    exact List.findSome?_eq_none_iff.2 fun o ho => h o ho fuel

end Patterns

/-! ## 4. Steps -/

namespace Quote

/-- The patterns of what may stand between the quotes. -/
def options (q : Quote) : List Pattern :=
  .bareLeaf .stringFragment q.lexeme :: .bareLeaf .escapeSequence .escape ::
    if q = back then [.node .templateSubstitution
      (seq [mark ("$" ++ Grammar.openBrace), inside (phrase .expression), bare Grammar.closeBrace])]
    else []

/-- The quote as a mark. -/
def sign : Quote → String
  | single => "'"
  | double => "\""
  | back => "`"

/-- The pattern of a literal with its quotes. -/
def pattern (q : Quote) : Pattern := seq [bare q.sign, many (choice q.options), mark q.sign]

theorem grammar_string :
    Grammar.string = .node .string (choice [double.pattern, single.pattern]) := rfl

theorem grammar_template : Grammar.template = .node .templateString back.pattern := rfl

variable {q : Quote} {fuel : Nat} {s : Surroundings} {p : Cursor} {front rest : List Char}

theorem run_fragment (h : q.lexeme.read p.rest = some (front, rest)) :
    (choice q.options).run Grammar.grammar (fuel + 2) s p =
      some ([.leaf .stringFragment (String.ofList front) p.line], p.rightAfter front rest) := by
  have hleaf : (bareLeaf .stringFragment q.lexeme).run Grammar.grammar (fuel + 1) s p =
      some ([.leaf .stringFragment (String.ofList front) p.line], p.rightAfter front rest) := by
    rw [run_bareLeaf, h]
    rfl
  rw [run_choice, options, List.findSome?_cons, hleaf]

theorem run_escape (h : q.lexeme.read p.rest = none)
    (hescape : Lexeme.readEscape p.rest = some (front, rest)) :
    (choice q.options).run Grammar.grammar (fuel + 2) s p =
      some ([.leaf .escapeSequence (String.ofList front) p.line], p.rightAfter front rest) := by
  have hplain : (bareLeaf .stringFragment q.lexeme).run Grammar.grammar (fuel + 1) s p = none :=
    run_bareLeaf_eq_none h _
  have hleaf : (bareLeaf .escapeSequence .escape).run Grammar.grammar (fuel + 1) s p =
      some ([.leaf .escapeSequence (String.ofList front) p.line], p.rightAfter front rest) := by
    have hread : Lexeme.escape.read p.rest = some (front, rest) := hescape
    rw [run_bareLeaf, hread]
    rfl
  rw [run_choice, options, List.findSome?_cons, hplain, List.findSome?_cons, hleaf]

/-- Nothing is recognised at the closing quote. -/
theorem run_stop (h : p.rest = q.char :: rest) :
    (choice q.options).run Grammar.grammar fuel s p = none := by
  revert fuel
  have hplain : q.lexeme.read p.rest = none := by
    rw [h, read_lexeme, front_stop (.inr rfl)]
    rfl
  have hescape : Lexeme.escape.read p.rest = none := by
    rw [h]
    cases q <;> rfl
  refine run_choice_eq_none fun o ho => ?_
  unfold options at ho
  obtain rfl | rfl | ho := List.mem_cons.1 ho |>.imp_right List.mem_cons.1
  · exact run_bareLeaf_eq_none hplain
  · exact run_bareLeaf_eq_none hescape
  · split at ho
    · next hq =>
      obtain rfl := List.mem_singleton.1 ho
      refine run_node_eq_none (run_seq_eq_none fun fuel => ?_)
      cases fuel with
      | zero => rfl
      | succ fuel =>
        rw [run_mark, h, hq]
        rfl
    · cases ho

end Quote

/-! ## 5. Runs -/

namespace Piece

theorem textOf_append (ps qs : List Piece) : textOf (ps ++ qs) = textOf ps ++ textOf qs :=
  List.flatMap_append

theorem textOf_plain (cs : List Char) : textOf (cs.map plain) = cs := by
  induction cs with
  | nil => rfl
  | cons c cs ih =>
    show c :: textOf (cs.map plain) = c :: cs
    rw [ih]

/-- What is decoded from some parts. -/
def decodedOf (pieces : List Piece) : List Char := pieces.flatMap decoded

theorem decodedOf_append (ps qs : List Piece) :
    decodedOf (ps ++ qs) = decodedOf ps ++ decodedOf qs :=
  List.flatMap_append

theorem decodedOf_plain (cs : List Char) : decodedOf (cs.map plain) = cs := by
  induction cs with
  | nil => rfl
  | cons c cs ih =>
    show c :: decodedOf (cs.map plain) = c :: cs
    rw [ih]

end Piece

namespace Quote

open Piece

variable {q : Quote} {pieces : List Piece}

theorem AllowsAll.right {taken left : List Piece} (h : q.AllowsAll (taken ++ left)) :
    q.AllowsAll left := by
  induction taken with
  | nil => exact h
  | cons p rest ih => exact ih h.2

/-- A line end is no quote and no backslash, so that it is a part of its own. -/
theorem exists_lineEnd {rest : List Piece} {after after' : List Char} {d : Char}
    (h : textOf rest ++ q.char :: after = d :: after') (hd : isLineEnd d = true) :
    ∃ left, rest = .plain d :: left ∧ after' = textOf left ++ q.char :: after := by
  cases rest with
  | nil =>
    obtain rfl := (List.cons.inj h).1
    cases q <;> cases hd
  | cons p left =>
    cases p with
    | plain c =>
      obtain ⟨rfl, rfl⟩ := List.cons.inj h
      exact ⟨left, rfl, rfl⟩
    | escape e =>
      obtain rfl := (List.cons.inj h).1
      cases hd

/-- An escape is taken whole from the front of some parts, with the part after it where that is a
line end which the escape takes in. -/
theorem exists_escape {e : LegalEscape} {rest : List Piece} (h : q.AllowsAll (.escape e :: rest))
    (after : List Char) :
    ∃ taken left, .escape e :: rest = taken ++ left ∧ taken ≠ [] ∧
      Lexeme.readEscape (textOf (.escape e :: rest) ++ q.char :: after) =
        some (textOf taken, textOf left ++ q.char :: after) ∧
      Escape.decode (textOf taken) = decodedOf taken := by
  obtain ⟨⟨hzero, hreturn⟩, -⟩ := h
  obtain ⟨after', hafter⟩ := exists_headD q rest after
  have htext : textOf (.escape e :: rest) ++ q.char :: after =
      '\\' :: e.body ++ (textOf rest ++ q.char :: after) := List.append_assoc _ _ _
  have hhead : (textOf rest ++ q.char :: after).head? = some ((textOf rest).headD q.char) := by
    rw [hafter]
    rfl
  have hone : textOf [.escape e] = e.text := List.append_nil _
  rw [htext]
  have htaken : Lexeme.Taken e.body (textOf rest ++ q.char :: after) :=
    Lexeme.taken_of_bodyText e.spelled
      (fun hbody d hd => Option.some.inj (hhead.symm.trans hd) ▸ hzero hbody)
      (fun hbody hd => hreturn hbody (Option.some.inj (hhead.symm.trans hd)))
  cases htaken with
  | alone hread =>
    refine ⟨[.escape e], rest, rfl, List.cons_ne_nil _ _, ?_, ?_⟩
    · rw [hone]
      exact hread
    · rw [hone]
      exact (List.append_nil _).symm
  | @joined d rest' hnext hd hbody hread =>
    obtain ⟨left, rfl, rfl⟩ := exists_lineEnd hnext hd
    refine ⟨[.escape e, .plain d], left, rfl, List.cons_ne_nil _ _, hread, ?_⟩
    exact Escape.decodeBody_joined hd hbody

/-- **One step:** at the front of some parts a leaf is recognised that takes one part or more, and
its text is what is decoded from them. -/
theorem exists_step (h : q.AllowsAll pieces) (hne : pieces ≠ []) (fuel : Nat) (s : Surroundings)
    (line : Nat) (fresh : Bool) (after : List Char) :
    ∃ taken left t, pieces = taken ++ left ∧ taken ≠ [] ∧
      (choice q.options).run Grammar.grammar (fuel + 2) s
          ⟨textOf pieces ++ q.char :: after, line, fresh⟩ =
        some ([t], ⟨textOf left ++ q.char :: after, line + (textOf taken).count '\n', false⟩) ∧
      t.kind ≠ .templateSubstitution ∧ t.partText = String.ofList (decodedOf taken) := by
  obtain ⟨cs, left, hpieces, hfront, hplain⟩ := exists_front h after
  have hread := read_lexeme q (textOf pieces ++ q.char :: after)
  rw [hfront] at hread
  cases cs with
  | cons c cs =>
    refine ⟨(c :: cs).map .plain, left, .leaf .stringFragment (String.ofList (c :: cs)) line,
      hpieces, List.cons_ne_nil _ _, ?_⟩
    rw [textOf_plain, decodedOf_plain]
    exact ⟨run_fragment hread, nofun, rfl⟩
  | nil =>
    cases pieces with
    | nil => exact absurd rfl hne
    | cons p rest =>
      cases p with
      | plain c => exact absurd rfl (hplain rfl c rest)
      | escape e =>
        obtain ⟨taken, left, htaken, hne, hescape, hdecode⟩ := exists_escape h after
        refine ⟨taken, left, .leaf .escapeSequence (String.ofList (textOf taken)) line, htaken, hne,
          run_escape hread hescape, nofun, ?_⟩
        show String.ofList (Escape.decode (String.ofList (textOf taken)).toList) = _
        rw [String.toList_ofList, hdecode]

/-- **All parts:** what is recognised up to the closing quote has the text that is decoded from
them. -/
theorem exists_run {pieces : List Piece} {bound : Nat} (h : q.AllowsAll pieces)
    (hbound : pieces.length ≤ bound) (fuel : Nat) (s : Surroundings) (line : Nat)
    (after : List Char) :
    ∃ ts, runMany ((choice q.options).run Grammar.grammar (fuel + 2) s) bound
          ⟨textOf pieces ++ q.char :: after, line, false⟩ =
        (ts, ⟨q.char :: after, line + (textOf pieces).count '\n', false⟩) ∧
      (∀ t ∈ ts, t.kind ≠ .templateSubstitution) ∧
      Tree.stringText ts = String.ofList (decodedOf pieces) := by
  induction bound generalizing pieces line with
  | zero =>
    obtain rfl := List.length_eq_zero_iff.1 (Nat.le_zero.1 hbound)
    exact ⟨[], rfl, List.forall_mem_nil _, rfl⟩
  | succ bound ih =>
    by_cases hne : pieces = []
    · subst hne
      refine ⟨[], ?_, List.forall_mem_nil _, rfl⟩
      rw [runMany, run_stop rfl]
      rfl
    · obtain ⟨taken, left, t, rfl, htaken, hrun, hkind, htext⟩ :=
        exists_step h hne fuel s line false after
      have hpos := List.length_pos_iff.2 htaken
      rw [List.length_append] at hbound
      have hleft : left.length ≤ bound := by omega
      obtain ⟨ts, hts, hkinds, hrest⟩ := ih h.right hleft (line + (textOf taken).count '\n')
      refine ⟨t :: ts, ?_, List.forall_mem_cons.2 ⟨hkind, hkinds⟩, ?_⟩
      · rw [runMany, hrun]
        dsimp only
        rw [hts, textOf_append, List.count_append, Nat.add_assoc]
        rfl
      · rw [Tree.stringText, List.map_cons, String.join_cons, htext, decodedOf_append,
          String.ofList_append, ← hrest]
        rfl

theorem afterFront?_singleton (c : Char) (cs : List Char) :
    afterFront? [c] (c :: cs) = some cs := by
  simp [afterFront?, List.isPrefixOf?]

/-- **A literal with its quotes** is recognised, and what follows it is next. -/
theorem exists_run_pattern {fuel : Nat} {s : Surroundings} {p : Cursor} {after : List Char}
    (h : q.AllowsAll pieces) (hp : p.rest = q.char :: textOf pieces ++ q.char :: after)
    (hfuel : pieces.length + 4 ≤ fuel) :
    ∃ ts, q.pattern.run Grammar.grammar fuel s p =
        some (ts, skipGaps .blanks false (p.line + (textOf pieces).count '\n') after) ∧
      (∀ t ∈ ts, t.kind ≠ .templateSubstitution) ∧
      Tree.stringText ts = String.ofList (decodedOf pieces) := by
  obtain ⟨m, rfl⟩ : ∃ m, fuel = m + 4 := ⟨fuel - 4, by omega⟩
  have hsign : q.sign.toList = [q.char] := by cases q <;> rfl
  have hopen : (bare q.sign).run Grammar.grammar (m + 3) s p =
      some ([], ⟨textOf pieces ++ q.char :: after, p.line, false⟩) := by
    rw [run_bare, hp, hsign, List.cons_append, afterFront?_singleton]
    rfl
  have hbound : pieces.length ≤ m + 2 := by omega
  obtain ⟨ts, hrun, hkinds, htext⟩ := exists_run h hbound m s p.line after
  have hmany : (many (choice q.options)).run Grammar.grammar (m + 3) s
      ⟨textOf pieces ++ q.char :: after, p.line, false⟩ =
        some (ts, ⟨q.char :: after, p.line + (textOf pieces).count '\n', false⟩) := by
    rw [run_many, hrun]
  have hclose (line : Nat) : (mark q.sign).run Grammar.grammar (m + 3) s
      ⟨q.char :: after, line, false⟩ = some ([], skipGaps .blanks false line after) := by
    rw [run_mark, hsign, afterFront?_singleton]
    simp [Cursor.rightAfter, Cursor.skip]
  refine ⟨ts, ?_, hkinds, htext⟩
  rw [pattern, run_seq, runSeq, hopen]
  dsimp only
  rw [runSeq, hmany]
  dsimp only
  rw [runSeq, hclose]
  dsimp only
  rw [runSeq]
  simp

end Quote

/-! ## 6. Values -/

namespace Piece

/-- No part is decoded to fewer units than it stands for. -/
theorem length_units_le (p : Piece) : p.units.length ≤ (utf16 p.decoded).length := by
  cases p with
  | plain c => exact Nat.le_of_eq (congrArg List.length (utf16_singleton c).symm)
  | escape e =>
    by_cases h : e.Misread
    · exact Nat.le_of_lt (LegalEscape.length_lt_length_utf16 h)
    · exact Nat.le_of_eq (congrArg List.length (LegalEscape.utf16_decoded h).symm)

theorem length_unitsOf_le (pieces : List Piece) :
    (pieces.flatMap units).length ≤ (utf16 (decodedOf pieces)).length := by
  induction pieces with
  | nil => exact Nat.le_refl _
  | cons p rest ih =>
    have hp := length_units_le p
    have hdecoded : decodedOf (p :: rest) = p.decoded ++ decodedOf rest := rfl
    rw [hdecoded, utf16_append, List.flatMap_cons, List.length_append, List.length_append]
    exact Nat.add_le_add hp ih

/-- A misread escape makes the text longer. -/
theorem length_unitsOf_lt {pieces : List Piece} {e : LegalEscape} (he : .escape e ∈ pieces)
    (h : e.Misread) : (pieces.flatMap units).length < (utf16 (decodedOf pieces)).length := by
  obtain ⟨before, rest, rfl⟩ := List.append_of_mem he
  have hlt : e.units.length < (utf16 e.decoded).length := LegalEscape.length_lt_length_utf16 h
  have hbefore := length_unitsOf_le before
  have hrest := length_unitsOf_le rest
  have hdecoded : decodedOf (before ++ .escape e :: rest) =
      decodedOf before ++ (e.decoded ++ decodedOf rest) := decodedOf_append _ _
  have hunits : (before ++ .escape e :: rest).flatMap units =
      before.flatMap units ++ (e.units ++ rest.flatMap units) := List.flatMap_append
  rw [hdecoded, hunits, utf16_append, utf16_append]
  simp only [List.length_append]
  omega

/-- Where no escape is misread, what is decoded has the units of the parts. -/
theorem utf16_decodedOf {pieces : List Piece} (h : ∀ e, .escape e ∈ pieces → ¬ e.Misread) :
    utf16 (decodedOf pieces) = pieces.flatMap units := by
  induction pieces with
  | nil => rfl
  | cons p rest ih =>
    have hp : utf16 p.decoded = p.units := by
      cases p with
      | plain c => exact utf16_singleton c
      | escape e => exact LegalEscape.utf16_decoded (h e List.mem_cons_self)
    have hdecoded : decodedOf (p :: rest) = p.decoded ++ decodedOf rest := rfl
    rw [hdecoded, utf16_append, hp, ih fun e he => h e (List.mem_cons_of_mem _ he)]
    rfl

end Piece

namespace Quote

/-- The phrase of a literal. -/
def phrase : Quote → Phrase
  | back => .template
  | _ => .string

/-- The kind of node that a literal gives. -/
def kind : Quote → Kind
  | back => .templateString
  | _ => .string

/-- The expression of a literal in which nothing is substituted is its text. -/
theorem expression_node (q : Quote) {parts : List Tree}
    (h : ∀ t ∈ parts, t.kind ≠ .templateSubstitution) :
    (Tree.node q.kind parts).expression = .string (Tree.stringText parts) := by
  have hany : (parts.any fun t => t.kind = .templateSubstitution) = false :=
    List.any_eq_false.2 fun t ht => by simp [h t ht]
  cases q with
  | back =>
    rw [kind, Tree.expression, Tree.templateText?, hany]
    rfl
  | single =>
    show (Tree.node .string parts).expression = _
    rw [Tree.expression]
  | double =>
    show (Tree.node .string parts).expression = _
    rw [Tree.expression]

/-- A literal is recognised as its phrase, with a little more fuel. -/
theorem exists_run_phrase (q : Quote) {s : Surroundings} {p : Cursor} {rest : List Char}
    (hp : p.rest = q.char :: rest) (fuel : Nat) :
    ∃ k, fuel ≤ k ∧ ∀ ts r, q.pattern.run Grammar.grammar k s p = some (ts, r) →
      (Pattern.phrase q.phrase).run Grammar.grammar (fuel + 3) s p =
        some ([.node q.kind ts], r) := by
  have hchoice (ts : List Tree) (r : Cursor)
      (h : (choice [double.pattern, single.pattern]).run Grammar.grammar (fuel + 1) s p =
        some (ts, r)) :
      (Pattern.phrase .string).run Grammar.grammar (fuel + 3) s p =
        some ([.node .string ts], r) := by
    rw [run_phrase, Grammar.grammar, grammar_string, run_node, h]
    rfl
  cases q with
  | back =>
    refine ⟨fuel + 1, Nat.le_succ fuel, fun ts r h => ?_⟩
    rw [phrase, run_phrase, Grammar.grammar, grammar_template, run_node, h]
    rfl
  | double =>
    refine ⟨fuel, Nat.le_refl fuel, fun ts r h => hchoice ts r ?_⟩
    rw [run_choice, List.findSome?_cons, h]
  | single =>
    refine ⟨fuel, Nat.le_refl fuel, fun ts r h => hchoice ts r ?_⟩
    have hdouble : double.pattern.run Grammar.grammar fuel s p = none := by
      refine run_seq_eq_none (fun fuel => ?_) fuel
      cases fuel with
      | zero => rfl
      | succ fuel =>
        rw [run_bare, hp]
        rfl
    rw [run_choice, List.findSome?_cons, hdouble, List.findSome?_cons, h]

end Quote

namespace StringLiteral

open Piece

/-- **A literal is read to its value exactly if no escape in it is misread.** Wherever a quoted
string or a template without substitutions stands, it is recognised as a whole, and the text that is
read for it is the one with the code units of the literal unless one of its escapes names a
surrogate, also in a pair, or joins two lines at a separator. -/
theorem stringText_eq_iff (l : StringLiteral) (s : Surroundings) {p : Cursor} {after : List Char}
    {fuel : Nat} (hp : p.rest = l.text ++ after) (hfuel : l.pieces.length + 7 ≤ fuel) :
    ∃ parts, (Pattern.phrase l.quote.phrase).run Grammar.grammar fuel s p =
        some ([.node l.quote.kind parts],
          skipGaps .blanks false (p.line + l.text.count '\n') after) ∧
      (Tree.node l.quote.kind parts).expression = .string (Tree.stringText parts) ∧
      ∀ value : String, utf16 value.toList = l.units →
        (Tree.stringText parts = value ↔ ∀ e, .escape e ∈ l.pieces → ¬ e.Misread) := by
  obtain ⟨m, rfl⟩ : ∃ m, fuel = m + 3 := ⟨fuel - 3, by omega⟩
  have hstart : p.rest = l.quote.char :: textOf l.pieces ++ l.quote.char :: after := by
    rw [hp, text, List.append_assoc]
    rfl
  have hcount : l.text.count '\n' = (textOf l.pieces).count '\n' := by
    have hnone : [l.quote.char].count '\n' = 0 := by cases l.quote <;> decide
    rw [text, List.count_append, hnone, ← List.singleton_append, List.count_append, hnone]
    omega
  obtain ⟨k, hk, hphrase⟩ := l.quote.exists_run_phrase (s := s) hstart m
  obtain ⟨ts, hrun, hkinds, htext⟩ := Quote.exists_run_pattern (s := s) l.legal hstart
    (by omega : l.pieces.length + 4 ≤ k)
  rw [← hcount] at hrun
  refine ⟨ts, hphrase _ _ hrun, l.quote.expression_node hkinds, fun value hvalue => ?_⟩
  rw [htext]
  refine ⟨fun heq e he hmisread => ?_, fun hgood => ?_⟩
  · -- a misread escape would make the text longer than the value
    have hlt := length_unitsOf_lt he hmisread
    rw [← heq, String.toList_ofList] at hvalue
    rw [hvalue] at hlt
    exact Nat.lt_irrefl _ hlt
  · have hsame : decodedOf l.pieces = value.toList :=
      utf16_inj ((utf16_decodedOf hgood).trans hvalue.symm)
    rw [hsame, String.ofList_toList]

/-- A smiling face, as a pair of surrogates in single quotes. -/
def face : StringLiteral :=
  have high : Numeral.AreDigits 16 ['d', '8', '3', 'd'] [13, 8, 3, 13] :=
    .cons rfl (.cons rfl (.cons rfl (.cons rfl .nil)))
  have low : Numeral.AreDigits 16 ['d', 'e', '0', '0'] [13, 14, 0, 0] :=
    .cons rfl (.cons rfl (.cons rfl (.cons rfl .nil)))
  { quote := .single
    pieces := [.escape ⟨_, _, .number (.four high rfl)⟩, .escape ⟨_, _, .number (.four low rfl)⟩]
    legal := ⟨⟨nofun, nofun⟩, ⟨nofun, nofun⟩, trivial⟩ }

/-- A pair of surrogates is not read as the character that it stands for. -/
theorem stringText_face :
    ∃ parts, (Pattern.phrase .string).run Grammar.grammar 9 ⟨false, true⟩
          ⟨"'\\ud83d\\ude00'".toList, 1, false⟩ =
        some ([.node .string parts], ⟨[], 1, false⟩) ∧
      utf16 "😀".toList = face.units ∧ Tree.stringText parts ≠ "😀" := by
  let p : Cursor := ⟨"'\\ud83d\\ude00'".toList, 1, false⟩
  have hp : p.rest = face.text ++ [] := by decide
  have hfuel : face.pieces.length + 7 ≤ 9 := by decide
  obtain ⟨parts, hrun, -, hvalue⟩ := face.stringText_eq_iff ⟨false, true⟩ hp hfuel
  have hunits : utf16 "😀".toList = face.units := by decide
  refine ⟨parts, hrun, hunits, fun heq => ?_⟩
  exact (hvalue "😀" hunits).1 heq _ List.mem_cons_self (.inl ⟨0xD83D, rfl, by decide, by decide⟩)

end StringLiteral

end Statechart.Source
