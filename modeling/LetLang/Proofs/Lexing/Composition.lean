import LetLang.Proofs.Lexing.Segmentation

/-!
# Two texts with a blank between them

A text, a blank and another text have the tokens of the first text, followed by
those of the second one, wherever the first text breaks off.  The tokens of the
second text keep their kinds and texts and move to other places: down by the
lines in front of them and, as long as they stand on the first line of their own
text, to the right by what stands in front of that line.
-/

namespace LetLang

/-- Where a place of a text lies when another text is put in front of it. -/
def Position.moved (before : List Char) (p : Position) : Position :=
  ⟨p.line + before.count '\n',
    if p.line = 1 then p.column + (before.rtakeWhile (· ≠ '\n')).length else p.column⟩

/-- A token when another text is put in front of its own. -/
def Token.moved (before : List Char) (t : Token) : Token :=
  { t with position := t.position.moved before }

namespace Position

variable {before : List Char} {p : Position}

theorem moved_start (before : List Char) : start.moved before = behind before := rfl

theorem line_le_after (p : Position) (c : Char) : p.line ≤ (p.after c).line := by
  unfold after
  split
  · exact Nat.le_succ p.line
  · exact Nat.le_refl p.line

/-- A step in a text that was moved is a moved step.  On line zero, which no text
has, it is not. -/
theorem after_moved (hp : 1 ≤ p.line) (c : Char) :
    (p.moved before).after c = (p.after c).moved before := by
  unfold after moved
  by_cases hc : c = '\n'
  · have hline : ¬p.line + 1 = 1 := by omega
    rw [if_pos hc, if_pos hc, if_neg hline, Nat.add_right_comm]
  · rw [if_neg hc, if_neg hc]
    by_cases hline : p.line = 1
    · rw [if_pos hline, if_pos hline, Nat.add_right_comm]
    · rw [if_neg hline, if_neg hline]

theorem afterAll_moved (hp : 1 ≤ p.line) (text : List Char) :
    (p.moved before).afterAll text = (p.afterAll text).moved before := by
  induction text generalizing p with
  | nil => rfl
  | cons c text ih =>
      rw [afterAll_cons, afterAll_cons, after_moved hp, ih (hp.trans (p.line_le_after c))]

end Position

/-- The tokens of a text that was moved are moved tokens. -/
theorem scan_moved
    {before : List Char} {p : Position} (hp : 1 ≤ p.line) (busy : Nat) (text : List Char) :
    scan busy (p.moved before) text = (scan busy p text).map (Token.moved before) := by
  induction text generalizing busy p with
  | nil =>
      rw [scan, scan]
      rfl
  | cons c text ih =>
      have hrest (busy : Nat) :
          scan busy ((p.moved before).after c) text =
            (scan busy (p.after c) text).map (Token.moved before) := by
        rw [Position.after_moved hp]
        exact ih (hp.trans (p.line_le_after c)) busy
      cases busy with
      | succ busy =>
          rw [scan, scan]
          exact hrest busy
      | zero =>
          rw [scan, scan]
          split
          · exact hrest 0
          · exact congrArg (List.cons _) (hrest _)

namespace TokenStream

/-- A stream all of whose places are moved. -/
def moved (before : List Char) (s : TokenStream) : TokenStream :=
  ⟨s.tokens.map (Token.moved before), s.ending.moved before⟩

theorem head_moved (before : List Char) (s : TokenStream) :
    (s.moved before).head = s.head.moved before := by
  obtain ⟨tokens, ending⟩ := s
  cases tokens with
  | nil => rfl
  | cons t ts => rfl

theorem tail_moved (before : List Char) (s : TokenStream) :
    (s.moved before).tail = s.tail.moved before := by
  rw [moved, moved, tail, tail, List.map_tail]

theorem take_moved (before : List Char) (s : TokenStream) (n : Nat) :
    (s.moved before).take n = (s.take n).map (Token.moved before) := by
  induction n generalizing s with
  | zero => rfl
  | succ n ih => rw [take, take, List.map_cons, head_moved, tail_moved, ih]

theorem take_append (ts : List Token) (s : TokenStream) (n : Nat) :
    take (ts.length + n) ⟨ts ++ s.tokens, s.ending⟩ = ts ++ s.take n := by
  induction ts with
  | nil =>
      rw [List.length_nil, Nat.zero_add]
      rfl
  | cons t ts ih =>
      rw [List.length_cons, Nat.add_right_comm, List.cons_append, take, head_cons, tail_cons, ih,
        List.cons_append]

/-- The tokens of two texts with a blank between them. -/
theorem ofSource_append_singleton (a b : String) {w : Char} (hw : w ∈ blanks) :
    ofSource (a ++ String.singleton w ++ b) =
      ⟨(ofSource a).tokens ++ ((ofSource b).moved (a.toList ++ [w])).tokens,
        ((ofSource b).moved (a.toList ++ [w])).ending⟩ := by
  have hbefore : Position.start.afterAll (a.toList ++ [w]) =
      Position.start.moved (a.toList ++ [w]) := by
    rw [Position.afterAll_start, Position.moved_start]
  have htext : (a ++ String.singleton w ++ b).toList = a.toList ++ [w] ++ b.toList := by
    simp
  have hending : Position.start.afterAll (a.toList ++ [w] ++ b.toList) =
      (Position.start.afterAll b.toList).moved (a.toList ++ [w]) := by
    rw [Position.afterAll_append, hbefore, Position.afterAll_moved (Nat.le_refl 1)]
  have htokens := scan_append_separator (isBlank_iff.mpr hw)
    (String.toList_singleton w) .start a b
  rw [hbefore, scan_moved (Nat.le_refl 1)] at htokens
  rw [ofSource, htokens, htext, hending]
  rfl

end TokenStream

/-- With a blank between them, two texts have the tokens of the first one,
unchanged, and then those of the second one at places that have moved by the first
text and the blank, and so has the end of the input.  Drawn one after the other,
the tokens are those of the first text and then what the second text alone would
give, its end-of-input tokens included. -/
theorem tokens_compose_at_blank (a b : String) (w : Char) (hw : w ∈ blanks) :
    (TokenStream.ofSource (a ++ String.singleton w ++ b)).tokens =
      (TokenStream.ofSource a).tokens ++
        (TokenStream.ofSource b).tokens.map (Token.moved (a.toList ++ [w])) ∧
    (TokenStream.ofSource (a ++ String.singleton w ++ b)).ending =
      (TokenStream.ofSource b).ending.moved (a.toList ++ [w]) ∧
    ∀ n, (TokenStream.ofSource (a ++ String.singleton w ++ b)).take
        ((TokenStream.ofSource a).tokens.length + n) =
      (TokenStream.ofSource a).tokens ++
        ((TokenStream.ofSource b).take n).map (Token.moved (a.toList ++ [w])) := by
  rw [TokenStream.ofSource_append_singleton a b hw]
  refine ⟨rfl, rfl, ?_⟩
  intro n
  rw [TokenStream.take_append, TokenStream.take_moved]

/-- The line feed parts two equals signs, behind a character of two bytes. -/
theorem tokens_compose_at_line_feed :
    ∃ (a b : String) (w : Char) (ts us : List Token),
      a = "x\né =" ∧ b = "= 1\n y" ∧ w = '\n' ∧ w ∈ blanks ∧
      ts = [⟨.ident, "x", ⟨1, 1⟩⟩, ⟨.illegal, "é", ⟨2, 1⟩⟩, ⟨.assign, "=", ⟨2, 3⟩⟩] ∧
      us = [⟨.assign, "=", ⟨3, 1⟩⟩, ⟨.int, "1", ⟨3, 3⟩⟩, ⟨.ident, "y", ⟨4, 2⟩⟩] ∧
      (TokenStream.ofSource (a ++ String.singleton w ++ b)).tokens = ts ++ us ∧
      (TokenStream.ofSource (a ++ String.singleton w ++ b)).ending = ⟨4, 3⟩ := by
  have hw : '\n' ∈ blanks := by decide
  obtain ⟨htokens, hending, -⟩ := tokens_compose_at_blank "x\né =" "= 1\n y" '\n' hw
  exact ⟨_, _, _, _, _, rfl, rfl, rfl, hw, rfl, rfl, htokens, hending⟩

end LetLang
