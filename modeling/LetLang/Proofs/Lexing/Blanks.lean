import LetLang.Proofs.Parser.Positions
import LetLang.Proofs.Rendering.Scan

/-!
# Cutting a text at a blank

A blank belongs to no lexeme and ends every lexeme before it, so a text can be
scanned in two pieces that meet at a blank.  Where a piece stands in the text
has an influence on the positions of its tokens and on nothing else.
-/

namespace LetLang

/-! ## Lexemes before a blank -/

theorem takeWhile_append_cons
    {q : Char → Bool} {w : Char} (hw : q w = false) (a b : List Char) :
    (a ++ w :: b).takeWhile q = a.takeWhile q := by
  induction a with
  | nil => simp [hw]
  | cons c a ih => simp [List.takeWhile_cons, ih]

section Blank

variable {w : Char} (hw : isBlank w = true)
include hw

theorem isWordChar_of_isBlank : isWordChar w = false := by
  by_contra hword
  have hblank := isBlank_of_isWordChar (Bool.of_not_eq_false hword)
  exact absurd (hw.symm.trans hblank) (by decide)

theorem isDigit_of_isBlank : w.isDigit = false := by
  by_contra hdigit
  have hword := isWordChar_of_isDigit (Bool.of_not_eq_false hdigit)
  exact absurd (hword.symm.trans (isWordChar_of_isBlank hw)) (by decide)

theorem ne_equals_of_isBlank : w ≠ '=' := by
  rintro rfl
  exact absurd hw (by decide)

/-- The first lexeme of a text does not reach over a blank. -/
theorem Lexeme.first_append_blank (c : Char) (a b : List Char) :
    Lexeme.first c (a ++ w :: b) = Lexeme.first c a := by
  have hhead : (a ++ w :: b).head? = some '=' ↔ a.head? = some '=' := by
    cases a with
    | nil => simp [ne_equals_of_isBlank hw]
    | cons d a => simp
  simp only [Lexeme.first, takeWhile_append_cons (isWordChar_of_isBlank hw),
    takeWhile_append_cons (isDigit_of_isBlank hw), hhead]

/-- The tokens on both sides of a blank are found independently.  The scan may
start inside a lexeme that ends before the blank. -/
theorem scan_append_blank
    (a b : List Char) {busy : Nat} (hbusy : busy ≤ a.length) (p : Position) :
    scan busy p (a ++ w :: b) = scan busy p a ++ scan 0 (p.afterAll (a ++ [w])) b := by
  induction a generalizing busy p with
  | nil =>
      obtain rfl : busy = 0 := Nat.le_zero.mp hbusy
      simp [scan, hw]
  | cons c a ih =>
      cases busy with
      | succ busy =>
          have hlength : busy ≤ a.length := Nat.le_of_succ_le_succ hbusy
          simpa [scan] using ih hlength (p.after c)
      | zero =>
          by_cases hc : isBlank c = true
          · simpa [scan, hc] using ih (Nat.zero_le _) (p.after c)
          · have hlength : (Lexeme.first c a).tail.length ≤ a.length :=
              (Lexeme.tail_first_prefixOf c a).length_le
            simpa [scan, hc, Lexeme.first_append_blank hw] using ih hlength (p.after c)

theorem scan_append_separator
    {separator : String} (hseparator : separator.toList = [w]) (p : Position) (a b : String) :
    scan 0 p (a ++ separator ++ b).toList =
      scan 0 p a.toList ++ scan 0 (p.afterAll (a.toList ++ [w])) b.toList := by
  have htext : (a ++ separator ++ b).toList = a.toList ++ w :: b.toList := by simp [hseparator]
  rw [htext, scan_append_blank hw a.toList b.toList (Nat.zero_le _)]

end Blank

/-! ## Kinds and texts of tokens -/

/-- The tokens of a text do not depend on where the text stands, apart from
their positions. -/
theorem sameText_scan (busy : Nat) (p q : Position) (text : List Char) :
    List.Forall₂ Token.SameText (scan busy p text) (scan busy q text) := by
  induction text generalizing busy p q with
  | nil =>
      rw [scan, scan]
      exact .nil
  | cons c text ih =>
      cases busy with
      | succ busy => exact ih busy _ _
      | zero =>
          by_cases hc : isBlank c = true
          · simpa [scan, hc] using ih 0 (p.after c) (q.after c)
          · simpa [scan, hc, Token.SameText] using ih _ (p.after c) (q.after c)

theorem exists_head?_scan
    {busy : Nat} {p : Position} {text : List Char} {t : Token}
    (ht : t ∈ (scan busy p text).head?) (q : Position) :
    ∃ u ∈ (scan busy q text).head?, u.kind = t.kind := by
  have hscan := sameText_scan busy q p text
  revert ht hscan
  generalize scan busy p text = ts
  generalize scan busy q text = us
  rintro ht (- | ⟨hhead, -⟩)
  · cases ht
  · obtain rfl := Option.some.inj ht
    exact ⟨_, rfl, hhead.1⟩

theorem TokenKind.ofWord_ne_eof (word : String) : TokenKind.ofWord word ≠ .eof := by
  have hkeywords : ∀ k ∈ TokenKind.keywords, k.2 ≠ .eof := by decide
  unfold TokenKind.ofWord
  cases hlookup : TokenKind.keywords.lookup word with
  | none => simp
  | some kind =>
      obtain ⟨before, after, hsplit, -⟩ := List.lookup_eq_some_iff.mp hlookup
      exact hkeywords (word, kind) (by simp [hsplit])

theorem Lexeme.kind_first_ne_eof (c : Char) (rest : List Char) :
    (Lexeme.first c rest).kind ≠ .eof := by
  have hsymbol : (Lexeme.symbol? c).getD .illegal ≠ .eof := by
    unfold Lexeme.symbol?
    split <;> decide
  unfold Lexeme.first
  split
  · exact TokenKind.ofWord_ne_eof _
  split
  · simp
  split
  · simp
  split
  · simp
  · exact hsymbol

/-- No end-of-input token stands among the tokens of a text. -/
theorem kind_ne_eof_of_mem_scan
    {busy : Nat} {p : Position} {text : List Char} {t : Token} (ht : t ∈ scan busy p text) :
    t.kind ≠ .eof := by
  induction text generalizing busy p with
  | nil =>
      rw [scan] at ht
      exact absurd ht List.not_mem_nil
  | cons c text ih =>
      cases busy with
      | succ busy => exact ih ht
      | zero =>
          rw [scan] at ht
          split at ht
          · exact ih ht
          · rcases List.mem_cons.mp ht with rfl | ht
            · exact Lexeme.kind_first_ne_eof c text
            · exact ih ht

end LetLang
