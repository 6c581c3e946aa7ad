import LetLang.Proofs.Parser.Cutoff
import LetLang.Proofs.Parser.Positions

/-!
# Nothing behind the nesting limit matters

Running into the nesting limit is the last thing that is reported, and the token
at which it happens is the last one that has any influence: two lists of tokens
that agree up to and including that token yield the same program and the same
errors.

At which token it happens is read off the error, once every token stands at a
position of its own.  That is no restriction, since positions have no influence
on the reading.
-/

namespace LetLang

/-! ## The wording -/

theorem SyntaxError.Cause.getElem?_message_ne
    {cause : SyntaxError.Cause} (h : cause.isLocal = true) :
    cause.message.toList[3]? ≠ some 'r' := by
  cases cause with
  | nestedTooDeeply => cases h
  | stated text => cases h
  | _ =>
      unfold message
      simp only [String.toList_append]
      exact nofun

theorem SyntaxError.Cause.message_ne_of_isLocal
    {cause : SyntaxError.Cause} (h : cause.isLocal = true) :
    cause.message ≠ "expression nested too deeply" := by
  intro heq
  apply getElem?_message_ne h
  rw [heq]
  rfl

theorem Program.message_ne_of_mem_dropLast_reported
    {s : TokenStream} {e : SyntaxError}
    (he : e ∈ (SyntaxError.reported (Program.read s).errors).dropLast) :
    e.message ≠ "expression nested too deeply" := by
  have hmem : e ∈ (Program.read s).errors :=
    (SyntaxError.reported_prefix _).subset (List.dropLast_subset _ he)
  rcases (Parser.inherited_traced.program Parser.maxNesting).located s e hmem with
    hlocal | ⟨hnested, -⟩
  · exact SyntaxError.Cause.message_ne_of_isLocal hlocal
  · exact absurd ⟨e, he, hnested⟩ (SyntaxError.not_hitsLimit_dropLast_reported _)

/-! ## The token at which the limit is hit -/

/-- The tokens with their indices for positions. -/
def TokenStream.numbered (ts : List Token) : TokenStream :=
  ⟨ts.mapIdx fun i t => { t with position := ⟨i, 0⟩ }, ⟨ts.length, 0⟩⟩

/-- The token at index `i` is the current one when the nesting limit is hit. -/
def HitsLimitAt (ts : List Token) (i : Nat) : Prop :=
  ⟨.nestedTooDeeply, some ⟨i, 0⟩⟩ ∈
    SyntaxError.reported (Program.read (.numbered ts)).errors

instance (ts : List Token) (i : Nat) : Decidable (HitsLimitAt ts i) :=
  inferInstanceAs (Decidable (_ ∈ SyntaxError.reported (Program.read (.numbered ts)).errors))

theorem SyntaxError.exists_mem_reported
    {V : Token → Token → Prop} {errors errors' : List SyntaxError} {e : SyntaxError}
    (h : List.Forall₂ (SyntaxError.Alike V) errors errors') (he : e ∈ reported errors) :
    ∃ e' ∈ reported errors', e.Alike V e' := by
  induction h with
  | nil => exact absurd he List.not_mem_nil
  | @cons first first' errors errors' hfirst _ ih =>
      by_cases hcause : first.cause = .nestedTooDeeply
      · have hcause' : first'.cause = .nestedTooDeeply := hfirst.cause ▸ hcause
        rw [reported, if_pos hcause, List.mem_singleton] at he
        rw [reported, if_pos hcause', he]
        exact ⟨first', List.mem_singleton_self _, hfirst⟩
      · have hcause' : first'.cause ≠ .nestedTooDeeply := hfirst.cause ▸ hcause
        rw [reported, if_neg hcause] at he
        rw [reported, if_neg hcause']
        rcases List.mem_cons.mp he with rfl | he
        · exact ⟨first', List.mem_cons_self, hfirst⟩
        · obtain ⟨e', he', halike⟩ := ih he
          exact ⟨e', List.mem_cons_of_mem _ he', halike⟩

theorem TokenStream.exists_line_of_offers_numbered
    {ts : List Token} {t : Token} (h : (TokenStream.numbered ts).Offers t) :
    ∃ i, t.position = ⟨i, 0⟩ := by
  rcases h with ht | ht
  · obtain ⟨i, hi, rfl⟩ := List.mem_mapIdx.mp ht
    exact ⟨i, rfl⟩
  · exact ⟨ts.length, congrArg Token.position ht⟩

/-- Wherever the limit is hit, there is an index at which it is. -/
theorem exists_hitsLimitAt
    {ts : List Token} (h : (Program.read (.ofList ts)).HitsLimit) : ∃ i, HitsLimitAt ts i := by
  have hsame : (TokenStream.ofList ts).Alike Token.SameText (TokenStream.numbered ts) := by
    constructor
    · rw [List.forall₂_iff_get]
      refine ⟨by simp [TokenStream.ofList, TokenStream.numbered], fun j hj hj' => ?_⟩
      simp [TokenStream.ofList, TokenStream.numbered, Token.SameText]
    · exact ⟨rfl, rfl⟩
  obtain ⟨e, he, hnested⟩ := SyntaxError.hitsLimit_reported h
  obtain ⟨⟨cause, position⟩, he', hcause, -⟩ :=
    SyntaxError.exists_mem_reported (Program.alike_read (fun _ _ => id) hsame).errors he
  have hmem := (SyntaxError.reported_prefix _).subset he'
  obtain rfl : cause = .nestedTooDeeply := hcause.symm.trans hnested
  obtain ⟨t, ht, hposition⟩ :=
    (Parser.inherited_traced.program Parser.maxNesting).exists_offers hmem rfl
  obtain ⟨i, hi⟩ := TokenStream.exists_line_of_offers_numbered ht
  obtain rfl : position = some ⟨i, 0⟩ := by rw [← hi]; exact hposition
  exact ⟨i, he'⟩

/-- A stream of the same tokens at other positions corresponds to the numbered one,
and only to the number `i` does the token with index `i` correspond. -/
theorem TokenStream.alike_numbered
    {ts : List Token} {s : TokenStream} (hs : List.Forall₂ Token.SameText ts s.tokens)
    {i : Nat} {t : Token} (ht : s.tokens[i]? = some t) :
    (TokenStream.numbered ts).Alike
      (fun u v => u.SameText v ∧ (u.position = ⟨i, 0⟩ → v.position = t.position)) s := by
  obtain ⟨hi, hget⟩ := List.getElem?_eq_some_iff.mp ht
  have hlength : ts.length = s.tokens.length := hs.length_eq
  constructor
  · rw [List.forall₂_iff_get]
    refine ⟨by simp [TokenStream.numbered, hlength], fun j hj hj' => ?_⟩
    have htext := hs.get (by rwa [hlength]) hj'
    refine ⟨by simpa [TokenStream.numbered, Token.SameText] using htext, fun hposition => ?_⟩
    have hij : j = i := by simpa [TokenStream.numbered] using hposition
    subst hij
    rw [← hget]
    rfl
  · refine ⟨⟨rfl, rfl⟩, fun hposition => ?_⟩
    have hend : ts.length = i := congrArg Position.line hposition
    omega

/-- Whatever the positions are, the error stands at the token with that index. -/
theorem HitsLimitAt.mem_reported
    {ts : List Token} {i : Nat} (h : HitsLimitAt ts i) {s : TokenStream}
    (hs : List.Forall₂ Token.SameText ts s.tokens) {t : Token} (ht : s.tokens[i]? = some t) :
    ⟨.nestedTooDeeply, some t.position⟩ ∈ SyntaxError.reported (Program.read s).errors := by
  have halike := Program.alike_read (fun _ _ huv => huv.1) (TokenStream.alike_numbered hs ht)
  obtain ⟨⟨cause, position⟩, he, hcause, u, v, huv, hu, hv⟩ :=
    SyntaxError.exists_mem_reported halike.errors h
  have hposition : v.position = t.position := huv.2 (Option.some.inj hu).symm
  have herror : (⟨cause, position⟩ : SyntaxError) = ⟨.nestedTooDeeply, some t.position⟩ := by
    rw [← hposition]
    exact congr (congrArg SyntaxError.mk hcause.symm) hv
  exact herror ▸ he

/-! ## What follows the token is without influence -/

/-- A program does not settle before the end of the input. -/
theorem Parser.not_settles_program
    {c d : List Token} (hc : EofFree c) {value : Option Program} {errors : List SyntaxError} :
    ¬(program maxNesting).Settles c value d errors := by
  intro hsettles
  let s : TokenStream := ⟨[⟨.semicolon, ";", ⟨0, 0⟩⟩], ⟨0, 0⟩⟩
  have hs : EofFree s.tokens := by simp [EofFree, s]
  have hrest : (Program.read (s.prepend c)).rest = ⟨[], s.ending⟩ :=
    Program.rest_read_of_forall_ne_eof (hc.append hs)
  have hsettled := (hsettles s).2.1.symm.trans hrest
  simp [TokenStream.prepend, s] at hsettled

/-- If the tokens up to one with index `i` are all read, the limit is not hit at
that one.  The tokens behind it are moved to another line, where the error would
have to stand. -/
theorem Parser.Passes.not_hitsLimitAt
    {ts : List Token} {i : Nat} (hi : i < ts.length)
    (h : (program maxNesting).Passes (ts.take (i + 1))) : ¬HitsLimitAt ts i := by
  intro hlimit
  let elsewhere : Position := ⟨ts[i].position.line + 1, 0⟩
  let s : TokenStream :=
    ⟨(ts.drop (i + 1)).map fun t => { t with position := elsewhere }, elsewhere⟩
  have htext : List.Forall₂ Token.SameText ts (s.prepend (ts.take (i + 1))).tokens := by
    have hsplit : List.Forall₂ Token.SameText (ts.take (i + 1) ++ ts.drop (i + 1))
        (ts.take (i + 1) ++ s.tokens) := by
      apply List.rel_append
      · exact List.forall₂_same.mpr fun _ _ => ⟨rfl, rfl⟩
      · exact List.forall₂_map_right_iff.mpr (List.forall₂_same.mpr fun _ _ => ⟨rfl, rfl⟩)
    rwa [List.take_append_drop] at hsplit
  have ht : (s.prepend (ts.take (i + 1))).tokens[i]? = some ts[i] := by
    have hlt : i < (ts.take (i + 1)).length := by
      rw [List.length_take]
      omega
    simp [TokenStream.prepend, List.getElem?_append_left hlt]
  have hmem := (SyntaxError.reported_prefix _).subset (hlimit.mem_reported htext ht)
  obtain ⟨t, hoffers, hposition⟩ := h.limit s _ hmem rfl
  have helsewhere : t.position = elsewhere := by
    rcases hoffers with ht | ht
    · obtain ⟨u, -, rfl⟩ := List.mem_map.mp ht
      rfl
    · rw [ht]
      rfl
  have hline : ts[i].position.line = ts[i].position.line + 1 :=
    congrArg Position.line ((Option.some.inj hposition).trans helsewhere)
  omega

/-- On the tokens up to the one at which the limit is hit the input is cut off. -/
theorem HitsLimitAt.exists_cutsOff
    {ts : List Token} {i : Nat} (h : HitsLimitAt ts i) (hts : EofFree ts)
    (hi : i < ts.length) :
    ∃ errors, (Parser.program Parser.maxNesting).CutsOff (ts.take (i + 1)) errors := by
  have hc : EofFree (ts.take (i + 1)) := fun t ht => hts t (List.mem_of_mem_take ht)
  cases (Parser.inherited_foreseen.program Parser.maxNesting).decided _ hc with
  | cutsOff hcuts => exact ⟨_, hcuts⟩
  | settles hsettles _ => exact absurd hsettles (Parser.not_settles_program hc)
  | passes hpasses => exact absurd h (hpasses.not_hitsLimitAt hi)

theorem Parser.CutsOff.read_ofList
    {c : List Token} {errors : List SyntaxError}
    (h : (Parser.program Parser.maxNesting).CutsOff c errors) {ts us : List Token}
    (hts : EofFree ts) (hus : EofFree us) :
    (Program.read (.ofList (c ++ us))).value = (Program.read (.ofList (c ++ ts))).value ∧
      SyntaxError.reported (Program.read (.ofList (c ++ us))).errors =
        SyntaxError.reported (Program.read (.ofList (c ++ ts))).errors := by
  let ending (rest : List Token) : Position := (TokenStream.ofList (c ++ rest)).ending
  have hdropped (rest : List Token) (hrest : EofFree rest) := h.dropped ⟨rest, ending rest⟩ hrest
  have hending : (Program.read ⟨c, ending us⟩).value = (Program.read ⟨c, ending ts⟩).value := by
    refine (Program.alike_read (V := Token.SameText) (fun _ _ => id) ?_).value
    exact ⟨List.forall₂_same.mpr fun _ _ => ⟨rfl, rfl⟩, ⟨rfl, rfl⟩⟩
  constructor
  · calc (Program.read (.ofList (c ++ us))).value
      _ = (Program.read ⟨c, ending us⟩).value := (hdropped us hus).1
      _ = (Program.read ⟨c, ending ts⟩).value := hending
      _ = (Program.read (.ofList (c ++ ts))).value := (hdropped ts hts).1.symm
  · calc SyntaxError.reported (Program.read (.ofList (c ++ us))).errors
      _ = errors := (hdropped us hus).2.2
      _ = SyntaxError.reported (Program.read (.ofList (c ++ ts))).errors :=
          (hdropped ts hts).2.2.symm

/-- The error about the nesting is reported at most once and as the last one, and
reading on finds nothing more.  If the limit is hit, then at the token with some
index `i`, and then every list of tokens that agrees up to and including that
token yields the same program and the same errors. -/
theorem nesting_limit_cuts_input
    (ts : List Token) (hts : ∀ t ∈ ts, t.kind ≠ .eof) :
    (∀ e ∈ (SyntaxError.reported (Program.read (.ofList ts)).errors).dropLast,
      e.message ≠ "expression nested too deeply") ∧
    ((Program.read (Program.read (.ofList ts)).rest).value = some ⟨[]⟩ ∧
      SyntaxError.reported ((Program.read (.ofList ts)).errors ++
          (Program.read (Program.read (.ofList ts)).rest).errors) =
        SyntaxError.reported (Program.read (.ofList ts)).errors) ∧
    ((Program.read (.ofList ts)).HitsLimit → ∃ i, HitsLimitAt ts i) ∧
    ∀ i, HitsLimitAt ts i → ∀ us : List Token, (∀ t ∈ us, t.kind ≠ .eof) →
      us.take (i + 1) = ts.take (i + 1) →
        (Program.read (.ofList us)).value = (Program.read (.ofList ts)).value ∧
        SyntaxError.reported (Program.read (.ofList us)).errors =
          SyntaxError.reported (Program.read (.ofList ts)).errors := by
  refine ⟨fun e => Program.message_ne_of_mem_dropLast_reported, ?_, exists_hitsLimitAt, ?_⟩
  · have hrest : (Program.read (.ofList ts)).rest = ⟨[], (TokenStream.ofList ts).ending⟩ :=
      Program.rest_read_of_forall_ne_eof hts
    rw [hrest, Program.read_nil, List.append_nil]
    exact ⟨rfl, rfl⟩
  · intro i hlimit us hus htake
    by_cases hi : i < ts.length
    · obtain ⟨errors, hcuts⟩ := hlimit.exists_cutsOff hts hi
      have hdrop : EofFree (ts.drop (i + 1)) := fun t ht => hts t (List.mem_of_mem_drop ht)
      have hdrop' : EofFree (us.drop (i + 1)) := fun t ht => hus t (List.mem_of_mem_drop ht)
      have hread := hcuts.read_ofList hdrop hdrop'
      rwa [List.take_append_drop, ← htake, List.take_append_drop] at hread
    · have hwhole : ts.take (i + 1) = ts := List.take_of_length_le (by omega)
      have hshort : us.length ≤ i + 1 := by
        have hlength := congrArg List.length (htake.trans hwhole)
        rw [List.length_take] at hlength
        omega
      rw [← hwhole, ← htake, List.take_of_length_le hshort]
      exact ⟨rfl, rfl⟩

/-- In a block there is room for 255 operators, so the limit is hit at the one
after them.  The block has begun by then, and what is read of it stays, whether
the list ends there or goes on. -/
theorem nesting_limit_cuts_input_block :
    ∃ ts us : List Token,
      ts = [⟨.ident, "x", ⟨1, 1⟩⟩, ⟨.lbrace, "\x7b", ⟨1, 3⟩⟩, ⟨.ident, "y", ⟨1, 5⟩⟩,
        ⟨.semicolon, ";", ⟨1, 6⟩⟩] ++ List.replicate 256 ⟨.bang, "!", ⟨1, 8⟩⟩ ∧
      us = ts ++ [⟨.int, "7", ⟨1, 9⟩⟩, ⟨.rparen, ")", ⟨1, 10⟩⟩] ∧
      (∀ t ∈ ts, t.kind ≠ .eof) ∧ (∀ t ∈ us, t.kind ≠ .eof) ∧
      HitsLimitAt ts 259 ∧ us.take 260 = ts.take 260 ∧
      (Program.read (.ofList ts)).value =
        some ⟨[.expr (.name "x"), .block [.expr (.name "y")]]⟩ ∧
      (Program.read (.ofList us)).value = (Program.read (.ofList ts)).value ∧
      SyntaxError.reported (Program.read (.ofList us)).errors =
        SyntaxError.reported (Program.read (.ofList ts)).errors := by
  let ts : List Token :=
    [⟨.ident, "x", ⟨1, 1⟩⟩, ⟨.lbrace, "\x7b", ⟨1, 3⟩⟩, ⟨.ident, "y", ⟨1, 5⟩⟩,
      ⟨.semicolon, ";", ⟨1, 6⟩⟩] ++ List.replicate 256 ⟨.bang, "!", ⟨1, 8⟩⟩
  let us : List Token := ts ++ [⟨.int, "7", ⟨1, 9⟩⟩, ⟨.rparen, ")", ⟨1, 10⟩⟩]
  have hts : ∀ t ∈ ts, t.kind ≠ .eof := by decide +kernel
  have hus : ∀ t ∈ us, t.kind ≠ .eof := by decide +kernel
  have hlimit : HitsLimitAt ts 259 := by decide +kernel
  have htake : us.take 260 = ts.take 260 := by decide +kernel
  have hvalue : (Program.read (.ofList ts)).value =
      some ⟨[.expr (.name "x"), .block [.expr (.name "y")]]⟩ := by
    decide +kernel
  exact ⟨ts, us, rfl, rfl, hts, hus, hlimit, htake, hvalue,
    (nesting_limit_cuts_input ts hts).2.2.2 259 hlimit us hus htake⟩

end LetLang
