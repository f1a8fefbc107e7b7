import SqlFront.Proofs.Tokens.Blank
import SqlFront.Proofs.Tokens.Recount
import SqlFront.Token.Iterator
import SqlFront.Token.Stream

/-!
# Strings and comments without end

There is no next token exactly where a text goes on with a quote that no quote of the same sort
closes, or with a comment that has no end (`Token.Unclosed`).  The fault concerns the opening alone,
and whoever asks for the token stays where he is.  Everywhere else a token is taken, or the text has
ended (`Cursor.next_fails_iff_unclosed`).
-/

namespace SqlFront

namespace Token

/-! ### Strings -/

/-- Characters in which every backslash takes the character behind it along. -/
inductive Escaped : List Char → Prop where
  | nil : Escaped []
  | plain {c : Char} {cs : List Char} (isPlain : c ≠ '\\') (rest : Escaped cs) : Escaped (c :: cs)
  | pair (c : Char) {cs : List Char} (rest : Escaped cs) : Escaped ('\\' :: c :: cs)

/-- Somewhere among the characters stands the quote, not escaped. -/
def HasQuote (quote : Char) (cs : List Char) : Prop :=
  ∃ body more, Escaped body ∧ cs = body ++ quote :: more

variable {quote c : Char} {cs : List Char} {cause : Cause}

theorem hasQuote_plain (hc : c ≠ '\\') (hquote : c ≠ quote) :
  HasQuote quote (c :: cs) ↔ HasQuote quote cs
  := by
  constructor
  · rintro ⟨body, more, hbody, hcs⟩
    cases hbody with
    | nil => exact absurd (List.cons.inj hcs).1 hquote
    | plain _ rest => exact ⟨_, more, rest, (List.cons.inj hcs).2⟩
    | pair => exact absurd (List.cons.inj hcs).1 hc
  · rintro ⟨body, more, hbody, rfl⟩
    exact ⟨c :: body, more, .plain hc hbody, rfl⟩

theorem hasQuote_pair (hquote : quote ≠ '\\') :
  HasQuote quote ('\\' :: c :: cs) ↔ HasQuote quote cs
  := by
  constructor
  · rintro ⟨body, more, hbody, hcs⟩
    cases hbody with
    | nil => exact absurd (List.cons.inj hcs).1.symm hquote
    | plain isPlain => exact absurd (List.cons.inj hcs).1.symm isPlain
    | pair _ rest => exact ⟨_, more, rest, (List.cons.inj (List.cons.inj hcs).2).2⟩
  · rintro ⟨body, more, hbody, rfl⟩
    exact ⟨'\\' :: c :: body, more, .pair c hbody, rfl⟩

/-- A backslash at the end of a text escapes nothing. -/
theorem not_hasQuote_backslash (hquote : quote ≠ '\\') :
  ¬ HasQuote quote ['\\']
  := by
  rintro ⟨body, more, hbody, hcs⟩
  cases hbody with
  | nil => exact hquote (List.cons.inj hcs).1.symm
  | plain isPlain => exact isPlain (List.cons.inj hcs).1.symm
  | pair => simp at hcs

/-- A string has no length exactly if its quote is not closed. -/
theorem stringLength?_eq_none_iff (hquote : quote ≠ '\\') (cs : List Char) :
  stringLength? quote cs = none ↔ ¬ HasQuote quote cs
  := by
  fun_induction stringLength? quote cs with
  | case1 => simp [HasQuote]
  | case2 => simp [not_hasQuote_backslash hquote]
  | case3 c cs ih => rw [Option.map_eq_none_iff, ih, hasQuote_pair hquote]
  | case4 cs => simpa using ⟨[], cs, .nil, rfl⟩
  | case5 c cs hempty hescape hc ih =>
      rw [Option.map_eq_none_iff, ih, hasQuote_plain (ne_backslash hempty hescape) hc]

/-! ### Comments -/

/-- A comment has no length exactly if a star and a slash nowhere stand side by side. -/
theorem commentLength?_eq_none_iff (cs : List Char) :
  commentLength? cs = none ↔ ¬ ['*', '/'] <:+: cs
  := by
  fun_induction commentLength? cs with
  | case1 cs => simpa using (List.prefix_append ['*', '/'] cs).isInfix
  | case2 c cs hend ih =>
      have hhead : ¬ ['*', '/'] <+: c :: cs := by
        rintro ⟨more, hmore⟩
        obtain ⟨rfl, hcs⟩ := List.cons.inj hmore
        exact hend more rfl hcs.symm
      rw [Option.map_eq_none_iff, ih, List.infix_cons_iff, or_iff_right hhead]
  | case3 => simp

/-- The characters behind the slash and the star of a comment that is no hint and has no end: behind
the first of them a star and a slash nowhere stand side by side. -/
structure Endless (body : List Char) : Prop where
  noHint : body.head? ≠ some '+'
  nonempty : ¬ ['*', '/'] <+: body
  noEnd : ¬ ['*', '/'] <:+: body.tail

theorem measureSlash_star {body : List Char} :
  measureSlash ('*' :: body) = .error cause ↔ cause = .openComment ∧ Endless body
  := by
  unfold measureSlash
  split
  · next heq =>
      obtain rfl := (List.cons.inj heq).2
      simpa using fun _ h => h.nonempty (List.prefix_append ['*', '/'] _)
  · next heq =>
      obtain rfl := (List.cons.inj heq).2
      simpa using fun _ h => h.noHint rfl
  · next x rest hempty hhint heq =>
      obtain rfl := (List.cons.inj heq).2
      have hends := commentLength?_eq_none_iff rest
      split
      · next n hlength =>
          rw [hlength] at hends
          simpa using fun _ h => absurd h.noEnd (by simpa using hends)
      · next hlength =>
          rw [hlength] at hends
          have hbody : Endless (x :: rest) := by
            constructor
            · simpa using hhint
            · rintro ⟨more, hmore⟩
              obtain ⟨rfl, hrest⟩ := List.cons.inj hmore
              exact hempty more rfl hrest.symm
            · simpa using hends
          simp [hbody, eq_comm]
  · next heq =>
      obtain rfl := (List.cons.inj heq).2
      have hbody : Endless [] := ⟨by simp, by simp, by simp⟩
      simp [hbody, eq_comm]
  · next hany hslash =>
      cases body with
      | nil => simp at hslash
      | cons x rest => exact absurd rfl (hany x rest)

/-! ### Texts that go on without end -/

/-- The text begins with a string or a comment that has no end. -/
inductive Unclosed : List Char → Cause → Prop where
  | string {quote : Char} {rest : List Char} (isQuote : quote = '\x27' ∨ quote = '\x22')
      (noQuote : ¬ HasQuote quote rest) : Unclosed (quote :: rest) .openString
  | comment {body : List Char} (endless : Endless body) :
      Unclosed ('/' :: '*' :: body) .openComment

theorem Unclosed.kind_eq {cs : List Char} (h : Unclosed cs cause) :
  cause.kind = .lexical
  := by
  cases h <;> rfl

/-- Nothing is measured exactly where a string or a comment has no end. -/
theorem measure_eq_error_iff (c : Char) (rest : List Char) :
  measure c rest = .error cause ↔ Unclosed (c :: rest) cause
  := by
  constructor
  · intro h
    rcases open_of_measure h with ⟨hquote, hlength, rfl⟩ | ⟨rfl, hslash⟩
    · have hne : c ≠ '\\' := by
        rintro rfl
        simp at hquote
      exact .string hquote ((stringLength?_eq_none_iff hne rest).mp hlength)
    · cases rest with
      | nil => contradiction
      | cons x body =>
          by_cases hx : x = '*'
          · subst hx
            obtain ⟨rfl, hbody⟩ := measureSlash_star.mp hslash
            exact .comment hbody
          · simp [measureSlash, hx] at hslash
  · intro h
    cases h with
    | string isQuote noQuote =>
        have hne : c ≠ '\\' := by
          rintro rfl
          simp at isQuote
        exact measure_openString isQuote ((stringLength?_eq_none_iff hne rest).mpr noQuote)
    | comment endless => exact measureSlash_star.mpr ⟨rfl, endless⟩

end Token

/-! ### Cursors -/

namespace Cursor

open Token

variable {c d : Cursor} {t : Token} {e : Fault}

theorem next_eq_error_iff :
  c.next = .error e ↔ ∃ cause, Unclosed c.rest cause ∧
    e = ⟨cause, c.position, c.position.right (openingLength cause)⟩
  := by
  obtain ⟨_ | ⟨x, rest⟩, p⟩ := c
  · simp only [next, reduceCtorEq, false_iff]
    rintro ⟨cause, ⟨⟩, -⟩
  · simp only [next_cons_eq_error_iff, measure_eq_error_iff, eq_comm (a := e)]

/-- The region of the fault is that of the opening. -/
theorem right_openingLength {cs : List Char} {cause : Cause} (h : Unclosed cs cause) (p : Position) :
  ∃ opening ∈ [['\x27'], ['\x22'], ['/', '*']], opening <+: cs ∧
    p.right (openingLength cause) = p.afterAll opening
  := by
  cases h with
  | @string quote rest isQuote _ =>
      refine ⟨[quote], ?_, List.prefix_append [quote] rest, ?_⟩
      · rcases isQuote with rfl | rfl <;> simp
      · rcases isQuote with rfl | rfl <;> rfl
  | @comment body _ => exact ⟨['/', '*'], by simp, List.prefix_append ['/', '*'] body, rfl⟩

/-- A token that is taken has a character at least. -/
theorem skip_of_next (hc : c.rest ≠ []) (h : c.next = .ok (t, d)) :
  t.kind ≠ .eof ∧ ∃ n, 0 < n ∧ n ≤ c.rest.length ∧ d = c.skip n
  := by
  refine ⟨kind_ne_eof_of_next hc h, ?_⟩
  obtain ⟨_ | ⟨x, rest⟩, p⟩ := c
  · contradiction
  · obtain ⟨kind, n, hfound, -, rfl⟩ := next_cons_eq_ok_iff.mp h
    exact ⟨n + 1, Nat.succ_pos n, Nat.succ_le_succ (measure_le hfound), rfl⟩

end Cursor

/-- A stream that meets a fault stays as it is. -/
theorem Stream.next_of_fault {s : Stream} {e : Fault} (hahead : s.ahead = [])
    (h : s.cursor.next = .error e) :
  s.next = (.error e, s)
  := by
  have hrest : s.cursor.rest ≠ [] := by
    intro hnil
    simp [Cursor.next, hnil] at h
  have hdemand : s.demand 1 = (some e, s) := by
    rw [demand.eq_def, if_neg (by simp [hahead]), dif_neg hrest]
    split <;> simp_all
  rw [next, hdemand]

/-- **Faults of the text itself.**  Nowhere but before a string or a comment without end is there no
next token.  The fault is a lexical one, its region is that of the quote, or of the slash and the
star, alone, and the iterator and the stream that meet it stand where they stood, so that the stream
meets it again.  In all other places a token is taken that has a character at least, or the text has
ended. -/
theorem Cursor.next_fails_iff_unclosed (c : Cursor) :
  ((∃ e, c.next = .error e) ↔ ∃ cause, Token.Unclosed c.rest cause) ∧
  (∀ e, c.next = .error e → e.cause.kind = .lexical ∧
    (∃ opening ∈ [['\x27'], ['\x22'], ['/', '*']], opening <+: c.rest ∧
      e.span = ⟨c.position, c.position.afterAll opening⟩) ∧
    TokenIterator.next? ⟨c, false⟩ = some (.error e, ⟨c, true⟩) ∧
    ∀ s : Stream, s.cursor = c → s.ahead = [] → s.next = (.error e, s)) ∧
  ∀ t d, c.next = .ok (t, d) →
    c.rest = [] ∧ t = .eof c.position ∧ d = c ∨
      t.kind ≠ .eof ∧ ∃ n, 0 < n ∧ n ≤ c.rest.length ∧ d = c.skip n
  := by
  refine ⟨?_, ?_, ?_⟩
  · simp [next_eq_error_iff]
  · intro e h
    obtain ⟨cause, hunclosed, rfl⟩ := next_eq_error_iff.mp h
    obtain ⟨opening, hmem, hprefix, hright⟩ := right_openingLength hunclosed c.position
    refine ⟨hunclosed.kind_eq, ⟨opening, hmem, hprefix, by rw [hright]⟩, ?_, ?_⟩
    · simp [TokenIterator.next?, h]
    · rintro s rfl hahead
      exact s.next_of_fault hahead h
  · intro t d h
    by_cases hc : c.rest = []
    · left
      simp only [next, hc, Except.ok.injEq, Prod.mk.injEq] at h
      exact ⟨hc, h.1.symm, h.2.symm⟩
    · right
      exact skip_of_next hc h

/-- A quote behind a backslash closes nothing. -/
theorem Cursor.next_fails_iff_unclosed_escaped :
  ∃ e, (Cursor.ofString "'a\\'").next = .error e ∧ e.cause.kind = .lexical ∧
    ∃ cause, Token.Unclosed "'a\\'".toList cause
  := by
  have hfails : (Cursor.ofString "'a\\'").next = .error ⟨.openString, .start, ⟨1, 1, 1⟩⟩ := by
    decide +kernel
  obtain ⟨hiff, hfault, -⟩ := next_fails_iff_unclosed (Cursor.ofString "'a\\'")
  exact ⟨_, hfails, (hfault _ hfails).1, hiff.mp ⟨_, hfails⟩⟩

end SqlFront
