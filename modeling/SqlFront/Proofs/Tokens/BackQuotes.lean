import SqlFront.Proofs.Printing.Dotted

/-!
# Names in back-quotes

Back-quotes in a row can be taken apart in several ways, into doubled ones and one that closes the
name.  Between the back-quotes of a name every back-quote is doubled (`Text.BackQuoted`).  Where a
text goes on with a back-quote, the longest name in back-quotes that it goes on with is taken; where
it goes on with none, the back-quote is a token by itself that is not recognized
(`Cursor.next_backQuoted`).
-/

namespace SqlFront

namespace Text

/-! ### Forms in back-quotes -/

/-- What stands between the back-quotes of a name: the characters of the name, each back-quote among
them doubled. -/
inductive Inside : List Char → List Char → Prop where
  | nil : Inside [] []
  | plain {c : Char} {inner name : List Char} (isPlain : c ≠ '\x60') (rest : Inside inner name) :
      Inside (c :: inner) (c :: name)
  | doubled {inner name : List Char} (rest : Inside inner name) :
      Inside ('\x60' :: '\x60' :: inner) ('\x60' :: name)

/-- A name in back-quotes. -/
inductive BackQuoted : List Char → List Char → Prop where
  | intro {inner name : List Char} (inside : Inside inner name) :
      BackQuoted ('\x60' :: inner ++ ['\x60']) name

/-- Of the names in back-quotes that the text begins with, the longest one. -/
structure LongestBackQuoted (text form name : List Char) : Prop where
  isForm : BackQuoted form name
  isFront : form <+: text
  longest : ∀ other otherName, BackQuoted other otherName → other <+: text →
    other.length ≤ form.length

variable {inner name form : List Char}

theorem inside_iff :
  Inside inner name ↔ inner = doubleBackQuotes name
  := by
  constructor
  · intro h
    induction h with
    | nil => rfl
    | plain isPlain _ ih => rw [doubleBackQuotes, if_neg isPlain, ih]
    | doubled _ ih => rw [doubleBackQuotes, if_pos rfl, ih]
  · rintro rfl
    fun_induction doubleBackQuotes name with
    | case1 => exact .nil
    | case2 rest ih => exact .doubled ih
    | case3 c rest hc ih => exact .plain hc ih

theorem backQuoted_iff :
  BackQuoted form name ↔ form = '\x60' :: doubleBackQuotes name ++ ['\x60']
  := by
  constructor
  · rintro ⟨inside⟩
    rw [inside_iff.mp inside]
  · rintro rfl
    exact .intro (inside_iff.mpr rfl)

end Text

/-! ### Measuring -/

namespace Token

open Text

variable {rest form name : List Char} {n : Nat}

/-- A back-quote that may close a name does so, or a later one does. -/
theorem lt_backQuotedLength? (name more : List Char) :
  ∃ n, backQuotedLength? (doubleBackQuotes name ++ '\x60' :: more) = some n ∧
    (doubleBackQuotes name).length < n
  := by
  fun_induction doubleBackQuotes name with
  | case1 =>
      cases hlength : backQuotedLength? ('\x60' :: more) with
      | none => exact absurd hlength (backQuotedLength?_backQuote more)
      | some n => exact ⟨n, hlength, backQuotedLength?_pos hlength⟩
  | case2 rest ih =>
      obtain ⟨n, hlength, hlt⟩ := ih
      refine ⟨n + 2, ?_, by simpa using hlt⟩
      rw [List.cons_append, List.cons_append, backQuotedLength?, hlength]
      rfl
  | case3 c rest hc ih =>
      obtain ⟨n, hlength, hlt⟩ := ih
      refine ⟨n + 1, ?_, by simpa using hlt⟩
      rw [List.cons_append, backQuotedLength?_cons hc, hlength]
      rfl

/-- No name in back-quotes at the front of a text is longer than what is measured there. -/
theorem length_le_of_backQuoted (hform : BackQuoted form name) (hfront : form <+: '\x60' :: rest) :
  ∃ n, backQuotedLength? rest = some n ∧ form.length ≤ n + 1
  := by
  obtain ⟨more, hmore⟩ := hfront
  obtain rfl := backQuoted_iff.mp hform
  have hrest : rest = doubleBackQuotes name ++ '\x60' :: more := by
    simpa using (List.cons.inj hmore).2.symm
  obtain ⟨n, hlength, hlt⟩ := lt_backQuotedLength? name more
  exact ⟨n, hrest ▸ hlength, by simpa using Nat.succ_le_of_lt hlt⟩

/-- What is measured is the longest name in back-quotes. -/
theorem longest_of_backQuotedLength? (h : backQuotedLength? rest = some n) :
  n ≤ rest.length ∧ ∃ name, LongestBackQuoted ('\x60' :: rest) ('\x60' :: rest.take n) name
  := by
  obtain ⟨hle, name, hname⟩ := take_backQuotedLength? h
  refine ⟨hle, name, ?_, ?_, ?_⟩
  · rw [hname]
    exact backQuoted_iff.mpr rfl
  · exact List.cons_prefix_cons.mpr ⟨rfl, List.take_prefix n rest⟩
  · intro other otherName hother hfront
    obtain ⟨m, hm, hlength⟩ := length_le_of_backQuoted hother hfront
    obtain rfl : n = m := Option.some.inj (h.symm.trans hm)
    simpa [List.length_take_of_le hle] using hlength

theorem measure_of_backQuotedLength? (rest : List Char) :
  measure '\x60' rest = match backQuotedLength? rest with
    | some n => .ok (.quotedIdentifier, n)
    | none => .ok (.unrecognized, 0)
  := rfl

end Token

/-! ### Tokens -/

namespace Cursor

open Text

/-- Where a text goes on with a name in back-quotes, the longest one is taken. -/
theorem next_of_backQuotedLength? {rest : List Char} {n : Nat} (p : Position)
    (h : Token.backQuotedLength? rest = some n) :
  ∃ form name, LongestBackQuoted ('\x60' :: rest) form name ∧
    next ⟨'\x60' :: rest, p⟩ =
      .ok (⟨.quotedIdentifier, String.ofList name, p, p.afterAll form⟩,
        ⟨('\x60' :: rest).drop form.length, p.afterAll form⟩)
  := by
  obtain ⟨hle, name, hlongest⟩ := Token.longest_of_backQuotedLength? h
  have hwritten : '\x60' :: rest.take n = (backQuote (String.ofList name)).toList := by
    rw [backQuoted_iff.mp hlongest.isForm, backQuote, String.toList_ofList, String.toList_ofList]
  have htext : Token.textOf .quotedIdentifier ('\x60' :: rest.take n) = String.ofList name := by
    rw [hwritten, textOf_backQuote]
  have hmeasure := Token.measure_of_backQuotedLength? rest
  rw [h] at hmeasure
  refine ⟨_, name, hlongest, ?_⟩
  rw [next_of_measure p hmeasure, List.take_succ_cons, htext, List.length_cons,
    List.length_take_of_le hle]
  rfl

/-- A back-quote that no name in back-quotes begins with is not recognized. -/
theorem next_of_backQuotedLength?_eq_none {rest : List Char} (p : Position)
    (h : Token.backQuotedLength? rest = none) :
  (∀ form name, BackQuoted form name → ¬ form <+: '\x60' :: rest) ∧
    next ⟨'\x60' :: rest, p⟩ =
      .ok (⟨.unrecognized, "\x60", p, p.afterAll ['\x60']⟩, ⟨rest, p.afterAll ['\x60']⟩)
  := by
  constructor
  · intro form name hform hfront
    obtain ⟨n, hn, -⟩ := Token.length_le_of_backQuoted hform hfront
    rw [h] at hn
    contradiction
  · have hmeasure := Token.measure_of_backQuotedLength? rest
    rw [h] at hmeasure
    rw [next_of_measure p hmeasure]
    rfl

/-- A name that is written in back-quotes is read back. -/
theorem next_backQuote (p : Position) (name : String) {more : List Char}
    (hmore : more.head? ≠ some '\x60') :
  next ⟨(backQuote name).toList ++ more, p⟩ =
    .ok (⟨.quotedIdentifier, name, p, p.afterAll (backQuote name).toList⟩,
      ⟨more, p.afterAll (backQuote name).toList⟩)
  := by
  have hwritten : (backQuote name).toList =
      '\x60' :: (doubleBackQuotes name.toList ++ ['\x60']) := by
    rw [backQuote, String.toList_ofList, List.cons_append]
  have hnext := next_of_measure_append p (measure_backQuote hmore name.toList)
  rw [← hwritten, textOf_backQuote] at hnext
  exact hnext

/-- **Names in back-quotes.**  Where a text goes on with a back-quote, the longest name in back-quotes
that it goes on with is taken, and if it goes on with none, the back-quote alone, which is not
recognized.  So a name that is written in back-quotes is read back, whatever follows but another
back-quote. -/
theorem next_backQuoted (p : Position) :
  (∀ rest,
    (∃ form name, LongestBackQuoted ('\x60' :: rest) form name ∧
      next ⟨'\x60' :: rest, p⟩ =
        .ok (⟨.quotedIdentifier, String.ofList name, p, p.afterAll form⟩,
          ⟨('\x60' :: rest).drop form.length, p.afterAll form⟩)) ∨
    (∀ form name, BackQuoted form name → ¬ form <+: '\x60' :: rest) ∧
      next ⟨'\x60' :: rest, p⟩ =
        .ok (⟨.unrecognized, "\x60", p, p.afterAll ['\x60']⟩, ⟨rest, p.afterAll ['\x60']⟩)) ∧
  ∀ (name : String) (more : List Char), more.head? ≠ some '\x60' →
    next ⟨(backQuote name).toList ++ more, p⟩ =
      .ok (⟨.quotedIdentifier, name, p, p.afterAll (backQuote name).toList⟩,
        ⟨more, p.afterAll (backQuote name).toList⟩)
  := by
  constructor
  · intro rest
    cases hlength : Token.backQuotedLength? rest with
    | some n =>
        left
        apply next_of_backQuotedLength? p hlength
    | none =>
        right
        apply next_of_backQuotedLength?_eq_none p hlength
  · intro name more hmore
    apply next_backQuote p name hmore

/-- A name that ends with a back-quote is read back before a blank. -/
theorem next_backQuoted_blank :
  [' '].head? ≠ some '\x60' ∧
    next ⟨(backQuote "a\x60").toList ++ [' '], .start⟩ =
      .ok (⟨.quotedIdentifier, "a\x60", .start, ⟨1, 5, 5⟩⟩, ⟨[' '], ⟨1, 5, 5⟩⟩)
  := by
  have hblank : [' '].head? ≠ some '\x60' := by decide
  exact ⟨hblank, (next_backQuoted .start).2 "a\x60" [' '] hblank⟩

end Cursor

/-- The second of three back-quotes closes a name if nothing closes the third one. -/
example : ((Cursor.ofString "\x60\x60\x60 x").next.map fun (t, _) => (t.kind, t.text)) =
    .ok (.quotedIdentifier, "")
  := by decide +kernel

end SqlFront
