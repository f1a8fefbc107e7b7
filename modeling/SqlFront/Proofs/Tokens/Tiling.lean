import SqlFront.Proofs.Reading.Tape
import SqlFront.Proofs.Tokens.Place

/-!
# Tokens tile their text

A token is cut out of a text: it is written as a piece of the text, its region runs from the
place before the piece to the place behind it, and its own text is the piece, or the name that
the piece puts between back-quotes (`Token.IsCut`).  Taking a token of a text cuts a nonempty
piece off what lies ahead (`Cursor.isCut_of_next`), so the tokens of a text are its pieces in
order, without gaps, and the token `eof` behind them (`Token.tiling_of_list`).
-/

namespace SqlFront

/-! ### Cuts -/

/-- The token `t` is written as `piece`, which stands behind `before` in `text`. -/
structure Token.IsCut (text : String) (before piece : List Char) (t : Token) : Prop where
  isPart : ∃ after, text.toList = before ++ piece ++ after
  start_eq : t.span.start = .following before
  stop_eq : t.span.stop = .following (before ++ piece)
  slice_eq : t.span.slice? text = some (String.ofList piece)
  text_eq : t.kind ≠ .quotedIdentifier → t.text = String.ofList piece
  name_eq : t.kind = .quotedIdentifier → ∃ inner, piece = '\x60' :: inner ++ ['\x60'] ∧
    t.text.toList = Text.collapseBackQuotes inner ∧ inner = Text.doubleBackQuotes t.text.toList

/-- Collapsing doubled back-quotes undoes doubling them. -/
theorem Text.collapseBackQuotes_doubleBackQuotes (name : List Char) :
  collapseBackQuotes (doubleBackQuotes name) = name
  := by
  fun_induction doubleBackQuotes name with
  | case1 => rfl
  | case2 rest ih => rw [collapseBackQuotes, ih]
  | case3 c rest hc ih =>
      rw [collapseBackQuotes, ih]
      intro _ h
      apply absurd h hc

/-- A region and a text that are those of a cut make a cut. -/
theorem Token.isCut_of_textOf
    {text : String} {before piece after : List Char} {kind : Kind}
    (htext : text.toList = before ++ piece ++ after)
    (hquoted : kind = .quotedIdentifier →
      ∃ name, piece = '\x60' :: Text.doubleBackQuotes name ++ ['\x60']) :
  IsCut text before piece
    ⟨kind, textOf kind piece, .following before, .following (before ++ piece)⟩
  := by
  refine ⟨⟨after, htext⟩, rfl, rfl, ?_, ?_, ?_⟩
  · rw [← String.ofList_toList (s := text), htext]
    apply Span.slice?_following
  · intro hkind
    simp [textOf, hkind]
  · intro hkind
    obtain rfl : kind = .quotedIdentifier := hkind
    obtain ⟨name, rfl⟩ := hquoted rfl
    use Text.doubleBackQuotes name
    simp [textOf, Text.unBackQuote, Text.collapseBackQuotes_doubleBackQuotes]

/-- Taking a token cuts a nonempty piece off what lies ahead. -/
theorem Cursor.isCut_of_next
    {text : String} {before : List Char} {c d : Cursor} {t : Token}
    (hplace : c.position = .following before) (htext : text.toList = before ++ c.rest)
    (hrest : c.rest ≠ []) (h : c.next = .ok (t, d)) :
  ∃ piece, piece ≠ [] ∧ t.IsCut text before piece ∧ t.kind ≠ .eof ∧
    d.position = .following (before ++ piece) ∧ text.toList = before ++ piece ++ d.rest
  := by
  obtain ⟨_ | ⟨x, rest⟩, p⟩ := c
  · contradiction
  obtain rfl : p = .following before := hplace
  obtain ⟨kind, n, hmeasure, rfl, rfl⟩ := next_cons_eq_ok_iff.mp h
  have hafter : (skip ⟨x :: rest, .following before⟩ (n + 1)).position
      = .following (before ++ (x :: rest).take (n + 1)) := by
    apply Position.afterAll_following
  have hpieces : text.toList
      = before ++ (x :: rest).take (n + 1) ++ (skip ⟨x :: rest, .following before⟩ (n + 1)).rest := by
    rw [List.append_assoc, skip, List.take_append_drop, htext]
  use (x :: rest).take (n + 1)
  refine ⟨by simp, ?_, Token.kind_ne_eof_of_measure hmeasure, hafter, hpieces⟩
  rw [hafter]
  apply Token.isCut_of_textOf hpieces
  rintro rfl
  rw [List.take_succ_cons]
  apply Token.eq_backQuote_of_measure hmeasure

/-! ### Tilings -/

theorem Cursor.tokens_nil (p : Position) :
  tokens ⟨[], p⟩ = .ok [.eof p]
  := by
  rw [tokens, dif_pos rfl]

theorem Cursor.tokens_of_next {c d : Cursor} {t : Token} (hc : c.rest ≠ [])
    (hnext : c.next = .ok (t, d)) :
  c.tokens = d.tokens.map (t :: ·)
  := by
  rw [tokens, dif_neg hc]
  split <;> simp_all

/-- The tokens `ts` cut `text` into pieces from the place behind `before` to its end. -/
inductive Token.Tiles (text : String) : List Char → List Token → Prop where
  | done : Tiles text text.toList [.eof (.following text.toList)]
  | more {before piece : List Char} {t : Token} {ts : List Token} (isCut : t.IsCut text before piece)
      (nonempty : piece ≠ []) (rest : Tiles text (before ++ piece) ts) : Tiles text before (t :: ts)

/-- The tokens from a cursor on cut what lies ahead into pieces. -/
theorem Cursor.tiles_of_tokens
    {text : String} {before : List Char} {c : Cursor} {ts : List Token}
    (hplace : c.position = .following before) (htext : text.toList = before ++ c.rest)
    (h : c.tokens = .ok ts) :
  Token.Tiles text before ts
  := by
  fun_induction Cursor.tokens c generalizing before ts with
  | case1 c hrest =>
      rw [hrest, List.append_nil] at htext
      simp only [Except.ok.injEq] at h
      rw [← h, hplace, ← htext]
      apply Token.Tiles.done
  | case2 c hrest e he => simp at h
  | case3 c hrest t d hnext ih =>
      obtain ⟨piece, hne, hcut, -, hplace', htext'⟩ := isCut_of_next hplace htext hrest hnext
      obtain ⟨us, hd, rfl⟩ := map_eq_ok_iff.mp h
      apply Token.Tiles.more hcut hne
      apply ih hplace' htext' hd

namespace Token

variable {text : String} {before : List Char} {ts : List Token}

theorem Tiles.ne_nil (h : Tiles text before ts) :
  ts ≠ []
  := by
  cases h <;> simp

theorem Tiles.head_start (h : Tiles text before ts) :
  ts.head?.map (·.span.start) = some (.following before)
  := by
  cases h with
  | done => rfl
  | more isCut _ _ => simp [isCut.start_eq]

theorem Tiles.isChain (h : Tiles text before ts) :
  ts.IsChain (fun t u => t.span.stop = u.span.start)
  := by
  induction h with
  | done => simp
  | @more before piece t ts isCut _ rest ih =>
      obtain ⟨u, us, rfl⟩ := List.exists_cons_of_ne_nil rest.ne_nil
      have hstart := rest.head_start
      simp only [List.head?_cons, Option.map_some, Option.some.injEq] at hstart
      apply List.IsChain.cons_cons _ ih
      rw [isCut.stop_eq, hstart]

theorem Tiles.getLast? (h : Tiles text before ts) :
  ts.getLast? = some (.eof (.following text.toList))
  := by
  induction h with
  | done => rfl
  | more _ _ rest ih =>
      obtain ⟨u, us, rfl⟩ := List.exists_cons_of_ne_nil rest.ne_nil
      rw [List.getLast?_cons_cons]
      apply ih

theorem Tiles.isEmpty_eq_false (h : Tiles text before ts) :
  ∀ t ∈ ts.dropLast, t.span.isEmpty = false
  := by
  induction h with
  | done => simp
  | @more before piece t ts isCut nonempty rest ih =>
      obtain ⟨u, us, rfl⟩ := List.exists_cons_of_ne_nil rest.ne_nil
      have hlt := Position.offset_following_lt before nonempty
      intro v hv
      simp only [List.dropLast_cons_cons, List.mem_cons] at hv
      rcases hv with rfl | hv
      · simp only [Span.isEmpty, isCut.start_eq, isCut.stop_eq, beq_eq_false_iff_ne]
        omega
      · apply ih v hv

theorem Tiles.exists_isCut (h : Tiles text before ts) :
  ∀ t ∈ ts, ∃ before piece, t.IsCut text before piece
  := by
  induction h with
  | done =>
      intro t ht
      simp only [List.mem_cons, List.not_mem_nil, or_false] at ht
      subst ht
      use text.toList, []
      have hcut : IsCut text text.toList []
          ⟨.eof, textOf .eof [], .following text.toList, .following (text.toList ++ [])⟩ := by
        have hend : text.toList = text.toList ++ [] ++ [] := by simp
        apply isCut_of_textOf hend
        simp
      simpa [eof, Span.point, textOf] using hcut
  | more isCut _ _ ih =>
      intro t ht
      rcases List.mem_cons.mp ht with rfl | ht
      · exact ⟨_, _, isCut⟩
      · apply ih t ht

/-- The slices of the tokens, joined, give what lies ahead. -/
theorem Tiles.join_slices (h : Tiles text before ts) :
  ∃ slices, ts.mapM (·.span.slice? text) = some slices ∧
    text.toList = before ++ (String.join slices).toList
  := by
  induction h with
  | done =>
      obtain ⟨_, _, hcut⟩ := Tiles.done.exists_isCut (.eof (.following text.toList))
        (List.mem_singleton_self _)
      have hslice : (Token.eof (.following text.toList)).span.slice? text = some "" := by
        have := Span.slice?_following text.toList [] []
        simpa [eof, Span.point] using this
      use [""]
      simp [hslice]
  | @more before piece t ts isCut _ _ ih =>
      obtain ⟨slices, hslices, hjoin⟩ := ih
      use String.ofList piece :: slices
      simp [isCut.slice_eq, hslices, hjoin]

/-- The tokens `ts` tile `text`: they follow one another without a gap from its first place to
its end, none but the last is empty, the last is the token `eof`, their slices joined are the
text, and each of them is cut out of the text. -/
structure Tiling (text : String) (ts : List Token) : Prop where
  first : ts.head?.map (·.span.start) = some ⟨1, 0, 0⟩
  adjacent : ts.IsChain (fun t u => t.span.stop = u.span.start)
  nonempty : ∀ t ∈ ts.dropLast, t.span.isEmpty = false
  last : ts.getLast? = some (.eof (.following text.toList))
  whole : ∃ slices, ts.mapM (·.span.slice? text) = some slices ∧ String.join slices = text
  isCut : ∀ t ∈ ts, ∃ before piece, t.IsCut text before piece

/-- The tokens of a text tile it. -/
theorem tiling_of_list {text : String} {ts : List Token} (h : Token.list text = .ok ts) :
  Tiling text ts
  := by
  have htiles : Tiles text [] ts := Cursor.tiles_of_tokens rfl rfl h
  obtain ⟨slices, hslices, hjoin⟩ := htiles.join_slices
  refine ⟨htiles.head_start, htiles.isChain, htiles.isEmpty_eq_false, htiles.getLast?,
    ⟨slices, hslices, ?_⟩, htiles.exists_isCut⟩
  rw [← String.toList_inj, hjoin]
  rfl

/-- Tokens over two lines, with a doubled back-quote and characters of several bytes. -/
theorem tiling_of_list_two_lines :
  Token.list "\x60é\x60\x60\x60\n'ü'" =
      .ok [⟨.quotedIdentifier, "é\x60", ⟨1, 0, 0⟩, ⟨1, 5, 6⟩⟩,
        ⟨.whitespace, "\n", ⟨1, 5, 6⟩, ⟨2, 0, 7⟩⟩, ⟨.string, "'ü'", ⟨2, 0, 7⟩, ⟨2, 3, 11⟩⟩,
        .eof ⟨2, 3, 11⟩] ∧
    Tiling "\x60é\x60\x60\x60\n'ü'"
      [⟨.quotedIdentifier, "é\x60", ⟨1, 0, 0⟩, ⟨1, 5, 6⟩⟩,
        ⟨.whitespace, "\n", ⟨1, 5, 6⟩, ⟨2, 0, 7⟩⟩, ⟨.string, "'ü'", ⟨2, 0, 7⟩, ⟨2, 3, 11⟩⟩,
        .eof ⟨2, 3, 11⟩]
  := by
  have h : Token.list "\x60é\x60\x60\x60\n'ü'" =
      .ok [⟨.quotedIdentifier, "é\x60", ⟨1, 0, 0⟩, ⟨1, 5, 6⟩⟩,
        ⟨.whitespace, "\n", ⟨1, 5, 6⟩, ⟨2, 0, 7⟩⟩, ⟨.string, "'ü'", ⟨2, 0, 7⟩, ⟨2, 3, 11⟩⟩,
        .eof ⟨2, 3, 11⟩] := by
    decide +kernel
  exact ⟨h, tiling_of_list h⟩

end Token

end SqlFront
