import SqlFront.Proofs.Grammar.QueryFollows
import SqlFront.Proofs.Printing.Leaves

/-!
# Reading words

Productions on the tape of some words, with positions forgotten.  The building blocks take or leave
the next word; names and types are read from the words that they are written with.
-/

namespace SqlFront

open Token

/-! ### Tapes of words -/

/-- The tape of the words of a text, with positions forgotten. -/
def Tape.ofWords (words : List String) : Tape :=
  ⟨words.map ofWord, .ok .start, .point .start⟩

/-- The kind of the token that some words begin with. -/
def leading : List String → Kind
  | [] => .eof
  | w :: _ => (ofWord w).kind

theorem leading_cons {w : String} {k : Kind} (hw : kindOf? w = some k) (ws : List String) :
  leading (w :: ws) = k
  := kind_ofWord hw

theorem leading_append {ws : List String} (hws : leading ws ≠ .eof) (rest : List String) :
  leading (ws ++ rest) = leading ws
  := by
  cases ws with
  | nil => contradiction
  | cons w ws => rfl

theorem Token.ne_eof_of_kindOf? {w : String} {k : Kind} (hw : kindOf? w = some k) :
  k ≠ .eof
  := by
  obtain ⟨c, cs, -, hmeasure, -⟩ := kindOf?_eq_some hw
  apply kind_ne_eof_of_measure hmeasure

theorem Tape.takes_word (w : String) (ws : List String) :
  (ofWords (w :: ws)).Takes [ofWord w] (ofWords ws)
  := ⟨rfl, rfl, rfl⟩

theorem Tape.peek_ofWords (ws : List String) :
  ∃ t, (ofWords ws).peek 0 = .ok t ∧ t.kind = leading ws ∧ t.span.start = .start
  := by
  cases ws with
  | nil => exact ⟨.eof .start, rfl, rfl, rfl⟩
  | cons w ws => exact ⟨ofWord w, rfl, rfl, rfl⟩

namespace Production

variable {α β γ : Type} {p q : Production α} {f : α → Production β} {s m s' : Tape} {a : α} {b : β}
  {w : String} {ws rest : List String} {k l : Kind} {c : Production Bool}

/-! ### Sequences and choices -/

theorem Reads.bind (hp : p.Reads s a m) (hf : (f a).Reads m b s') :
  (p >>= f).Reads s b s'
  := reads_bind.mpr ⟨a, m, hp, hf⟩

theorem Reads.unique {a' : α} {m' : Tape} (h : p.Reads s a m) (h' : p.Reads s a' m') :
  a = a' ∧ m = m'
  := by
  rw [Reads, h, Prod.mk.injEq, Except.ok.injEq] at h'
  exact h'

/-- What is behind a part is read where the part leaves off. -/
theorem Reads.of_bind (h : (p >>= f).Reads s b s') (hp : p.Reads s a m) :
  (f a).Reads m b s'
  := by
  obtain ⟨a', m', hp', hf⟩ := reads_bind.mp h
  obtain ⟨rfl, rfl⟩ := hp.unique hp'
  exact hf

theorem Reads.bind_true (hc : c.Reads s true m) (hp : p.Reads m a s') :
  (c >>= fun b => if b then p else q).Reads s a s'
  := hc.bind hp

theorem Reads.bind_false (hc : c.Reads s false m) (hq : q.Reads m a s') :
  (c >>= fun b => if b then p else q).Reads s a s'
  := by
  apply hc.bind
  rw [if_neg Bool.false_ne_true]
  apply hq

theorem Reads.map (hp : p.Reads s a s') (g : α → β) :
  (g <$> p).Reads s (g a) s'
  := reads_map.mpr ⟨a, hp, rfl⟩

theorem reads_done_self (a : α) (s : Tape) :
  (pure a : Production α).Reads s a s
  := reads_pure.mpr ⟨rfl, rfl⟩

/-! ### The next word -/

theorem reads_peek_words (ws : List String) :
  ∃ t, peek.Reads (.ofWords ws) t (.ofWords ws) ∧ t.kind = leading ws ∧ t.span.start = .start
  := by
  obtain ⟨t, ht, hkind, hstart⟩ := Tape.peek_ofWords ws
  exact ⟨t, reads_peek.mpr ⟨ht, rfl⟩, hkind, hstart⟩

theorem reads_peek_word (w : String) (ws : List String) :
  peek.Reads (.ofWords (w :: ws)) (ofWord w) (.ofWords (w :: ws))
  := reads_peek.mpr ⟨rfl, rfl⟩

theorem reads_second_words (w : String) (ws : List String) :
  ∃ t, (peekAt .second).Reads (.ofWords (w :: ws)) t (.ofWords (w :: ws)) ∧ t.kind = leading ws
  := by
  obtain ⟨t, ht, hkind, -⟩ := Tape.peek_ofWords ws
  exact ⟨t, reads_peekAt.mpr ⟨ht, rfl⟩, hkind⟩

theorem reads_here_words (ws : List String) :
  here.Reads (.ofWords ws) .start (.ofWords ws)
  := by
  obtain ⟨t, ht, -, hstart⟩ := Tape.peek_ofWords ws
  exact reads_here.mpr ⟨⟨t, ht, hstart.symm⟩, rfl⟩

theorem reads_spanFrom_words (ws : List String) :
  (spanFrom .start).Reads (.ofWords ws) (.point .start) (.ofWords ws)
  := reads_spanFrom.mpr ⟨rfl, rfl⟩

theorem reads_nextIs_words (h : leading ws = k) :
  (nextIs k).Reads (.ofWords ws) true (.ofWords ws)
  := by
  obtain ⟨t, ht, hkind, -⟩ := Tape.peek_ofWords ws
  exact reads_nextIs.mpr ⟨⟨t, ht, by simp [hkind, h]⟩, rfl⟩

theorem reads_nextIs_not (h : leading ws ≠ k) :
  (nextIs k).Reads (.ofWords ws) false (.ofWords ws)
  := by
  obtain ⟨t, ht, hkind, -⟩ := Tape.peek_ofWords ws
  exact reads_nextIs.mpr ⟨⟨t, ht, by simp [hkind, h]⟩, rfl⟩

theorem reads_nextAre_words (hk : leading (w :: ws) = k) (hl : leading ws = l) :
  (nextAre k l).Reads (.ofWords (w :: ws)) true (.ofWords (w :: ws))
  := by
  obtain ⟨t, ht, hkind, -⟩ := Tape.peek_ofWords ws
  refine reads_nextAre.mpr ⟨rfl, ofWord w, rfl, ?_⟩
  rw [if_pos (show (ofWord w).kind = k from hk)]
  exact ⟨t, ht, by simp [hkind, hl]⟩

theorem reads_nextAre_not (h : leading ws ≠ k) :
  (nextAre k l).Reads (.ofWords ws) false (.ofWords ws)
  := by
  obtain ⟨t, ht, hkind, -⟩ := Tape.peek_ofWords ws
  refine reads_nextAre.mpr ⟨rfl, t, ht, ?_⟩
  rw [if_neg (by rwa [hkind])]

theorem reads_advance_word (w : String) (ws : List String) :
  advance.Reads (.ofWords (w :: ws)) (ofWord w) (.ofWords ws)
  := reads_advance (Tape.takes_word w ws)

theorem reads_expect_word (hw : kindOf? w = some k) (ws : List String) :
  (expect k).Reads (.ofWords (w :: ws)) (ofWord w) (.ofWords ws)
  := (reads_expect (ne_eof_of_kindOf? hw)).mpr ⟨kind_ofWord hw, Tape.takes_word w ws⟩

theorem reads_accept_word (hw : kindOf? w = some k) (ws : List String) :
  (accept k).Reads (.ofWords (w :: ws)) true (.ofWords ws)
  := (reads_accept (ne_eof_of_kindOf? hw)).mpr
    (.inl ⟨rfl, ofWord w, kind_ofWord hw, Tape.takes_word w ws⟩)

theorem reads_accept_not (hk : k ≠ .eof) (h : leading ws ≠ k) :
  (accept k).Reads (.ofWords ws) false (.ofWords ws)
  := by
  obtain ⟨t, ht, hkind, -⟩ := Tape.peek_ofWords ws
  exact (reads_accept hk).mpr (.inr ⟨rfl, rfl, t, ht, by rwa [hkind]⟩)

theorem reads_afterToken?_word (hw : kindOf? w = some k) (hp : p.Reads (.ofWords ws) a s') :
  (afterToken? k p).Reads (.ofWords (w :: ws)) (some a) s'
  := (reads_accept_word hw ws).bind_true (hp.map some)

theorem reads_afterToken?_not (hk : k ≠ .eof) (h : leading ws ≠ k) :
  (afterToken? k p).Reads (.ofWords ws) none (.ofWords ws)
  := (reads_accept_not hk h).bind_false (reads_done_self _ _)

/-! ### Lists -/

/-- Entries with commas between them, before a closing parenthesis. -/
theorem reads_commaList_words {bound : Nat} (words : γ → List String) (value : γ → α) {x : γ}
    {xs : List γ} (hbound : xs.length < bound)
    (hread : ∀ y ∈ x :: xs, ∀ rest, leading rest = .comma ∨ leading rest = .rightParen →
      p.Reads (.ofWords (words y ++ rest)) (value y) (.ofWords rest))
    (hrest : leading rest = .rightParen) :
  (commaList bound p).Reads (.ofWords (words x ++ (xs.flatMap (fun y => "," :: words y) ++ rest)))
    (value x :: xs.map value) (.ofWords rest)
  := by
  have hcomma := kindOf?_comma
  have hlead : ∀ ys : List γ, leading (ys.flatMap (fun y => "," :: words y) ++ rest) = .comma ∨
      leading (ys.flatMap (fun y => "," :: words y) ++ rest) = .rightParen := by
    intro ys
    cases ys with
    | nil => exact .inr hrest
    | cons y ys => exact .inl (leading_cons hcomma _)
  have heach : ∀ ys : List γ, (∀ y ∈ ys, y ∈ x :: xs) →
      ReadsEach (do if ← accept .comma then some <$> p else return none)
        (.ofWords (ys.flatMap (fun y => "," :: words y) ++ rest)) (ys.map value) (.ofWords rest) := by
    intro ys hys
    induction ys with
    | nil =>
        apply ReadsEach.nil
        exact (reads_accept_not (by decide) (by simp [hrest])).bind_false (reads_done_self _ _)
    | cons y ys ih =>
        rw [List.flatMap_cons, List.cons_append, List.cons_append, List.append_assoc]
        apply ReadsEach.cons _ (ih fun z hz => hys z (by simp [hz]))
        apply (reads_accept_word hcomma _).bind_true
        exact (hread y (hys y (by simp)) _ (hlead ys)).map some
  have hfurther := heach xs fun y hy => List.mem_cons_of_mem x hy
  apply (hread x (by simp) _ (hlead xs)).bind
  apply (reads_collect.mpr ⟨xs.map value, by simpa using hbound, rfl, hfurther⟩).bind
  apply reads_done_self

end Production

/-! ### Names -/

namespace Grammar

open Production

variable {bound : Nat} {rest : List String}

theorem reads_ident_word {i : Ident} (hi : i.isWritable) (ws : List String) :
  ident.Reads (.ofWords (i.word :: ws)) (forget i) (.ofWords ws)
  := by
  obtain ⟨kind, hkind, hname, htext, hquoted⟩ := Ident.ofWord_word hi
  have hflag : decide (kind = .quotedIdentifier) = i.quoted := by
    rw [Bool.eq_iff_iff, decide_eq_true_iff, hquoted]
  apply reads_ident.mpr
  refine ⟨ofWord i.word, by rwa [kind_ofWord hkind], Tape.takes_word _ _, ?_⟩
  rw [kind_ofWord hkind, htext, hflag]
  rfl

theorem reads_dottedIdent_not (h : leading rest ≠ .dot) :
  dottedIdent.Reads (.ofWords rest) none (.ofWords rest)
  := by
  obtain ⟨t, hpeek, hkind, -⟩ := reads_peek_words rest
  apply hpeek.bind
  rw [if_neg (by rwa [hkind])]
  apply reads_done_self

/-- A dot and a star end a name. -/
theorem reads_dottedIdent_star :
  dottedIdent.Reads (.ofWords ("." :: "*" :: rest)) none (.ofWords ("." :: "*" :: rest))
  := by
  apply (reads_peek_word _ _).bind
  rw [if_pos (kind_ofWord kindOf?_dot)]
  obtain ⟨t, hpeek, hkind⟩ := reads_second_words "." ("*" :: rest)
  rw [leading_cons kindOf?_asterisk] at hkind
  apply hpeek.bind
  rw [if_neg (by simp [hkind, Kind.isName, Kind.isIdentifier])]
  apply reads_done_self

/-- Names are read up to where no further name follows a dot. -/
theorem reads_qualifiedName_words {name : QualifiedName} (hname : name.isWritable)
    (hbound : name.words.length ≤ bound)
    (hstop : dottedIdent.Reads (.ofWords rest) none (.ofWords rest)) :
  (qualifiedName bound).Reads (.ofWords (name.words ++ rest)) (forget name) (.ofWords rest)
  := by
  obtain ⟨_ | ⟨i, is⟩, span⟩ := name
  · contradiction
  simp only [QualifiedName.isWritable, List.isEmpty_cons, Bool.not_false, Bool.true_and,
    List.all_cons, Bool.and_eq_true, List.all_eq_true] at hname
  obtain ⟨hi, his⟩ := hname
  have heach : ∀ js : List Ident, (∀ j ∈ js, j.isWritable) →
      ReadsEach dottedIdent (.ofWords ((js.map Ident.word).flatMap (fun w => [".", w]) ++ rest))
        (forget js) (.ofWords rest) := by
    intro js hjs
    induction js with
    | nil => exact .nil hstop
    | cons j js ih =>
        have hj : j.isWritable := hjs j (by simp)
        apply ReadsEach.cons _ (ih fun k hk => hjs k (by simp [hk]))
        obtain ⟨kind, hkind, hisName, -⟩ := Ident.ofWord_word hj
        simp only [List.map_cons, List.flatMap_cons, List.cons_append, List.nil_append]
        apply (reads_peek_word _ _).bind
        rw [if_pos (kind_ofWord kindOf?_dot)]
        obtain ⟨t, hpeek, ht⟩ := reads_second_words "."
          (j.word :: ((js.map Ident.word).flatMap (fun w => [".", w]) ++ rest))
        apply hpeek.bind
        rw [if_pos (by rwa [ht, leading_cons hkind])]
        apply (reads_advance_word _ _).bind
        exact (reads_ident_word hj _).map some
  have hwords : (QualifiedName.mk (i :: is) span).words =
      i.word :: (is.map Ident.word).flatMap fun w => [".", w] := by
    rw [QualifiedName.words, List.map_cons, intersperse_cons]
  have hlength : (forget is).length < bound := by
    have hle := length_le_flatMap (fun w : String => [".", w]) (by simp) (is.map Ident.word)
    rw [hwords, List.length_cons] at hbound
    rw [List.length_map] at hle
    simp only [forget, move, List.length_map]
    omega
  rw [hwords, List.cons_append]
  apply (reads_here_words _).bind
  apply (reads_ident_word hi _).bind
  apply (reads_collect.mpr ⟨forget is, hlength, rfl, heach is his⟩).bind
  apply (reads_spanFrom_words _).bind
  apply reads_done_self

/-! ### Literals -/

theorem reads_text_words {value : String} (hbound : 1 < bound) (hrest : leading rest ≠ .string) :
  (text bound).Reads (.ofWords (Text.quote value :: rest)) value (.ofWords rest)
  := by
  have hquote := Text.kindOf?_quote value
  obtain ⟨t, ht, hkind, -⟩ := Tape.peek_ofWords rest
  have heach : ReadsEach (accept? .string) (.ofWords (Text.quote value :: rest))
      [ofWord (Text.quote value)] (.ofWords rest) := by
    apply ReadsEach.cons
    · exact (reads_accept? (by decide)).mpr
        (.inl ⟨_, rfl, kind_ofWord hquote, Tape.takes_word _ _⟩)
    · apply ReadsEach.nil
      exact (reads_accept? (by decide)).mpr (.inr ⟨rfl, rfl, t, ht, by rwa [hkind]⟩)
  apply (reads_collect.mpr ⟨_, by simpa using hbound, rfl, heach⟩).bind
  apply reads_pure.mpr
  simp [text_ofWord hquote, Text.unescape_quote]

/-- Literals are read, unless a further text follows a text. -/
theorem reads_literal_words {value : Literal} (hvalue : value.isWritable) (hbound : 1 < bound)
    (hrest : leading rest ≠ .string) :
  (literal bound).Reads (.ofWords (value.words ++ rest)) value (.ofWords rest)
  := by
  cases value with
  | null =>
      apply (reads_peek_word _ _).bind
      rw [kind_ofWord (Keyword.kindOf?_spelling (k := .NULL) (by decide))]
      apply (reads_advance_word _ _).bind
      apply reads_done_self
  | boolean value =>
      apply (reads_peek_word _ _).bind
      cases value with
      | false =>
          rw [if_neg Bool.false_ne_true,
            kind_ofWord (Keyword.kindOf?_spelling (k := .FALSE) (by decide))]
          apply (reads_advance_word _ _).bind
          apply reads_done_self
      | true =>
          rw [if_pos rfl, kind_ofWord (Keyword.kindOf?_spelling (k := .TRUE) (by decide))]
          apply (reads_advance_word _ _).bind
          apply reads_done_self
  | string value =>
      apply (reads_peek_word _ _).bind
      rw [kind_ofWord (Text.kindOf?_quote value)]
      apply (reads_text_words hbound hrest).bind
      apply reads_done_self
  | number form text =>
      simp only [Literal.isWritable, decide_eq_true_eq] at hvalue
      apply (reads_peek_word _ _).bind
      rw [kind_ofWord hvalue, text_ofWord hvalue (by simp)]
      apply (reads_advance_word _ _).bind
      apply reads_done_self
  | typed type value =>
      simp only [Literal.isWritable, Bool.and_eq_true, decide_eq_true_eq] at hvalue
      obtain ⟨htype, hupper⟩ := hvalue
      have hquote := Text.kindOf?_quote value
      apply (reads_peek_word _ _).bind
      rw [kind_ofWord htype]
      obtain ⟨t, hpeek, hkind⟩ := reads_second_words type (Text.quote value :: rest)
      apply hpeek.bind
      rw [if_pos (by rw [hkind, leading_cons hquote])]
      apply (reads_advance_word _ _).bind
      apply (reads_expect_word hquote _).bind
      apply reads_pure.mpr
      rw [text_ofWord htype (by simp), text_ofWord hquote (by simp), Text.unescape_quote, hupper]
      exact ⟨rfl, rfl⟩
  | interval fields => contradiction

/-- A text in quotes is read as a constant, unless a further text follows. -/
theorem reads_textConstant_word (value : String) (hbound : 1 < bound)
    (hrest : leading rest ≠ .string) :
  (textConstant bound).Reads (.ofWords (Text.quote value :: rest))
    ⟨.string value, .point .start⟩ (.ofWords rest)
  := by
  have hvalue : (Literal.string value).isWritable := rfl
  apply (reads_nextIs_words (leading_cons (Text.kindOf?_quote value) rest)).bind_true
  apply (reads_here_words _).bind
  apply (reads_literal_words hvalue hbound hrest).bind
  apply (reads_spanFrom_words _).bind
  apply reads_done_self

/-! ### Types -/

theorem reads_typeParameter_word {n : Nat} (hn : n < Number.wordSize 32) (ws : List String) :
  typeParameter.Reads (.ofWords (n.repr :: ws)) n (.ofWords ws)
  := by
  have hrepr := kindOf?_repr n
  apply (reads_expect_word hrepr _).bind
  rw [text_ofWord hrepr (by simp), Number.appendDigits_repr, if_pos hn]
  apply reads_done_self

theorem reads_opensAngle_not (name word : String) (h : leading rest ≠ .lt) :
  (opensAngle name word).Reads (.ofWords rest) false (.ofWords rest)
  := by
  unfold opensAngle
  split
  · apply reads_accept_not (by decide) h
  · apply reads_done_self

/-- The name of a type is read as it is. -/
theorem reads_typeName_word {name : String} {kind : Kind} (hname : kindOf? name = some kind)
    (hkind : kind.isName) (hne : kind ≠ .quotedIdentifier) (ws : List String) :
  ident.Reads (.ofWords (name :: ws)) ⟨name, false, .point .start⟩ (.ofWords ws)
  := by
  apply reads_ident.mpr
  refine ⟨ofWord name, by rwa [kind_ofWord hname], Tape.takes_word _ _, ?_⟩
  rw [kind_ofWord hname, text_ofWord hname hne, decide_eq_false hne]
  rfl

theorem reads_opensAngle_word (word : String) (ws : List String) :
  (opensAngle word word).Reads (.ofWords ("<" :: ws)) true (.ofWords ws)
  := by
  unfold opensAngle
  rw [if_pos rfl]
  apply reads_accept_word kindOf?_lt

theorem reads_opensAngle_other {name word : String} (h : name ≠ word) (s : Tape) :
  (opensAngle name word).Reads s false s
  := by
  unfold opensAngle
  rw [if_neg h]
  apply reads_done_self

/-- Types are read, as deep as they are nested. -/
theorem reads_dataType_words {type : DataType} (htype : type.isWritable)
    (hbound : type.words.length ≤ bound) {levels : Nat} (hlevels : type.inside ≤ levels)
    (hangle : leading rest ≠ .lt) (hparen : leading rest ≠ .leftParen) :
  (dataType (.nested bound levels)).Reads (.ofWords (type.words ++ rest)) type (.ofWords rest)
  := by
  induction type generalizing levels rest with
  | primitive name parameters =>
      simp only [DataType.isWritable, Option.any_eq_true, Bool.and_eq_true, decide_eq_true_eq,
        List.all_eq_true] at htype
      obtain ⟨⟨⟨kind, hname, hkind, hne⟩, hupper⟩, hparameters⟩ := htype
      have hident := reads_typeName_word hname hkind hne
      cases parameters with
      | nil =>
          apply (hident _).bind
          simp only [hupper]
          apply (reads_opensAngle_not _ _ hangle).bind
          apply (reads_opensAngle_not _ _ hangle).bind
          rw [if_neg Bool.false_ne_true, if_neg Bool.false_ne_true]
          apply (reads_accept_not (by decide) hparen).bind_false
          apply reads_done_self
      | cons n ns =>
          have hwords : (DataType.primitive name (n :: ns)).words ++ rest =
              name :: "(" :: ([n.repr] ++ (ns.flatMap (fun m => "," :: [m.repr]) ++ ")" :: rest)) := by
            simp [DataType.words, intersperse_cons, List.flatMap_map]
          have hlength : ns.length < bound := by
            have hle := length_le_flatMap (fun m : Nat => "," :: [m.repr]) (by simp) ns
            have hcount := congrArg List.length hwords
            simp only [List.length_append, List.length_cons, List.length_nil] at hcount
            omega
          have hlead := leading_cons kindOf?_leftParen
            ([n.repr] ++ (ns.flatMap (fun m => "," :: [m.repr]) ++ ")" :: rest))
          rw [hwords]
          apply (hident _).bind
          simp only [hupper]
          apply (reads_opensAngle_not _ _ (by rw [hlead]; decide)).bind
          apply (reads_opensAngle_not _ _ (by rw [hlead]; decide)).bind
          rw [if_neg Bool.false_ne_true, if_neg Bool.false_ne_true, Inner.bound_nested]
          apply (reads_accept_word kindOf?_leftParen _).bind_true
          apply (reads_commaList_words (fun m => [m.repr]) id hlength _
            (leading_cons kindOf?_rightParen rest)).bind
          · apply (reads_expect_word kindOf?_rightParen _).bind
            rw [List.map_id]
            apply reads_done_self
          · intro m hm ws _
            apply reads_typeParameter_word (hparameters m hm)
  | array element ih =>
      simp only [DataType.isWritable] at htype
      simp only [DataType.words, List.length_cons, List.length_append] at hbound
      simp only [DataType.inside] at hlevels
      obtain ⟨levels, rfl⟩ : ∃ l, levels = l + 1 := ⟨levels - 1, by omega⟩
      have hident := reads_typeName_word
        (Keyword.kindOf?_spelling (k := .ARRAY) (by decide)) rfl (by decide)
      have hupper := Keyword.toUpper_spelling (k := .ARRAY) (by simp)
      have hlead := leading_cons kindOf?_gt rest
      simp only [DataType.words, List.cons_append, List.append_assoc, List.nil_append]
      apply (hident _).bind
      simp only [hupper]
      apply (reads_opensAngle_word _ _).bind
      apply (reads_opensAngle_other (by decide) _).bind
      rw [if_pos rfl]
      apply (ih htype (by omega) (Nat.le_of_succ_le_succ hlevels) (by simp [hlead])
        (by simp [hlead])).bind
      apply (reads_expect_word kindOf?_gt _).bind
      apply reads_done_self
  | map key value ihkey ihvalue =>
      simp only [DataType.isWritable, Bool.and_eq_true] at htype
      simp only [DataType.words, List.length_cons, List.length_append] at hbound
      simp only [DataType.inside] at hlevels
      obtain ⟨levels, rfl⟩ : ∃ l, levels = l + 1 := ⟨levels - 1, by omega⟩
      have hident := reads_typeName_word
        (Keyword.kindOf?_spelling (k := .MAP) (by decide)) rfl (by decide)
      have hupper := Keyword.toUpper_spelling (k := .MAP) (by simp)
      have hlead := leading_cons kindOf?_gt rest
      have hcomma := leading_cons kindOf?_comma (value.words ++ ">" :: rest)
      simp only [DataType.words, List.cons_append, List.append_assoc, List.nil_append]
      apply (hident _).bind
      simp only [hupper]
      apply (reads_opensAngle_other (by decide) _).bind
      apply (reads_opensAngle_word _ _).bind
      rw [if_neg Bool.false_ne_true, if_pos rfl]
      apply (ihkey htype.1 (by omega) (by omega) (by simp [hcomma]) (by simp [hcomma])).bind
      apply (reads_expect_word kindOf?_comma _).bind
      apply (ihvalue htype.2 (by omega) (by omega) (by simp [hlead]) (by simp [hlead])).bind
      apply (reads_expect_word kindOf?_gt _).bind
      apply reads_done_self

end Grammar

end SqlFront
