import SqlFront.Proofs.Nesting.Openings
import SqlFront.Proofs.Printing.RoundTrip
import SqlFront.Proofs.Printing.Selections

/-!
# How deep parentheses nest

Two families of texts with many parentheses open at once.  A parenthesis behind `JOIN` that holds a
relation opens no level of nesting: such parentheses nest as deep as one likes
(`joins_unlimited`).  A parenthesis around an expression opens a level: as many of them nest as there
are levels, two apart (`parens_read`).
-/

namespace SqlFront

open Token Grammar Production

/-- Whether expressions and queries nest in a statement. -/
def Statement.nests : Statement → Bool
  | merge _ | exportRows _ | query _ => true
  | load _ | verbatim _ => false

@[simp]
theorem Statement.nests_move (f : Position → Position) (s : Statement) :
  (move f s).nests = s.nests
  := by
  cases s <;> rfl

/-- The statement that a text consists of, if `levels` levels of nesting are allowed. -/
def parseStatementWithin (levels : Nat) (text : String) : Except Fault Node :=
  let s := Stream.ofString text
  ((Grammar.soleStatement (.nested (s.size + 1) levels)).run s).1

/-- The statement is read on the tape of the text. -/
theorem parseStatementWithin_eq (levels : Nat) (text : String) :
  parseStatementWithin levels text =
    ((soleStatement (.nested ((Stream.ofString text).size + 1) levels)).eval (.ofString text)).1
  := congrArg Prod.fst (run_eq_eval _ (Stream.ofString text))

variable {inner : Inner} {words rest : List String} {m n levels : Nat}

/-! ### Texts of words -/

theorem openings_forget (joined : Bool) (stack : List Opening) (ts : List Token) :
  openings joined stack (forget ts) = openings joined stack ts
  := by
  induction ts generalizing joined stack with
  | nil => rfl
  | cons t ts ih =>
      have hbefore : Opening.before joined (forget ts) = .before joined ts := by
        cases ts <;> rfl
      change openings joined stack (forget t :: forget ts) = _
      rw [openings, openings, Token.kind_move, hbefore]
      split
      · rw [ih]
      · rw [ih]
      · rw [ih]

/-- A query that is read from its words is read from their text, which has the open parentheses of
the words. -/
theorem parseStatementWithin_words (hwords : AreTokens words)
    (hread : ∀ bound, words.length < bound → ∃ q,
      (soleStatement (.nested bound levels)).Reads (.ofWords words) (.statement (.query q))
        (.ofWords [])) :
  ∃ s ts, parseStatementWithin levels (" ".intercalate words) = .ok (.statement s) ∧ s.nests ∧
    Token.list (" ".intercalate words) = .ok ts ∧
    openings false [] (ts.filter (·.isVisible)) = openings false [] (words.map ofWord)
  := by
  have htape := Tape.forget_ofString hwords
  have hgood : ∀ bound, words.length < bound → ∃ node s', (∃ q, node = .statement (.query q)) ∧
      (soleStatement (.nested bound levels)).Reads (.ofWords words) node s' := by
    intro bound hbound
    obtain ⟨q, hq⟩ := hread bound hbound
    exact ⟨_, _, ⟨q, rfl⟩, hq⟩
  obtain ⟨node, hnode, q, hq⟩ := Stream.read_words hwords
    (fun _ => soleStatement_follows (Inner.nested_natural (.refl _) levels) trivial) hgood
  obtain ⟨p, hp⟩ := Tape.stop_of_forget htape
  obtain ⟨ts, hts, htokens⟩ := Tape.tokens_ofString hp
  have hforget : forget (ts.filter (·.isVisible)) = words.map ofWord := by
    rw [← htokens]
    exact congrArg Tape.tokens htape
  cases node with
  | expression e => contradiction
  | statement s =>
      have hs : forget s = .query q := Node.statement.inj hq
      refine ⟨s, ts, hnode, ?_, hts, ?_⟩
      · rw [← Statement.nests_move (fun _ => .start) s]
        exact congrArg Statement.nests hs
      · rw [← openings_forget, hforget]

/-! ### Joins -/

/-- The words for `n` joins, each within the parentheses at the right of the one before it. -/
def joinWords : Nat → List String
  | 0 => []
  | n + 1 => Keyword.JOIN.spelling :: "(" :: "a" :: (joinWords n ++ [")"])

/-- The words for a query with `n` joins, each within the one before it. -/
def joinQueryWords (n : Nat) : List String :=
  Keyword.SELECT.spelling :: "*" :: Keyword.FROM.spelling :: "a" :: joinWords n

theorem areTokens_joinQueryWords (n : Nat) :
  AreTokens (joinQueryWords n)
  := by
  have hjoins : AreTokens (joinWords n) := by
    induction n with
    | zero => apply areTokens_nil
    | succ n ih =>
        simp [joinWords, kindOf?_join, kindOf?_leftParen, kindOf?_rightParen, kindOf?_a, ih]
  simp [joinQueryWords, kindOf?_select, kindOf?_from, kindOf?_asterisk, kindOf?_a, hjoins]

theorem length_joinWords (n : Nat) :
  n ≤ (joinWords n).length
  := by
  induction n with
  | zero => apply Nat.le_refl
  | succ n ih =>
      simp only [joinWords, List.length_cons, List.length_append]
      omega

/-- What may stand behind a relation in these queries. -/
def EndsRelation (rest : List String) : Prop := leading rest = .eof ∨ leading rest = .rightParen

theorem leading_joinWords (hrest : EndsRelation rest) :
  leading (joinWords n ++ rest) = .keyword .JOIN ∨ EndsRelation (joinWords n ++ rest)
  := by
  cases n with
  | zero => exact .inr hrest
  | succ n => exact .inl (leading_cons kindOf?_join _)

/-- Within `n` joins there is a point where the parentheses of all of them are open. -/
theorem openings_joinWords (n : Nat) (joined : Bool) (stack : List Opening) (rest : List Token) :
  ∃ point ∈ openings joined stack ((joinWords n).map ofWord ++ rest), point.length = stack.length + n
  := by
  induction n generalizing joined stack rest with
  | zero =>
      use stack
      constructor
      · cases rest <;> simp [joinWords, openings]
      · rfl
  | succ n ih =>
      have hjoin := kind_ofWord kindOf?_join
      have hleft := kind_ofWord kindOf?_leftParen
      have ha := kind_ofWord kindOf?_a
      simp only [joinWords, List.map_cons, List.map_append, List.cons_append, List.append_assoc,
        openings, hjoin, hleft, ha]
      obtain ⟨point, hpoint, hlength⟩ := ih _ (.before true (ofWord "a" ::
        ((joinWords n).map ofWord ++ ([")"].map ofWord ++ rest))) :: stack) ([")"].map ofWord ++ rest)
      refine ⟨point, .tail _ (.tail _ (.tail _ hpoint)), ?_⟩
      rw [hlength, List.length_cons]
      omega

/-- Within a query with `n` joins there is a point where `n` parentheses are open. -/
theorem openings_joinQueryWords (n : Nat) :
  ∃ point ∈ openings false [] ((joinQueryWords n).map ofWord), point.length = n
  := by
  obtain ⟨point, hpoint, hlength⟩ := openings_joinWords n false [] []
  use point
  constructor
  · simp only [joinQueryWords, List.map_cons, openings, kind_ofWord kindOf?_select,
      kind_ofWord kindOf?_asterisk, kind_ofWord kindOf?_from, kind_ofWord kindOf?_a]
    rw [List.append_nil] at hpoint
    exact .tail _ (.tail _ (.tail _ (.tail _ hpoint)))
  · simpa using hlength

/-- A relation by name is read where no further part of a name and no label follows. -/
theorem reads_table_words (hbound : inner.bound ≠ 0)
    (hrest : leading rest = .keyword .JOIN ∨ EndsRelation rest) :
  ∃ p, (primary inner).Reads (.ofWords ("a" :: rest)) p (.ofWords rest)
  := by
  have hstop : ∀ k : Kind, k ≠ .keyword .JOIN → k ≠ .eof → k ≠ .rightParen → leading rest ≠ k := by
    rintro k hjoin heof hright rfl
    rcases hrest with h | h | h
    · exact hjoin h
    · exact heof h
    · exact hright h
  have hname : (leading rest).isName = false := by
    rcases hrest with h | h | h <;> rw [h] <;> rfl
  have hparen : leading ("a" :: rest) ≠ .leftParen := by
    rw [leading_cons kindOf?_a]
    decide
  have hwritable := QualifiedName.isWritable_of_identifier kindOf?_a default default
  have hqualified : (qualifiedName inner.bound).Reads (.ofWords ("a" :: rest))
      (forget ⟨[⟨"a", false, default⟩], default⟩) (.ofWords rest) := by
    apply reads_qualifiedName_words hwritable
    · exact Nat.pos_of_ne_zero hbound
    · apply reads_dottedIdent_not (hstop .dot (by decide) (by decide) (by decide))
  obtain ⟨n, hn⟩ := Nat.exists_eq_succ_of_ne_zero hbound
  constructor
  rw [primary, hn, primaryUpTo]
  apply (reads_here_words _).bind
  apply (reads_nextIs_not hparen).bind_false
  apply hqualified.bind
  apply (reads_label?_none (hstop _ (by decide) (by decide) (by decide)) hname).bind
  apply (reads_spanFrom_words rest).bind
  apply reads_done_self

theorem reads_joinWith?_none {primary : Production Primary} (hrest : EndsRelation rest) :
  (joinWith? inner primary).Reads (.ofWords rest) none (.ofWords rest)
  := by
  obtain ⟨t, hpeek, hkind, -⟩ := reads_peek_words rest
  have hnatural : leading rest ≠ .keyword .NATURAL := by
    rcases hrest with h | h <;> rw [h] <;> decide
  have hkind? : (joinKind? false).Reads (.ofWords rest) none (.ofWords rest) := by
    apply hpeek.bind
    rw [hkind]
    rcases hrest with h | h
    · rw [h]
      apply reads_done_self
    · rw [h]
      apply reads_done_self
  apply (reads_here_words _).bind
  apply (reads_accept_not (by decide) hnatural).bind
  apply hkind?.bind
  apply reads_done_self

/-- Joins within each other are read, as many as there may be parentheses that open no level. -/
theorem reads_joinWords (hbound : 1 < inner.bound)
    (hprimary : ∀ rest, leading rest = .keyword .JOIN ∨ EndsRelation rest →
      ∃ p, inner.primary.Reads (.ofWords ("a" :: rest)) p (.ofWords rest))
    (hm : n ≤ m) (hrest : EndsRelation rest) :
  ∃ joins, joins.length ≤ 1 ∧ ReadsEach (joinWith? inner (primaryUpTo inner m))
    (.ofWords (joinWords n ++ rest)) joins (.ofWords rest)
  := by
  induction n generalizing m rest with
  | zero =>
      use [], Nat.zero_le 1
      exact .nil (reads_joinWith?_none hrest)
  | succ n ih =>
      obtain ⟨m, rfl⟩ : ∃ l, m = l + 1 := ⟨m - 1, by omega⟩
      have hright := leading_cons kindOf?_rightParen rest
      have hjoin := leading_cons kindOf?_join
        ("(" :: "a" :: (joinWords n ++ ")" :: rest))
      have hafter : leading (joinWords n ++ ")" :: rest) = .keyword .JOIN ∨
          EndsRelation (joinWords n ++ ")" :: rest) := by
        cases n with
        | zero => exact .inr (.inr hright)
        | succ n => exact .inl (leading_cons kindOf?_join _)
      obtain ⟨p, hp⟩ := hprimary _ hafter
      obtain ⟨joins, hlength, hjoins⟩ := ih (Nat.le_of_succ_le_succ hm) (.inr hright)
      obtain ⟨t, hsecond, hkind⟩ := reads_second_words "(" ("a" :: (joinWords n ++ ")" :: rest))
      have hrelation : ∃ r, (primaryUpTo inner (m + 1)).Reads
          (.ofWords ("(" :: "a" :: (joinWords n ++ ")" :: rest))) r (.ofWords rest) := by
        constructor
        rw [primaryUpTo]
        apply (reads_here_words _).bind
        apply (reads_nextIs_words (leading_cons kindOf?_leftParen _)).bind_true
        apply hsecond.bind
        rw [hkind, leading_cons kindOf?_a]
        apply (reads_advance_word _ _).bind
        apply (reads_here_words _).bind
        apply Reads.bind
        · apply hp.bind
          apply (reads_collect.mpr ⟨joins, by omega, rfl, hjoins⟩).bind
          apply (reads_spanFrom_words _).bind
          apply reads_done_self
        · apply (reads_expect_word kindOf?_rightParen _).bind
          apply reads_done_self
      obtain ⟨r, hr⟩ := hrelation
      have hend : ∀ k : Kind, k ≠ .eof → k ≠ .rightParen → leading rest ≠ k := by
        rintro k heof hparen rfl
        rcases hrest with h | h
        · exact heof h
        · exact hparen h
      refine ⟨[⟨.inner, false, r, none, .point .start⟩], Nat.le_refl 1, ?_⟩
      simp only [joinWords, List.cons_append, List.append_assoc, List.nil_append]
      apply ReadsEach.cons _ (.nil (reads_joinWith?_none hrest))
      apply (reads_here_words _).bind
      apply (reads_accept_not (by decide) (by rw [hjoin]; decide)).bind
      apply Reads.bind
      · apply (reads_peek_word _ _).bind
        rw [kind_ofWord kindOf?_join]
        apply reads_done_self
      · apply (reads_expect_word kindOf?_join _).bind
        apply hr.bind
        apply Reads.bind
        · apply (reads_accept_not (by decide) (hend (.keyword .ON) (by decide) (by decide))).bind_false
          apply (reads_accept_not (by decide)
            (hend (.keyword .USING) (by decide) (by decide))).bind_false
          apply reads_done_self
        · apply (reads_spanFrom_words _).bind
          apply reads_done_self

/-- A query of joins within each other is read, whatever their number, with few levels of nesting. -/
theorem reads_joinQueryWords {bound : Nat} (levels : Nat)
    (hbound : (joinQueryWords n).length < bound) :
  ∃ q, (soleStatement (.nested bound (levels + 2))).Reads (.ofWords (joinQueryWords n))
    (.statement (.query q)) (.ofWords [])
  := by
  have hlength := length_joinWords n
  have hwords : (joinQueryWords n).length = (joinWords n).length + 4 := rfl
  have hinner := Inner.bound_nested bound (levels + 1)
  have hstar : (Inner.nested bound (levels + 1)).expression.Recovers 1 ⟨.star none, default⟩ := by
    apply ReadBack.expression (Nat.succ_pos levels)
    apply Expression.Writable.star.readBack
    simp only [Expression.words, Form.words, List.length_singleton]
    omega
  have hne : (Inner.nested bound levels).bound ≠ 0 := by
    rw [Inner.bound_nested]
    omega
  have hprimary : ∀ rest, leading rest = .keyword .JOIN ∨ EndsRelation rest →
      ∃ p, (Inner.nested bound (levels + 1)).primary.Reads (.ofWords ("a" :: rest)) p
        (.ofWords rest) :=
    fun rest hrest => reads_table_words hne hrest
  have heof : EndsRelation [] := .inl rfl
  obtain ⟨p, hp⟩ := hprimary _ (leading_joinWords (n := n) heof)
  obtain ⟨joins, hjoined, hjoins⟩ := reads_joinWords (m := bound) (n := n)
    (by rw [hinner]; omega) hprimary (by omega) heof
  rw [List.append_nil] at hp hjoins
  have hrelation : (relation (.nested bound (levels + 1))).Reads (.ofWords ("a" :: joinWords n))
      ⟨p, joins, .point .start⟩ (.ofWords []) := by
    unfold relation primary
    rw [hinner]
    apply (reads_here_words _).bind
    apply hp.bind
    apply (reads_collect.mpr ⟨joins, by omega, rfl, hjoins⟩).bind
    apply (reads_spanFrom_words _).bind
    apply reads_done_self
  have hfrom := leading_cons kindOf?_from ("a" :: joinWords n)
  have hasterisk := leading_cons kindOf?_asterisk (Keyword.FROM.spelling :: "a" :: joinWords n)
  constructor
  apply reads_selection_words (Nat.ne_zero_of_lt hbound) _ _ (.inr hfrom)
  · apply hstar
    rw [hfrom]
    decide
  · apply (reads_accept_word kindOf?_from _).bind_true
    apply reads_commaList_single _ hrelation (leading_nil_ne (by decide))
    rw [hinner]
    omega
  · rw [hasterisk]
    decide
  · rw [hasterisk]
    decide

/-- **Joins nest without a limit.**  For every number there is a text that is read as a query in
which that many parentheses are open at once. -/
theorem joins_unlimited (n : Nat) :
  ∃ s ts, parseStatement (" ".intercalate (joinQueryWords n)) = .ok (.statement s) ∧ s.nests ∧
    Token.list (" ".intercalate (joinQueryWords n)) = .ok ts ∧
    ∃ point ∈ openings false [] (ts.filter (·.isVisible)), point.length = n
  := by
  obtain ⟨s, ts, hs, hnests, hts, hopenings⟩ :=
    parseStatementWithin_words (areTokens_joinQueryWords n) fun bound hbound =>
      reads_joinQueryWords 30 hbound
  refine ⟨s, ts, hs, hnests, hts, ?_⟩
  rw [hopenings]
  apply openings_joinQueryWords

/-! ### Parentheses around an expression -/

/-- A number between `n` pairs of parentheses. -/
def parens : Nat → Expression
  | 0 => ⟨.literal (.number .integer "1"), default⟩
  | n + 1 => ⟨.nested (parens n), default⟩

/-- The words for a query that selects a number between `n` pairs of parentheses. -/
def parenQueryWords (n : Nat) : List String := Keyword.SELECT.spelling :: (parens n).words

theorem writable_parens (n : Nat) :
  (parens n).Writable
  := by
  induction n with
  | zero => exact .literal (decide_eq_true kindOf?_one)
  | succ n ih => exact .nested ih

theorem inside_parens (n : Nat) :
  (parens n).inside = n
  := by
  induction n with
  | zero => rfl
  | succ n ih => rw [parens, Expression.inside, Form.inside, ih]

/-- Within `n` pairs of parentheses there is a point where all of them are open. -/
theorem openings_parens (n : Nat) (stack : List Opening) (rest : List Token) :
  ∃ point ∈ openings false stack ((parens n).words.map ofWord ++ rest),
    plainDepth point = plainDepth stack + n
  := by
  induction n generalizing stack rest with
  | zero =>
      use stack
      constructor
      · simp [parens, Expression.words, Form.words, Literal.words, openings]
      · rfl
  | succ n ih =>
      have hwords : (parens (n + 1)).words = "(" :: ((parens n).words ++ [")"]) := rfl
      obtain ⟨point, hpoint, hdepth⟩ := ih (.other :: stack) ([")"].map ofWord ++ rest)
      use point
      constructor
      · simp only [hwords, List.map_cons, List.map_append, List.cons_append, List.append_assoc,
          openings, kind_ofWord kindOf?_leftParen]
        exact .tail _ hpoint
      · rw [hdepth]
        simp only [plainDepth, List.count_cons_self]
        omega

/-- A query that selects a number between `n` pairs of parentheses is read with `n + 2` levels of
nesting. -/
theorem parens_read (n : Nat) :
  ∃ s ts, parseStatementWithin (n + 2) (" ".intercalate (parenQueryWords n)) =
      .ok (.statement s) ∧ s.nests ∧
    Token.list (" ".intercalate (parenQueryWords n)) = .ok ts ∧
    ∃ point ∈ openings false [] (ts.filter (·.isVisible)), plainDepth point = n
  := by
  have hwords : AreTokens (parenQueryWords n) := by
    rw [parenQueryWords, areTokens_cons, kindOf?_select]
    exact ⟨rfl, (writable_parens n).areTokens_words⟩
  have hread : ∀ bound, (parenQueryWords n).length < bound → ∃ q,
      (soleStatement (.nested bound (n + 1 + 1))).Reads (.ofWords (parenQueryWords n))
        (.statement (.query q)) (.ofWords []) := by
    intro bound hbound
    rw [parenQueryWords, List.length_cons] at hbound
    have hopens := (writable_parens n).opens_pos []
    have hrecovers := ReadBack.expression (by rw [inside_parens]; apply Nat.lt_succ_self)
      ((writable_parens n).readBack (Nat.lt_of_succ_lt hbound)) [] (by decide)
    rw [List.append_nil] at hopens hrecovers
    constructor
    apply reads_selection_words (Nat.ne_zero_of_lt hbound) (Kind.ne_of_opens hopens rfl)
      (Kind.ne_of_opens hopens rfl) (.inl rfl) hrecovers reads_relations_none
  obtain ⟨s, ts, hs, hnests, hts, hopenings⟩ := parseStatementWithin_words hwords hread
  refine ⟨s, ts, hs, hnests, hts, ?_⟩
  obtain ⟨point, hpoint, hdepth⟩ := openings_parens n [] []
  use point
  constructor
  · rw [List.append_nil] at hpoint
    simp only [hopenings, parenQueryWords, List.map_cons, openings, kind_ofWord kindOf?_select]
    exact .tail _ hpoint
  · simpa using hdepth

end SqlFront
