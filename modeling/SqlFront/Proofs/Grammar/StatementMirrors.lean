import SqlFront.Grammar.Statement
import SqlFront.Proofs.Grammar.QueryMirrors
import SqlFront.Proofs.Grammar.StatementFollows

/-!
# Statements side by side

The productions of statements give the same on tapes that mirror each other.  Statements that are
kept verbatim are compared only where nothing more stands on the second tape.
-/

namespace SqlFront.Grammar

open Production

variable {c : Mirror}

/-! ### Words -/

theorem isWord_eq {t u : Token} (h : c.Meets t u) (word : String) :
  u.isWord word = t.isWord word
  := by
  cases h with
  | matched h => rw [Token.isWord, Token.isWord, h.kind_eq, h.toUpper_eq]
  | ended closes =>
      rcases Mirror.closes_of_mem_head? closes with hu | hu <;>
        simp [Token.isWord, Token.eof, hu]

/-- Where the next token is the word that is asked for, it has been looked at. -/
theorem mirrored_nextIsWord_bind_ite {α : Type} {R : α → α → Prop} {p p' q q' : Production α}
    {word : String} (hp : MirroredAt c [.identifier] R p p') (hq : Mirrored c R q q') :
  Mirrored c R (nextIsWord word >>= fun a => if a then p else q)
    (nextIsWord word >>= fun a => if a then p' else q')
  := by
  rw [nextIsWord_bind_ite, nextIsWord_bind_ite]
  apply mirrored_peek_bind
  intro t u h
  rw [isWord_eq h]
  apply mirrored_ite_of
  · intro hword
    rw [Token.kind_of_isWord hword]
    apply hp
  · intro _
    apply hq.seen

theorem expectWord_mirrored (word : String) :
  Mirrored c c.likeness.Same (expectWord word) (expectWord word)
  := by
  apply mirrored_nextIsWord_bind_ite
  · apply mirrored_take (by simp)
    intro t u h _
    apply mirrored_pure h.same
  · apply mirrored_expected

theorem allColumns_mirrored (fromSource : Bool) :
  Mirrored c Eq (allColumns fromSource) (allColumns fromSource)
  := mirrored_ite (mirrored_accept rfl) (mirrored_pure rfl)

theorem clauseRows_mirrored :
  Mirrored c Eq clauseRows clauseRows
  := by
  apply (mirrored_accept rfl).bind_ite
  · apply (expectWord_mirrored _).bind
    intro _ _ _
    apply (mirrored_accept rfl).bind_ite
    · apply mirrored_nextIsWord_bind_ite
      · apply mirrored_advance_bind (by simp)
        intro _ _ _ _
        apply mirrored_pure rfl
      · apply mirrored_nextIsWord_bind_ite
        · apply mirrored_advance_bind (by simp)
          intro _ _ _ _
          apply mirrored_pure rfl
        · apply mirrored_expected
    · apply mirrored_pure rfl
  · apply (expectWord_mirrored _).bind
    intro _ _ _
    apply mirrored_pure rfl

/-! ### Loads and exports -/

theorem partitionEntry_mirrored (n : Nat) :
  Mirrored c c.likeness.Same (partitionEntry n) (partitionEntry n)
  := by
  apply mirrored_here.bind
  rintro start _ rfl
  apply ident_mirrored.bind
  intro column column' hcolumn
  apply ((constant_mirrored n).afterToken? rfl).bind
  intro value value' hvalue
  apply (mirrored_spanFrom start).bind
  rintro region _ rfl
  apply mirrored_pure
  simpa using ⟨hcolumn, hvalue⟩

theorem partition?_mirrored (n : Nat) :
  Mirrored c c.likeness.Same (partition? n) (partition? n)
  := by
  apply mirrored_here.bind
  rintro start _ rfl
  apply Mirrored.afterToken? _ rfl
  apply (mirrored_expect (by simp)).bind
  intro _ _ _
  apply ((partitionEntry_mirrored n).commaList n).bind
  intro entries entries' hentries
  apply (mirrored_expect (by simp)).bind
  intro _ _ _
  apply (mirrored_spanFrom start).bind
  rintro region _ rfl
  apply mirrored_pure
  simpa using hentries

theorem letters_eq_of_same {m : Likeness} {i i' : Ident} (h : m.Same i i') :
  m.letters i.value = m.letters i'.value
  := by
  cases m with
  | exact => exact congrArg Ident.value h
  | upTo s => exact toUpper_eq_of_same h

/-- The key of an option that is written with names. -/
theorem letters_keyOf {m : Likeness} {name name' : QualifiedName} (h : m.Same name name') :
  m.letters (".".intercalate (name.parts.map (·.value))) =
    m.letters (".".intercalate (name'.parts.map (·.value)))
  := by
  obtain ⟨parts, span⟩ := name
  obtain ⟨parts', span'⟩ := name'
  have hparts : m.Same parts parts' := by
    simp only [Likeness.Same, Likeness.view_qualifiedName, QualifiedName.mk.injEq] at h
    exact h.1
  apply Likeness.letters_intercalate
  rw [List.forall₂_map_left_iff, List.forall₂_map_right_iff]
  apply (Likeness.same_iff_forall₂.mp hparts).imp
  intro i i'
  apply letters_eq_of_same

/-- A name begins with the token of a name. -/
theorem qualifiedName_fails {k : Kind} (hk : ¬ k.isName) (n : Nat) (s : Tape) (hseen : s.Seen [k]) :
  ∃ e s', (qualifiedName n).eval s = (.error e, s')
  := by
  obtain ⟨t, ht, rfl⟩ := hseen 0 _ rfl
  have hident : ∃ e s', ident.eval s = (.error e, s') := by
    obtain ⟨e, s', herror⟩ := exists_eval_fail (α := Ident) (.expected "identifier") s
    refine ⟨e, s', ?_⟩
    rw [ident, eval_bind]
    simp only [peek, eval, Lookahead.distance, ht]
    rw [if_neg hk]
    exact herror
  obtain ⟨e, s', herror⟩ := hident
  refine ⟨e, s', ?_⟩
  rw [qualifiedName, eval_bind]
  simp only [here, eval, Lookahead.distance, ht]
  rw [eval_bind, herror]

theorem optionEntry_mirrored (n : Nat) :
  Mirrored c c.likeness.Same (optionEntry n) (optionEntry n)
  := by
  apply mirrored_here_accept?_bind
    (T := fun start key key' => c.likeness.key start key = c.likeness.key start key') rfl
  · intro start t u h ht
    apply mirrored_pure
    rw [h.text_eq (.inl (by rw [ht]; rfl))]
  · intro t u h
    by_cases hname : t.kind.isName
    · apply (qualifiedName_mirrored n).bind
      intro name name' hsame
      apply mirrored_pure
      exact (h.matches_of_ne (Kind.ne_eof_of_isName hname)).key_eq hname (letters_keyOf hsame)
    · have hany : MirroredAt c [t.kind] (fun _ _ => True)
          (do return ".".intercalate ((← qualifiedName n).parts.map (·.value)))
          (do return ".".intercalate ((← qualifiedName n).parts.map (·.value))) := by
        apply (qualifiedName_mirrored n).bind
        intro _ _ _
        apply mirrored_pure trivial
      apply hany.of_fails
      intro s hseen
      obtain ⟨e, s', herror⟩ := qualifiedName_fails hname n s hseen
      exact ⟨e, s', by rw [eval_bind, herror]⟩
  · intro start key key' hkey
    apply (mirrored_spanFrom_start start).bind
    rintro keySpan _ ⟨rfl, hstart⟩
    apply (mirrored_accept rfl).bind
    intro _ _ _
    apply (constant_mirrored n).bind
    intro value value' hvalue
    apply (mirrored_spanFrom start).bind
    rintro region _ rfl
    apply mirrored_pure
    simpa [hstart] using ⟨hkey, hvalue⟩

theorem options?_mirrored (n : Nat) :
  Mirrored c c.likeness.Same (options? n) (options? n)
  := by
  apply Mirrored.afterToken? _ rfl
  apply mirrored_here.bind
  rintro start _ rfl
  apply (mirrored_expect (by simp)).bind
  intro _ _ _
  apply ((optionEntry_mirrored n).commaList n).bind
  intro entries entries' hentries
  apply (mirrored_expect (by simp)).bind
  intro _ _ _
  apply (mirrored_spanFrom start).bind
  rintro region _ rfl
  apply mirrored_pure
  simpa using hentries

theorem load_mirrored (n : Nat) :
  Mirrored c c.likeness.Same (load n) (load n)
  := by
  apply mirrored_here.bind
  rintro start _ rfl
  apply (mirrored_expect (by simp)).bind
  intro _ _ _
  apply (mirrored_expect (by simp)).bind
  intro _ _ _
  apply (mirrored_accept rfl).bind
  rintro isLocal _ rfl
  apply (mirrored_expect (by simp)).bind
  intro _ _ _
  apply (textConstant_mirrored n).bind
  intro path path' hpath
  apply (mirrored_accept rfl).bind
  rintro overwrite _ rfl
  apply (mirrored_expect (by simp)).bind
  intro _ _ _
  apply (mirrored_expect (by simp)).bind
  intro _ _ _
  apply (qualifiedName_mirrored n).bind
  intro table table' htable
  apply (partition?_mirrored n).bind
  intro partition partition' hpartition
  apply (options?_mirrored n).bind
  intro options options' hoptions
  apply (mirrored_spanFrom start).bind
  rintro region _ rfl
  apply mirrored_pure
  simpa using ⟨hpath, htable, hpartition, hoptions⟩

/-! ### Statements taken verbatim -/

theorem balanced_mirrored (hc : c.total) (n depth : Nat) {found found' : List Token}
    (hfound : c.likeness.Same found found') :
  Mirrored c c.likeness.Same (balanced n depth found) (balanced n depth found')
  := by
  induction n generalizing depth found found' with
  | zero =>
      apply mirrored_fail
      intro _ _ _
      rfl
  | succ n ih =>
      have hend : ∀ ks, MirroredAt c ks c.likeness.Same
          (pure found.reverse : Production (List Token)) (pure found'.reverse) := by
        intro ks
        apply mirrored_pure
        rw [Likeness.same_iff_forall₂] at hfound ⊢
        exact List.forall₂_reverse_iff.mpr hfound
      have htake : ∀ {k : Kind} (depth : Nat), k ≠ .eof → MirroredAt c [k] c.likeness.Same
          (do balanced n depth ((← advance) :: found)) (do balanced n depth ((← advance) :: found')) := by
        intro k depth hk
        apply mirrored_take hk
        intro t u h _
        apply ih
        simpa using ⟨h.same, hfound⟩
      apply mirrored_peek_bind
      intro t u h
      rw [(h.matches hc).kind_eq]
      split
      · apply hend
      · apply mirrored_expected
      · apply hend
      · apply mirrored_expected
      · apply mirrored_expected
      · next hk => exact htake _ (by simp [hk])
      · next hk => exact htake _ (by simp [hk])
      · next heof _ _ _ _ _ _ => exact htake _ heof

theorem verbatim_mirrored (hc : c.total) (n : Nat) :
  Mirrored c c.likeness.Same (verbatim n) (verbatim n)
  := by
  apply mirrored_peek_bind
  intro t u h
  have hmatches := h.matches hc
  rw [hmatches.toUpper_eq, hmatches.span_eq]
  apply Mirrored.seen
  apply (balanced_mirrored hc n 0 rfl).bind
  intro tokens tokens' htokens
  apply (mirrored_spanFrom t.span.start).bind
  rintro region _ rfl
  apply mirrored_pure
  simpa using htokens

theorem theEnd_mirrored (hc : c.total) :
  Mirrored c Eq theEnd theEnd
  := by
  rw [theEnd, nextIs_bind_ite]
  apply mirrored_look .first rfl (by simp)
  intro t u h
  rw [(h.matches hc).kind_eq]
  apply mirrored_ite
  · apply mirrored_pure rfl
  · apply mirrored_expected

/-! ### Merges -/

variable {inner : Inner} (hin : inner.Mirrored c)

include hin

theorem assignment_mirrored :
  Mirrored c c.likeness.Same (assignment inner) (assignment inner)
  := by
  apply mirrored_here.bind
  rintro start _ rfl
  apply (qualifiedName_mirrored inner.bound).bind
  intro target target' htarget
  apply (mirrored_expect (by simp)).bind
  intro _ _ _
  apply hin.expression.bind
  intro value value' hvalue
  apply (mirrored_spanFrom start).bind
  rintro region _ rfl
  apply mirrored_pure
  simpa using ⟨htarget, hvalue⟩

theorem changeAction_mirrored (fromSource : Bool) :
  Mirrored c c.likeness.Same (changeAction inner fromSource) (changeAction inner fromSource)
  := by
  apply (mirrored_accept rfl).bind_ite
  · apply mirrored_same
  · apply mirrored_nextIsWord_bind_ite
    · apply mirrored_advance_bind (by simp)
      intro _ _ _ _
      apply Mirrored.seen
      apply (mirrored_expect (by simp)).bind
      intro _ _ _
      apply (allColumns_mirrored fromSource).bind_ite
      · apply mirrored_same
      · apply ((assignment_mirrored hin).commaList inner.bound).bind
        intro assignments assignments' hassignments
        apply mirrored_pure
        simpa [Likeness.view_action] using hassignments
    · apply mirrored_expected

theorem insertAction_mirrored :
  Mirrored c c.likeness.Same (insertAction inner) (insertAction inner)
  := by
  apply (mirrored_expect (by simp)).bind
  intro _ _ _
  apply (mirrored_accept rfl).bind_ite
  · apply mirrored_same
  · apply (columns_mirrored inner.bound).bind
    intro columns columns' hcolumns
    apply (mirrored_expect (by simp)).bind
    intro _ _ _
    apply (mirrored_expect (by simp)).bind
    intro _ _ _
    apply (expressionsToParen_mirrored hin).bind
    intro values values' hvalues
    apply mirrored_pure
    simpa [Likeness.view_action] using ⟨hcolumns, hvalues⟩

theorem clause_mirrored :
  Mirrored c c.likeness.Same (clause inner) (clause inner)
  := by
  apply mirrored_here.bind
  rintro start _ rfl
  apply (mirrored_expect (by simp)).bind
  intro _ _ _
  apply clauseRows_mirrored.bind
  rintro rows _ rfl
  apply (hin.expression.afterToken? rfl).bind
  intro condition condition' hcondition
  apply (mirrored_expect (by simp)).bind
  intro _ _ _
  have hend : ∀ action action' : Action, c.likeness.Same action action' →
      Mirrored c c.likeness.Same
        (do return ⟨rows, condition, action, ← spanFrom start⟩ : Production Clause)
        (do return ⟨rows, condition', action', ← spanFrom start⟩) := by
    intro action action' haction
    apply (mirrored_spanFrom start).bind
    rintro region _ rfl
    apply mirrored_pure
    simpa using ⟨hcondition, haction⟩
  cases rows with
  | notMatched => apply (insertAction_mirrored hin).bind hend
  | matched => apply (changeAction_mirrored hin true).bind hend
  | notMatchedBySource => apply (changeAction_mirrored hin false).bind hend

theorem mergeSource_mirrored :
  Mirrored c c.likeness.Same (mergeSource inner) (mergeSource inner)
  := by
  apply (mirrored_accept rfl).bind_ite
  · apply (queryToParen_mirrored hin).bind
    intro q q' hq
    apply mirrored_pure
    simpa [Likeness.view_mergeSource] using hq
  · apply (qualifiedName_mirrored inner.bound).bind
    intro name name' hname
    apply mirrored_pure
    simpa [Likeness.view_mergeSource] using hname

theorem clauses_mirrored :
  Mirrored c c.likeness.Same (clauses inner) (clauses inner)
  := by
  apply Mirrored.bind (R := c.likeness.Same)
  · apply Mirrored.collect
    apply (mirrored_nextIs rfl).bind_ite (clause_mirrored hin).some
    apply mirrored_same
  · intro found found' hfound
    have hempty : found'.isEmpty = found.isEmpty := by
      cases found <;> cases found' <;> simp at hfound ⊢
    rw [hempty]
    apply mirrored_ite
    · apply mirrored_expected
    · apply mirrored_pure hfound

theorem merge_mirrored :
  Mirrored c c.likeness.Same (merge inner) (merge inner)
  := by
  apply mirrored_here.bind
  rintro start _ rfl
  apply (mirrored_expect (by simp)).bind
  intro _ _ _
  apply (mirrored_expect (by simp)).bind
  intro _ _ _
  apply (qualifiedName_mirrored inner.bound).bind
  intro target target' htarget
  apply label?_mirrored.bind
  intro targetLabel targetLabel' htargetLabel
  apply (mirrored_expect (by simp)).bind
  intro _ _ _
  apply (mergeSource_mirrored hin).bind
  intro source source' hsource
  apply label?_mirrored.bind
  intro sourceLabel sourceLabel' hsourceLabel
  apply (mirrored_expect (by simp)).bind
  intro _ _ _
  apply hin.expression.bind
  intro condition condition' hcondition
  apply (clauses_mirrored hin).bind
  intro clauses clauses' hclauses
  apply (mirrored_spanFrom start).bind
  rintro region _ rfl
  apply mirrored_pure
  simpa using ⟨htarget, htargetLabel, hsource, hsourceLabel, hcondition, hclauses⟩

theorem exportRows_mirrored :
  Mirrored c c.likeness.Same (exportRows inner) (exportRows inner)
  := by
  apply mirrored_here.bind
  rintro start _ rfl
  apply (mirrored_expect (by simp)).bind
  intro _ _ _
  apply hin.query.bind
  intro q q' hq
  apply (mirrored_expect (by simp)).bind
  intro _ _ _
  apply (textConstant_mirrored inner.bound).bind
  intro path path' hpath
  apply (ident_mirrored.afterToken? rfl).bind
  intro format format' hformat
  apply (options?_mirrored inner.bound).bind
  intro options options' hoptions
  apply (mirrored_spanFrom start).bind
  rintro region _ rfl
  apply mirrored_pure
  simpa using ⟨hq, hpath, hformat, hoptions⟩

/-! ### Statements -/

theorem statement_mirrored (hc : c.total) :
  Mirrored c c.likeness.Same (statement inner) (statement inner)
  := by
  have hquery : Mirrored c c.likeness.Same
      (do return .query (← inner.query) : Production Statement)
      (do return .query (← inner.query) : Production Statement) := by
    apply hin.query.bind
    intro q q' hq
    apply mirrored_pure
    simpa [Likeness.view_statement] using hq
  have hverbatim : Mirrored c c.likeness.Same
      (do return .verbatim (← verbatim inner.bound) : Production Statement)
      (do return .verbatim (← verbatim inner.bound) : Production Statement) := by
    apply (verbatim_mirrored hc inner.bound).bind
    intro v v' hv
    apply mirrored_pure
    simpa [Likeness.view_statement] using hv
  apply mirrored_peek_bind
  intro t u h
  rw [(h.matches hc).kind_eq]
  split
  · apply (merge_mirrored hin).bind
    intro m m' hm
    apply mirrored_pure
    simpa [Likeness.view_statement] using hm
  · apply (load_mirrored inner.bound).bind
    intro l l' hl
    apply mirrored_pure
    simpa [Likeness.view_statement] using hl
  · apply (exportRows_mirrored hin).bind
    intro e e' he
    apply mirrored_pure
    simpa [Likeness.view_statement] using he
  · apply hquery.seen
  · apply hquery.seen
  · apply hquery.seen
  · apply hquery.seen
  · apply hquery.seen
  · apply hverbatim.seen
  · apply hverbatim.seen
  · apply hverbatim.seen
  · apply hverbatim.seen
  · apply mirrored_expected

theorem soleStatement_mirrored (hc : c.total) :
  Mirrored c c.likeness.Same (soleStatement inner) (soleStatement inner)
  := by
  apply (statement_mirrored hin hc).bind
  intro s s' hs
  apply (mirrored_accept rfl).bind
  intro _ _ _
  apply (theEnd_mirrored hc).bind
  intro _ _ _
  apply mirrored_pure
  simpa [Likeness.view_node] using hs

theorem statements_mirrored (hc : c.total) (n : Nat) {found found' : List Node}
    (hfound : c.likeness.Same found found') :
  Mirrored c c.likeness.Same (statements inner n found) (statements inner n found')
  := by
  induction n generalizing found found' with
  | zero =>
      apply mirrored_fail
      intro _ _ _
      rfl
  | succ n ih =>
      have hend : ∀ (ks : List Kind) {found found' : List Node}, c.likeness.Same found found' →
          MirroredAt c ks c.likeness.Same
            (pure found.reverse : Production (List Node)) (pure found'.reverse) := by
        intro ks found found' hfound
        apply mirrored_pure
        rw [Likeness.same_iff_forall₂] at hfound ⊢
        exact List.forall₂_reverse_iff.mpr hfound
      apply mirrored_peek_bind
      intro t u h
      rw [(h.matches hc).kind_eq]
      split
      · apply hend _ hfound
      · next hk =>
          rw [hk]
          apply mirrored_advance_bind (by simp)
          intro _ _ _ _
          apply ih hfound
      · apply (statement_mirrored hin hc).bind
        intro s s' hs
        have hnext : c.likeness.Same (Node.statement s :: found) (Node.statement s' :: found') := by
          simpa [Likeness.view_node] using ⟨hs, hfound⟩
        apply (mirrored_accept rfl).bind_ite
        · apply ih hnext
        · apply (theEnd_mirrored hc).bind
          intro _ _ _
          apply hend _ hnext

theorem soleExpression_mirrored (hc : c.total) :
  Mirrored c c.likeness.Same (soleExpression inner) (soleExpression inner)
  := by
  apply hin.expression.bind
  intro e e' he
  apply (theEnd_mirrored hc).bind
  intro _ _ _
  apply mirrored_pure
  simpa [Likeness.view_node] using he

end SqlFront.Grammar
