import SqlFront.Grammar.Nesting
import SqlFront.Grammar.Constant
import SqlFront.Proofs.Grammar.Obeys
import SqlFront.Proofs.Reading.Follows

/-!
# Names and constants wherever they lie

The productions of names and constants give the same wherever the tape lies, moved, whatever the
bounds on the lengths of lists.  The productions that take others one level further in do so if those
follow each other.
-/

namespace SqlFront.Grammar

open Production

variable {c : Embedding} {limit n n' : Nat} {k : Kind}

theorem belongs_of_isName (h : k.isName) :
  k.belongs
  := by
  cases k <;> first | rfl | contradiction

theorem belongs_of_isQuantity (h : isQuantity k) :
  k.belongs
  := by
  cases k <;> first | rfl | contradiction

/-! ### Names -/

theorem ident_follows :
  Natural c limit ident
  := by
  apply follows_peek_bind
  intro t
  apply follows_ite_of
  · intro hname
    apply follows_advance_bind (belongs_of_isName hname)
    intro u
    apply follows_pure rfl
  · intro _
    apply follows_expected

theorem ident_consumes :
  ident.Consumes
  := by
  intro s i s' h
  obtain ⟨t, -, htakes, -⟩ := reads_ident.mp h
  rw [htakes.tokens_eq]
  simp

theorem dottedIdent_follows :
  Natural c limit dottedIdent
  := by
  apply follows_peek_bind
  intro t
  apply follows_ite_of
  · intro hdot
    rw [hdot]
    apply follows_second_bind rfl
    intro u
    apply follows_ite
    · apply follows_advance_bind rfl
      intro v
      apply ident_follows.some
    · apply follows_pure rfl
  · intro _
    apply follows_pure rfl

theorem dottedIdent_progresses :
  dottedIdent.Progresses
  := by
  apply progresses_bind
  intro t
  apply progresses_ite _ progresses_none
  apply progresses_bind
  intro u
  apply progresses_ite _ progresses_none
  apply progresses_bind
  intro v
  apply ident_consumes.some

theorem qualifiedName_follows (hn : Enough limit n n') :
  Follows c limit (qualifiedName n) (qualifiedName n')
  := by
  apply follows_here.bind
  intro start
  apply ident_follows.bind
  intro first
  apply (dottedIdent_follows.collect dottedIdent_progresses hn rfl).bind
  intro further
  apply (follows_spanFrom start).bind
  intro region
  apply follows_pure rfl

theorem identList_follows (hn : Enough limit n n') :
  Follows c limit (identList n) (identList n')
  := by
  apply (follows_expect rfl).bind
  intro t
  apply (ident_follows.commaList hn).bind
  intro names
  apply (follows_expect rfl).bind
  intro u
  apply follows_pure rfl

theorem columns_follows (hn : Enough limit n n') :
  Follows c limit (columns n) (columns n')
  := by
  apply (follows_nextIs _).bind_ite (identList_follows hn)
  apply follows_pure rfl

theorem label?_follows :
  Natural c limit label?
  := by
  apply (follows_accept rfl).bind_ite ident_follows.some
  apply follows_peek_bind
  intro t
  apply follows_ite ident_follows.some
  apply follows_pure rfl

/-! ### Constants -/

theorem unit_follows :
  Natural c limit unit
  := by
  apply ident_follows.bind
  intro i
  apply follows_pure rfl

theorem toUnit?_follows :
  Natural c limit toUnit?
  := by
  apply follows_peek_bind
  intro t
  apply follows_ite_of
  · intro hto
    rw [hto]
    apply follows_second_bind rfl
    intro u
    apply follows_ite
    · apply follows_advance_bind rfl
      intro v
      apply unit_follows.some
    · apply follows_pure rfl
  · intro _
    apply follows_pure rfl

theorem quantitySign_follows :
  Natural c limit quantitySign
  := by
  apply (follows_accept rfl).bind_ite
  · apply follows_pure rfl
  · apply (follows_accept rfl).bind
    intro plus
    apply follows_pure rfl

theorem quantity_follows (minus : Bool) :
  Natural c limit (quantity minus)
  := by
  apply follows_peek_bind
  intro t
  apply follows_ite_of
  · intro hquantity
    apply follows_advance_bind (belongs_of_isQuantity hquantity)
    intro u
    apply follows_pure rfl
  · intro _
    apply follows_ite_of
    · intro hstring
      rw [hstring.1]
      apply follows_advance_bind rfl
      intro u
      apply follows_pure rfl
    · intro _
      apply follows_expected

theorem intervalField_follows :
  Natural c limit intervalField
  := by
  apply quantitySign_follows.bind
  intro minus
  apply (quantity_follows _).bind
  intro value
  apply unit_follows.bind
  intro first
  apply toUnit?_follows.bind
  intro last
  apply follows_pure
  rw [move_eq c.map last]
  rfl

theorem intervalField_consumes :
  intervalField.Consumes
  := by
  apply consumes_bind
  intro minus
  apply consumes_bind
  intro value
  apply (ident_consumes.bind _).bind

theorem intervalFieldFollows_follows :
  Natural c limit intervalFieldFollows
  := by
  apply follows_peek_bind
  intro t
  apply follows_ite_of
  · intro hsign
    have hbelongs : t.kind.belongs := by
      rcases hsign with h | h <;> rw [h] <;> rfl
    apply follows_second_bind hbelongs
    intro u
    apply follows_ite_of
    · intro hquantity
      apply follows_third_bind hbelongs (belongs_of_isQuantity hquantity)
      intro v
      apply follows_pure rfl
    · intro _
      apply follows_pure rfl
  · intro _
    apply follows_ite_of
    · intro hfirst
      have hbelongs : t.kind.belongs := by
        rcases hfirst with h | h
        · apply belongs_of_isQuantity h
        · rw [h]
          rfl
      apply follows_second_bind hbelongs
      intro v
      apply follows_pure rfl
    · intro _
      apply follows_pure rfl

theorem intervalFields_follows (hn : Enough limit n n') :
  Follows c limit (intervalFields n) (intervalFields n')
  := by
  apply intervalField_follows.bind
  intro first
  apply Follows.bind
  · apply Follows.collect _ _ hn rfl
    · apply intervalFieldFollows_follows.bind_ite intervalField_follows.some
      apply follows_pure rfl
    · apply progresses_bind
      intro b
      apply progresses_ite intervalField_consumes.some progresses_none
  · intro further
    apply follows_pure rfl

theorem text_follows (hn : Enough limit n n') :
  Follows c limit (text n) (text n')
  := by
  apply ((follows_accept? rfl).collect (accept?_progresses (by simp)) hn rfl).bind
  intro parts
  apply follows_pure
  simp [move, Function.comp_def]

theorem typedText_follows (type : String) (hk : k.belongs) (ks : List Kind) :
  FollowsAt c limit (k :: ks) (typedText type) (typedText type)
  := by
  apply follows_advance_bind hk
  intro t
  apply (follows_expect rfl).bind
  intro u
  apply follows_pure rfl

theorem literal_follows (hn : Enough limit n n') :
  Follows c limit (literal n) (literal n')
  := by
  have hword : ∀ (value : Literal) (k : Kind), k.belongs → FollowsAt c limit [k] (do
      let _ ← advance
      return value : Production Literal) (do
      let _ ← advance
      return value : Production Literal) := by
    intro value k hk
    apply follows_advance_bind hk
    intro u
    apply follows_pure rfl
  apply follows_peek_bind
  intro t
  rw [Token.kind_move]
  split
  · next h => exact hword _ _ (by rw [h]; rfl)
  · next h => exact hword _ _ (by rw [h]; rfl)
  · next h => exact hword _ _ (by rw [h]; rfl)
  · next h =>
      rw [h]
      apply follows_advance_bind rfl
      intro u
      apply (intervalFields_follows hn).bind
      intro fields
      apply follows_pure
      rw [move_eq c.map fields]
      rfl
  · apply (text_follows hn).bind
    intro value
    apply follows_pure rfl
  · next h =>
      rw [h]
      apply follows_second_bind rfl
      intro u
      rw [Token.kind_move]
      split
      · next h =>
          rw [h]
          apply follows_advance_bind rfl
          intro v
          apply follows_advance_bind rfl
          intro w
          apply follows_pure rfl
      · apply follows_expected
  · next h =>
      rw [h]
      apply follows_second_bind rfl
      intro u
      apply follows_ite (typedText_follows _ rfl _) (follows_expected _)
  · next h => exact hword _ _ (by rw [h]; rfl)
  · apply follows_expected

theorem constant_follows (hn : Enough limit n n') :
  Follows c limit (constant n) (constant n')
  := by
  apply follows_here.bind
  intro start
  apply (literal_follows hn).bind
  intro value
  apply (follows_spanFrom start).bind
  intro region
  apply follows_pure rfl

theorem textConstant_follows (hn : Enough limit n n') :
  Follows c limit (textConstant n) (textConstant n')
  := (follows_nextIs _).bind_ite (constant_follows hn) (follows_expected _)

/-! ### One level further in -/

/-- The productions one level further in follow each other. -/
structure Inner.Follows (c : Embedding) (limit : Nat) (inner inner' : Inner) : Prop where
  bound : Enough limit inner.bound inner'.bound
  expression : Production.Follows c limit inner.expression inner'.expression
  negation : Production.Follows c limit inner.negation inner'.negation
  signed : Production.Follows c limit inner.signed inner'.signed
  query : Production.Follows c limit inner.query inner'.query
  primary : Production.Follows c limit inner.primary inner'.primary
  dataType : Production.Follows c limit inner.dataType inner'.dataType

theorem Inner.Follows.mono {inner inner' : Inner} (h : inner.Follows c limit inner') {limit' : Nat}
    (hle : limit' ≤ limit) :
  inner.Follows c limit' inner'
  where
  bound := ⟨Nat.le_trans hle h.bound.1, Nat.le_trans hle h.bound.2⟩
  expression := h.expression.mono hle
  negation := h.negation.mono hle
  signed := h.signed.mono hle
  query := h.query.mono hle
  primary := h.primary.mono hle
  dataType := h.dataType.mono hle

end SqlFront.Grammar
