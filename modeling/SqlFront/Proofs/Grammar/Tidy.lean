import SqlFront.Proofs.Grammar.Follows
import SqlFront.Proofs.Grammar.QueryObeys
import SqlFront.Proofs.Reading.Tidy

/-!
# Names and constants are tidy

The productions of names and constants locate their faults and end alike at a semicolon and at the
end of the text.  The productions that take others one level further in do so if those do.
-/

namespace SqlFront

/-- A production that obeys a rule by which nothing is read from no tokens takes a token. -/
theorem Production.Obeys.consumes {α : Type} {p : Production α} {R : α → List Token → Prop}
    (h : p.Obeys R) (hR : ∀ a u, R a u → u ≠ []) :
  p.Consumes
  := by
  intro s a s' hreads
  obtain ⟨used, htakes, hrule⟩ := h hreads
  have hlength := List.length_pos_of_ne_nil (hR a used hrule)
  rw [htakes.tokens_eq, List.length_append]
  omega

namespace Grammar

open Production

variable {k : Kind} {ks : List Kind}

theorem not_isName_of_ends (h : k.ends) :
  ¬ k.isName
  := fun hname => Kind.not_ends_of_belongs (belongs_of_isName hname) h

theorem not_isQuantity_of_ends (h : k.ends) :
  ¬ isQuantity k
  := fun hquantity => Kind.not_ends_of_belongs (belongs_of_isQuantity hquantity) h

/-! ### Names -/

theorem ident_tidy :
  ident.Tidy
  := by
  apply tidy_peek_bind (expected "identifier")
  · intro t
    apply tidy_ite_of
    · intro hname
      apply tidy_advance_bind (Kind.ne_eof_of_isName hname)
      intro u
      apply tidy_pure
    · intro _
      apply tidy_expected
  · exact fun t ht => if_neg (not_isName_of_ends ht)

theorem dottedIdent_tidy :
  dottedIdent.Tidy
  := by
  apply tidy_peek_bind (pure none)
  · intro t
    apply tidy_ite_of
    · intro hdot
      rw [hdot]
      apply tidy_second_bind rfl (pure none)
      · intro u
        apply tidy_ite
        · apply tidy_advance_bind (by simp)
          intro v
          apply ident_tidy.map
        · apply tidy_pure
      · exact fun u hu => if_neg (not_isName_of_ends hu)
    · intro _
      apply tidy_pure
  · exact fun t ht => if_neg (Kind.ne_of_ends ht rfl)

theorem qualifiedName_consumes (n : Nat) :
  (qualifiedName n).Consumes
  := by
  apply consumes_bind
  intro start
  apply ident_consumes.bind

theorem qualifiedName_tidy (n : Nat) :
  (qualifiedName n).Tidy
  := by
  apply tidy_here_bind
  · intro start
    apply ident_consumes.bind
  · intro start
    apply ident_tidy.bind
    intro first
    apply (dottedIdent_tidy.collect n []).bind
    intro further
    apply (tidy_spanFrom start).bind
    intro region
    apply tidy_pure

theorem identList_tidy (n : Nat) :
  (identList n).Tidy
  := by
  apply (tidy_expect rfl).bind
  intro t
  apply (ident_tidy.commaList n).bind
  intro names
  apply (tidy_expect rfl).bind
  intro u
  apply tidy_pure

theorem columns_tidy (n : Nat) :
  (columns n).Tidy
  := (tidy_nextIs rfl).bind_ite (identList_tidy n) (tidy_pure _)

theorem label?_tidy :
  label?.Tidy
  := by
  apply (tidy_accept rfl).bind_ite (ident_tidy.map some)
  apply tidy_peek_bind (pure none)
  · intro t
    apply tidy_ite
    · apply ident_tidy.map
    · apply tidy_pure
  · exact fun t ht => if_neg (not_isName_of_ends ht)

/-! ### Constants -/

theorem unit_tidy :
  unit.Tidy
  := by
  apply ident_tidy.bind
  intro i
  apply tidy_pure

theorem toUnit?_tidy :
  toUnit?.Tidy
  := by
  apply tidy_peek_bind (pure none)
  · intro t
    apply tidy_ite_of
    · intro hto
      rw [hto]
      apply tidy_second_bind rfl (pure none)
      · intro u
        apply tidy_ite
        · apply tidy_advance_bind (by simp)
          intro v
          apply unit_tidy.map
        · apply tidy_pure
      · exact fun u hu => if_neg (not_isName_of_ends hu)
    · intro _
      apply tidy_pure
  · exact fun t ht => if_neg (Kind.ne_of_ends ht rfl)

theorem quantitySign_tidy :
  quantitySign.Tidy
  := by
  apply (tidy_accept rfl).bind_ite (tidy_pure _)
  apply (tidy_accept rfl).bind
  intro plus
  apply tidy_pure

theorem quantity_tidy (minus : Bool) :
  (quantity minus).Tidy
  := by
  apply tidy_peek_bind (expected "interval value")
  · intro t
    apply tidy_ite_of
    · intro hquantity
      apply tidy_advance_bind (Kind.ne_eof_of_belongs (belongs_of_isQuantity hquantity))
      intro u
      apply tidy_pure
    · intro _
      apply tidy_ite_of
      · intro hstring
        rw [hstring.1]
        apply tidy_advance_bind (by simp)
        intro u
        apply tidy_pure
      · intro _
        apply tidy_expected
  · intro t ht
    rw [if_neg (not_isQuantity_of_ends ht), if_neg fun h => Kind.ne_of_ends ht rfl h.1]

theorem intervalField_tidy :
  intervalField.Tidy
  := by
  apply quantitySign_tidy.bind
  intro minus
  apply (quantity_tidy minus).bind
  intro value
  apply unit_tidy.bind
  intro first
  apply toUnit?_tidy.bind
  intro last
  apply tidy_pure

theorem intervalFieldFollows_tidy :
  intervalFieldFollows.Tidy
  := by
  apply tidy_peek_bind (pure false)
  · intro t
    apply tidy_ite_of
    · intro hsign
      have hbelongs : t.kind.belongs := by
        rcases hsign with h | h <;> rw [h] <;> rfl
      apply tidy_second_bind hbelongs (pure false)
      · intro u
        apply tidy_ite_of
        · intro hquantity
          apply tidy_third_bind hbelongs (belongs_of_isQuantity hquantity) (pure false)
          · intro v
            apply tidy_pure
          · intro v hv
            rw [Bool.eq_false_iff.mpr (not_isName_of_ends hv)]
        · intro _
          apply tidy_pure
      · exact fun u hu => if_neg (not_isQuantity_of_ends hu)
    · intro _
      apply tidy_ite_of
      · intro hfirst
        have hbelongs : t.kind.belongs := by
          rcases hfirst with h | h
          · apply belongs_of_isQuantity h
          · rw [h]
            rfl
        apply tidy_second_bind hbelongs (pure false)
        · intro v
          apply tidy_pure
        · intro v hv
          rw [Bool.eq_false_iff.mpr (not_isName_of_ends hv)]
      · intro _
        apply tidy_pure
  · intro t ht
    have hne : ∀ {l : Kind}, l.belongs → t.kind ≠ l := Kind.ne_of_ends ht
    rw [if_neg (by rintro (h | h) <;> exact hne rfl h), if_neg]
    rintro (h | h)
    · exact not_isQuantity_of_ends ht h
    · exact hne rfl h

theorem intervalFields_tidy (n : Nat) :
  (intervalFields n).Tidy
  := by
  apply intervalField_tidy.bind
  intro first
  apply Tidy.bind
  · apply Tidy.collect
    apply intervalFieldFollows_tidy.bind_ite (intervalField_tidy.map some) (tidy_pure _)
  · intro further
    apply tidy_pure

theorem text_tidy (n : Nat) :
  (text n).Tidy
  := by
  apply ((tidy_accept? rfl).collect n []).bind
  intro parts
  apply tidy_pure

theorem typedText_tidy (type : String) (hk : k ≠ .eof) :
  TidyAt (k :: ks) (typedText type)
  := by
  apply tidy_advance_bind hk
  intro t
  apply (tidy_expect rfl).bind
  intro u
  apply tidy_pure

theorem literal_tidy (n : Nat) :
  (literal n).Tidy
  := by
  have hword : ∀ (value : Literal) (k : Kind), k ≠ .eof → TidyAt [k] (do
      let _ ← advance
      return value : Production Literal) := by
    intro value k hk
    apply tidy_advance_bind hk
    intro u
    apply tidy_pure
  apply tidy_peek_bind (expected "constant")
  · intro t
    split
    · next h => exact hword _ _ (by simp [h])
    · next h => exact hword _ _ (by simp [h])
    · next h => exact hword _ _ (by simp [h])
    · next h =>
        rw [h]
        apply tidy_advance_bind (by simp)
        intro u
        apply (intervalFields_tidy n).bind
        intro fields
        apply tidy_pure
    · apply (text_tidy n).bind
      intro value
      apply tidy_pure
    · next h =>
        rw [h]
        apply tidy_second_bind rfl (expected "constant")
        · intro u
          split
          · next h =>
              rw [h]
              apply tidy_advance_bind (by simp)
              intro v
              apply tidy_advance_bind (by simp)
              intro w
              apply tidy_pure
          · apply tidy_expected
        · intro u hu
          rcases Kind.ends_iff.mp hu with h | h <;> simp only [h]
    · next h =>
        rw [h]
        apply tidy_second_bind rfl (expected "constant")
        · intro u
          apply tidy_ite (typedText_tidy _ (by simp)) (tidy_expected _)
        · exact fun u hu => if_neg (Kind.ne_of_ends hu rfl)
    · next h => exact hword _ _ (by simp [h])
    · apply tidy_expected
  · intro t ht
    rcases Kind.ends_iff.mp ht with h | h <;> simp only [h]

theorem constant_tidy (n : Nat) :
  (constant n).Tidy
  := by
  have hconsumes : (literal n).Consumes :=
    Obeys.consumes (literal_obeys n) fun _ _ h => h.1
  apply tidy_here_bind
  · intro start
    apply hconsumes.bind
  · intro start
    apply (literal_tidy n).bind
    intro value
    apply (tidy_spanFrom start).bind
    intro region
    apply tidy_pure

theorem textConstant_tidy (n : Nat) :
  (textConstant n).Tidy
  := (tidy_nextIs rfl).bind_ite (constant_tidy n) (tidy_expected _)

/-! ### One level further in -/

/-- The productions one level further in are tidy, and take a token. -/
structure Inner.Tidy (inner : Inner) : Prop where
  expression : inner.expression.Tidy
  negation : inner.negation.Tidy
  signed : inner.signed.Tidy
  query : inner.query.Tidy
  primary : inner.primary.Tidy
  dataType : inner.dataType.Tidy
  obeys : ∃ G : Rules, G.Nonempty ∧ inner.Obeys G

theorem Inner.Tidy.expression_consumes {inner : Inner} (h : inner.Tidy) :
  inner.expression.Consumes
  := by
  obtain ⟨G, hG, hobeys⟩ := h.obeys
  exact Obeys.consumes hobeys.expression fun _ _ => hG.expression

theorem Inner.Tidy.primary_consumes {inner : Inner} (h : inner.Tidy) :
  inner.primary.Consumes
  := by
  obtain ⟨G, hG, hobeys⟩ := h.obeys
  exact Obeys.consumes hobeys.primary fun _ _ => hG.primary

end Grammar

end SqlFront
