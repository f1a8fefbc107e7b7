import SqlFront.Proofs.Grammar.Rules

/-!
# Open parentheses

Which parentheses are open at the points between tokens.  A parenthesis directly behind `JOIN` in
which no query begins is told from all others: it holds a relation that is joined, and the grammar
opens no level for it.

`Fits h joined used` says that between the tokens `used` at most `h` further parentheses of the
other sort are open at once, and that each that is opened there is also closed.
-/

namespace SqlFront

/-- What a parenthesis is opened for: for a relation at the right of a join, or for anything else. -/
inductive Opening where
  | joined
  | other
  deriving Repr, DecidableEq

/-- What a parenthesis before `rest` is opened for; `joined` says whether `JOIN` stands before it. -/
def Opening.before (joined : Bool) (rest : List Token) : Opening :=
  if joined && !rest.head?.any fun t => Grammar.beginsQuery t.kind then .joined else .other

/-- The parentheses that are open at the points between tokens, the innermost first: `stack` are
those that are open at the first point, and `joined` says whether `JOIN` stands before it. -/
def openings (joined : Bool) (stack : List Opening) : List Token → List (List Opening)
  | [] => [stack]
  | t :: rest => stack ::
    match t.kind with
    | .leftParen => openings false (.before joined rest :: stack) rest
    | .rightParen => openings false stack.tail rest
    | k => openings (k = .keyword .JOIN) stack rest

/-- The number of open parentheses that hold no relation at the right of a join. -/
abbrev plainDepth (stack : List Opening) : Nat := stack.count .other

namespace Grammar

variable {h h' : Nat} {joined : Bool} {used v : List Token} {t opening closing : Token}

/-- At most `h` parentheses are opened and not closed between the tokens, those apart that hold a
relation at the right of a join; behind the tokens, all are closed. -/
def Fits (h : Nat) (joined : Bool) (used : List Token) : Prop :=
  ∃ joined', ∀ stack rest, ∀ point ∈ openings joined stack (used ++ rest),
    plainDepth point ≤ plainDepth stack + h ∨ point ∈ openings joined' stack rest

theorem Fits.mono (hfits : Fits h joined used) (hle : h ≤ h') :
  Fits h' joined used
  := by
  obtain ⟨joined', hfits⟩ := hfits
  use joined'
  intro stack rest point hpoint
  apply (hfits stack rest point hpoint).imp_left
  intro hdepth
  omega

/-- At all points of tokens that fit, few parentheses are open. -/
theorem Fits.plainDepth_le (hfits : Fits h joined used) (stack : List Opening) :
  ∀ point ∈ openings joined stack used, plainDepth point ≤ plainDepth stack + h
  := by
  obtain ⟨joined', hfits⟩ := hfits
  intro point hpoint
  rcases hfits stack [] point (by rwa [List.append_nil]) with hdepth | hend
  · apply hdepth
  · rw [openings, List.mem_singleton] at hend
    subst hend
    apply Nat.le_add_right

theorem fits_nil :
  Fits h joined []
  := ⟨joined, fun _ _ _ hpoint => .inr hpoint⟩

theorem Fits.append (hused : Fits h joined used) (hv : ∀ joined, Fits h joined v) :
  Fits h joined (used ++ v)
  := by
  obtain ⟨joined₁, hused⟩ := hused
  obtain ⟨joined₂, hv⟩ := hv joined₁
  use joined₂
  intro stack rest point hpoint
  rw [List.append_assoc] at hpoint
  rcases hused stack (v ++ rest) point hpoint with hdepth | hpoint
  · exact .inl hdepth
  · apply hv stack rest point hpoint

/-- A plain token opens and closes nothing. -/
theorem Fits.cons (ht : t.kind.isPlain) (hused : Fits h (t.kind = .keyword .JOIN) used) :
  Fits h joined (t :: used)
  := by
  obtain ⟨joined', hused⟩ := hused
  use joined'
  intro stack rest point hpoint
  rw [List.cons_append, openings] at hpoint
  rcases List.mem_cons.mp hpoint with rfl | hpoint
  · exact .inl (Nat.le_add_right _ _)
  · split at hpoint
    · next hkind => simp [hkind, Kind.isPlain] at ht
    · next hkind => simp [hkind, Kind.isPlain] at ht
    · apply hused stack rest point hpoint

theorem Plain.fits (hused : Plain used) :
  Fits h joined used
  := by
  induction used generalizing joined with
  | nil => apply fits_nil
  | cons t used ih =>
      apply Fits.cons (hused t (by simp))
      apply ih
      intro u hu
      apply hused u (by simp [hu])

/-- A pair of parentheses raises the height by what its opening one counts for. -/
theorem Fits.paren (hopening : opening.kind = .leftParen) (hclosing : closing.kind = .rightParen)
    (hused : Fits h false used)
    (hh : ∀ rest, [Opening.before joined (used ++ closing :: rest)].count .other + h ≤ h') :
  Fits h' joined (opening :: (used ++ [closing]))
  := by
  obtain ⟨joined', hused⟩ := hused
  use false
  intro stack rest point hpoint
  rw [List.cons_append, openings, hopening, List.append_assoc, List.singleton_append] at hpoint
  rcases List.mem_cons.mp hpoint with rfl | hpoint
  · exact .inl (Nat.le_add_right _ _)
  · have hdepth : plainDepth (.before joined (used ++ closing :: rest) :: stack) + h ≤
        plainDepth stack + h' := by
      have hle := hh rest
      rw [plainDepth, plainDepth, ← List.singleton_append, List.count_append]
      omega
    rcases hused _ _ point hpoint with hle | hpoint
    · exact .inl (Nat.le_trans hle hdepth)
    · rw [openings, hclosing] at hpoint
      rcases List.mem_cons.mp hpoint with rfl | hpoint
      · left
        omega
      · exact .inr hpoint

/-- Between parentheses, one more is open. -/
theorem Fits.enclose (hopening : opening.kind = .leftParen)
    (hclosing : closing.kind = .rightParen) (hused : Fits h false used) :
  Fits (h + 1) joined (opening :: (used ++ [closing]))
  := by
  apply hused.paren hopening hclosing
  intro rest
  cases Opening.before joined (used ++ closing :: rest)
  · simp
  · simp [Nat.add_comm]

/-- The parenthesis around a relation at the right of a join does not count. -/
theorem Fits.join (hopening : opening.kind = .leftParen) (hclosing : closing.kind = .rightParen)
    (hquery : ∀ t ∈ (used ++ [closing]).head?, ¬ beginsQuery t.kind) (hused : Fits h false used) :
  Fits h true (opening :: (used ++ [closing]))
  := by
  apply hused.paren hopening hclosing
  intro rest
  have hbefore : Opening.before true (used ++ closing :: rest) = .joined := by
    cases used with
    | nil => simp [Opening.before, hclosing, beginsQuery]
    | cons t used => simpa [Opening.before] using hquery
  simp [hbefore]

/-! ### Sequences and options -/

section

variable {α : Type} {k : Kind} {R : α → List Token → Prop}

/-- Everything that the rule reads fits. -/
def RuleFits (h : Nat) (R : α → List Token → Prop) : Prop := ∀ a u, R a u → ∀ joined, Fits h joined u

theorem RuleFits.mono (hR : RuleFits h R) (hle : h ≤ h') :
  RuleFits h' R
  := fun a u hu joined => (hR a u hu joined).mono hle

theorem RuleFits.repeated (hR : RuleFits h R) :
  RuleFits h (Repeated R)
  := by
  intro as u hu
  induction hu with
  | nil => exact fun _ => fits_nil
  | cons first others ih => exact fun joined => (hR _ _ first joined).append ih

theorem RuleFits.separated (hR : RuleFits h R) (hk : k.isPlain) :
  RuleFits h (Separated k R)
  := by
  intro as u hu
  induction hu with
  | one only => apply hR _ _ only
  | more first separator others ih =>
      intro joined
      apply (hR _ _ first joined).append
      intro joined
      apply Fits.cons (by rwa [separator])
      apply ih

theorem RuleFits.possible (hR : RuleFits h R) :
  RuleFits h (Possible R)
  := by
  rintro _ _ (_ | item)
  · exact fun _ => fits_nil
  · apply hR _ _ item

theorem RuleFits.after (hR : RuleFits h R) (hk : k.isPlain) :
  RuleFits h (After k R)
  := by
  rintro _ _ ⟨opening, item⟩ joined
  apply Fits.cons (by rwa [opening])
  apply hR _ _ item

theorem RuleFits.enclosed (hR : RuleFits h R) :
  RuleFits (h + 1) (Enclosed R)
  := by
  rintro _ _ ⟨opening, ⟨item, closing⟩⟩ joined
  apply Fits.enclose opening closing
  apply hR _ _ item

theorem RuleFits.listed {R : List α → List Token → Prop} (hR : RuleFits h R) :
  RuleFits h (Listed R)
  := by
  rintro _ _ (_ | items)
  · exact fun _ => fits_nil
  · apply hR _ _ items

end

end Grammar

end SqlFront
