import SqlFront.Proofs.Reading.Reads
import SqlFront.Proofs.Tree.Move

/-!
# Tapes that lie in other tapes

An embedding says how some tapes lie in others: all positions are moved, and what stands behind the
tokens may differ.  Behind a semicolon another text may go on (`Embedding.before`), since nothing is
looked at there before the semicolon is taken.  An embedding knows which tapes it is for and what
can be looked at and taken of them in their new place.
-/

namespace SqlFront

variable (f : Position → Position)

@[simp]
theorem Token.kind_move (t : Token) :
  (move f t).kind = t.kind
  := rfl

/-- Whether tokens of this kind are taken by the productions of statements; those that end a
statement and unrecognized ones are not. -/
def Kind.belongs : Kind → Bool
  | semicolon | unrecognized | eof => false
  | _ => true

/-! ### Moved tapes -/

instance : Movable Tape := ⟨fun f s => ⟨move f s.tokens, move f s.stop, move f s.last⟩⟩

namespace Tape

theorem peek_move (k : Nat) (s : Tape) :
  (move f s).peek k = move f (s.peek k)
  := by
  obtain ⟨tokens, stop, last⟩ := s
  simp only [move, peek, List.getElem?_map]
  cases tokens[k]? with
  | some t => rfl
  | none => cases stop <;> rfl

/-- Not moving positions leaves a tape as it is. -/
theorem move_id (s : Tape) :
  move id s = s
  := by
  obtain ⟨tokens, stop, last⟩ := s
  have htokens : move id tokens = tokens := List.map_id tokens
  have hstop : move id stop = stop := by
    cases stop with
    | ok p => rfl
    | error e =>
        obtain ⟨cause, span⟩ := e
        cases cause <;> rfl
  change Tape.mk (move id tokens) (move id stop) last = _
  rw [htokens, hstop]

/-! ### Tokens that have been looked at -/

/-- The next tokens are of these kinds. -/
def Seen (ks : List Kind) (s : Tape) : Prop :=
  ∀ i k, ks[i]? = some k → ∃ t, s.peek i = .ok t ∧ t.kind = k

variable {s : Tape} {t : Token} {k : Kind} {ks : List Kind}

theorem seen_nil (s : Tape) :
  s.Seen []
  := by
  intro i k hi
  contradiction

/-- One more token is looked at. -/
theorem Seen.concat (h : s.Seen ks) (ht : s.peek ks.length = .ok t) :
  s.Seen (ks ++ [t.kind])
  := by
  intro i k hi
  rcases Nat.lt_or_ge i ks.length with hlt | hge
  · rw [List.getElem?_append_left hlt] at hi
    apply h i k hi
  · rw [List.getElem?_append_right hge, List.getElem?_singleton] at hi
    split at hi
    · next hzero =>
        obtain rfl : i = ks.length := by omega
        exact ⟨t, ht, Option.some.inj hi⟩
    · contradiction

theorem peek_cons (t : Token) (ts : List Token) (stop : Except Fault Position) (a : Span) (i : Nat) :
  (⟨t :: ts, stop, a⟩ : Tape).peek (i + 1) = (⟨ts, stop, t.span⟩ : Tape).peek i
  := rfl

/-- A token that has been looked at stands on the tape, unless it is the end of the text. -/
theorem Seen.exists_cons (h : s.Seen (k :: ks)) (hk : k ≠ .eof) :
  ∃ t ts, s.tokens = t :: ts ∧ t.kind = k ∧ (⟨ts, s.stop, t.span⟩ : Tape).Seen ks
  := by
  obtain ⟨t, ht, rfl⟩ := h 0 k rfl
  obtain ⟨s', -, htakes⟩ := next_of_peek ht hk
  refine ⟨t, s'.tokens, htakes.tokens_eq, rfl, ?_⟩
  intro i l hi
  obtain ⟨u, hu, hkind⟩ := h (i + 1) l hi
  have hcons : s = ⟨t :: s'.tokens, s.stop, s.last⟩ := by
    rw [← List.singleton_append, ← htakes.tokens_eq]
  rw [hcons, peek_cons] at hu
  exact ⟨u, hu, hkind⟩

end Tape

/-! ### Embeddings -/

/-- How some tapes lie in others. -/
structure Embedding where
  /-- Where the positions are moved to. -/
  map : Position → Position
  /-- The tape in which a tape lies. -/
  tape : Tape → Tape
  /-- The tapes that it is about. -/
  fits : Tape → Prop
  /-- The causes for which a reading may fail in the new place only. -/
  allow : Cause → Prop
  /-- Whether readings that fail are compared. -/
  total : Prop
  last_tape (s : Tape) : (tape s).last = move map s.last
  peek_tape {s : Tape} {ks : List Kind} (hs : fits s) (hseen : s.Seen ks)
    (hks : ∀ k ∈ ks, k.belongs) : (tape s).peek ks.length = move map (s.peek ks.length)
  next_tape {s : Tape} {t : Token} {ts : List Token} (hs : fits s) (h : s.tokens = t :: ts) :
    (tape s).next = (.ok (move map t), tape ⟨ts, s.stop, t.span⟩)
  fits_next {s : Tape} {t : Token} {ts : List Token} (hs : fits s) (h : s.tokens = t :: ts)
    (ht : t.kind ≠ .unrecognized) :
    fits ⟨ts, s.stop, t.span⟩ ∨ ¬ total ∧ t.kind = .semicolon ∧ ts = []

namespace Embedding

theorem next_move_cons {s : Tape} {t : Token} {ts : List Token} (h : s.tokens = t :: ts) :
  (move f s).next = (.ok (move f t), move f ⟨ts, s.stop, t.span⟩)
  := by
  obtain ⟨tokens, stop, last⟩ := s
  subst h
  rfl

/-- A tape with all positions moved. -/
def moved (f : Position → Position) (allow : Cause → Prop) : Embedding where
  map := f
  tape := move f
  fits _ := True
  allow := allow
  total := True
  last_tape _ := rfl
  peek_tape _ _ _ := Tape.peek_move f _ _
  next_tape _ h := next_move_cons f h
  fits_next _ _ _ := .inl trivial

/-- A tape on which an unrecognized token stands. -/
def blocked (f : Position → Position) : Embedding where
  map := f
  tape := move f
  fits s := ∃ t ∈ s.tokens, t.kind = .unrecognized
  allow _ := False
  total := False
  last_tape _ := rfl
  peek_tape _ _ _ := Tape.peek_move f _ _
  next_tape _ h := next_move_cons f h
  fits_next := by
    rintro s t ts ⟨u, hu, hkind⟩ h ht
    rw [h] at hu
    rcases List.mem_cons.mp hu with rfl | hu
    · contradiction
    · exact .inl ⟨u, hu, hkind⟩

/-- A tape that ends with a semicolon, before other tokens. -/
def before (f : Position → Position) (more : List Token) (stop : Except Fault Position) :
    Embedding where
  map := f
  tape s := ⟨move f s.tokens ++ more, stop, move f s.last⟩
  fits s := ∃ front t, s.tokens = front ++ [t] ∧ t.kind = .semicolon
  allow _ := False
  total := False
  last_tape _ := rfl
  peek_tape := by
    rintro s ks ⟨front, t, htokens, hkind⟩ hseen hks
    have hlength : ks.length < s.tokens.length := by
      by_contra hle
      have hlast : front.length < ks.length := by
        rw [htokens, List.length_append, List.length_singleton] at hle
        omega
      obtain ⟨u, hu, hukind⟩ := hseen front.length _ (List.getElem?_eq_getElem hlast)
      simp only [Tape.peek, htokens, List.getElem?_concat_length, Except.ok.injEq] at hu
      have hbelongs := hks _ (List.getElem_mem hlast)
      rw [← hukind, ← hu, hkind] at hbelongs
      contradiction
    have hmoved : ks.length < (move f s.tokens).length := by
      simpa [move] using hlength
    simp only [Tape.peek, List.getElem?_append_left hmoved, List.getElem?_eq_getElem hlength,
      List.getElem?_eq_getElem hmoved]
    simp [move]
  next_tape := by
    rintro ⟨tokens, stop, last⟩ t ts - h
    subst h
    rfl
  fits_next := by
    rintro s t ts ⟨front, u, htokens, hkind⟩ h -
    rw [htokens] at h
    cases front with
    | nil =>
        obtain ⟨rfl, rfl⟩ := List.cons.inj h
        exact .inr ⟨id, hkind, rfl⟩
    | cons v front =>
        obtain ⟨-, rfl⟩ := List.cons.inj h
        exact .inl ⟨front, u, rfl, hkind⟩

section

variable {c : Embedding} {s m : Tape} {t : Token}

/-- Where a token can be taken, it can be taken in the new place. -/
theorem takes_tape (hs : c.fits s) (h : s.Takes [t] m) (ht : t.kind ≠ .eof) :
  (c.tape s).Takes [move c.map t] (c.tape m)
  := by
  refine Tape.takes_of_next ?_ (t := move c.map t) ht
  rw [h.eq_mk]
  apply c.next_tape hs h.tokens_eq

theorem fits_takes (hs : c.fits s) (h : s.Takes [t] m) (ht : t.kind ≠ .unrecognized) :
  c.fits m ∨ ¬ c.total ∧ t.kind = .semicolon ∧ m.tokens = []
  := by
  rw [h.eq_mk]
  apply c.fits_next hs h.tokens_eq ht

end

/-- The readings of a tape and of the tape in which it lies agree, unless the second fails for an
allowed cause or the first fails and that is not compared. -/
inductive Agrees {α : Type} [Movable α] (c : Embedding) :
    Except Fault α × Tape → Except Fault α × Tape → Prop where
  | same {r : Except Fault α} {s : Tape} (fits : c.fits s) :
      Agrees c (r, s) (move c.map r, c.tape s)
  | allowed {r : Except Fault α × Tape} {e : Fault} {s : Tape} (isAllowed : c.allow e.cause) :
      Agrees c r (.error e, s)
  | failed {e : Fault} {s : Tape} {r : Except Fault α × Tape} (apart : ¬ c.total) :
      Agrees c (.error e, s) r

end Embedding

end SqlFront
