import Mathlib.Data.List.Forall2
import SqlFront.Grammar.Constant
import SqlFront.Proofs.Reading.Follows
import SqlFront.Proofs.Reading.Reads
import SqlFront.Proofs.Text.Case
import SqlFront.Proofs.Tree.Case

/-!
# Two tapes side by side

A second tape mirrors a first one if it has the same tokens, exactly or up to case, and then nothing
more or something that ends a query.  A production mirrors another one if it gives the same on the
second tape as that one on the first: the same values, exactly or up to case, and the same faults.
Where more stands on the second tape, only what is read without a fault on the first one is compared.

Productions look at tokens before they take them, so the relation `MirroredAt c ks R p p'` is about
tapes on which tokens of the kinds `ks` come next, and `R` is the relation of the values.
-/

namespace SqlFront

/-! ### Tokens -/

/-- The second token is the first one up to case. -/
structure Spelling.Matches (s : Spelling) (t u : Token) : Prop where
  kind : u.kind = t.kind
  span : u.span = t.span
  letters : u.text.toUpper = t.text.toUpper
  /-- Text literals, quoted names and integers have no letters that may differ. -/
  fixed (h : t.kind.isQuoted ∨ t.kind = .number .integer) : u.text = t.text
  /-- No text literal begins where a name does. -/
  plain (h : t.kind.isName) : s.quotedAt t.span.start = false

/-- The second token is the first one, exactly or up to case. -/
def Likeness.Matches : Likeness → Token → Token → Prop
  | exact, t, u => u = t
  | upTo s, t, u => s.Matches t u

/-- Wherever one of the tokens is next, it is known which of the quantities from it on are text
literals. -/
def Likeness.Describes : Likeness → List Token → Prop
  | exact, _ => True
  | upTo s, ts => ∀ t us, t :: us <:+ ts → s.quotedFrom t.span.start = quotedQuantities (t :: us)

namespace Likeness

theorem same_iff_forall₂ {α : Type} [Cased α] {m : Likeness} {as bs : List α} :
  m.Same as bs ↔ List.Forall₂ m.Same as bs
  := by
  induction as generalizing bs with
  | nil => cases bs <;> simp
  | cons a as ih => cases bs <;> simp [ih]

theorem same_iff_rel {α : Type} [Cased α] {m : Likeness} {o o' : Option α} :
  m.Same o o' ↔ Option.Rel m.Same o o'
  := by
  cases o <;> cases o' <;> simp

theorem letters_append (m : Likeness) (s t : String) :
  m.letters (s ++ t) = m.letters s ++ m.letters t
  := by
  cases m with
  | exact => rfl
  | upTo => exact toUpper_append s t

theorem letters_intercalate (m : Likeness) (between : String) {ws ws' : List String}
    (h : List.Forall₂ (fun w w' => m.letters w = m.letters w') ws ws') :
  m.letters (between.intercalate ws) = m.letters (between.intercalate ws')
  := by
  induction h with
  | nil => rfl
  | cons hw hws ih =>
      cases hws with
      | nil => simpa using hw
      | cons =>
          rw [String.intercalate_cons_cons, String.intercalate_cons_cons, letters_append,
            letters_append, letters_append, letters_append, hw, ih]

namespace Matches

variable {m : Likeness} {t u : Token}

theorem kind_eq (h : m.Matches t u) :
  u.kind = t.kind
  := by
  cases m with
  | exact => exact congrArg Token.kind h
  | upTo s => exact h.kind

theorem span_eq (h : m.Matches t u) :
  u.span = t.span
  := by
  cases m with
  | exact => exact congrArg Token.span h
  | upTo s => exact h.span

theorem toUpper_eq (h : m.Matches t u) :
  u.text.toUpper = t.text.toUpper
  := by
  cases m with
  | exact => rw [show u = t from h]
  | upTo s => exact h.letters

theorem letters_eq (h : m.Matches t u) :
  m.letters t.text = m.letters u.text
  := by
  cases m with
  | exact => rw [show u = t from h]
  | upTo s => exact h.letters.symm

theorem text_eq (h : m.Matches t u) (ht : t.kind.isQuoted ∨ t.kind = .number .integer) :
  u.text = t.text
  := by
  cases m with
  | exact => rw [show u = t from h]
  | upTo s => exact h.fixed ht

theorem same (h : m.Matches t u) :
  m.Same t u
  := by
  obtain ⟨kind, text, span⟩ := t
  obtain ⟨kind', text', span'⟩ := u
  obtain rfl : kind' = kind := h.kind_eq
  obtain rfl : span' = span := h.span_eq
  cases hquoted : kind'.isQuoted with
  | false => simpa [hquoted] using h.letters_eq
  | true => simpa [hquoted] using (h.text_eq (.inl hquoted)).symm

/-- The key of an option that begins with a name may differ in case. -/
theorem key_eq (h : m.Matches t u) (ht : t.kind.isName) {text text' : String}
    (hletters : m.letters text = m.letters text') :
  m.key t.span.start text = m.key t.span.start text'
  := by
  cases m with
  | exact => exact hletters
  | upTo s =>
      simp only [key, Spelling.key, h.plain ht, Bool.false_eq_true, if_false]
      exact hletters

/-- The end of a text is the same up to case. -/
theorem eof (m : Likeness) (p : Position) :
  m.Matches (.eof p) (.eof p)
  := by
  cases m with
  | exact => rfl
  | upTo s =>
      constructor
      case plain => simp [Token.eof, Kind.isName, Kind.isIdentifier]
      all_goals intros; rfl

end Matches

namespace Describes

variable {m : Likeness} {t : Token} {ts us : List Token}

theorem of_suffix (h : m.Describes ts) (hsuffix : us <:+ ts) :
  m.Describes us
  := by
  cases m with
  | exact => exact h
  | upTo s => exact fun t more hmore => h t more (hmore.trans hsuffix)

/-- The fields of an interval at whose beginning `t` is next. -/
theorem sameLiteral (h : m.Describes (t :: us)) {fs gs : List IntervalField}
    (hfields : m.SameFields (quotedQuantities (t :: us)) fs gs) :
  m.SameLiteral t.span.start (.interval fs) (.interval gs)
  := by
  cases m with
  | exact => exact congrArg Literal.interval hfields
  | upTo s =>
      rw [SameLiteral, literal_eq, literal_eq]
      simp only [quotedFrom, h t us List.suffix_rfl]
      exact congrArg Literal.interval hfields

end Describes

end Likeness

/-! ### Tapes -/

/-- Whether a text or a query may end at a token of this kind. -/
def Kind.isClosing : Kind → Bool
  | rightParen | keyword .TO | eof => true
  | _ => false

/-- What ends a query: nothing more, a parenthesis, or `TO` where it does not stand before the unit
of an interval. -/
inductive Tape.Closing : List Token → Prop where
  | nothing : Closing []
  | paren {u : Token} {more : List Token} (isParen : u.kind = .rightParen) : Closing (u :: more)
  | toPath {u v : Token} {more : List Token} (isTo : u.kind = .keyword .TO)
      (noName : v.kind.isName = false) : Closing (u :: v :: more)

/-- How a second tape mirrors a first one: how the tokens are compared, and what stands behind
them. -/
structure Mirror where
  likeness : Likeness
  tail : List Token
  closing : Tape.Closing tail

namespace Mirror

variable {α : Type} {c : Mirror} {s r : Tape} {t u : Token} {k : Kind} {ks : List Kind}

/-- Nothing more stands on the second tape. -/
def total (c : Mirror) : Prop := c.tail = []

/-- The second tape mirrors the first one. -/
structure Pairs (c : Mirror) (s r : Tape) : Prop where
  tokens : ∃ front, r.tokens = front ++ c.tail ∧ List.Forall₂ c.likeness.Matches s.tokens front
  visible : ∀ t ∈ s.tokens, t.kind ≠ .eof
  last : r.last = s.last
  stop (h : c.total) : r.stop = s.stop
  ahead : ∀ u ∈ c.tail.head?, s.stop = .ok u.span.start
  described : c.likeness.Describes s.tokens

theorem apart_of_mem_head? (h : u ∈ c.tail.head?) :
  ¬ c.total
  := by
  intro htotal
  rw [show c.tail = [] from htotal] at h
  contradiction

theorem closes_of_mem_head? (h : u ∈ c.tail.head?) :
  u.kind = .rightParen ∨ u.kind = .keyword .TO
  := by
  have hclosing := c.closing
  generalize c.tail = tail at h hclosing
  cases hclosing with
  | nothing => contradiction
  | paren isParen =>
      obtain rfl := Option.mem_some_iff.mp h
      exact .inl isParen
  | toPath isTo =>
      obtain rfl := Option.mem_some_iff.mp h
      exact .inr isTo

/-- No name stands behind the `TO` that ends a query. -/
theorem tail_of_to (h : u ∈ c.tail.head?) (hto : u.kind = .keyword .TO) :
  ∃ v more, c.tail = u :: v :: more ∧ v.kind.isName = false
  := by
  have hclosing := c.closing
  generalize c.tail = tail at h hclosing
  cases hclosing with
  | nothing => contradiction
  | paren isParen =>
      obtain rfl := Option.mem_some_iff.mp h
      rw [isParen] at hto
      contradiction
  | toPath isTo noName =>
      obtain rfl := Option.mem_some_iff.mp h
      exact ⟨_, _, rfl, noName⟩

/-- The second token stands where the first one does: it is the same one, exactly or up to case, or
the text of the first tape ends there. -/
inductive Meets (c : Mirror) : Token → Token → Prop where
  | matched {t u : Token} (h : c.likeness.Matches t u) : Meets c t u
  | ended {u : Token} (closes : u ∈ c.tail.head?) : Meets c (.eof u.span.start) u

theorem Meets.matches_of_ne (h : c.Meets t u) (ht : t.kind ≠ .eof) :
  c.likeness.Matches t u
  := by
  cases h with
  | matched h => exact h
  | ended => contradiction

theorem Meets.start_eq (h : c.Meets t u) :
  u.span.start = t.span.start
  := by
  cases h with
  | matched h => rw [h.span_eq]
  | ended => rfl

/-- What is decided by the kind of a token is decided alike if it makes no difference whether a text
ends or a query does. -/
theorem Meets.congr {β : Type} (f : Kind → β) (hparen : f .rightParen = f .eof)
    (hto : f (.keyword .TO) = f .eof) (h : c.Meets t u) :
  f u.kind = f t.kind
  := by
  cases h with
  | matched h => rw [h.kind_eq]
  | ended closes =>
      rcases closes_of_mem_head? closes with hu | hu
      · rw [hu, hparen]
        rfl
      · rw [hu, hto]
        rfl

/-- Tokens of kinds that end nothing stand on both tapes. -/
theorem Meets.kind_iff (hk : k.isClosing = false) (h : c.Meets t u) :
  u.kind = k ↔ t.kind = k
  := by
  cases h with
  | matched h => rw [h.kind_eq]
  | ended closes =>
      have hu : u.kind ≠ k := by
        rintro rfl
        rcases closes_of_mem_head? closes with hu | hu <;> rw [hu] at hk <;> contradiction
      have ht : Kind.eof ≠ k := by
        rintro rfl
        contradiction
      exact iff_of_false hu ht

/-- Where nothing more stands on the second tape, the tokens are the same. -/
theorem Meets.matches (hc : c.total) (h : c.Meets t u) :
  c.likeness.Matches t u
  := by
  cases h with
  | matched h => exact h
  | ended closes => exact absurd hc (apart_of_mem_head? closes)

theorem length_le_of_seen (h : s.Seen ks) (hks : ∀ k ∈ ks, k ≠ .eof) :
  ks.length ≤ s.tokens.length
  := by
  by_contra hlt
  have hlast : s.tokens.length < ks.length := by omega
  obtain ⟨t, ht, hkind⟩ := h _ _ (List.getElem?_eq_getElem hlast)
  have hne := hks _ (List.getElem_mem hlast)
  rw [← hkind] at hne
  obtain ⟨-, p, -, rfl⟩ := (Tape.peek_eq_ok_iff.mp ht).resolve_left (by simp)
  contradiction

/-- What comes next on the two tapes is the same, or the first one ends. -/
theorem Pairs.peek (h : c.Pairs s r) (hseen : s.Seen ks) (hks : ∀ k ∈ ks, k ≠ .eof) :
  (∃ e, s.peek ks.length = .error e ∧ r.peek ks.length = .error e) ∨
    ∃ t u, s.peek ks.length = .ok t ∧ r.peek ks.length = .ok u ∧ c.Meets t u
  := by
  obtain ⟨front, hfront, hforall⟩ := h.tokens
  have hlength := hforall.length_eq
  rcases Nat.lt_or_eq_of_le (length_le_of_seen hseen hks) with hlt | heq
  · have hlt' : ks.length < front.length := by omega
    have hpeek : s.peek ks.length = .ok s.tokens[ks.length] := by
      rw [Tape.peek, List.getElem?_eq_getElem hlt]
    have hpeek' : r.peek ks.length = .ok front[ks.length] := by
      rw [Tape.peek, hfront, List.getElem?_append_left hlt', List.getElem?_eq_getElem hlt']
    exact .inr ⟨_, _, hpeek, hpeek', .matched (hforall.get hlt hlt')⟩
  · have hpeek : s.peek ks.length = s.stop.map .eof := by
      rw [Tape.peek, heq, List.getElem?_eq_none (Nat.le_refl _)]
    have hhead : r.tokens[ks.length]? = c.tail.head? := by
      rw [hfront, heq, hlength, List.getElem?_append_right (Nat.le_refl _), Nat.sub_self,
        List.head?_eq_getElem?]
    cases htail : c.tail.head? with
    | none =>
        have hpeek' : r.peek ks.length = s.stop.map .eof := by
          rw [Tape.peek, hhead, htail, h.stop (List.head?_eq_none_iff.mp htail)]
        cases hstop : s.stop with
        | error e => exact .inl ⟨e, by rw [hpeek, hstop]; rfl, by rw [hpeek', hstop]; rfl⟩
        | ok p =>
            exact .inr ⟨.eof p, .eof p, by rw [hpeek, hstop]; rfl, by rw [hpeek', hstop]; rfl,
              .matched (.eof c.likeness p)⟩
    | some u =>
        have hpeek' : r.peek ks.length = .ok u := by
          rw [Tape.peek, hhead, htail]
        have hstop := h.ahead u htail
        exact .inr ⟨.eof u.span.start, u, by rw [hpeek, hstop]; rfl, hpeek', .ended htail⟩

/-- A token that stands on the first tape is taken from both. -/
theorem Pairs.next {ts : List Token} (h : c.Pairs s r) (htokens : s.tokens = t :: ts) :
  ∃ u us, r.tokens = u :: us ∧ c.likeness.Matches t u ∧
    c.Pairs ⟨ts, s.stop, t.span⟩ ⟨us, r.stop, u.span⟩
  := by
  obtain ⟨front, hfront, hforall⟩ := h.tokens
  rw [htokens] at hforall
  cases hforall with
  | @cons _ u _ us hmatches hforall =>
      have hvisible : ∀ v ∈ ts, v.kind ≠ .eof := by
        intro v hv
        apply h.visible
        rw [htokens]
        exact List.mem_cons_of_mem _ hv
      refine ⟨u, us ++ c.tail, hfront, hmatches, ?_⟩
      have hdescribed : c.likeness.Describes ts := by
        apply h.described.of_suffix
        rw [htokens]
        apply List.suffix_cons
      exact ⟨⟨us, rfl, hforall⟩, hvisible, hmatches.span_eq, h.stop, h.ahead, hdescribed⟩

/-- Where the first tape has no more tokens, only what ends a query stands on the second one. -/
theorem Pairs.tokens_of_nil (h : c.Pairs s r) (hs : s.tokens = []) :
  r.tokens = c.tail
  := by
  obtain ⟨front, hfront, hforall⟩ := h.tokens
  rw [hs, List.forall₂_nil_left_iff] at hforall
  rw [hfront, hforall, List.nil_append]

/-- Where the end of the text has been looked at, there are no more tokens. -/
theorem Pairs.tokens_of_seen (h : c.Pairs s r) (hseen : s.Seen [.eof]) :
  s.tokens = []
  := by
  obtain ⟨t, ht, hkind⟩ := hseen 0 _ rfl
  rcases Tape.peek_eq_ok_iff.mp ht with hget | ⟨hget, -⟩
  · exact absurd hkind (h.visible t (List.mem_of_getElem? hget))
  · simpa using hget

/-- Two readings agree if they give the same values or the same faults; where more stands on the
second tape, the first one may also fail. -/
inductive Agrees (c : Mirror) (R : α → α → Prop) :
    Except Fault α × Tape → Except Fault α × Tape → Prop where
  | value {a b : α} {s r : Tape} (related : R a b) (pairs : c.Pairs s r) : Agrees c R (.ok a, s) (.ok b, r)
  | fault {e f : Fault} {s r : Tape} (same : c.likeness.Same e f) : Agrees c R (.error e, s) (.error f, r)
  | failed {e : Fault} {s : Tape} {x : Except Fault α × Tape} (apart : ¬ c.total) :
      Agrees c R (.error e, s) x

theorem Agrees.mono {R R' : α → α → Prop} {x y : Except Fault α × Tape} (h : c.Agrees R x y)
    (hle : ∀ a b, R a b → R' a b) :
  c.Agrees R' x y
  := by
  cases h with
  | value related pairs => exact .value (hle _ _ related) pairs
  | fault same => exact .fault same
  | failed apart => exact .failed apart

end Mirror

namespace Production

open Mirror

variable {α β : Type} {c : Mirror} {k l : Kind} {ks : List Kind} {R : α → α → Prop}
  {S : β → β → Prop} {p p' q q' : Production α} {g g' : α → Production β}

/-- On tapes that mirror each other and on which tokens of the kinds `ks` come next, the productions
give values that are related, or the same faults. -/
def MirroredAt (c : Mirror) (ks : List Kind) (R : α → α → Prop) (p p' : Production α) : Prop :=
  ∀ s r, c.Pairs s r → s.Seen ks → c.Agrees R (p.eval s) (p'.eval r)

/-- On tapes that mirror each other and on the first of which `t` comes next, the productions give
values that are related, or the same faults. -/
def MirroredFrom (c : Mirror) (t : Token) (R : α → α → Prop) (p p' : Production α) : Prop :=
  ∀ s r, c.Pairs s r → s.peek 0 = .ok t → c.Agrees R (p.eval s) (p'.eval r)

/-- On tapes that mirror each other, the productions give values that are related, or the same
faults. -/
abbrev Mirrored (c : Mirror) (R : α → α → Prop) (p p' : Production α) : Prop :=
  MirroredAt c [] R p p'

theorem Mirrored.seen (h : Mirrored c R p p') (ks : List Kind) :
  MirroredAt c ks R p p'
  := fun s r hpairs _ => h s r hpairs s.seen_nil

theorem MirroredAt.mono {R' : α → α → Prop} (h : MirroredAt c ks R p p')
    (hle : ∀ a b, R a b → R' a b) :
  MirroredAt c ks R' p p'
  := fun s r hpairs hseen => (h s r hpairs hseen).mono hle

/-! ### Building blocks -/

theorem mirrored_pure {a b : α} (h : R a b) :
  MirroredAt c ks R (pure a) (pure b)
  := fun _ _ hpairs _ => .value h hpairs

theorem mirrored_fail {cause cause' : Token → Cause}
    (h : ∀ t u, c.likeness.Matches t u → c.likeness.Same (cause t) (cause' u)) :
  MirroredAt c ks R (fail cause) (fail cause')
  := by
  intro s r hpairs hseen
  rcases hpairs.peek s.seen_nil (by simp) with ⟨e, hs, hr⟩ | ⟨t, u, hs, hr, hmeets⟩
  · simp only [List.length_nil] at hs hr
    simp only [eval, hs, hr]
    exact .fault rfl
  · simp only [List.length_nil] at hs hr
    simp only [eval, hs, hr]
    cases hmeets with
    | matched hmatches =>
        apply Agrees.fault
        simpa [hmatches.span_eq] using h t u hmatches
    | ended closes => exact .failed (apart_of_mem_head? closes)

theorem mirrored_expected (wanted : String) :
  MirroredAt c ks R (expected wanted) (expected wanted)
  := by
  apply mirrored_fail
  intro t u h
  simpa using h.same

theorem mirrored_failLast (cause : Cause) :
  MirroredAt c ks R (failLast cause) (failLast cause)
  := by
  intro s r hpairs _
  simp only [eval, hpairs.last]
  exact .fault rfl

theorem exists_eval_fail (cause : Token → Cause) (s : Tape) :
  ∃ e s', (fail (α := α) cause).eval s = (.error e, s')
  := by
  simp only [eval]
  cases s.peek 0 with
  | error e => exact ⟨e, s, rfl⟩
  | ok t => exact ⟨_, s, rfl⟩

/-- Where the first production fails on a tape with no more tokens, nothing else is compared. -/
theorem mirrored_failed {u : Token} (hu : u ∈ c.tail.head?)
    (h : ∀ s : Tape, s.tokens = [] → ∃ e s', p.eval s = (.error e, s')) :
  MirroredAt c [.eof] R p p'
  := by
  intro s r hpairs hseen
  obtain ⟨e, s', herror⟩ := h s (hpairs.tokens_of_seen hseen)
  rw [herror]
  exact .failed (apart_of_mem_head? hu)

theorem mirrored_expected_end {u : Token} (hu : u ∈ c.tail.head?) (wanted : String) :
  MirroredAt c [.eof] R (expected wanted) p'
  := mirrored_failed hu fun s _ => exists_eval_fail _ s

theorem mirrored_last {go go' : Span → Production α} (h : ∀ a, MirroredAt c ks R (go a) (go' a)) :
  MirroredAt c ks R (last go) (last go')
  := by
  intro s r hpairs hseen
  simp only [eval, hpairs.last]
  apply h _ s r hpairs hseen

section

variable {go go' : Token → Production α}

/-- The token behind those that have been looked at may be looked at, unless the text has ended. -/
theorem agrees_look {s r : Tape} (hpairs : c.Pairs s r) (hseen : s.Seen ks) (m : Lookahead)
    (hm : m.distance = ks.length) (hks : ∀ k ∈ ks, k ≠ .eof)
    (h : ∀ t u, s.peek m.distance = .ok t → c.Meets t u → c.Agrees R ((go t).eval s) ((go' u).eval r)) :
  c.Agrees R ((look m go).eval s) ((look m go').eval r)
  := by
  simp only [eval]
  rw [hm] at h ⊢
  rcases hpairs.peek hseen hks with ⟨e, hs, hr⟩ | ⟨t, u, hs, hr, hmeets⟩
  · rw [hs, hr]
    exact .fault rfl
  · rw [hs, hr]
    apply h t u hs hmeets

theorem mirrored_look (m : Lookahead) (hm : m.distance = ks.length) (hks : ∀ k ∈ ks, k ≠ .eof)
    (h : ∀ t u, c.Meets t u → MirroredAt c (ks ++ [t.kind]) R (go t) (go' u)) :
  MirroredAt c ks R (look m go) (look m go')
  := by
  intro s r hpairs hseen
  apply agrees_look hpairs hseen m hm hks
  intro t u ht hmeets
  rw [hm] at ht
  apply h t u hmeets s r hpairs (hseen.concat ht)

/-- A token that has been looked at may be taken. -/
theorem mirrored_take (hk : k ≠ .eof)
    (h : ∀ t u, c.likeness.Matches t u → t.kind = k → MirroredAt c ks R (go t) (go' u)) :
  MirroredAt c (k :: ks) R (take go) (take go')
  := by
  intro s r hpairs hseen
  obtain ⟨t, ts, htokens, hkind, hks⟩ := hseen.exists_cons hk
  obtain ⟨u, us, htokens', hmatches, hbehind⟩ := hpairs.next htokens
  have hnext : s.next = (.ok t, ⟨ts, s.stop, t.span⟩) := by
    simp only [Tape.next, htokens]
  have hnext' : r.next = (.ok u, ⟨us, r.stop, u.span⟩) := by
    simp only [Tape.next, htokens']
  simp only [eval, hnext, hnext']
  apply h t u hmatches hkind _ _ hbehind hks

end

/-- What follows may depend on what the first production has taken. -/
theorem agrees_bind_reads {s r : Tape} (h : c.Agrees R (p.eval s) (p'.eval r))
    (hg : ∀ a b s' r', p.Reads s a s' → R a b → c.Pairs s' r' →
      c.Agrees S ((g a).eval s') ((g' b).eval r')) :
  c.Agrees S ((p >>= g).eval s) ((p' >>= g').eval r)
  := by
  rw [eval_bind, eval_bind]
  generalize hx : p.eval s = x at h
  generalize p'.eval r = y at h
  cases h with
  | value related pairs => exact hg _ _ _ _ hx related pairs
  | fault same => exact .fault same
  | failed apart => exact .failed apart

theorem agrees_bind {s r : Tape} (h : c.Agrees R (p.eval s) (p'.eval r))
    (hg : ∀ a b, R a b → Mirrored c S (g a) (g' b)) :
  c.Agrees S ((p >>= g).eval s) ((p' >>= g').eval r)
  := agrees_bind_reads h fun _ _ _ _ _ related pairs => hg _ _ related _ _ pairs (Tape.seen_nil _)

theorem MirroredAt.bind_seen (hp : MirroredAt c ks R p p')
    (hg : ∀ a b, R a b → Mirrored c S (g a) (g' b)) :
  MirroredAt c ks S (p >>= g) (p' >>= g')
  := fun s r hpairs hseen => agrees_bind (hp s r hpairs hseen) hg

theorem Mirrored.bind (hp : Mirrored c R p p') (hg : ∀ a b, R a b → Mirrored c S (g a) (g' b)) :
  MirroredAt c ks S (p >>= g) (p' >>= g')
  := (hp.seen ks).bind_seen hg

/-- A choice by what has been looked at. -/
theorem mirrored_ite_of {b : Prop} [Decidable b] (hp : b → MirroredAt c ks R p p')
    (hq : ¬ b → MirroredAt c ks R q q') :
  MirroredAt c ks R (if b then p else q) (if b then p' else q')
  := by
  split
  · next hb => apply hp hb
  · next hb => apply hq hb

theorem mirrored_ite {b : Prop} [Decidable b] (hp : MirroredAt c ks R p p')
    (hq : MirroredAt c ks R q q') :
  MirroredAt c ks R (if b then p else q) (if b then p' else q')
  := mirrored_ite_of (fun _ => hp) fun _ => hq

/-- A choice by what a production has found out. -/
theorem Mirrored.bind_ite {b b' : Production Bool} (hb : Mirrored c Eq b b') (hp : Mirrored c R p p')
    (hq : Mirrored c R q q') :
  MirroredAt c ks R (b >>= fun a => if a then p else q) (b' >>= fun a => if a then p' else q')
  := by
  apply hb.bind
  rintro a _ rfl
  apply mirrored_ite hp hq

theorem Mirrored.map {f f' : α → β} (hp : Mirrored c R p p') (hf : ∀ a b, R a b → S (f a) (f' b)) :
  MirroredAt c ks S (f <$> p) (f' <$> p')
  := by
  change MirroredAt c ks S (p >>= fun a => pure (f a)) (p' >>= fun a => pure (f' a))
  apply hp.bind
  intro a b hab
  apply mirrored_pure (hf a b hab)

/-! ### Looking and taking -/

section

variable {go go' : Token → Production α}

theorem mirrored_peek_bind (h : ∀ t u, c.Meets t u → MirroredAt c [t.kind] R (go t) (go' u)) :
  Mirrored c R (peek >>= go) (peek >>= go')
  := mirrored_look .first rfl (by simp) h

/-- A token that has been looked at stands on both tapes, or the first one ends there. -/
theorem mirrored_look_match
    (hmatches : ∀ t u, c.likeness.Matches t u → MirroredAt c [t.kind] R (go t) (go' u))
    (hends : ∀ t u, t.kind = .eof → u ∈ c.tail.head? → MirroredAt c [.eof] R (go t) (go' u)) :
  Mirrored c R (look .first go) (look .first go')
  := by
  apply mirrored_look .first rfl (by simp)
  intro t u h
  cases h with
  | matched h => apply hmatches t u h
  | ended closes => apply hends _ u rfl closes

theorem mirrored_peek_match
    (hmatches : ∀ t u, c.likeness.Matches t u → MirroredAt c [t.kind] R (go t) (go' u))
    (hends : ∀ t u, t.kind = .eof → u ∈ c.tail.head? → MirroredAt c [.eof] R (go t) (go' u)) :
  Mirrored c R (peek >>= go) (peek >>= go')
  := mirrored_look_match hmatches hends

theorem mirrored_second_bind (hk : k ≠ .eof)
    (h : ∀ t u, c.Meets t u → MirroredAt c [k, t.kind] R (go t) (go' u)) :
  MirroredAt c [k] R (peekAt .second >>= go) (peekAt .second >>= go')
  := mirrored_look .second rfl (by simpa using hk) h

/-! What is read where a token comes next may depend on that token. -/

theorem MirroredAt.from {t : Token} (h : MirroredAt c [t.kind] R p p') :
  MirroredFrom c t R p p'
  := fun s r hpairs ht => h s r hpairs (s.seen_nil.concat ht)

theorem MirroredFrom.bind {t : Token} (h : MirroredFrom c t R p p')
    (hg : ∀ a b, R a b → Mirrored c S (g a) (g' b)) :
  MirroredFrom c t S (p >>= g) (p' >>= g')
  := fun s r hpairs ht => agrees_bind (h s r hpairs ht) hg

theorem MirroredFrom.map {t : Token} {f f' : α → β} (h : MirroredFrom c t R p p')
    (hf : ∀ a b, R a b → S (f a) (f' b)) :
  MirroredFrom c t S (f <$> p) (f' <$> p')
  := by
  change MirroredFrom c t S (p >>= fun a => pure (f a)) (p' >>= fun a => pure (f' a))
  apply h.bind
  intro a b hab
  apply mirrored_pure (hf a b hab)

theorem mirrored_peek_from (h : ∀ t u, c.Meets t u → MirroredFrom c t R (go t) (go' u)) :
  Mirrored c R (peek >>= go) (peek >>= go')
  := by
  intro s r hpairs hseen
  apply agrees_look hpairs hseen .first rfl (by simp)
  intro t u ht hmeets
  apply h t u hmeets s r hpairs ht

theorem agrees_peek_bind {s r : Tape} (hpairs : c.Pairs s r)
    (h : ∀ t u, s.peek 0 = .ok t → c.Meets t u → c.Agrees R ((go t).eval s) ((go' u).eval r)) :
  c.Agrees R ((peek >>= go).eval s) ((peek >>= go').eval r)
  := agrees_look hpairs s.seen_nil .first rfl (by simp) h

theorem MirroredFrom.look {t : Token} (h : ∀ u, c.Meets t u → MirroredFrom c t R (go t) (go' u)) :
  MirroredFrom c t R (look .first go) (look .first go')
  := by
  intro s r hpairs hs
  apply agrees_look hpairs s.seen_nil .first rfl (by simp)
  intro v w hv hmeets
  obtain rfl : t = v := Except.ok.inj (hs.symm.trans hv)
  apply h w hmeets s r hpairs hs

theorem mirrored_here_from {go go' : Position → Production α}
    (h : ∀ t, MirroredFrom c t R (go t.span.start) (go' t.span.start)) :
  Mirrored c R (here >>= go) (here >>= go')
  := by
  intro s r hpairs hseen
  apply agrees_look hpairs hseen .first rfl (by simp)
  intro t u ht hmeets
  change c.Agrees R ((go t.span.start).eval s) ((go' u.span.start).eval r)
  rw [hmeets.start_eq]
  apply h t s r hpairs ht

theorem MirroredFrom.peek_match {t : Token}
    (hmatches : ∀ u, c.likeness.Matches t u → MirroredFrom c t R (go t) (go' u))
    (hends : ∀ u, t.kind = .eof → u ∈ c.tail.head? → MirroredFrom c t R (go t) (go' u)) :
  MirroredFrom c t R (peek >>= go) (peek >>= go')
  := by
  apply MirroredFrom.look
  intro u h
  cases h with
  | matched h => apply hmatches u h
  | ended closes => apply hends u rfl closes

theorem MirroredFrom.second_bind {t : Token} (ht : t.kind ≠ .eof)
    (h : ∀ v w, c.Meets v w → MirroredFrom c t R (go v) (go' w)) :
  MirroredFrom c t R (peekAt .second >>= go) (peekAt .second >>= go')
  := by
  intro s r hpairs hs
  apply agrees_look hpairs (s.seen_nil.concat hs) .second rfl (by simpa using ht)
  intro v w _ hmeets
  apply h v w hmeets s r hpairs hs

theorem mirrored_third_bind (hk : k ≠ .eof) (hl : l ≠ .eof)
    (h : ∀ t u, c.Meets t u → MirroredAt c [k, l, t.kind] R (go t) (go' u)) :
  MirroredAt c [k, l] R (peekAt .third >>= go) (peekAt .third >>= go')
  := mirrored_look .third rfl (by simp [hk, hl]) h

theorem mirrored_advance_bind (hk : k ≠ .eof)
    (h : ∀ t u, c.likeness.Matches t u → t.kind = k → MirroredAt c ks R (go t) (go' u)) :
  MirroredAt c (k :: ks) R (advance >>= go) (advance >>= go')
  := mirrored_take hk h

end

theorem mirrored_here :
  Mirrored c Eq here here
  := by
  apply mirrored_look .first rfl (by simp)
  intro t u h
  apply mirrored_pure h.start_eq.symm

theorem mirrored_spanFrom (start : Position) :
  Mirrored c Eq (spanFrom start) (spanFrom start)
  := by
  apply mirrored_last
  intro a
  apply mirrored_pure rfl

theorem mirrored_spanFrom_start (start : Position) :
  Mirrored c (fun a b => a = b ∧ a.start = start) (spanFrom start) (spanFrom start)
  := by
  apply mirrored_last
  intro a
  apply mirrored_pure ⟨rfl, rfl⟩

theorem mirrored_nextIs (hk : k.isClosing = false) :
  Mirrored c Eq (nextIs k) (nextIs k)
  := by
  apply mirrored_look .first rfl (by simp)
  intro t u h
  apply mirrored_pure
  simp only [h.kind_iff hk]

/-- Where the next token is of the kind that is asked for, it has been looked at. -/
theorem mirrored_nextIs_bind_ite (hk : k.isClosing = false) (hp : MirroredAt c [k] R p p')
    (hq : Mirrored c R q q') :
  Mirrored c R (nextIs k >>= fun a => if a then p else q)
    (nextIs k >>= fun a => if a then p' else q')
  := by
  rw [nextIs_bind_ite, nextIs_bind_ite]
  apply mirrored_look .first rfl (by simp)
  intro t u h
  simp only [h.kind_iff hk]
  apply mirrored_ite_of
  · intro ht
    rw [ht]
    apply hp
  · intro _
    apply hq.seen

/-- Where the next two tokens are of the kinds that are asked for, they have been looked at. -/
theorem mirrored_nextAre_bind_ite (hk : k.isClosing = false) (hl : l.isClosing = false)
    (hp : MirroredAt c [k, l] R p p') (hq : Mirrored c R q q') :
  Mirrored c R (nextAre k l >>= fun a => if a then p else q)
    (nextAre k l >>= fun a => if a then p' else q')
  := by
  have hne : k ≠ .eof := by
    rintro rfl
    contradiction
  rw [nextAre_bind_ite, nextAre_bind_ite]
  apply mirrored_look .first rfl (by simp)
  intro t u h
  simp only [h.kind_iff hk]
  apply mirrored_ite_of
  · intro ht
    rw [ht]
    apply mirrored_look .second rfl (by simpa using hne)
    intro v w hsecond
    simp only [hsecond.kind_iff hl]
    apply mirrored_ite_of
    · intro hv
      rw [hv]
      apply hp
    · intro _
      apply hq.seen
  · intro _
    apply hq.seen

/-- Taking the next token only if it is of a kind that closes nothing. -/
theorem mirrored_take_if {go go' : Token → Production α} (hk : k.isClosing = false)
    (hp : ∀ t u, c.likeness.Matches t u → t.kind = k → Mirrored c R (go t) (go' u))
    (hq : Mirrored c R q q') :
  Mirrored c R (look .first fun t => if t.kind = k then take go else q)
    (look .first fun t => if t.kind = k then take go' else q')
  := by
  apply mirrored_look .first rfl (by simp)
  intro t u h
  simp only [h.kind_iff hk]
  apply mirrored_ite_of
  · intro ht
    rw [ht]
    apply mirrored_take _ hp
    rintro rfl
    contradiction
  · intro _
    apply hq.seen

theorem mirrored_accept? (hk : k.isClosing = false) :
  Mirrored c (Option.Rel fun t u => c.likeness.Matches t u ∧ t.kind = k) (accept? k) (accept? k)
  := by
  apply mirrored_take_if hk
  · intro t u hmatches ht
    apply mirrored_pure
    exact .some ⟨hmatches, ht⟩
  · apply mirrored_pure .none

theorem accept?_bind {f : Option Token → Production β} :
  (accept? k >>= f) = look .first fun t => if t.kind = k then take fun t => f (some t) else f none
  := take_if_bind

/-- What is read where a token may be taken may depend on where that token begins. -/
theorem mirrored_here_accept?_bind {f f' : Option Token → Production β}
    {g g' : Position → β → Production α} {T : Position → β → β → Prop} (hk : k.isClosing = false)
    (hsome : ∀ start t u, c.likeness.Matches t u → t.kind = k →
      Mirrored c (T start) (f (some t)) (f' (some u)))
    (hnone : ∀ t u, c.Meets t u → MirroredAt c [t.kind] (T t.span.start) (f none) (f' none))
    (hg : ∀ start a b, T start a b → Mirrored c R (g start a) (g' start b)) :
  Mirrored c R (here >>= fun start => (accept? k >>= f) >>= g start)
    (here >>= fun start => (accept? k >>= f') >>= g' start)
  := by
  have hne : k ≠ .eof := by
    rintro rfl
    contradiction
  apply mirrored_here_from
  intro t
  refine MirroredFrom.bind ?_ (hg t.span.start)
  rw [accept?_bind, accept?_bind]
  apply MirroredFrom.look
  intro u h
  simp only [h.kind_iff hk]
  split
  · next ht =>
      apply MirroredAt.from
      rw [ht]
      apply mirrored_take hne (hsome t.span.start)
  · exact (hnone t u h).from

/-- Values that are not given may be related in any way. -/
theorem MirroredAt.of_fails {R' : α → α → Prop} (h : MirroredAt c ks R p p')
    (hfails : ∀ s : Tape, s.Seen ks → ∃ e s', p.eval s = (.error e, s')) :
  MirroredAt c ks R' p p'
  := by
  intro s r hpairs hseen
  have hagrees := h s r hpairs hseen
  obtain ⟨e, s', herror⟩ := hfails s hseen
  rw [herror] at hagrees ⊢
  generalize p'.eval r = y at hagrees
  cases hagrees with
  | fault same => exact .fault same
  | failed apart => exact .failed apart

theorem mirrored_accept (hk : k.isClosing = false) :
  Mirrored c Eq (accept k) (accept k)
  := mirrored_take_if hk (fun _ _ _ _ => mirrored_pure rfl) (mirrored_pure rfl)

/-- A token that ends a query may be taken if what is read otherwise fails where the text ends. -/
theorem mirrored_accept_bind_ite (hk : k ≠ .eof) (hp : Mirrored c R p p') (hq : Mirrored c R q q')
    (hends : ∀ s : Tape, s.tokens = [] → ∃ e s', q.eval s = (.error e, s')) :
  Mirrored c R (accept k >>= fun a => if a then p else q)
    (accept k >>= fun a => if a then p' else q')
  := by
  rw [accept_bind, accept_bind]
  apply mirrored_look_match
  · intro t u h
    simp only [h.kind_eq]
    apply mirrored_ite_of
    · intro ht
      rw [ht]
      apply mirrored_take hk
      intro v w _ _
      apply hp
    · intro _
      apply hq.seen
  · intro t u ht hu
    rw [ht, if_neg hk.symm]
    apply mirrored_failed hu hends

/-- A token that has to stand there is taken where it stands on both tapes; where the first one ends,
its reading has failed. -/
theorem mirrored_expect (hk : k ≠ .eof) :
  Mirrored c (fun t u => c.likeness.Matches t u ∧ t.kind = k) (expect k) (expect k)
  := by
  apply mirrored_look_match
  · intro t u h
    simp only [h.kind_eq]
    apply mirrored_ite_of
    · intro ht
      rw [ht]
      apply mirrored_take hk
      intro v w hmatches hv
      apply mirrored_pure ⟨hmatches, hv⟩
    · intro _
      apply mirrored_expected
  · intro t u ht hu
    rw [ht, if_neg hk.symm]
    apply mirrored_failed hu
    intro s _
    apply exists_eval_fail

/-! ### Lists -/

theorem mirrored_collect {entry entry' : Production (Option α)}
    (h : Mirrored c (Option.Rel R) entry entry') (n : Nat) {found found' : List α}
    (hfound : List.Forall₂ R found found') :
  Mirrored c (List.Forall₂ R) (collect entry n found) (collect entry' n found')
  := by
  induction n generalizing found found' with
  | zero =>
      apply mirrored_fail
      intros
      rfl
  | succ n ih =>
      apply h.bind
      intro o o' hrel
      cases hrel with
      | none =>
          apply mirrored_pure
          exact List.forall₂_reverse_iff.mpr hfound
      | some hab =>
          apply ih
          exact .cons hab hfound

variable [Cased α]

theorem mirrored_same (a : α) :
  MirroredAt c ks c.likeness.Same (pure a) (pure a)
  := mirrored_pure rfl

theorem Mirrored.some (h : Mirrored c c.likeness.Same p p') :
  MirroredAt c ks c.likeness.Same (some <$> p) (some <$> p')
  := by
  apply h.map
  intro a b hab
  simpa using hab

theorem Mirrored.collect {entry entry' : Production (Option α)}
    (h : Mirrored c c.likeness.Same entry entry') (n : Nat) :
  Mirrored c c.likeness.Same (collect entry n []) (Production.collect entry' n [])
  := by
  have hrel := h.mono fun _ _ => Likeness.same_iff_rel.mp
  apply (mirrored_collect hrel n .nil).mono
  intro as bs
  apply Likeness.same_iff_forall₂.mpr

theorem Mirrored.afterToken? (h : Mirrored c c.likeness.Same p p') (hk : k.isClosing = false) :
  Mirrored c c.likeness.Same (afterToken? k p) (Production.afterToken? k p')
  := by
  apply (mirrored_accept hk).bind_ite h.some
  apply mirrored_same

theorem Mirrored.commaList (h : Mirrored c c.likeness.Same p p') (n : Nat) :
  Mirrored c c.likeness.Same (commaList n p) (Production.commaList n p')
  := by
  apply h.bind
  intro first first' hfirst
  have hentry : Mirrored c c.likeness.Same (Production.afterToken? .comma p)
      (Production.afterToken? .comma p') := h.afterToken? rfl
  apply (hentry.collect n).bind
  intro further further' hfurther
  apply mirrored_pure
  simpa using ⟨hfirst, hfurther⟩

end Production

end SqlFront
