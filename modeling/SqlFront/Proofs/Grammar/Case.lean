import Mathlib.Data.List.Nodup
import SqlFront.Proofs.Grammar.Faults
import SqlFront.Proofs.Grammar.StatementMirrors
import SqlFront.Proofs.Tokens.Case
import SqlFront.Proofs.Tokens.Numbers

/-!
# Letters in either case

Texts that are the same up to case are read alike: their tokens are of the same kinds and stand in
the same regions, and if the text literals and the quoted names are the same, so are the trees up to
case, or both texts are refused for the same reason (`parseAs_case`).

The tapes of such texts mirror each other, and productions give the same on tapes that do.
-/

namespace SqlFront

open Grammar Production

/-! ### Faults -/

theorem Token.toUpper_phrase_capitals (s : Spelling) (t : Token) :
  (capitals s t).phrase.toUpper = t.phrase.toUpper
  := by
  obtain ⟨kind, text, span⟩ := t
  cases hkind : kind.isQuoted with
  | true => simp [capitals, hkind]
  | false =>
      have hquoted : kind ≠ .quotedIdentifier := by
        rintro rfl
        contradiction
      by_cases heof : kind = .eof
      · subst heof
        rfl
      · have hphrase : ∀ text, (⟨kind, text, span⟩ : Token).phrase = "'" ++ text ++ "'" := by
          intro text
          cases kind <;> first | rfl | contradiction
        simp only [capitals, hkind, Bool.false_eq_true, if_false, hphrase, toUpper_append,
          toUpper_idem]

theorem Cause.message_capitals (s : Spelling) (cause : Cause) :
  (SqlFront.capitals s cause).kind = cause.kind ∧
    (SqlFront.capitals s cause).message.toUpper = cause.message.toUpper
  := by
  cases cause with
  | expected wanted found =>
      refine ⟨rfl, ?_⟩
      change ("expected " ++ wanted ++ ", found " ++ (SqlFront.capitals s found).phrase).toUpper =
        ("expected " ++ wanted ++ ", found " ++ found.phrase).toUpper
      rw [toUpper_append, toUpper_append _ found.phrase, Token.toUpper_phrase_capitals]
  | _ => exact ⟨rfl, rfl⟩

/-- Faults that are the same up to case are of one kind and stand in the same region, and their
messages are the same up to case. -/
theorem Fault.eq_of_capitals {s : Spelling} {e f : Fault} (h : capitals s e = capitals s f) :
  e.cause.kind = f.cause.kind ∧ e.span = f.span ∧
    e.cause.message.toUpper = f.cause.message.toUpper
  := by
  have hcause : capitals s e.cause = capitals s f.cause := congrArg Fault.cause h
  obtain ⟨hkind, hmessage⟩ := e.cause.message_capitals s
  obtain ⟨hkind', hmessage'⟩ := f.cause.message_capitals s
  have hspan := congrArg Fault.span h
  refine ⟨?_, hspan, ?_⟩
  · rw [← hkind, hcause, hkind']
  · rw [← hmessage, hcause, hmessage']

/-! ### Tokens -/

/-- How the texts of tokens were written: where text literals begin, and which of the quantities from
a token on are text literals.  The quantities of an interval are the first ones from its beginning. -/
def Spelling.ofTokens (ts : List Token) : Spelling where
  quotedAt p := ts.any fun t => t.kind = .string && t.span.start = p
  quotedFrom p := quotedQuantities (ts.dropWhile fun t => t.span.start ≠ p)

/-- Tokens are found by where they begin. -/
theorem Spelling.describes_ofTokens {ts : List Token}
    (hordered : ts.Pairwise fun t u => t.span.start.offset < u.span.start.offset) :
  (Likeness.upTo (.ofTokens ts)).Describes ts
  := by
  rintro t us ⟨front, rfl⟩
  have hfront : ∀ v ∈ front, v.span.start ≠ t.span.start := by
    intro v hv heq
    have hlt := (List.pairwise_append.mp hordered).2.2 v hv t (by simp)
    rw [heq] at hlt
    exact Nat.lt_irrefl _ hlt
  change quotedQuantities (List.dropWhile _ _) = _
  rw [List.dropWhile_append_of_pos (by simpa using hfront), List.dropWhile_cons_of_neg (by simp)]

/-- Digits have no case. -/
theorem eq_of_toUpper_of_isDigit {text other : String} (h : other.toUpper = text.toUpper)
    (hdigits : ∀ c ∈ text.toList, c.isDigit) :
  other = text
  := by
  rw [toUpper_eq_iff_forall₂] at h
  rw [← String.toList_inj, ← List.forall₂_eq_eq_eq]
  have hmem : List.Forall₂ (fun c d => d.toUpper = c.toUpper) text.toList other.toList := h.flip
  apply ((List.forall₂_and_left ..).mpr ⟨hdigits, hmem⟩).flip.imp
  rintro d c ⟨hdigit, hupper⟩
  have hletter : c.isAlpha = false := by
    rw [Bool.eq_false_iff]
    intro halpha
    have hnot := Match.isDigit_of_isAlpha halpha
    rw [hnot] at hdigit
    contradiction
  rw [toUpper_of_not_isAlpha hletter] at hupper
  exact (toUpper_eq_iff hletter).mp hupper

/-- Quoted tokens that correspond to each other are the same if the lists of all of them are. -/
theorem Token.text_eq_of_sameLetters {ts us : List Token} (h : List.Forall₂ SameLetters ts us)
    (hquoted : ts.filter (·.kind.isQuoted) = us.filter (·.kind.isQuoted)) :
  List.Forall₂ (fun t u => t.SameLetters u ∧ (t.kind.isQuoted → u.text = t.text)) ts us
  := by
  induction h with
  | nil => exact .nil
  | @cons t u ts us hletters _ ih =>
      rw [List.filter_cons, List.filter_cons, hletters.kind] at hquoted
      cases hkind : t.kind.isQuoted with
      | true =>
          simp only [hkind, if_true, List.cons.injEq] at hquoted
          obtain ⟨rfl, hquoted⟩ := hquoted
          exact .cons ⟨hletters, fun _ => rfl⟩ (ih hquoted)
      | false =>
          simp only [hkind, Bool.false_eq_true, if_false] at hquoted
          exact .cons ⟨hletters, fun hk => by simp [hkind] at hk⟩ (ih hquoted)

/-- Tokens that are the same up to case match if the text literals and quoted names among them are
the same. -/
theorem Spelling.matches_of_sameLetters {ts us : List Token}
    (h : List.Forall₂ Token.SameLetters ts us)
    (hquoted : ts.filter (·.kind.isQuoted) = us.filter (·.kind.isQuoted))
    (hordered : ts.Pairwise fun t u => t.span.start.offset < u.span.start.offset)
    (hdigits : ∀ t ∈ ts, t.kind = .number .integer → ∀ c ∈ t.text.toList, c.isDigit) :
  List.Forall₂ (ofTokens ts).Matches ts us
  := by
  have hdistinct : (ts.map (·.span.start.offset)).Nodup := by
    apply List.pairwise_map.mpr
    exact hordered.imp Nat.ne_of_lt
  have hall := Token.text_eq_of_sameLetters h hquoted
  apply ((List.forall₂_and_left ..).mpr ⟨fun t ht => ht, hall⟩).imp
  rintro t u ⟨ht, hletters, htext⟩
  constructor
  case kind => exact hletters.kind
  case span => exact hletters.span
  case letters => exact hletters.letters
  case fixed =>
      rintro (hkind | hkind)
      · exact htext hkind
      · exact eq_of_toUpper_of_isDigit hletters.letters (hdigits t ht hkind)
  case plain =>
      intro hname
      rw [Bool.eq_false_iff]
      intro hany
      obtain ⟨v, hv, hstring⟩ := List.any_eq_true.mp hany
      obtain ⟨hkind, hstart⟩ := by simpa using hstring
      obtain rfl : v = t :=
        List.inj_on_of_nodup_map hdistinct hv ht (congrArg Position.offset hstart)
      rw [hkind] at hname
      contradiction

/-! ### Texts -/

theorem Entry.production_mirrored {c : Mirror} {inner : Inner} (hin : inner.Mirrored c)
    (hc : c.total) (entry : Entry) :
  Mirrored c c.likeness.Same (entry.production inner) (entry.production inner)
  := by
  cases entry with
  | statement =>
      apply (soleStatement_mirrored hin hc).map
      intro a b hab
      simpa using hab
  | script => exact statements_mirrored hin hc inner.bound rfl
  | expression =>
      apply (soleExpression_mirrored hin hc).map
      intro a b hab
      simpa using hab

/-- **Case does not matter.**  Texts that are the same up to case have tokens of the same kinds in
the same regions, or the same fault.  If the text literals and the quoted names of both are the same
too, then both are read as the same nodes up to the case of other names, of numbers and of tokens
that are kept verbatim, or both are refused with the same message, up to case, for the same region. -/
theorem parseAs_case {text other : String} (h : text.toUpper = other.toUpper) :
  (Token.list text).map (·.map fun t => (t.kind, t.span)) =
      (Token.list other).map (·.map fun t => (t.kind, t.span)) ∧
    ((Transcript.ofString text).visible.filter (·.kind.isQuoted) =
        (Transcript.ofString other).visible.filter (·.kind.isQuoted) →
      ∀ entry,
        (∃ nodes nodes', parseAs entry text = .ok nodes ∧ parseAs entry other = .ok nodes' ∧
          capitals (.ofTokens (Transcript.ofString text).visible) nodes =
            capitals (.ofTokens (Transcript.ofString text).visible) nodes') ∨
        ∃ e e', parseAs entry text = .error e ∧ parseAs entry other = .error e' ∧
          e.cause.kind = e'.cause.kind ∧ e.span = e'.span ∧
          e.cause.message.toUpper = e'.cause.message.toUpper)
  := by
  refine ⟨Token.list_sameLetters h, fun hquoted entry => ?_⟩
  obtain ⟨hletters, hstop⟩ := Tape.sameLetters_ofString h
  rw [← Transcript.tokens_ofString, ← Transcript.tokens_ofString] at hquoted
  rw [← Transcript.tokens_ofString]
  have hdigits : ∀ t ∈ (Tape.ofString text).tokens, t.kind = .number .integer →
      ∀ c ∈ t.text.toList, c.isDigit := by
    intro t ht hkind
    obtain ⟨after, hrule⟩ := Cursor.numberRule_of_mem_visible (.ofString text) t ht _ hkind
    cases hrule with
    | integer digits => exact digits.2
  have hordered := (Cursor.visible_ordered (.ofString text)).1
  have hmatches := Spelling.matches_of_sameLetters hletters hquoted hordered hdigits
  let c : Mirror := ⟨.upTo (.ofTokens (Tape.ofString text).tokens), [], .nothing⟩
  have hpairs : c.Pairs (.ofString text) (.ofString other) := by
    constructor
    · exact ⟨_, (List.append_nil _).symm, hmatches⟩
    · exact Tape.kind_ne_eof_of_mem_ofString text
    · rfl
    · exact fun _ => hstop
    · simp [c]
    · exact Spelling.describes_ofTokens hordered
  obtain ⟨n, hn⟩ : ∃ n, (Tape.ofString text).tokens.length < n := ⟨_, Nat.lt_succ_self _⟩
  have hm := hletters.length_eq ▸ hn
  rw [parseAs_eq entry hn, parseAs_eq entry hm]
  have hagrees := entry.production_mirrored (c := c) (Inner.nested_mirrored n maxNesting) rfl _ _
    hpairs (Tape.seen_nil _)
  change c.Agrees _ ((entry.production (.outermost n)).eval _)
    ((entry.production (.outermost n)).eval _) at hagrees
  generalize (entry.production (.outermost n)).eval (.ofString text) = x at *
  generalize (entry.production (.outermost n)).eval (.ofString other) = y at *
  cases hagrees with
  | value related => exact .inl ⟨_, _, rfl, rfl, related⟩
  | fault same => exact .inr ⟨_, _, rfl, rfl, Fault.eq_of_capitals same⟩
  | failed apart => exact absurd rfl apart

/-- A query in small letters and in capitals. -/
theorem parseAs_case_query :
  ∃ nodes nodes', parseAs .script "select 'a', 1e5" = .ok nodes ∧
    parseAs .script "SELECT 'a', 1E5" = .ok nodes' ∧
    capitals (.ofTokens (Transcript.ofString "select 'a', 1e5").visible) nodes =
      capitals (.ofTokens (Transcript.ofString "select 'a', 1e5").visible) nodes'
  := by
  have hcase : "select 'a', 1e5".toUpper = "SELECT 'a', 1E5".toUpper := by
    rw [← String.toList_inj, toList_toUpper, toList_toUpper]
    decide +kernel
  have hquoted : (Transcript.ofString "select 'a', 1e5").visible.filter (·.kind.isQuoted) =
      (Transcript.ofString "SELECT 'a', 1E5").visible.filter (·.kind.isQuoted) := by decide +kernel
  have hok : (parseAs .script "select 'a', 1e5").isOk = true := by decide +kernel
  rcases (parseAs_case hcase).2 hquoted .script with h | ⟨e, e', h, -⟩
  · exact h
  · simp [h, Except.isOk, Except.toBool] at hok

end SqlFront
