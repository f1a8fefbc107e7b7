import SqlFront.Proofs.Grammar.Entries
import SqlFront.Proofs.Tokens.Order

/-!
# Where texts are refused

A fault of a text itself is the first one that its tokens end with.  Every other fault is reported
before the token that it is about is taken, or right behind the number that it refuses
(`Stream.readAs_located`).  What a text is refused for lies before the second token behind the one
where it is refused, whatever stands there (`parseAs_bounded`).
-/

namespace SqlFront

open Grammar Production

/-! ### Tokens by number -/

namespace Transcript

variable {text : String} {i j : Nat} {t u : Token}

theorem tokens_ofString (text : String) :
  (Tape.ofString text).tokens = (ofString text).visible
  := congrArg Prod.fst (Cursor.ofString text).visible_eq

theorem stop_ofString (text : String) :
  (Tape.ofString text).stop = (ofString text).stop
  := congrArg Prod.snd (Cursor.ofString text).visible_eq

theorem peek_ofString (text : String) (i : Nat) :
  (Tape.ofString text).peek i = (ofString text).get i
  := by
  rw [Tape.peek, tokens_ofString, stop_ofString]
  rfl

/-- The numbers of tokens that begin at the same place are the same, those of the ends of the text
apart. -/
theorem le_of_start_eq (hj : j ≤ (ofString text).visible.length) (ht : (ofString text).get i = .ok t)
    (hu : (ofString text).get j = .ok u) (h : t.span.start = u.span.start) :
  j ≤ i
  := by
  by_contra hlt
  obtain ⟨hpairwise, -, hstop⟩ := Cursor.visible_ordered (.ofString text)
  rw [Cursor.visible_eq] at hpairwise hstop
  change (ofString text).visible.Pairwise _ at hpairwise
  change ∀ p, (ofString text).stop = .ok p → _ ∧ ∀ t ∈ (ofString text).visible, _ at hstop
  have hi : i < (ofString text).visible.length := by omega
  have hti : (ofString text).visible[i] = t := by
    simpa [get, List.getElem?_eq_getElem hi] using ht
  rcases Nat.lt_or_eq_of_le hj with hj | hj
  · have huj : (ofString text).visible[j] = u := by
      simpa [get, List.getElem?_eq_getElem hj] using hu
    have hstart := List.pairwise_iff_getElem.mp hpairwise i j hi hj (by omega)
    rw [hti, huj, h] at hstart
    exact Nat.lt_irrefl _ hstart
  · simp only [get, hj, List.getElem?_length] at hu
    obtain ⟨p, hend, rfl⟩ := map_eq_ok_iff.mp hu
    have hstart := (hstop p hend).2 t (hti ▸ List.getElem_mem hi)
    rw [h] at hstart
    exact Nat.lt_irrefl _ hstart

/-- If a text goes on as another one up to the end of that or up to its fault, it ends there too. -/
theorem get_eq_of_le {l : Transcript} {n : Nat}
    (h : ∀ j ≤ n, j ≤ l.visible.length → (ofString text).get j = l.get j) :
  ∀ j ≤ n, (ofString text).get j = l.get j
  := by
  intro j hj
  rcases Nat.lt_or_ge l.visible.length j with hlt | hle
  · have hend := h l.visible.length (by omega) (Nat.le_refl _)
    have hl : ∀ k, l.visible.length ≤ k → l.get k = l.stop.map .eof := by
      intro k hk
      rw [get, List.getElem?_eq_none hk]
    rw [hl _ (Nat.le_refl _)] at hend
    have hlength : (ofString text).visible.length ≤ l.visible.length := by
      by_contra hmore
      rw [get, List.getElem?_eq_getElem (by omega)] at hend
      obtain ⟨p, -, hp⟩ := map_eq_ok_iff.mp hend.symm
      have hmem : (ofString text).visible[l.visible.length] ∈ (Tape.ofString text).tokens := by
        rw [tokens_ofString]
        exact List.getElem_mem _
      apply Tape.kind_ne_eof_of_mem_ofString text _ hmem
      rw [← hp]
      rfl
    rw [hl j (Nat.le_of_lt hlt), ← hend, get, get, List.getElem?_eq_none hlength,
      List.getElem?_eq_none (by omega)]
  · exact h j hj hle

end Transcript

/-! ### Faults where they are found -/

theorem Tape.peek_append {s s' : Tape} {ts : List Token} (h : s.tokens = ts ++ s'.tokens)
    (hstop : s'.stop = s.stop) (k : Nat) :
  s.peek (ts.length + k) = s'.peek k
  := by
  rw [peek, peek, h, hstop, List.getElem?_append_right (by omega)]
  simp

/-- **Where readings fail.**  A reading of a text fails with the first fault of the text itself, or it
fails for a reason of the grammar.  Then all visible tokens in front of the fault have been taken.
The fault is an empty region at the start of the token that is still the next one, or it is about the
number that was taken last, which is out of range as the parameter of a type. -/
theorem Stream.readAs_located {text : String} {s s' : Stream} {entry : Entry} {e : Fault}
    (hs : Reached text s) (h : s.readAs entry = (.error e, s')) :
  (e.cause.kind = .lexical ∧ Token.list text = .error e) ∨
  (e.cause.kind = .grammar ∧ ∃ taken, (Transcript.ofString text).visible = taken ++ s'.tape.tokens ∧
    ((∃ t, (Transcript.ofString text).get taken.length = .ok t ∧ s'.next.1 = .ok t ∧
        e.span = .point t.span.start) ∨
      ∃ others t, taken = others ++ [t] ∧ t.kind = .number .integer ∧
        e.cause.message = "type parameter " ++ t.text ++ " is out of range" ∧ e.span = t.span))
  := by
  obtain ⟨hsuffix, hstop⟩ := hs.tape
  have heval := entry.readAs_eq s
  rw [h] at heval
  have hfaults := entry.production_locates (Inner.nested_tidy (s.size + 1) maxNesting) s.tape e s'.tape
    ((Tape.proper_ofString text).of_suffix hsuffix) s.tape.seen_nil heval.symm
  have hleft := tokens_eval_suffix (entry.production (.outermost (s.size + 1))) s.tape
  have hstop' := (stop_eval (entry.production (.outermost (s.size + 1))) s.tape).trans hstop
  rw [← heval] at hleft hstop'
  rcases hfaults with hfault | hlocates
  · left
    rw [hstop] at hfault
    exact ⟨Cursor.kind_of_stop hfault, Token.list_of_stop hfault⟩
  · right
    rw [← Transcript.tokens_ofString]
    obtain ⟨before, hbefore⟩ := hsuffix
    cases hlocates with
    | @ahead t cause peek span =>
        obtain ⟨taken, htaken⟩ := hleft
        have hall : (Tape.ofString text).tokens = before ++ taken ++ s'.tape.tokens := by
          rw [← hbefore, ← htaken, List.append_assoc]
        refine ⟨Cause.kind_of_isAhead cause, before ++ taken, hall, .inl ⟨t, ?_, ?_, span⟩⟩
        · rw [← Transcript.peek_ofString, ← peek, ← Tape.peek_append hall hstop' 0, Nat.add_zero]
        · rw [← peek, ← Tape.fst_next]
          exact congrArg Prod.fst s'.next_tape
    | behind front t tokens_eq kind eq alike =>
        subst eq
        refine ⟨rfl, before ++ front ++ [t], ?_, .inr ⟨before ++ front, t, rfl, kind, rfl, rfl⟩⟩
        rw [← hbefore, tokens_eq]
        simp

/-- A parenthesis that is not closed is missed at the end of the text. -/
theorem Stream.readAs_located_open :
  ∃ e s', (Stream.ofString "SELECT (a").readAs .statement = (.error e, s') ∧
    e.cause.kind = .grammar ∧ ∃ taken,
      (Transcript.ofString "SELECT (a").visible = taken ++ s'.tape.tokens
  := by
  have hfails : ((Stream.ofString "SELECT (a").readAs .statement).1.isOk = false ∧
      (Token.list "SELECT (a").isOk = true := by decide +kernel
  rcases h : (Stream.ofString "SELECT (a").readAs .statement with ⟨e | nodes, s'⟩
  · rcases readAs_located .start h with ⟨-, hlist⟩ | ⟨hkind, taken, htaken, -⟩
    · simp [hlist, Except.isOk, Except.toBool] at hfails
    · exact ⟨e, s', rfl, hkind, taken, htaken⟩
  · simp [h, Except.isOk, Except.toBool] at hfails

/-! ### What a refusal depends on -/

/-- The fault is located at the token number `i`: it begins where that token begins. -/
def Fault.IsAt (e : Fault) (l : Transcript) (i : Nat) : Prop :=
  ∃ t, l.get i = .ok t ∧ e.span.start = t.span.start

/-- A fault is located at the next token, or at the number that was taken last. -/
theorem Production.Locates.isAt {α : Type} {p : Production α} {text : String} {e : Fault} {s : Tape}
    (h : Locates p (.ofString text) e s) (heval : (p.eval (.ofString text)).2 = s) :
  ∃ i, (Transcript.ofString text).visible.length =
      i + (if e.cause.isAhead then 0 else 1) + s.tokens.length ∧ e.IsAt (.ofString text) i
  := by
  rw [← Transcript.tokens_ofString]
  cases h with
  | @ahead t cause peek span =>
      obtain ⟨taken, htaken⟩ := tokens_eval_suffix p (.ofString text)
      rw [heval] at htaken
      have hpeek := Tape.peek_append htaken.symm (heval ▸ stop_eval p _) 0
      use taken.length
      rw [if_pos cause, ← htaken, List.length_append]
      refine ⟨rfl, t, ?_, by rw [span]; rfl⟩
      rw [← Transcript.peek_ofString, ← peek, ← hpeek, Nat.add_zero]
  | behind front t tokens_eq kind eq alike =>
      subst eq
      use front.length
      rw [tokens_eq, List.length_append, List.length_cons, if_neg (by simp [Cause.isAhead])]
      refine ⟨by omega, t, ?_, rfl⟩
      rw [← Transcript.peek_ofString, Tape.peek, tokens_eq,
        List.getElem?_append_right (Nat.le_refl _)]
      simp

/-- **Bounded lookahead.**  If a text is refused for a reason of the grammar that is located at some
token, then so is every text that has the same tokens up to the second one behind it, or up to the
end or the fault of the first text if that comes earlier. -/
theorem parseAs_bounded {entry : Entry} {text other : String} {e : Fault} {i : Nat}
    (h : parseAs entry text = .error e) (hkind : e.cause.kind = .grammar)
    (hi : e.IsAt (.ofString text) i)
    (hsame : ∀ j ≤ i + 2, j ≤ (Transcript.ofString text).visible.length →
      (Transcript.ofString other).get j = (Transcript.ofString text).get j) :
  parseAs entry other = .error e
  := by
  -- a bound on the lengths of lists for both texts
  obtain ⟨n, htext, hother⟩ : ∃ n, (Tape.ofString text).tokens.length < n ∧
      (Tape.ofString other).tokens.length < n :=
    ⟨_, Nat.lt_succ_of_le (Nat.le_max_left _ _), Nat.lt_succ_of_le (Nat.le_max_right _ _)⟩
  rw [parseAs_eq entry htext] at h
  rw [parseAs_eq entry hother]
  have halike : (Tape.ofString text).Alike (i + 2) (.ofString other) := by
    refine ⟨rfl, fun j hj => ?_⟩
    rw [Transcript.peek_ofString, Transcript.peek_ofString]
    exact Transcript.get_eq_of_le hsame j hj
  obtain ⟨u, hu, hstart⟩ := hi
  have hle : ∀ {j t}, j ≤ (Transcript.ofString text).visible.length →
      (Tape.ofString text).peek j = .ok t → e.span.start = t.span.start → j ≤ i := by
    intro j t hj ht hspan
    rw [Transcript.peek_ofString] at ht
    exact Transcript.le_of_start_eq hj hu ht (hstart.symm.trans hspan)
  rw [← Transcript.tokens_ofString] at hle
  generalize hp : entry.production (.outermost n) = p at h ⊢
  have hlocates : LocatesAt [] p := hp ▸ entry.production_locates (Inner.nested_tidy n maxNesting)
  have heval : p.eval (.ofString text) = (.error e, (p.eval (.ofString text)).2) := Prod.ext h rfl
  rcases hlocates _ _ _ (Tape.proper_ofString text) (Tape.seen_nil _) heval with
    hfault | ⟨cause, peek, span⟩ | ⟨front, t, tokens_eq, kind, eq, alike⟩
  · have hlexical := Cursor.kind_of_stop hfault
    rw [hkind] at hlexical
    contradiction
  · obtain ⟨taken, htaken⟩ := tokens_eval_suffix p (.ofString text)
    have hlength := congrArg List.length htaken
    rw [List.length_append] at hlength
    rw [← Tape.peek_append htaken.symm (stop_eval p _) 0] at peek
    have hindex := hle (by omega) peek (by rw [span]; rfl)
    rw [← h]
    apply (eval_alike p (Tape.proper_ofString text) (Tape.proper_ofString other)
      (k := taken.length) (n := 0) (by omega) (halike.mono (by omega))).1
  · have hpeek : (Tape.ofString text).peek front.length = .ok t := by
      rw [Tape.peek, tokens_eq, List.getElem?_append_right (Nat.le_refl _)]
      simp
    have hlength := congrArg List.length tokens_eq
    rw [List.length_append] at hlength
    have hindex := hle (by omega) hpeek (congrArg (·.span.start) eq)
    exact alike _ (Tape.proper_ofString other) (halike.mono (by omega))

/-- A parenthesis that is not closed before a semicolon is missed there, whether or not the text has a
fault of its own further on. -/
theorem parseAs_bounded_open :
  ∃ e, parseAs .statement "SELECT (a ; b c 'd" = .error e ∧
    parseAs .statement "SELECT (a ; b c d" = .error e
  := by
  have hfails : (match parseAs .statement "SELECT (a ; b c 'd" with
      | .error e => decide (e.cause.kind = .grammar ∧ e.span.start = ⟨1, 10, 10⟩)
      | .ok _ => false) = true := by decide +kernel
  have hstart : ((Transcript.ofString "SELECT (a ; b c 'd").get 3).map (·.span.start) =
      .ok ⟨1, 10, 10⟩ := by decide +kernel
  have hsame : ∀ j ≤ 5, (Transcript.ofString "SELECT (a ; b c d").get j =
      (Transcript.ofString "SELECT (a ; b c 'd").get j := by decide +kernel
  cases h : parseAs .statement "SELECT (a ; b c 'd" with
  | ok nodes => simp [h] at hfails
  | error e =>
      simp only [h, decide_eq_true_eq] at hfails
      cases ht : (Transcript.ofString "SELECT (a ; b c 'd").get 3 with
      | error e' => simp [ht, Except.map] at hstart
      | ok t =>
          simp only [ht, Except.map, Except.ok.injEq] at hstart
          have hi : e.IsAt (.ofString "SELECT (a ; b c 'd") 3 :=
            ⟨t, ht, hfails.2.trans hstart.symm⟩
          exact ⟨e, rfl, parseAs_bounded h hfails.1 hi fun j hj _ => hsame j hj⟩

end SqlFront
