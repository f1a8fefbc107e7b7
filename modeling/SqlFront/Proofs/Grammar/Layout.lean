import SqlFront.Proofs.Grammar.Faults

/-!
# White space and comments

Texts with the same visible tokens, up to where these stand, are read alike (`parseAs_layout`): where
positions are forgotten their tapes are the same, and forgetting positions commutes with reading.
-/

namespace SqlFront

open Grammar Production

/-- Tokens of the same kinds with the same texts are the same once their regions are forgotten. -/
theorem Token.forget_eq_of_map_eq {ts us : List Token}
    (h : ts.map (fun t => (t.kind, t.text)) = us.map fun t => (t.kind, t.text)) :
  forget ts = forget us
  := by
  have hforget : ∀ ts : List Token, forget ts =
      (ts.map fun t => (t.kind, t.text)).map fun k => ⟨k.1, k.2, .point .start⟩ := by
    intro ts
    rw [List.map_map]
    rfl
  rw [hforget ts, hforget us, h]

/-- A text whose tokens are listed is read to its end. -/
theorem Tape.ofString_of_list {text : String} {ts : List Token} (h : Token.list text = .ok ts) :
  (∃ p, (ofString text).stop = .ok p) ∧ (ofString text).tokens = ts.filter (·.isVisible)
  := by
  cases hstop : (ofString text).stop with
  | error e =>
      rw [Token.list_of_stop hstop] at h
      contradiction
  | ok p =>
      obtain ⟨us, hus, htokens⟩ := tokens_ofString hstop
      rw [h] at hus
      obtain rfl := Except.ok.inj hus
      exact ⟨⟨p, rfl⟩, htokens⟩

/-- Texts with the same visible tokens, up to where these stand, have the same tape up to positions. -/
theorem Tape.forget_ofString_eq {text other : String} {ts us : List Token}
    (hts : Token.list text = .ok ts) (hus : Token.list other = .ok us)
    (hsame : (ts.filter (·.isVisible)).map (fun t => (t.kind, t.text)) =
      (us.filter (·.isVisible)).map fun t => (t.kind, t.text)) :
  forget (ofString text) = forget (ofString other)
  := by
  obtain ⟨⟨p, hp⟩, htext⟩ := ofString_of_list hts
  obtain ⟨⟨q, hq⟩, hother⟩ := ofString_of_list hus
  have hforget := Token.forget_eq_of_map_eq hsame
  rw [← htext, ← hother] at hforget
  change (⟨forget (ofString text).tokens, forget (ofString text).stop, _⟩ : Tape) =
    ⟨forget (ofString other).tokens, forget (ofString other).stop, _⟩
  rw [hforget, hp, hq]
  rfl

/-- Tapes that are the same up to positions have equally many tokens. -/
theorem Tape.length_eq_of_forget {s r : Tape} (h : forget s = forget r) :
  s.tokens.length = r.tokens.length
  := by
  have hlength : ∀ s : Tape, (forget s).tokens.length = s.tokens.length := fun _ => List.length_map _
  rw [← hlength s, h, hlength r]

theorem Cause.isAhead_move (f : Position → Position) (cause : Cause) :
  (SqlFront.move f cause).isAhead = cause.isAhead
  := by
  cases cause <;> rfl

/-- **White space and comments do not matter.**  Two texts without faults of their own whose visible
tokens are of the same kinds and have the same texts are read as the same nodes up to their regions,
or both are refused, with the same message and at the same token. -/
theorem parseAs_layout {entry : Entry} {text other : String} {ts us : List Token}
    (hts : Token.list text = .ok ts) (hus : Token.list other = .ok us)
    (hsame : (ts.filter (·.isVisible)).map (fun t => (t.kind, t.text)) =
      (us.filter (·.isVisible)).map fun t => (t.kind, t.text)) :
  (∃ nodes nodes', parseAs entry text = .ok nodes ∧ parseAs entry other = .ok nodes' ∧
      forget nodes = forget nodes') ∨
    ∃ e e', parseAs entry text = .error e ∧ parseAs entry other = .error e' ∧
      e.cause.kind = e'.cause.kind ∧ e.cause.message = e'.cause.message ∧
      ∃ i ≤ (Transcript.ofString text).visible.length,
        e.IsAt (.ofString text) i ∧ e'.IsAt (.ofString other) i
  := by
  obtain ⟨⟨p, hp⟩, -⟩ := Tape.ofString_of_list hts
  obtain ⟨⟨q, hq⟩, -⟩ := Tape.ofString_of_list hus
  have htape : move _ (Tape.ofString text) = move _ (Tape.ofString other) :=
    Tape.forget_ofString_eq hts hus hsame
  have hlength := Tape.length_eq_of_forget htape
  obtain ⟨n, hn⟩ : ∃ n, (Tape.ofString text).tokens.length < n := ⟨_, Nat.lt_succ_self _⟩
  have hm := hlength ▸ hn
  rw [parseAs_eq entry hn, parseAs_eq entry hm]
  have hread := (entry.eval_move (fun _ => .start) hn hn).symm
  rw [htape, entry.eval_move (fun _ => .start) hm hm, Prod.mk.injEq] at hread
  have hlocates : LocatesAt [] (entry.production (.outermost n)) :=
    entry.production_locates (Inner.nested_tidy n maxNesting)
  generalize entry.production (.outermost n) = p at *
  obtain ⟨hvalue, hleft⟩ := hread
  rcases heval : p.eval (.ofString text) with ⟨e | nodes, s⟩ <;>
    rcases heval' : p.eval (.ofString other) with ⟨e' | nodes', s'⟩ <;>
    rw [heval, heval'] at hvalue hleft
  · right
    have hcause : move (fun _ => Position.start) e.cause = move (fun _ => .start) e'.cause :=
      congrArg Fault.cause (Except.error.inj hvalue)
    have htokens : s.tokens.length = s'.tokens.length := Tape.length_eq_of_forget hleft
    refine ⟨e, e', rfl, rfl, ?_, ?_, ?_⟩
    · rw [← Cause.kind_move (fun _ => .start), hcause, Cause.kind_move]
    · rw [← Cause.message_move (fun _ => .start), hcause, Cause.message_move]
    · have hahead : e.cause.isAhead = e'.cause.isAhead := by
        rw [← Cause.isAhead_move (fun _ => .start), hcause, Cause.isAhead_move]
      have hplace := (hlocates _ _ _ (Tape.proper_ofString text) (Tape.seen_nil _) heval).resolve_left
        (by simp [hp])
      have hplace' := (hlocates _ _ _ (Tape.proper_ofString other) (Tape.seen_nil _)
        heval').resolve_left (by simp [hq])
      obtain ⟨i, hi, hat⟩ := hplace.isAt (congrArg Prod.snd heval)
      obtain ⟨j, hj, hat'⟩ := hplace'.isAt (congrArg Prod.snd heval')
      rw [← Transcript.tokens_ofString] at hi hj
      obtain rfl : i = j := by
        rw [hahead] at hi
        omega
      rw [← Transcript.tokens_ofString]
      exact ⟨i, by omega, hat, hat'⟩
  · contradiction
  · contradiction
  · left
    exact ⟨nodes, nodes', rfl, rfl, Except.ok.inj hvalue⟩

/-- A comment and a line break change nothing but regions. -/
theorem parseAs_layout_comment :
  ∃ nodes nodes', parseAs .script "SELECT a" = .ok nodes ∧
    parseAs .script "SELECT /* b */\n a" = .ok nodes' ∧ forget nodes = forget nodes'
  := by
  have hlists : (Token.list "SELECT a").map
        (fun ts => (ts.filter (·.isVisible)).map fun t => (t.kind, t.text)) =
      (Token.list "SELECT /* b */\n a").map
        fun us => (us.filter (·.isVisible)).map fun t => (t.kind, t.text) := by decide +kernel
  have hok : (Token.list "SELECT a").isOk = true ∧
      (parseAs .script "SELECT a").isOk = true := by decide +kernel
  cases hts : Token.list "SELECT a" with
  | error e => simp [hts, Except.isOk, Except.toBool] at hok
  | ok ts =>
      cases hus : Token.list "SELECT /* b */\n a" with
      | error e => simp [hts, hus, Except.map] at hlists
      | ok us =>
          simp only [hts, hus, Except.map, Except.ok.injEq] at hlists
          rcases @parseAs_layout .script _ _ _ _ hts hus hlists with h | ⟨e, e', h, -⟩
          · exact h
          · simp [h, Except.isOk, Except.toBool] at hok

end SqlFront
