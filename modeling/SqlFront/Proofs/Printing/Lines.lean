import SqlFront.Proofs.Printing.Texts
import SqlFront.Proofs.Tokens.Alone

/-!
# Texts on lines of their own

A text without a fault and without unrecognized tokens has, positions forgotten, the tape of some
words (`Tape.exists_words`).  It spells these words wherever it stands, if a line feed follows
(`Cursor.spells_line`), so that what stands around it can be told apart from it
(`Tape.forget_around`).
-/

namespace SqlFront

open Token

variable {text before behind : String} {vs ws rest : List String}

namespace Cursor

/-- Wherever a text begins, its visible tokens are the same up to positions, and so is whether there
is a fault. -/
theorem forget_visible (cs : List Char) (p : Position) :
  forget (visible ⟨cs, .start⟩).1 = forget (visible ⟨cs, p⟩).1 ∧
    ∀ q, (visible ⟨cs, .start⟩).2 = .ok q → ∃ q', (visible ⟨cs, p⟩).2 = .ok q'
  := by
  rw [visible_recounts (c := ⟨cs, p⟩) (Position.since_recounts p)]
  constructor
  · exact List.map_map
  · intro q hq
    cases hvisible : (visible ⟨cs, p⟩).2 with
    | ok q' => exact ⟨q', rfl⟩
    | error e =>
        rw [hvisible] at hq
        contradiction

/-- A text spells its words if a line feed follows. -/
theorem spells_line (hws : AreTokens ws) (h : forget (Tape.ofString text) = .ofWords ws)
    (more : List Char) :
  Spells (text.toList ++ '\n' :: more) ws more
  := by
  intro p
  have hwords : forget (visible ⟨text.toList, .start⟩).1 = ws.map ofWord := congrArg Tape.tokens h
  obtain ⟨q, hq⟩ : ∃ q, (visible ⟨text.toList, .start⟩).2 = .ok q := Tape.stop_of_forget h
  obtain ⟨htokens, hstop⟩ := forget_visible text.toList p
  obtain ⟨q', hvisible⟩ := hstop q hq
  rw [hwords] at htokens
  have hvalid : ∀ t ∈ (visible ⟨text.toList, p⟩).1, t.kind ≠ .unrecognized := by
    intro t ht
    have hmem : forget t ∈ ws.map ofWord := by
      rw [htokens]
      exact List.mem_map_of_mem ht
    obtain ⟨w, hw, hforget⟩ := List.mem_map.mp hmem
    obtain ⟨kind, hkind⟩ := Option.isSome_iff_exists.mp (hws w hw)
    obtain ⟨-, -, -, -, -, hne⟩ := kindOf?_eq_some hkind
    rw [← kind_ofWord hkind, hforget] at hne
    exact hne
  exact ⟨_, _, htokens.symm, visible_append (c := ⟨text.toList, p⟩) hvisible hvalid more⟩

/-- A text of words with blanks between them spells the words. -/
theorem spells_spaced (hws : AreTokens ws) :
  Spells (" ".intercalate ws).toList ws []
  := by
  intro p
  obtain ⟨htokens, hstop⟩ := visible_spaced hws p
  cases hvisible : (visible ⟨(" ".intercalate ws).toList, p⟩).2 with
  | error e =>
      rw [hvisible] at hstop
      contradiction
  | ok q =>
      refine ⟨_, q, htokens, ?_⟩
      rw [visible_of_rest_eq_nil (c := ⟨[], q⟩) rfl, List.append_nil, ← hvisible]

/-- Words with a blank behind each, and an opening parenthesis behind them, are spelled. -/
theorem spells_opening (hvs : AreTokens vs)
    (h : before.toList = vs.flatMap (fun w => w.toList ++ [' ']) ++ ['(']) (more : List Char) :
  Spells (before.toList ++ more) (vs ++ ["("]) more
  := by
  have hparen : Spells ('(' :: more) ["("] more :=
    spells_of_measure rfl kindOf?_leftParen rfl
  rw [h, List.append_assoc]
  exact (spells_words hvs _).trans hparen

end Cursor

namespace Tape

/-- A text without a fault and without unrecognized tokens has the tape of some words. -/
theorem exists_words {q : Position} (hstop : (ofString text).stop = .ok q)
    (hvalid : ∀ t ∈ (ofString text).tokens, t.kind ≠ .unrecognized) :
  ∃ ws, AreTokens ws ∧ forget (ofString text) = .ofWords ws
  := by
  obtain ⟨ws, hws, htokens⟩ := Cursor.exists_words hvalid
  refine ⟨ws, hws, ?_⟩
  change (⟨forget (ofString text).tokens, forget (ofString text).stop, .point .start⟩ : Tape) = _
  rw [hstop, show forget (ofString text).tokens = ws.map ofWord from htokens]
  rfl

/-- Between words stand the words of a text, if a line feed follows it. -/
theorem forget_around (hbefore : ∀ more, Cursor.Spells (before.toList ++ more) vs more)
    (hws : AreTokens ws) (h : forget (ofString text) = .ofWords ws) (hrest : AreTokens rest)
    (hbehind : behind = "\n" ++ " ".intercalate rest) :
  forget (ofString (before ++ text ++ behind)) = .ofWords (vs ++ (ws ++ rest))
  := by
  apply forget_of_spells
  have hlist : (before ++ text ++ behind).toList =
      before.toList ++ (text.toList ++ '\n' :: (" ".intercalate rest).toList) := by
    simp [hbehind]
  rw [hlist]
  exact (hbefore _).trans ((Cursor.spells_line hws h _).trans (Cursor.spells_spaced hrest))

end Tape

end SqlFront
