import SqlFront.Proofs.Grammar.Parts
import SqlFront.Proofs.Grammar.StatementObeys

/-!
# The trees of texts

A text can be read as a statement, as a script or as an expression.  Each part within a tree that
any of the three yields is read, by a rule for its type, from some of the visible tokens of the
text.
-/

namespace SqlFront

open Grammar

/-- A tree that a text is read as: the statement or the expression that it consists of, or a
statement of the script that it consists of. -/
inductive Yields (text : String) : Node → Prop where
  | statement {node : Node} (h : parseStatement text = .ok node) : Yields text node
  | script {node : Node} {nodes : List Node} (h : parseScript text = .ok nodes)
      (isPart : node ∈ nodes) : Yields text node
  | expression {node : Node} (h : parseExpression text = .ok node) : Yields text node

namespace Grammar.Rules

variable {n : Nat} {s : Statement} {u : List Token}

theorem StatementRule.reading (h : (within n).StatementRule s u) :
  s.part.Reading u
  := by
  cases h with
  | merge isMerge => exact ⟨n, isMerge⟩
  | load isLoad => apply isLoad
  | exportRows isExport => exact ⟨n, isExport⟩
  | query isQuery => apply reading_of_query isQuery
  | verbatim isVerbatim => apply isVerbatim

theorem SoleRule.reading (h : (within n).SoleRule s u) :
  ∃ v, v <:+: u ∧ s.part.Reading v
  := by
  cases h with
  | bare only => exact ⟨u, List.infix_rfl, only.reading⟩
  | ended only ending => exact ⟨_, (List.prefix_append _ _).isInfix, only.reading⟩

theorem ScriptRule.reading {nodes : List Node} (h : (within n).ScriptRule nodes u) :
  ∀ node ∈ nodes, ∃ v, v <:+: u ∧ node.part.Reading v
  := by
  induction h with
  | nil => simp
  | skip separator others ih =>
      intro node hnode
      obtain ⟨v, hv, hreading⟩ := ih node hnode
      exact ⟨v, hv.trans (List.suffix_cons _ _).isInfix, hreading⟩
  | last only =>
      intro node hnode
      obtain rfl := List.mem_singleton.mp hnode
      exact ⟨_, List.infix_rfl, only.reading⟩
  | @more s ns t u w first separator others ih =>
      intro node hnode
      rcases List.mem_cons.mp hnode with rfl | hnode
      · exact ⟨u, (List.prefix_append _ _).isInfix, first.reading⟩
      · obtain ⟨v, hv, hreading⟩ := ih node hnode
        have hsuffix : w <:+: u ++ t :: w := ⟨u ++ [t], [], by simp⟩
        exact ⟨v, hv.trans hsuffix, hreading⟩

end Grammar.Rules

/-- A tree that a text is read as is read from some of the visible tokens of the text. -/
theorem Yields.reading {text : String} {node : Node} (h : Yields text node) :
  ∃ ts u, Token.list text = .ok ts ∧ u <:+: ts.filter (·.isVisible) ∧ node.part.Reading u
  := by
  cases h with
  | statement h =>
      obtain ⟨ts, s, hts, rfl, hrule⟩ := rule_of_parseStatement h
      obtain ⟨u, hu, hreading⟩ := hrule.reading
      exact ⟨ts, u, hts, hu, hreading⟩
  | script h hnode =>
      obtain ⟨ts, hts, hrule⟩ := rule_of_parseScript h
      obtain ⟨u, hu, hreading⟩ := hrule.reading _ hnode
      exact ⟨ts, u, hts, hu, hreading⟩
  | expression h =>
      obtain ⟨ts, e, hts, rfl, hrule⟩ := rule_of_parseExpression h
      exact ⟨ts, _, hts, List.infix_rfl, Rules.reading_of_expression hrule⟩

/-- Every part within a tree that a text is read as is read from some of the visible tokens. -/
theorem Yields.reading_of_within {text : String} {node : Node} (h : Yields text node) :
  ∃ ts, Token.list text = .ok ts ∧ ∀ p : Part, p.Within node.part →
    ∃ u, u <:+: ts.filter (·.isVisible) ∧ p.Reading u
  := by
  obtain ⟨ts, u, hts, hu, hreading⟩ := h.reading
  use ts, hts
  intro p hp
  obtain ⟨v, hv, hreading'⟩ := Part.reading_of_within hp hreading
  exact ⟨v, hv.trans hu, hreading'⟩

end SqlFront
