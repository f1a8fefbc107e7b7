import SqlFront.Proofs.Grammar.Trees
import SqlFront.Proofs.Tokens.Order

/-!
# The regions of parts

The region of a part is that of the tokens that its children are read from (`Part.Covers`).  These
are the tokens that the part is read from, but for two kinds of parts: a relation between
parentheses has the region of the relation, and options that of their parentheses alone.  So the
regions of the children of a part lie within its region, one behind the other
(`Yields.parts_placed`).
-/

namespace SqlFront

open Grammar

namespace Part

/-- A part has the region of some tokens, and its children are read from these. -/
structure Covers (p : Part) (w : List Token) : Prop where
  ne_nil : w ≠ []
  span_eq : p.span = Span.over w
  children : ReadIn p.children w

/-- The region of a part begins and ends with tokens, and it holds the regions of the children,
which stand one behind the other. -/
structure Placed (p : Part) (ts : List Token) : Prop where
  starts : ∃ t ∈ ts, p.span.start = t.span.start
  stops : ∃ t ∈ ts, p.span.stop = t.span.stop
  nonempty : p.span.start.offset < p.span.stop.offset
  inside : ∀ c ∈ p.children,
    p.span.start.offset ≤ c.span.start.offset ∧ c.span.stop.offset ≤ p.span.stop.offset
  ordered : p.children.Pairwise fun c d => c.span.stop.offset ≤ d.span.start.offset

/-- A part that has the region of all tokens that it is read from covers these. -/
theorem Reading.covers {p : Part} {u : List Token} (h : p.Reading u) (hne : u ≠ [])
    (hspan : p.span = Span.over u) :
  ∃ w, w <:+: u ∧ p.Covers w
  := ⟨u, List.infix_rfl, hne, hspan, readIn_of_reading h⟩

end Part

/-! ### Which tokens a part covers -/

namespace Grammar

namespace Rules

variable {n : Nat} {u : List Token}

theorem WideQueryRule.covers {q : Query} (h : (within n).WideQueryRule q u) :
  ∃ w, w <:+: u ∧ (Part.query q).Covers w
  := by
  have hreading : (Part.query q).Reading u := ⟨n, h⟩
  cases h with
  | bare isQuery =>
      have hne := isQuery.ne_nil
      cases isQuery
      apply hreading.covers hne rfl
  | wide inside => apply hreading.covers (After.ne_nil inside) rfl

theorem PrimaryUpTo.covers {p : Primary} {m : Nat} (h : (within n).PrimaryUpTo m p u) :
  ∃ w, w <:+: u ∧ (Part.primary p).Covers w
  := by
  have hreading : (Part.primary p).Reading u := ⟨n, m, h⟩
  have hne := h.ne_nil
  cases m with
  | zero => contradiction
  | succ m =>
      cases h with
      | table => apply hreading.covers hne rfl
      | subquery => apply hreading.covers hne rfl
      | @nested r opening _ opens inside =>
          cases inside with
          | @intro closing v isRelation =>
              have hrelation : (Part.relation r).Reading v := ⟨n, m, isRelation⟩
              have hne := isRelation.ne_nil (within_nonempty n)
              refine ⟨v, ⟨[opening], [closing], rfl⟩, hne, ?_, .one hrelation⟩
              cases isRelation
              rfl

end Rules

theorem OptionsRule.covers {o : OptionList} {u : List Token} (h : OptionsRule o u) :
  ∃ w, w <:+: u ∧ (Part.options o).Covers w
  := by
  cases h with
  | intro opens areEntries =>
      refine ⟨_, (List.suffix_cons _ _).isInfix, After.ne_nil areEntries, rfl, ?_⟩
      apply areEntries.readIn fun _ h => h.readIn_map fun _ _ h => h

end Grammar

namespace Part

variable {p : Part} {ps : List Part} {u ts : List Token}

/-- A part covers some of the tokens that it is read from. -/
theorem Reading.exists_covers (h : p.Reading u) :
  ∃ w, w <:+: u ∧ p.Covers w
  := by
  have hreading := h
  cases p with
  | ident =>
      apply hreading.covers (IdentRule.ne_nil h)
      cases h
      rfl
  | name =>
      apply hreading.covers (NameRule.ne_nil h)
      cases h
      rfl
  | constant =>
      apply hreading.covers (ConstantRule.ne_nil h)
      cases h
      rfl
  | expression =>
      obtain ⟨n, level, h⟩ := h
      apply hreading.covers h.ne_nil h.span_eq
  | query =>
      obtain ⟨n, h⟩ := h
      apply h.covers
  | namedQuery =>
      obtain ⟨n, h⟩ := h
      apply hreading.covers h.ne_nil
      cases h
      rfl
  | body =>
      obtain ⟨n, h⟩ := h
      apply hreading.covers h.ne_nil h.span_eq
  | selectItem | sortItem =>
      obtain ⟨n, h⟩ := h
      apply hreading.covers (h.ne_nil (Rules.within_nonempty n))
      cases h
      rfl
  | relation =>
      obtain ⟨n, m, h⟩ := h
      apply hreading.covers (h.ne_nil (Rules.within_nonempty n))
      cases h
      rfl
  | primary =>
      obtain ⟨n, m, h⟩ := h
      apply h.covers
  | join =>
      obtain ⟨n, m, h⟩ := h
      cases h
      apply hreading.covers _ rfl
      simp
  | assignment =>
      obtain ⟨n, h⟩ := h
      cases h with
      | intro isTarget isValue =>
        apply hreading.covers _ rfl
        simp [isTarget.ne_nil]
  | select | groupBy | clause | merge | exportRows =>
      obtain ⟨n, h⟩ := h
      cases h
      apply hreading.covers _ rfl
      simp
  | partitionEntry =>
      cases h with
      | intro isColumn isValue =>
          apply hreading.covers _ rfl
          simp [isColumn.ne_nil]
  | optionEntry =>
      cases h with
      | intro isKey words isValue =>
          apply hreading.covers _ rfl
          simp [isKey.ne_nil]
  | options => apply OptionsRule.covers h
  | partition | load | verbatim =>
      cases h
      apply hreading.covers _ rfl
      simp

/-! ### Where parts are -/

/-- Parts read one after the other have their regions one behind the other. -/
theorem ReadIn.pairwise (h : ReadIn ps u) (hu : Token.Sorted u) :
  ps.Pairwise fun c d => c.span.stop.offset ≤ d.span.start.offset
  := by
  induction h with
  | nil => apply List.Pairwise.nil
  | @cons p ps v w x first others ih =>
      have hpairwise := List.pairwise_append.mp hu.pairwise
      constructor
      · intro d hd
        obtain ⟨y, hy, hreading⟩ := others.reading hd
        obtain ⟨z, hz, hcovers⟩ := hreading.exists_covers
        obtain ⟨z', hz', hcovers'⟩ := first.exists_covers
        obtain ⟨t, ht, hstop⟩ := Span.exists_stop_eq hcovers'.ne_nil
        obtain ⟨s, hs, hstart⟩ := Span.exists_start_eq hcovers.ne_nil
        rw [hcovers'.span_eq, hcovers.span_eq, hstop, hstart]
        apply hpairwise.2.2
        · apply List.mem_append_right x (hz'.subset ht)
        · apply hy.subset (hz.subset hs)
      · apply ih (hu.sublist (List.sublist_append_right _ w))

/-- A part read from some of the tokens of a text is where tokens are. -/
theorem Reading.placed (h : p.Reading u) (hu : u <:+: ts) (hts : Token.Sorted ts) :
  p.Placed ts
  := by
  obtain ⟨w, hw, hcovers⟩ := h.exists_covers
  have hsub := hw.trans hu
  have hsorted := hts.sublist hsub.sublist
  obtain ⟨t, ht, hstart⟩ := Span.exists_start_eq hcovers.ne_nil
  obtain ⟨s, hs, hstop⟩ := Span.exists_stop_eq hcovers.ne_nil
  constructor
  · exact ⟨t, hsub.subset ht, by rw [hcovers.span_eq, hstart]⟩
  · exact ⟨s, hsub.subset hs, by rw [hcovers.span_eq, hstop]⟩
  · rw [hcovers.span_eq]
    have hle := hsorted.start_over_le hs
    have hlt := hsorted.nonempty s hs
    rw [hstop]
    omega
  · intro c hc
    obtain ⟨x, hx, hreading⟩ := hcovers.children.reading hc
    obtain ⟨y, hy, hcovers'⟩ := hreading.exists_covers
    obtain ⟨a, ha, hstart'⟩ := Span.exists_start_eq hcovers'.ne_nil
    obtain ⟨b, hb, hstop'⟩ := Span.exists_stop_eq hcovers'.ne_nil
    rw [hcovers.span_eq, hcovers'.span_eq, hstart', hstop']
    exact ⟨hsorted.start_over_le (hx.subset (hy.subset ha)),
      hsorted.le_stop_over (hx.subset (hy.subset hb))⟩
  · apply hcovers.children.pairwise hsorted

end Part

/-- Every part within a tree that a text is read as is where tokens of the text are, and its children
are within it, one behind the other. -/
theorem Yields.parts_placed {text : String} {node : Node} (h : Yields text node) :
  ∃ ts, Token.list text = .ok ts ∧
    ∀ p : Part, p.Within node.part → p.Placed (ts.filter (·.isVisible))
  := by
  obtain ⟨ts, hts, hparts⟩ := h.reading_of_within
  use ts, hts
  intro p hp
  obtain ⟨u, hu, hreading⟩ := hparts p hp
  apply hreading.placed hu (Token.sorted_visible hts)

/-- The parts of a selection from a relation between parentheses are where its tokens are. -/
theorem Yields.parts_placed_parenthesised :
  ∃ node, Yields "SELECT a FROM (b)" node ∧ ∃ ts, Token.list "SELECT a FROM (b)" = .ok ts ∧
    ∀ p : Part, p.Within node.part → p.Placed (ts.filter (·.isVisible))
  := by
  have hok : (parseStatement "SELECT a FROM (b)").isOk := by decide +kernel
  cases h : parseStatement "SELECT a FROM (b)" with
  | error e =>
      rw [h] at hok
      contradiction
  | ok node => exact ⟨node, .statement h, Yields.parts_placed (.statement h)⟩

end SqlFront
