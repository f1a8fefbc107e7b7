import Mathlib.Data.List.Nodup
import SqlFront.Proofs.Grammar.Regions

/-!
# Parentheses around bodies and relations

A body or a relation of a tree is read from tokens of the text that stand side by side, from these
and no others, and a production that yields it within the text takes just these
(`Part.IsReadFrom`).  The region of a body begins with the first of them and ends with the last;
where the body is a query between parentheses, these are the parentheses, as the region of the query
has been widened to them.  The region of a table or a query among the relations does so too.  A
relation between parentheses, however, has the region of the relation inside, which leaves the
parentheses out (`Yields.regions_whole`).
-/

namespace SqlFront

open Grammar

/-- Whether a body is a query between parentheses. -/
def Body.IsNested : Body → Prop
  | .nested _ => True
  | _ => False

/-- Whether a relation stands between parentheses. -/
def Primary.IsNested : Primary → Prop
  | .nested _ => True
  | _ => False

instance : DecidablePred Primary.IsNested
  | .table .. => inferInstanceAs (Decidable False)
  | .subquery .. => inferInstanceAs (Decidable False)
  | .nested _ => inferInstanceAs (Decidable True)

/-- The relations that a body selects from. -/
def Body.relations : Body → List Relation
  | .select s => s.relations
  | _ => []

/-- Whether a text is a query that selects from some relation between parentheses. -/
def selectsNested (text : String) : Bool :=
  match parseStatement text with
  | .ok (.statement (.query q)) => q.body.relations.any fun r => r.first.IsNested
  | _ => false

/-- The tokens `u` are the tokens `v` with parentheses around them. -/
inductive Grammar.Parenthesised (v : List Token) : List Token → Prop where
  | intro {opening closing : Token} (opens : opening.kind = .leftParen)
      (closes : closing.kind = .rightParen) : Parenthesised v (opening :: (v ++ [closing]))

namespace Part

/-- A production for parts of this type, at some level, yields the part on the tape `s` and leaves
the tape `s'`. -/
inductive Run : Part → Tape → Tape → Prop where
  | body {b : Body} {bound levels : Nat} {s s' : Tape}
      (reads : (Grammar.body (.nested bound levels)).Reads s b s') : Run (.body b) s s'
  | term {b : Body} {bound levels : Nat} {s s' : Tape}
      (reads : (combined bound Rules.intersect? (simpleBody (.nested bound levels))).Reads s b s') :
      Run (.body b) s s'
  | simpleBody {b : Body} {bound levels : Nat} {s s' : Tape}
      (reads : (Grammar.simpleBody (.nested bound levels)).Reads s b s') : Run (.body b) s s'
  | primary {p : Primary} {bound levels m : Nat} {s s' : Tape}
      (reads : (primaryUpTo (.nested bound levels) m).Reads s p s') : Run (.primary p) s s'

/-- The part is read from the tokens `u` and from no other tokens that stand side by side among `ts`,
and every production that yields it where tokens of `ts` are left takes these. -/
structure IsReadFrom (p : Part) (ts u : List Token) : Prop where
  isInfix : u <:+: ts
  reading : p.Reading u
  unique : ∀ v, v <:+: ts → p.Reading v → v = u
  taken : ∀ s s', s.tokens <:+ ts → p.Run s s' → s.Takes u s'

end Part

variable {n m : Nat} {ts u u' v : List Token}

/-! ### Tokens that stand side by side -/

theorem Grammar.Parenthesised.isInfix (h : Parenthesised v u) :
  v <:+: u
  := by
  cases h with
  | @intro opening closing => exact ⟨[opening], [closing], rfl⟩

namespace Token

theorem Sorted.nodup (h : Sorted ts) :
  ts.Nodup
  := by
  apply h.pairwise.imp_of_mem
  rintro t u ht _ hle rfl
  have hlt := h.nonempty t ht
  omega

theorem Sorted.between_self (h : Sorted u) :
  between u (Span.over u).start (Span.over u).stop = u
  := by
  apply List.filter_eq_self.mpr
  intro t ht
  simp only [Bool.and_eq_true, decide_eq_true_eq]
  exact ⟨h.start_over_le ht, h.le_stop_over ht⟩

theorem Sorted.between_front (h : Sorted (v ++ u)) (hne : u ≠ []) (p : Position) :
  between v (Span.over u).start p = []
  := by
  obtain ⟨a, ha, hstart⟩ := Span.exists_start_eq hne
  apply List.filter_eq_nil_iff.mpr
  intro t ht
  have hle := (List.pairwise_append.mp h.pairwise).2.2 t ht a ha
  have hlt := h.nonempty t (List.mem_append_left u ht)
  simp only [hstart, Bool.and_eq_true, decide_eq_true_eq]
  omega

theorem Sorted.between_back (h : Sorted (u ++ v)) (hne : u ≠ []) (p : Position) :
  between v p (Span.over u).stop = []
  := by
  obtain ⟨a, ha, hstop⟩ := Span.exists_stop_eq hne
  apply List.filter_eq_nil_iff.mpr
  intro t ht
  have hle := (List.pairwise_append.mp h.pairwise).2.2 a ha t ht
  have hlt := h.nonempty t (List.mem_append_right u ht)
  simp only [hstop, Bool.and_eq_true, decide_eq_true_eq]
  omega

/-- Tokens that stand side by side are those within their region. -/
theorem Sorted.between_region (h : Sorted ts) (hu : u <:+: ts) (hne : u ≠ []) :
  between ts (Span.over u).start (Span.over u).stop = u
  := by
  obtain ⟨before, after, rfl⟩ := hu
  have hfront : Sorted (before ++ u) := h.sublist (List.sublist_append_left _ after)
  have hback : Sorted (u ++ after) := by
    rw [List.append_assoc] at h
    exact h.sublist (List.sublist_append_right before _)
  have hself : Sorted u := hback.sublist (List.sublist_append_left u after)
  rw [between_append, between_append, hfront.between_front hne, hself.between_self,
    hback.between_back hne, List.nil_append, List.append_nil]

/-- Tokens of a text that stand side by side are told by their region. -/
theorem Sorted.eq_of_over_eq (h : Sorted ts) (hu : u <:+: ts) (hv : v <:+: ts) (hune : u ≠ [])
    (hvne : v ≠ []) (heq : Span.over u = Span.over v) :
  u = v
  := by
  rw [← h.between_region hu hune, heq, h.between_region hv hvne]

/-- Only one pair of parentheses stands directly around some tokens of a text. -/
theorem Sorted.eq_of_parenthesised (h : Sorted ts) (hu : u <:+: ts) (hu' : u' <:+: ts) (hne : v ≠ [])
    (hparens : Parenthesised v u) (hparens' : Parenthesised v u') :
  u = u'
  := by
  obtain ⟨t, v, rfl⟩ := List.exists_cons_of_ne_nil hne
  cases hparens with
  | @intro opening closing =>
      cases hparens' with
      | @intro opening' closing' =>
          obtain ⟨before, after, rfl⟩ := hu
          obtain ⟨before', after', heq⟩ := hu'
          have hsplit : ∀ (before after : List Token) (opening closing : Token),
              before ++ opening :: (t :: v ++ [closing]) ++ after =
                (before ++ [opening]) ++ t :: (v ++ closing :: after) := by simp
          have hnodup := h.nodup
          rw [hsplit] at hnodup heq
          rw [hsplit] at heq
          -- the first of the tokens between the parentheses stands in the text only once
          have ht := List.nodup_cons.mp (List.nodup_middle.mp hnodup)
          obtain ⟨hbefore, -, hafter⟩ := (List.append_cons_inj_of_notMem
            (fun hmem => ht.1 (List.mem_append_left _ hmem))
            fun hmem => ht.1 (List.mem_append_right _ hmem)).mp heq.symm
          obtain ⟨-, ⟨⟩⟩ := List.append_inj' hbefore rfl
          obtain ⟨⟩ := List.append_cancel_left hafter
          rfl

/-- The region of tokens of a text changes if the parentheses around them are left out. -/
theorem Sorted.over_ne_of_parenthesised (h : Sorted u) (hparens : Parenthesised v u)
    (hne : v ≠ []) :
  Span.over v ≠ Span.over u
  := by
  cases hparens with
  | @intro opening closing opens closes =>
      intro heq
      obtain ⟨t, ht, hstart⟩ := Span.exists_start_eq hne
      have hle := List.rel_of_pairwise_cons h.pairwise (List.mem_append_left [closing] ht)
      have hlt := h.nonempty opening List.mem_cons_self
      rw [heq] at hstart
      have hoffset : opening.span.start = t.span.start := hstart
      rw [hoffset] at hlt
      omega

end Token

/-! ### Bodies -/

theorem Grammar.Rules.BodyRule.parenthesised {b : Body} (hb : b.IsNested)
    (h : (within n).BodyRule b u) :
  ∃ v, Parenthesised v u
  := by
  cases h with
  | more => contradiction
  | one term =>
      cases term with
      | more => contradiction
      | one simple =>
          cases simple with
          | nested inside =>
              cases inside with
              | intro opens inside =>
                  cases inside with
                  | intro item closing => exact ⟨_, .intro opens closing⟩
          | _ => contradiction

/-! ### Relations -/

/-- A relation without parentheses has the region of its tokens. -/
theorem Grammar.Rules.PrimaryUpTo.span_eq {p : Primary} (hp : ¬ p.IsNested)
    (h : (within n).PrimaryUpTo m p u) :
  p.span = Span.over u
  := by
  cases m with
  | zero => exact h.elim
  | succ m =>
      cases h with
      | table => rfl
      | subquery => rfl
      | nested => exact (hp trivial).elim

/-- A relation between parentheses has the region of the tokens between these. -/
theorem Grammar.Rules.PrimaryUpTo.parenthesised {p : Primary} (hp : p.IsNested)
    (h : (within n).PrimaryUpTo m p u) :
  ∃ v, v ≠ [] ∧ Parenthesised v u ∧ p.span = Span.over v
  := by
  cases m with
  | zero => exact h.elim
  | succ m =>
      cases h with
      | table => contradiction
      | subquery => contradiction
      | nested opens inside =>
          cases inside with
          | intro isRelation closing =>
              refine ⟨_, isRelation.ne_nil (within_nonempty n), .intro opens closing, ?_⟩
              cases isRelation
              rfl

namespace Part

/-! ### The tokens of bodies and relations -/

variable {p : Part} {s s' : Tape}

/-- What a production takes for a part, the part is read from. -/
theorem Run.reading (h : p.Run s s') :
  ∃ u, s.Takes u s' ∧ p.Reading u
  := by
  cases h with
  | @body _ bound levels _ _ reads =>
      obtain ⟨u, htakes, hrule⟩ :=
        body_obeys (Inner.nested_obeys bound levels) (Rules.within_nonempty levels) reads
      exact ⟨u, htakes, levels, hrule⟩
  | @term _ bound levels _ _ reads =>
      have hsimple := simpleBody_obeys (Inner.nested_obeys bound levels)
        (Rules.within_nonempty levels)
      obtain ⟨u, htakes, hrule⟩ := combined_obeys hsimple rfl bound reads
      exact ⟨u, htakes, levels, .one hrule⟩
  | @simpleBody _ bound levels _ _ reads =>
      obtain ⟨u, htakes, hrule⟩ :=
        simpleBody_obeys (Inner.nested_obeys bound levels) (Rules.within_nonempty levels) reads
      exact ⟨u, htakes, levels, .one (.one hrule)⟩
  | @primary _ bound levels m _ _ reads =>
      obtain ⟨u, htakes, hrule⟩ :=
        primaryUpTo_obeys (Inner.nested_obeys bound levels) (Rules.within_nonempty levels) m reads
      exact ⟨u, htakes, levels, m, hrule⟩

/-- Where there is only one choice of tokens to read a part from, productions make it. -/
theorem Reading.isReadFrom (h : p.Reading u) (hu : u <:+: ts)
    (hunique : ∀ v, v <:+: ts → p.Reading v → v = u) :
  p.IsReadFrom ts u
  := by
  refine ⟨hu, h, hunique, ?taken⟩
  case taken =>
      intro s s' hs hrun
      obtain ⟨w, htakes, hreading⟩ := hrun.reading
      have hw : w <:+: ts := by
        rw [htakes.tokens_eq] at hs
        exact (List.prefix_append w s'.tokens).isInfix.trans hs.isInfix
      rw [← hunique w hw hreading]
      exact htakes

section

variable (hts : Token.Sorted ts) (hu : u <:+: ts)

include hts hu

/-- The region of a body is that of the tokens that it is read from. -/
theorem Reading.body_isReadFrom {b : Body} (h : (body b).Reading u) :
  (body b).IsReadFrom ts u ∧ b.span = Span.over u ∧ (b.IsNested → ∃ v, Parenthesised v u)
  := by
  have hreading := h
  obtain ⟨n, hrule⟩ := h
  refine ⟨hreading.isReadFrom hu ?unique, hrule.span_eq, fun hb => hrule.parenthesised hb⟩
  case unique =>
      rintro v hv ⟨n', hrule'⟩
      apply hts.eq_of_over_eq hv hu hrule'.ne_nil hrule.ne_nil
      rw [← hrule'.span_eq, ← hrule.span_eq]

/-- The region of a table or a query among relations is that of the tokens that it is read from. -/
theorem Reading.bare_isReadFrom {p : Primary} (hp : ¬ p.IsNested) (h : (primary p).Reading u) :
  (primary p).IsReadFrom ts u ∧ p.span = Span.over u
  := by
  have hreading := h
  obtain ⟨n, m, hrule⟩ := h
  refine ⟨hreading.isReadFrom hu ?unique, hrule.span_eq hp⟩
  case unique =>
      rintro v hv ⟨n', m', hrule'⟩
      apply hts.eq_of_over_eq hv hu hrule'.ne_nil hrule.ne_nil
      rw [← hrule'.span_eq hp, ← hrule.span_eq hp]

/-- The region of a relation between parentheses leaves these out. -/
theorem Reading.nested_isReadFrom {p : Primary} (hp : p.IsNested) (h : (primary p).Reading u) :
  (primary p).IsReadFrom ts u ∧ p.span ≠ Span.over u ∧
    ∃ v, Parenthesised v u ∧ p.span = Span.over v
  := by
  have hreading := h
  obtain ⟨n, m, hrule⟩ := h
  obtain ⟨v, hne, hparens, hspan⟩ := hrule.parenthesised hp
  refine ⟨hreading.isReadFrom hu ?unique, ?shorter, v, hparens, hspan⟩
  case unique =>
      rintro w hw ⟨n', m', hrule'⟩
      obtain ⟨v', hne', hparens', hspan'⟩ := hrule'.parenthesised hp
      obtain rfl : v' = v := by
        apply hts.eq_of_over_eq (hparens'.isInfix.trans hw) (hparens.isInfix.trans hu) hne' hne
        rw [← hspan', ← hspan]
      apply hts.eq_of_parenthesised hw hu hne hparens' hparens
  case shorter =>
      rw [hspan]
      apply (hts.sublist hu.sublist).over_ne_of_parenthesised hparens hne

end

/-- A relation that the body of a query selects from is within the query. -/
theorem primary_within_query {q : Query} {r : Relation} (hr : r ∈ q.body.relations) :
  (Part.primary r.first).Within (.query q)
  := by
  have hrelation : (Part.primary r.first).Within (.relation r) := .child (.refl _) List.mem_cons_self
  have hbody : (Part.primary r.first).Within (.body q.body) := by
    cases hselect : q.body with
    | select s =>
        rw [hselect] at hr
        have hchild : Part.relation r ∈ (Part.select s).children := by
          simp only [Body.relations] at hr
          simp [children, hr]
        exact .child (.child hrelation hchild) List.mem_cons_self
    | _ => simp [hselect, Body.relations] at hr
  exact .child hbody (by simp [children])

end Part

/-! ### Texts -/

/-- **Regions and parentheses.**  The region of every body within a tree that a text is read as begins
with the first and ends with the last of the visible tokens that the body is read from; if the body
is a query between parentheses, these are the parentheses.  The region of a relation does so exactly
if the relation is a table or a query, and that of a relation between parentheses begins and ends
with the tokens between these. -/
theorem Yields.regions_whole {text : String} {node : Node} (h : Yields text node) :
  ∃ ts, Token.list text = .ok ts ∧
    (∀ b, (Part.body b).Within node.part →
      ∃ u, (Part.body b).IsReadFrom (ts.filter (·.isVisible)) u ∧
        b.span = Span.over u ∧ (b.IsNested → ∃ v, Parenthesised v u)) ∧
    ∀ p, (Part.primary p).Within node.part →
      ∃ u, (Part.primary p).IsReadFrom (ts.filter (·.isVisible)) u ∧
        (p.span = Span.over u ↔ ¬ p.IsNested) ∧
        (p.IsNested → ∃ v, Parenthesised v u ∧ p.span = Span.over v)
  := by
  obtain ⟨ts, hts, hparts⟩ := h.reading_of_within
  have hsorted := Token.sorted_visible hts
  refine ⟨ts, hts, ?bodies, ?relations⟩
  case bodies =>
      intro b hb
      obtain ⟨u, hu, hreading⟩ := hparts _ hb
      exact ⟨u, hreading.body_isReadFrom hsorted hu⟩
  case relations =>
      intro p hp
      obtain ⟨u, hu, hreading⟩ := hparts _ hp
      use u
      by_cases hnested : p.IsNested
      · obtain ⟨hfrom, hne, hinside⟩ := hreading.nested_isReadFrom hsorted hu hnested
        exact ⟨hfrom, iff_of_false hne (not_not_intro hnested), fun _ => hinside⟩
      · obtain ⟨hfrom, hspan⟩ := hreading.bare_isReadFrom hsorted hu hnested
        exact ⟨hfrom, iff_of_true hspan hnested, fun hp => (hnested hp).elim⟩

/-- A union of a query between parentheses, which selects from relations between parentheses at the
right of a join, and another query. -/
theorem Yields.regions_whole_union :
  ∃ node, Yields "(SELECT a FROM b JOIN (c JOIN (TABLE d) e)) UNION TABLE f" node ∧
    ∃ ts, Token.list "(SELECT a FROM b JOIN (c JOIN (TABLE d) e)) UNION TABLE f" = .ok ts ∧
    (∀ b, (Part.body b).Within node.part →
      ∃ u, (Part.body b).IsReadFrom (ts.filter (·.isVisible)) u ∧
        b.span = Span.over u ∧ (b.IsNested → ∃ v, Parenthesised v u)) ∧
    ∀ p, (Part.primary p).Within node.part →
      ∃ u, (Part.primary p).IsReadFrom (ts.filter (·.isVisible)) u ∧
        (p.span = Span.over u ↔ ¬ p.IsNested) ∧
        (p.IsNested → ∃ v, Parenthesised v u ∧ p.span = Span.over v)
  := by
  have hok : (parseStatement "(SELECT a FROM b JOIN (c JOIN (TABLE d) e)) UNION TABLE f").isOk := by
    decide +kernel
  cases h : parseStatement "(SELECT a FROM b JOIN (c JOIN (TABLE d) e)) UNION TABLE f" with
  | error e =>
      rw [h] at hok
      contradiction
  | ok node => exact ⟨node, .statement h, Yields.regions_whole (.statement h)⟩

/-- A query that selects from a relation between parentheses has one whose region is not that of its
tokens. -/
theorem exists_region_of_selectsNested {text : String} (h : selectsNested text) :
  ∃ node ts p u, Yields text node ∧ Token.list text = .ok ts ∧
    (Part.primary p).Within node.part ∧ (Part.primary p).IsReadFrom (ts.filter (·.isVisible)) u ∧
    p.span ≠ Span.over u
  := by
  unfold selectsNested at h
  split at h
  case h_2 => contradiction
  case h_1 q hq =>
      obtain ⟨r, hr, hnested⟩ := List.any_eq_true.mp h
      have hyields := Yields.statement hq
      have hwithin := Part.primary_within_query hr
      obtain ⟨ts, hts, hparts⟩ := hyields.reading_of_within
      obtain ⟨u, hu, hreading⟩ := hparts _ hwithin
      obtain ⟨hfrom, hne, -⟩ := hreading.nested_isReadFrom (Token.sorted_visible hts) hu
        (of_decide_eq_true hnested)
      exact ⟨_, ts, r.first, u, hyields, hts, hwithin, hfrom, hne⟩

/-- The region of the relation in `SELECT * FROM (a)` is not that of its tokens. -/
theorem region_leaves_out_parentheses :
  ∃ node ts p u, Yields "SELECT * FROM (a)" node ∧ Token.list "SELECT * FROM (a)" = .ok ts ∧
    (Part.primary p).Within node.part ∧ (Part.primary p).IsReadFrom (ts.filter (·.isVisible)) u ∧
    p.span ≠ Span.over u
  := by
  apply exists_region_of_selectsNested
  decide +kernel

end SqlFront
