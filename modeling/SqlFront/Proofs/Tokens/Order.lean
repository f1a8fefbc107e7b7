import SqlFront.Proofs.Reading.Reads
import SqlFront.Proofs.Tokens.Tiling

/-!
# The order of tokens

The tokens of a text stand one behind the other, and so do the visible ones among them.  What lies
between two groups of them can be told from their regions alone (`Token.between_over`).
-/

namespace SqlFront

namespace Token

/-- The tokens that begin at `a` or later and end at `b` or before. -/
def between (ts : List Token) (a b : Position) : List Token :=
  ts.filter fun t => a.offset ≤ t.span.start.offset && t.span.stop.offset ≤ b.offset

/-- Tokens stand one behind the other, and none is empty. -/
structure Sorted (ts : List Token) : Prop where
  pairwise : ts.Pairwise (fun t u => t.span.stop.offset ≤ u.span.start.offset)
  nonempty : ∀ t ∈ ts, t.span.start.offset < t.span.stop.offset

variable {text : String} {before : List Char} {ts : List Token}

theorem Tiles.le_start (h : Tiles text before ts) :
  ∀ t ∈ ts, (Position.following before).offset ≤ t.span.start.offset
  := by
  induction h with
  | done => simp [Token.eof, Span.point]
  | @more before piece t ts isCut nonempty rest ih =>
      have hlt := Position.offset_following_lt before nonempty
      intro u hu
      rcases List.mem_cons.mp hu with rfl | hu
      · apply Nat.le_of_eq
        rw [isCut.start_eq]
      · have hle := ih u hu
        omega

theorem Tiles.pairwise (h : Tiles text before ts) :
  ts.Pairwise (fun t u => t.span.stop.offset ≤ u.span.start.offset)
  := by
  induction h with
  | done => simp
  | more isCut nonempty rest ih =>
      apply List.Pairwise.cons _ ih
      rw [isCut.stop_eq]
      apply rest.le_start

theorem Tiles.start_lt_stop (h : Tiles text before ts) :
  ∀ t ∈ ts, t.kind ≠ .eof → t.span.start.offset < t.span.stop.offset
  := by
  induction h with
  | done => simp [Token.eof]
  | @more before piece t ts isCut nonempty rest ih =>
      intro u hu hkind
      rcases List.mem_cons.mp hu with rfl | hu
      · rw [isCut.start_eq, isCut.stop_eq]
        apply Position.offset_following_lt before nonempty
      · apply ih u hu hkind

/-- The visible tokens of a text stand one behind the other. -/
theorem sorted_visible (h : Token.list text = .ok ts) :
  Sorted (ts.filter (·.isVisible))
  := by
  have htiles : Tiles text [] ts := Cursor.tiles_of_tokens rfl rfl h
  constructor
  · apply htiles.pairwise.filter
  · intro t ht
    obtain ⟨ht, hvisible⟩ := List.mem_filter.mp ht
    apply htiles.start_lt_stop t ht
    intro heof
    simp [Token.isVisible, heof] at hvisible

theorem Sorted.sublist {us : List Token} (h : Sorted ts) (hus : us.Sublist ts) :
  Sorted us
  := ⟨h.pairwise.sublist hus, fun t ht => h.nonempty t (hus.subset ht)⟩

end Token

/-! ### Regions of tokens -/

theorem Span.exists_start_eq {ts : List Token} (h : ts ≠ []) :
  ∃ t ∈ ts, (Span.over ts).start = t.span.start
  := by
  obtain ⟨t, ts, rfl⟩ := List.exists_cons_of_ne_nil h
  exact ⟨t, List.mem_cons_self, rfl⟩

theorem Span.stop_over_concat (ts : List Token) (t : Token) :
  (Span.over (ts ++ [t])).stop = t.span.stop
  := by
  cases ts with
  | nil => rfl
  | cons => simp [Span.over]

theorem Span.exists_stop_eq {ts : List Token} (h : ts ≠ []) :
  ∃ t ∈ ts, (Span.over ts).stop = t.span.stop
  := by
  obtain ⟨ts, t, rfl⟩ := (List.eq_nil_or_concat' ts).resolve_left h
  exact ⟨t, by simp, stop_over_concat ts t⟩

namespace Token

variable {ts : List Token} {t : Token}

/-- No token begins before the region of all. -/
theorem Sorted.start_over_le (h : Sorted ts) (ht : t ∈ ts) :
  (Span.over ts).start.offset ≤ t.span.start.offset
  := by
  obtain ⟨a, ts, rfl⟩ := List.exists_cons_of_ne_nil (List.ne_nil_of_mem ht)
  rcases List.mem_cons.mp ht with rfl | ht
  · apply Nat.le_refl
  · have hle := List.rel_of_pairwise_cons h.pairwise ht
    have hlt := h.nonempty a List.mem_cons_self
    apply Nat.le_of_lt (Nat.lt_of_lt_of_le hlt hle)

/-- No token ends behind the region of all. -/
theorem Sorted.le_stop_over (h : Sorted ts) (ht : t ∈ ts) :
  t.span.stop.offset ≤ (Span.over ts).stop.offset
  := by
  obtain ⟨ts, b, rfl⟩ := (List.eq_nil_or_concat' ts).resolve_left (List.ne_nil_of_mem ht)
  rw [Span.stop_over_concat]
  rcases List.mem_append.mp ht with ht | ht
  · have hle := (List.pairwise_append.mp h.pairwise).2.2 t ht b List.mem_cons_self
    have hlt := h.nonempty b (by simp)
    omega
  · obtain rfl := List.mem_singleton.mp ht
    apply Nat.le_refl

/-! ### Between tokens -/

theorem between_append (ts us : List Token) (a b : Position) :
  between (ts ++ us) a b = between ts a b ++ between us a b
  := List.filter_append ..

/-- Between two tokens of a list lie the tokens that stand between them there. -/
theorem Sorted.between_eq {a b : Token} {before middle after : List Token}
    (h : Sorted (before ++ a :: (middle ++ b :: after))) :
  between (before ++ a :: (middle ++ b :: after)) a.span.stop b.span.start = middle
  := by
  have hpairwise := h.pairwise
  simp only [List.pairwise_append, List.pairwise_cons, List.mem_append, List.mem_cons] at hpairwise
  obtain ⟨-, ⟨ha, -, ⟨hb, -⟩, hmiddle⟩, hbefore⟩ := hpairwise
  have hnonempty := h.nonempty
  simp only [List.mem_append, List.mem_cons] at hnonempty
  have hleft : between (before ++ [a]) a.span.stop b.span.start = [] := by
    apply List.filter_eq_nil_iff.mpr
    intro t ht
    have hlt := hnonempty t (by grind)
    rcases List.mem_append.mp ht with ht | ht
    · have hle := hbefore t ht a (.inl rfl)
      have hlt' := hnonempty a (by simp)
      simp only [Bool.and_eq_true, decide_eq_true_eq]
      omega
    · obtain rfl := List.mem_singleton.mp ht
      simp only [Bool.and_eq_true, decide_eq_true_eq]
      omega
  have hmiddle : between middle a.span.stop b.span.start = middle := by
    apply List.filter_eq_self.mpr
    intro t ht
    simp only [Bool.and_eq_true, decide_eq_true_eq]
    exact ⟨ha t (.inl ht), hmiddle t ht b (.inl rfl)⟩
  have hright : between (b :: after) a.span.stop b.span.start = [] := by
    apply List.filter_eq_nil_iff.mpr
    intro t ht
    have hlt := hnonempty t (by grind)
    rcases List.mem_cons.mp ht with rfl | ht
    · simp only [Bool.and_eq_true, decide_eq_true_eq]
      omega
    · have hle := hb t ht
      have hlt' := hnonempty b (by simp)
      simp only [Bool.and_eq_true, decide_eq_true_eq]
      omega
  rw [List.append_cons, between_append (before ++ [a]), between_append middle, hleft, hmiddle,
    hright, List.nil_append, List.append_nil]

/-- Between two groups of tokens lie the tokens that stand between them. -/
theorem Sorted.between_over {ts before left middle right after : List Token} (h : Sorted ts)
    (hts : ts = before ++ (left ++ middle ++ right) ++ after) (hleft : left ≠ [])
    (hright : right ≠ []) :
  between ts (Span.over left).stop (Span.over right).start = middle
  := by
  subst hts
  obtain ⟨b, right, rfl⟩ := List.exists_cons_of_ne_nil hright
  obtain ⟨left, a, rfl⟩ := (List.eq_nil_or_concat' left).resolve_left hleft
  have heq : before ++ (left ++ [a] ++ middle ++ b :: right) ++ after =
      (before ++ left) ++ a :: (middle ++ b :: (right ++ after)) := by simp
  rw [heq] at h ⊢
  rw [Span.stop_over_concat]
  apply h.between_eq

end Token

/-! ### Where visible tokens begin -/

namespace Cursor

variable {c d : Cursor} {t : Token}

/-- The next token covers the piece of the text that is taken with it. -/
theorem exists_piece_of_next (hc : c.rest ≠ []) (h : c.next = .ok (t, d)) :
  ∃ piece, piece ≠ [] ∧ c.rest = piece ++ d.rest ∧ d.position = c.position.afterAll piece ∧
    t.span = ⟨c.position, d.position⟩
  := by
  obtain ⟨_ | ⟨x, cs⟩, p⟩ := c
  · contradiction
  · obtain ⟨kind, n, -, rfl, rfl⟩ := next_cons_eq_ok_iff.mp h
    exact ⟨(x :: cs).take (n + 1), by simp, (List.take_append_drop _ _).symm, rfl, rfl⟩

theorem offset_lt_of_next (hc : c.rest ≠ []) (h : c.next = .ok (t, d)) :
  t.span.start = c.position ∧ c.position.offset < d.position.offset
  := by
  obtain ⟨piece, hne, -, hposition, hspan⟩ := exists_piece_of_next hc h
  have hpos := byteLength_pos hne
  rw [hposition, Position.offset_afterAll, hspan]
  exact ⟨rfl, by omega⟩

/-- The visible tokens from a cursor on begin one behind the other, and before the end of the text. -/
theorem visible_ordered (c : Cursor) :
  c.visible.1.Pairwise (fun t u => t.span.start.offset < u.span.start.offset) ∧
    (∀ t ∈ c.visible.1, c.position.offset ≤ t.span.start.offset) ∧
    ∀ p, c.visible.2 = .ok p →
      c.position.offset ≤ p.offset ∧ ∀ t ∈ c.visible.1, t.span.start.offset < p.offset
  := by
  fun_induction visible c with
  | case1 c hc => simp
  | case2 c hc e he => simp
  | case3 c hc t d hnext ts stop hvisible hhidden ih =>
      have hle := Nat.le_of_lt (offset_lt_of_next hc hnext).2
      rw [hvisible] at ih
      obtain ⟨hpairwise, hstart, hstop⟩ := ih
      refine ⟨hpairwise, fun u hu => Nat.le_trans hle (hstart u hu), fun p hp => ?_⟩
      exact ⟨Nat.le_trans hle (hstop p hp).1, (hstop p hp).2⟩
  | case4 c hc t d hnext ts stop hvisible hhidden ih =>
      obtain ⟨ht, hlt⟩ := offset_lt_of_next hc hnext
      have hle := Nat.le_of_lt hlt
      rw [hvisible] at ih
      obtain ⟨hpairwise, hstart, hstop⟩ := ih
      simp only at hpairwise hstart hstop ⊢
      refine ⟨List.pairwise_cons.mpr ⟨fun u hu => ?_, hpairwise⟩, ?_, fun p hp => ⟨?_, ?_⟩⟩
      · rw [ht]
        exact Nat.lt_of_lt_of_le hlt (hstart u hu)
      · intro u hu
        rcases List.mem_cons.mp hu with rfl | hu
        · exact Nat.le_of_eq (congrArg Position.offset ht.symm)
        · exact Nat.le_trans hle (hstart u hu)
      · exact Nat.le_trans hle (hstop p hp).1
      · intro u hu
        rcases List.mem_cons.mp hu with rfl | hu
        · rw [ht]
          exact Nat.lt_of_lt_of_le hlt (hstop p hp).1
        · exact (hstop p hp).2 u hu

end Cursor

end SqlFront
