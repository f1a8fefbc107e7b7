import Mathlib.Data.List.DropRight
import Mathlib.Data.List.Forall2
import SqlFront.Proofs.Tokens.Place
import SqlFront.Report

/-!
# Lines of a text

The lines of a text are the pieces without line feeds that line feeds join to the text (`IsLines`).
Every place in a text is on one of its lines: the number of the line counts the lines above it, the
column the characters of the line before the place, and the offset the bytes of both
(`IsLines.exists_around`).  A report shows the lines above the place and the line itself, then
the pointer to the column, and then the lines below, all of them without the carriage returns at
their ends (`Diagnostic.annotated_eq`).
-/

namespace SqlFront

/-! ### Splitting -/

theorem Text.split_eq_splitOn (c : Char) (cs : List Char) :
  Text.split c cs = cs.splitOn c
  := by
  induction cs with
  | nil => rfl
  | cons d cs ih =>
      rw [split, List.splitOn_cons_eq_if_modifyHead, ih]
      by_cases h : d = c
      · rw [if_pos h, if_pos (beq_iff_eq.mpr h)]
      · rw [if_neg h, if_neg (by simpa using h)]
        obtain ⟨piece, others, hpieces⟩ := List.exists_cons_of_ne_nil (List.splitOn_ne_nil c cs)
        rw [hpieces]
        rfl

/-- No piece holds the separator. -/
theorem Text.not_mem_split {c : Char} {cs piece : List Char} (h : piece ∈ Text.split c cs) :
  c ∉ piece
  := by
  induction cs generalizing piece with
  | nil =>
      obtain rfl := List.mem_singleton.mp h
      apply List.not_mem_nil
  | cons d cs ih =>
      rw [split_eq_splitOn, List.splitOn_cons_eq_if_modifyHead, ← split_eq_splitOn] at h
      obtain ⟨first, others, hpieces⟩ :=
        List.exists_cons_of_ne_nil (split_eq_splitOn c cs ▸ List.splitOn_ne_nil c cs)
      rw [hpieces] at h ih
      by_cases hd : d = c
      · rw [if_pos (beq_iff_eq.mpr hd)] at h
        rcases List.mem_cons.mp h with rfl | h
        · apply List.not_mem_nil
        · apply ih h
      · rw [if_neg (by simpa using hd)] at h
        rcases List.mem_cons.mp h with rfl | h
        · have hfirst := ih List.mem_cons_self
          simp [Ne.symm hd, hfirst]
        · apply ih (List.mem_cons_of_mem _ h)

/-! ### Lines -/

/-- Lines that end with line feeds. -/
def ended (ls : List (List Char)) : List Char := ls.flatMap (· ++ ['\n'])

/-- The pieces without line feeds that line feeds join to a text. -/
structure IsLines (text : List Char) (ls : List (List Char)) : Prop where
  ne_nil : ls ≠ []
  unbroken : ∀ l ∈ ls, '\n' ∉ l
  joined : ['\n'].intercalate ls = text

variable {text head tail line : List Char} {ls above below : List (List Char)}

theorem isLines_lines (text : List Char) :
  IsLines text (lines text)
  := by
  refine ⟨?_, fun l hl => Text.not_mem_split hl, ?_⟩
  · rw [lines, Text.split_eq_splitOn]
    apply List.splitOn_ne_nil
  · rw [lines, Text.split_eq_splitOn]
    apply List.intercalate_splitOn

/-- A text has no other lines. -/
theorem IsLines.lines_eq (h : IsLines text ls) :
  lines text = ls
  := by
  rw [← h.joined, lines, Text.split_eq_splitOn]
  exact List.splitOn_intercalate '\n' h.unbroken h.ne_nil

theorem intercalate_append (above : List (List Char)) (hls : ls ≠ []) :
  ['\n'].intercalate (above ++ ls) = ended above ++ ['\n'].intercalate ls
  := by
  induction above with
  | nil => rfl
  | cons l above ih =>
      have hne : above ++ ls ≠ [] := by simp [hls]
      rw [List.cons_append, List.intercalate_cons_of_ne_nil hne, ih]
      simp [ended]

theorem intercalate_cons_append (head tail : List Char) (below : List (List Char)) :
  ['\n'].intercalate ((head ++ tail) :: below) = head ++ ['\n'].intercalate (tail :: below)
  := by
  cases below with
  | nil => simp
  | cons l below => simp [List.intercalate_cons_cons]

/-! ### Places -/

theorem count_ended (h : ∀ l ∈ ls, '\n' ∉ l) :
  (ended ls).count '\n' = ls.length
  := by
  induction ls with
  | nil => rfl
  | cons l ls ih =>
      obtain ⟨hl, hls⟩ := List.forall_mem_cons.mp h
      have hcons : ended (l :: ls) = l ++ '\n' :: ended ls := by simp [ended]
      rw [hcons, List.count_append, List.count_cons_self, ih hls, List.count_eq_zero.mpr hl]
      simp

/-- Before the last line there is nothing, or a line feed. -/
theorem takeWhile_reverse_ended (ls : List (List Char)) :
  (ended ls).reverse.takeWhile (· ≠ '\n') = []
  := by
  rcases List.eq_nil_or_concat' ls with rfl | ⟨ls, l, rfl⟩
  · rfl
  · simp [ended]

/-- The place behind `head`, which stands below the lines `above`. -/
theorem Position.following_ended (habove : ∀ l ∈ above, '\n' ∉ l) (hhead : '\n' ∉ head) :
  following (ended above ++ head) =
    ⟨above.length + 1, head.length, byteLength (ended above ++ head)⟩
  := by
  have hreverse : ∀ c ∈ head.reverse, decide (c ≠ '\n') = true := by
    intro c hc
    rw [decide_eq_true_eq]
    rintro rfl
    exact hhead (List.mem_reverse.mp hc)
  have hcolumn : ((ended above ++ head).reverse.takeWhile (· ≠ '\n')).length = head.length := by
    rw [List.reverse_append, List.takeWhile_append_of_pos hreverse, takeWhile_reverse_ended,
      List.append_nil, List.length_reverse]
  have hline : (ended above ++ head).count '\n' = above.length := by
    rw [List.count_append, count_ended habove, List.count_eq_zero.mpr hhead, Nat.add_zero]
  rw [following, hcolumn, hline, ← byteLength_eq_utf8ByteSize, Nat.add_comm]

/-- A place in a text is on one of its lines. -/
theorem IsLines.exists_around (before after : List Char) :
  ∃ above head tail below, IsLines (before ++ after) (above ++ (head ++ tail) :: below) ∧
    before = ended above ++ head
  := by
  obtain ⟨hne, hunbroken, hjoined⟩ := isLines_lines before
  obtain ⟨hne', hunbroken', hjoined'⟩ := isLines_lines after
  obtain ⟨above, head, hlines⟩ := (List.eq_nil_or_concat' (lines before)).resolve_left hne
  obtain ⟨tail, below, hlines'⟩ := List.exists_cons_of_ne_nil hne'
  rw [hlines] at hunbroken hjoined
  rw [hlines'] at hunbroken' hjoined'
  have hbefore : before = ended above ++ head := by
    rw [← hjoined, intercalate_append above (List.cons_ne_nil head []), List.intercalate_singleton]
  use above, head, tail, below
  refine ⟨⟨by simp, ?_, ?_⟩, hbefore⟩
  · intro l hl
    rcases List.mem_append.mp hl with hl | hl
    · exact hunbroken l (List.mem_append_left _ hl)
    · rcases List.mem_cons.mp hl with rfl | hl
      · have hhead : '\n' ∉ head := hunbroken head (by simp)
        have htail : '\n' ∉ tail := hunbroken' tail (by simp)
        simp [hhead, htail]
      · exact hunbroken' l (List.mem_cons_of_mem _ hl)
  · rw [intercalate_append _ (List.cons_ne_nil _ _), intercalate_cons_append, hjoined',
      ← List.append_assoc, ← hbefore]

/-! ### Carriage returns -/

/-- `kept` is the line without the carriage returns at its end. -/
structure WithoutReturns (line kept : List Char) : Prop where
  returns : ∃ n, line = kept ++ List.replicate n '\r'
  ends : kept.getLast? ≠ some '\r'

theorem withoutReturns_trimReturns (line : List Char) :
  WithoutReturns line (trimReturns line)
  := by
  constructor
  · use (line.rtakeWhile (· = '\r')).length
    have hreturns : line.rtakeWhile (· = '\r') =
        List.replicate (line.rtakeWhile (· = '\r')).length '\r' := by
      apply List.eq_replicate_iff.mpr
      use rfl
      intro c hc
      simpa using List.mem_rtakeWhile_imp hc
    rw [← hreturns]
    exact List.rdropWhile_append_rtakeWhile.symm
  · intro hlast
    obtain ⟨hne, hc⟩ := List.mem_getLast?_eq_getLast hlast
    have hkept := List.rdropWhile_last_not (fun c => decide (c = '\r')) line hne
    apply hkept
    rw [decide_eq_true_eq]
    exact hc.symm

/-! ### Reports -/

/-- A report shows the pointer directly below the line that it points to. -/
theorem Diagnostic.annotated_eq {d : Diagnostic} (h : IsLines text (above ++ line :: below))
    (hline : d.line = above.length + 1) :
  d.annotated text =
    (above ++ [line]).map trimReturns ++ pointer d.column :: below.map trimReturns
  := by
  have hsplit : above ++ line :: below = (above ++ [line]) ++ below := by simp
  have hlength : d.line = ((above ++ [line]).map trimReturns).length := by simp [hline]
  rw [annotated, h.lines_eq, hsplit, List.map_append, hlength, List.take_left, List.drop_left]

end SqlFront
