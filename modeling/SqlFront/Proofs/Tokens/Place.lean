import Mathlib.Data.List.Basic
import SqlFront.Position

/-!
# Places and slices

`Position.following cs` is the place that follows the characters `cs` of a text, read off them
at once: the line from the line feeds, the column from the characters after the last line feed,
the offset from the bytes.  Moving over the characters one by one leads to the same place
(`Position.afterAll_start`), and the region between the places that follow two prefixes of a
text slices out what stands between them (`Span.slice?_following`).
-/

namespace SqlFront

/-! ### Places -/

/-- The place that follows the characters `cs` of a text. -/
def Position.following (cs : List Char) : Position where
  line := 1 + cs.count '\n'
  column := (cs.reverse.takeWhile (· ≠ '\n')).length
  offset := (String.ofList cs).utf8ByteSize

/-- The place that follows one more character is the place just after it. -/
theorem Position.following_concat (cs : List Char) (c : Char) :
  following (cs ++ [c]) = (following cs).after c
  := by
  have hbytes : (String.ofList (cs ++ [c])).utf8ByteSize
      = (String.ofList cs).utf8ByteSize + c.utf8Size := by
    simp [String.ofList_append]
  by_cases h : c = '\n'
  · subst h
    rw [following, hbytes]
    simp [after, following, Nat.add_assoc]
    decide
  · rw [following, hbytes]
    simp [after, following, h]

theorem Position.afterAll_following (cs ds : List Char) :
  (following cs).afterAll ds = following (cs ++ ds)
  := by
  induction ds generalizing cs with
  | nil => simp
  | cons d ds ih =>
      rw [afterAll_cons, ← following_concat, ih, List.append_assoc]
      rfl

/-- Moving over the characters of a text one by one leads to the place that follows them. -/
theorem Position.afterAll_start (cs : List Char) :
  start.afterAll cs = following cs
  := afterAll_following [] cs

/-- The place that follows a longer prefix has a larger offset. -/
theorem Position.offset_following_lt (cs : List Char) {ds : List Char} (h : ds ≠ []) :
  (following cs).offset < (following (cs ++ ds)).offset
  := by
  obtain ⟨d, ds, rfl⟩ := List.exists_cons_of_ne_nil h
  have := d.utf8Size_pos
  simp only [following, String.ofList_append, String.ofList_cons, String.utf8ByteSize_append,
    String.utf8ByteSize_singleton]
  omega

theorem Position.offset_following_le (cs ds : List Char) :
  (following cs).offset ≤ (following (cs ++ ds)).offset
  := by
  cases ds with
  | nil => exact Nat.le_of_eq (by rw [List.append_nil])
  | cons d ds => exact Nat.le_of_lt (offset_following_lt cs (List.cons_ne_nil d ds))

/-- Moving over characters moves over their bytes. -/
theorem Position.offset_afterAll (p : Position) (cs : List Char) :
  (p.afterAll cs).offset = p.offset + byteLength cs
  := by
  induction cs generalizing p with
  | nil => rfl
  | cons c cs ih =>
      have hone : (p.after c).offset = p.offset + c.utf8Size := by
        by_cases h : c = '\n'
        · subst h
          rfl
        · simp [after, h]
      rw [afterAll_cons, ih, hone, byteLength, Nat.add_assoc]

theorem byteLength_pos {cs : List Char} (h : cs ≠ []) :
  0 < byteLength cs
  := by
  obtain ⟨c, cs, rfl⟩ := List.exists_cons_of_ne_nil h
  exact Nat.lt_of_lt_of_le c.utf8Size_pos (Nat.le_add_right _ _)

/-! ### Slices -/

theorem byteLength_eq_utf8ByteSize (cs : List Char) :
  byteLength cs = (String.ofList cs).utf8ByteSize
  := by
  induction cs with
  | nil => rfl
  | cons c cs ih => simp [byteLength, ih]

/-- A text is cut behind `front` by the number of the bytes of `front`. -/
theorem splitBytes_append (front rest : List Char) :
  splitBytes (byteLength front) (front ++ rest) = some (front, rest)
  := by
  induction front with
  | nil => simp [byteLength, splitBytes]
  | cons c front ih =>
      obtain ⟨n, hn⟩ := Nat.exists_eq_add_of_lt c.utf8Size_pos
      have hlength : byteLength (c :: front) = n + byteLength front + 1 := by
        rw [byteLength]
        omega
      have hrest : n + byteLength front + 1 - c.utf8Size = byteLength front := by
        omega
      rw [hlength, List.cons_append, splitBytes, hrest, if_pos (by omega), ih]
      rfl

/-- The region between the places that follow two prefixes of a text slices out what stands
between them. -/
theorem Span.slice?_following (before piece after : List Char) :
  Span.slice? ⟨.following before, .following (before ++ piece)⟩
      (String.ofList (before ++ piece ++ after))
    = some (String.ofList piece)
  := by
  have hlength : Span.byteLength ⟨.following before, .following (before ++ piece)⟩
      = SqlFront.byteLength piece := by
    simp only [Span.byteLength, Position.following, byteLength_eq_utf8ByteSize,
      String.ofList_append, String.utf8ByteSize_append]
    omega
  have hstart : (Position.following before).offset = SqlFront.byteLength before := by
    simp [Position.following, byteLength_eq_utf8ByteSize]
  have horder : ¬ (Position.following (before ++ piece)).offset
      < (Position.following before).offset := by
    simp only [Position.following, String.ofList_append, String.utf8ByteSize_append]
    omega
  simp only [Span.slice?, hlength, hstart, String.toList_ofList, List.append_assoc,
    splitBytes_append]
  rw [← hstart, if_neg horder]
  simp [splitBytes_append]

end SqlFront
