import Mathlib.Data.List.DropRight
import SqlFront.Proofs.Tokens.Place
import SqlFront.Shell.Completion

/-!
# The word under the cursor

The word before the cursor stands behind the last separator before the cursor (`Shell.LastWord`).  It
is completed exactly if that separator takes a single byte (`Shell.complete?_eq_some_iff`).  White
space of several bytes is cut behind its first byte, and then there is no completion.
-/

namespace SqlFront

/-! ### Bytes -/

theorem byteLength_append (cs ds : List Char) :
  byteLength (cs ++ ds) = byteLength cs + byteLength ds
  := by
  simp [byteLength_eq_utf8ByteSize, String.ofList_append]

theorem byteLength_reverse (cs : List Char) :
  byteLength cs.reverse = byteLength cs
  := by
  induction cs with
  | nil => rfl
  | cons c cs ih => simp [byteLength_append, byteLength, ih, Nat.add_comm]

/-- A text is not cut between the first and the last byte of a character. -/
theorem splitBytes_within {c : Char} {n : Nat} (hpos : 0 < n) (hlt : n < c.utf8Size)
    (front rest : List Char) :
  splitBytes (byteLength front + n) (front ++ c :: rest) = none
  := by
  induction front with
  | nil =>
      obtain ⟨m, rfl⟩ := Nat.exists_eq_add_of_lt hpos
      rw [byteLength, List.nil_append, Nat.zero_add, splitBytes, if_neg (by omega)]
  | cons d front ih =>
      obtain ⟨m, hm⟩ := Nat.exists_eq_add_of_lt d.utf8Size_pos
      have hbytes : byteLength (d :: front) + n = m + byteLength front + n + 1 := by
        rw [byteLength]
        omega
      have hrest : m + byteLength front + n + 1 - d.utf8Size = byteLength front + n := by
        omega
      rw [hbytes, List.cons_append, splitBytes, hrest, if_pos (by omega), ih]
      rfl

namespace Shell

/-! ### Last words -/

/-- The characters `front` end with `word`, which holds no separator and stands at the beginning or
right behind a separator. -/
structure LastWord (front before word : List Char) : Prop where
  whole : front = before ++ word
  unbroken : ∀ c ∈ word, isSeparator c = false
  behind : ∀ c ∈ before.getLast?, isSeparator c

/-- The keywords that begin with a word in any case; the empty word is not completed. -/
def offered (word : List Char) : List String :=
  (Keyword.all.map (·.spelling)).filter fun w => word ≠ [] ∧ word.map Char.toUpper <+: w.toList

variable {front before word : List Char}

theorem exists_lastWord (front : List Char) :
  ∃ before word, LastWord front before word
  := by
  use front.rdropWhile (!isSeparator ·), front.rtakeWhile (!isSeparator ·)
  constructor
  · exact List.rdropWhile_append_rtakeWhile.symm
  · intro c hc
    simpa using List.mem_rtakeWhile_imp hc
  · intro c hc
    obtain ⟨hne, rfl⟩ := List.mem_getLast?_eq_getLast hc
    simpa using List.rdropWhile_last_not _ _ hne

namespace LastWord

/-- Before the word the separators end. -/
theorem dropWhile_eq (h : LastWord front before word) :
  front.reverse.dropWhile (!isSeparator ·) = before.reverse
  := by
  have hword : ∀ c ∈ word.reverse, (!isSeparator c) = true := by
    intro c hc
    simpa using h.unbroken c (List.mem_reverse.mp hc)
  rw [h.whole, List.reverse_append, List.dropWhile_append_of_pos hword]
  rcases List.eq_nil_or_concat' before with rfl | ⟨earlier, c, rfl⟩
  · rfl
  · have hseparator : isSeparator c := h.behind c (by simp)
    rw [List.reverse_append, List.reverse_singleton, List.singleton_append,
      List.dropWhile_cons_of_neg (by simpa using hseparator)]

theorem wordStart_nil (h : LastWord front [] word) :
  wordStart front = 0
  := by
  rw [wordStart, h.dropWhile_eq]
  rfl

/-- The start of the word is taken to be one byte behind the start of the separator. -/
theorem wordStart_concat {earlier : List Char} {c : Char}
    (h : LastWord front (earlier ++ [c]) word) :
  wordStart front = byteLength earlier + 1
  := by
  rw [wordStart, h.dropWhile_eq, List.reverse_append, List.reverse_singleton,
    List.singleton_append]
  simp [byteLength_reverse]

/-- Behind a separator of one byte, or at the beginning, the word is found. -/
theorem lastWord?_eq_some (h : LastWord front before word)
    (hbytes : ∀ c ∈ before.getLast?, c.utf8Size = 1) :
  lastWord? front = some (byteLength before, word.map Char.toUpper)
  := by
  have hstart : wordStart front = byteLength before := by
    rcases List.eq_nil_or_concat' before with rfl | ⟨earlier, c, rfl⟩
    · rw [h.wordStart_nil]
      rfl
    · have hc : c.utf8Size = 1 := hbytes c (by simp)
      rw [h.wordStart_concat, byteLength_append, byteLength, hc]
      rfl
  rw [lastWord?, hstart, h.whole, splitBytes_append]
  rfl

/-- Behind a separator of several bytes it is not. -/
theorem lastWord?_eq_none {c : Char} (h : LastWord front before word) (hc : c ∈ before.getLast?)
    (hbytes : 1 < c.utf8Size) :
  lastWord? front = none
  := by
  obtain ⟨earlier, rfl⟩ := List.getLast?_eq_some_iff.mp hc
  have hcut := splitBytes_within Nat.one_pos hbytes earlier word
  rw [lastWord?, h.wordStart_concat, h.whole, List.append_assoc, List.singleton_append, hcut]
  rfl

end LastWord

/-! ### Completion -/

/-- What is completed depends on the characters before the cursor alone. -/
theorem complete?_eq (front back : List Char) :
  complete? (String.ofList (front ++ back)) (byteLength front) =
    (lastWord? front).map fun (start, word) =>
      ⟨start, (Keyword.all.map (·.spelling)).filter fun w => word ≠ [] ∧ word.isPrefixOf w.toList⟩
  := by
  rw [complete?, String.toList_ofList, splitBytes_append, Option.bind_eq_bind, Option.bind_some]
  dsimp only
  cases lastWord? front <;> rfl

theorem complete?_eq_some (h : LastWord front before word)
    (hbytes : ∀ c ∈ before.getLast?, c.utf8Size = 1) (back : List Char) :
  complete? (String.ofList (front ++ back)) (byteLength front) =
    some ⟨byteLength before, offered word⟩
  := by
  rw [complete?_eq, h.lastWord?_eq_some hbytes]
  simp [offered, List.isPrefixOf_iff_prefix]

theorem complete?_eq_none {c : Char} (h : LastWord front before word) (hc : c ∈ before.getLast?)
    (hbytes : 1 < c.utf8Size) (back : List Char) :
  complete? (String.ofList (front ++ back)) (byteLength front) = none
  := by
  rw [complete?_eq, h.lastWord?_eq_none hc hbytes]
  rfl

/-- **Completion.**  With the cursor behind the characters `front` of a line, the word behind the last
separator in `front` is offered the keywords that begin with it in any case, exactly if this
separator takes one byte or there is none.  Otherwise there is no completion. -/
theorem complete?_eq_some_iff (front back : List Char) :
  (∀ completion, complete? (String.ofList (front ++ back)) (byteLength front) = some completion ↔
    ∃ before word, LastWord front before word ∧ (∀ c ∈ before.getLast?, c.utf8Size = 1) ∧
      completion = ⟨byteLength before, offered word⟩) ∧
  (complete? (String.ofList (front ++ back)) (byteLength front) = none ↔
    ∃ before word, LastWord front before word ∧ ∃ c ∈ before.getLast?, 1 < c.utf8Size)
  := by
  obtain ⟨before, word, h⟩ := exists_lastWord front
  by_cases hwide : ∃ c ∈ before.getLast?, 1 < c.utf8Size
  · obtain ⟨c, hc, hbytes⟩ := hwide
    have hnone := complete?_eq_none h hc hbytes back
    constructor
    · intro completion
      rw [hnone]
      constructor
      · intro hsome
        contradiction
      · rintro ⟨before', word', h', hone, rfl⟩
        rw [complete?_eq_some h' hone back] at hnone
        contradiction
    · exact ⟨fun _ => ⟨before, word, h, c, hc, hbytes⟩, fun _ => hnone⟩
  · have hone : ∀ c ∈ before.getLast?, c.utf8Size = 1 := by
      intro c hc
      have hpos := c.utf8Size_pos
      have hle : ¬ 1 < c.utf8Size := fun hlt => hwide ⟨c, hc, hlt⟩
      omega
    have hsome := complete?_eq_some h hone back
    constructor
    · intro completion
      constructor
      · intro hcompletion
        rw [hsome, Option.some.injEq] at hcompletion
        exact ⟨before, word, h, hone, hcompletion.symm⟩
      · rintro ⟨before', word', h', hone', rfl⟩
        apply complete?_eq_some h' hone' back
    · constructor
      · intro hnone
        rw [hsome] at hnone
        contradiction
      · rintro ⟨before', word', h', c, hc, hbytes⟩
        apply complete?_eq_none h' hc hbytes back

/-- Behind a space that is not to be broken, a word has no completion, though a keyword begins with
it. -/
theorem complete?_behind_wide_space :
  LastWord "SELECT\u00a0FRO".toList "SELECT\u00a0".toList "FRO".toList ∧
    byteLength "SELECT\u00a0FRO".toList = 11 ∧ byteLength "SELECT\u00a0".toList = 8 ∧
    offered "FRO".toList = ["FROM"] ∧ complete? "SELECT\u00a0FRO a" 11 = none
  := by
  constructor
  · constructor
    · decide +kernel
    · intro c hc
      have hword : "FRO".toList.all (!isSeparator ·) = true := by decide +kernel
      simpa using List.all_eq_true.mp hword c hc
    · intro c hc
      have hlast : "SELECT\u00a0".toList.getLast? = some '\u00a0' := by decide +kernel
      rw [hlast] at hc
      obtain rfl := Option.some.inj hc
      decide +kernel
  · decide +kernel

end Shell

end SqlFront
