import SqlFront.Proofs.Printing.Pieces
import SqlFront.Proofs.Tokens.Points

/-!
# Names written without blanks

Names joined by dots with nothing between them are the tokens that they are made of, as long as no
name behind a dot is cut, that is, as no dot makes a number with a name behind it.  Where one does,
the tokens are those of the names before it, and a number follows them.
-/

namespace SqlFront

open Cursor Match Token

/-! ### A name and what follows it -/

/-- Whether a name behind a dot is cut: it is written without back-quotes and begins with the places
of a number. -/
def Ident.IsCut (i : Ident) : Prop := i.quoted = false ∧ Fractional i.value.toList

instance (i : Ident) : Decidable i.IsCut := inferInstanceAs (Decidable (_ ∧ _))

section

variable {i : Ident} {is : List Ident} {more : List Char}

/-- A name is spelled at the end of a text and before a dot. -/
theorem spells_ident (hi : i.isWritable) (hmore : ∀ c ∈ more.head?, c = '.') :
  Spells (i.word.toList ++ more) [i.word] more
  := by
  by_cases hquoted : i.quoted
  · have hword : i.word = Text.backQuote i.value := if_pos hquoted
    have hhead : more.head? ≠ some '\x60' := by
      intro h
      have := hmore _ h
      contradiction
    have hlist : (Text.backQuote i.value).toList =
        '\x60' :: (Text.doubleBackQuotes i.value.toList ++ ['\x60']) := by
      rw [Text.backQuote, String.toList_ofList, List.cons_append]
    rw [hword]
    exact spells_of_measure hlist (Text.kindOf?_backQuote i.value) (Text.measure_backQuote hhead _)
  · have hword : i.word = i.value := if_neg hquoted
    simp only [Ident.isWritable, hquoted, Bool.false_or, Option.any_eq_true, Bool.and_eq_true,
      decide_eq_true_eq] at hi
    obtain ⟨kind, hkind, hname, hne⟩ := hi
    obtain ⟨c, cs, hvalue, hmeasure, -⟩ := kindOf?_eq_some hkind
    rw [hword]
    cases more with
    | nil =>
        rw [List.append_nil]
        exact spells_last hkind
    | cons d more =>
        obtain rfl := hmore d rfl
        exact spells_of_measure hvalue hkind (measure_before_point hmeasure hname hne more)

/-- A dot makes a number with what follows exactly where the name behind it is cut. -/
theorem fractional_word (hmore : ∀ c ∈ more.head?, c = '.') :
  Fractional (i.word.toList ++ more) ↔ i.IsCut
  := by
  rw [fractional_append hmore, Ident.IsCut, Ident.word]
  split
  · next hquoted =>
      simp only [Text.backQuote, String.toList_ofList, List.cons_append, hquoted]
      simp [not_fractional_of_head]
  · next hquoted => simp [hquoted]

theorem spells_dot {cs : List Char} (h : ¬ Fractional cs) :
  Spells ('.' :: cs) ["."] cs
  := by
  have hword : ".".toList = '.' :: [] := rfl
  exact spells_of_measure hword kindOf?_dot (measure_point h)

/-! ### Names behind a name -/

/-- Names with a dot before each, as they are written. -/
def dottedText (is : List Ident) : List Char := is.flatMap fun i => '.' :: i.word.toList

theorem head_dottedText (hmore : ∀ c ∈ more.head?, c = '.') :
  ∀ c ∈ (dottedText is ++ more).head?, c = '.'
  := by
  cases is with
  | nil => exact hmore
  | cons i is =>
      intro c hc
      exact (Option.some.inj hc).symm

/-- Names with a dot before each are spelled, if none is cut. -/
theorem spells_dottedText (his : ∀ i ∈ is, i.isWritable) (hcut : ∀ i ∈ is, ¬ i.IsCut)
    (hmore : ∀ c ∈ more.head?, c = '.') :
  Spells (dottedText is ++ more) (is.flatMap fun i => [".", i.word]) more
  := by
  induction is with
  | nil => apply Spells.refl
  | cons i is ih =>
      rw [List.forall_mem_cons] at his hcut
      have hhead : ∀ c ∈ (dottedText is ++ more).head?, c = '.' := head_dottedText hmore
      have hdot : ¬ Fractional (i.word.toList ++ (dottedText is ++ more)) := by
        rw [fractional_word hhead]
        exact hcut.1
      have htext : dottedText (i :: is) ++ more =
          '.' :: (i.word.toList ++ (dottedText is ++ more)) := by
        simp [dottedText]
      rw [htext, List.flatMap_cons]
      exact (spells_dot hdot).cons ((spells_ident his.1 hhead).cons (ih his.2 hcut.2))

end

/-! ### Joined names -/

/-- The names joined by dots, as they are written. -/
def QualifiedName.written (name : QualifiedName) : String :=
  ".".intercalate (name.parts.map Ident.word)

theorem QualifiedName.toList_written {i : Ident} {is : List Ident} {span : Span} :
  (written ⟨i :: is, span⟩).toList = i.word.toList ++ dottedText is
  := by
  rw [written, List.map_cons]
  induction is generalizing i with
  | nil => simp [dottedText]
  | cons j js ih =>
      rw [List.map_cons, String.intercalate_cons_cons, String.toList_append, String.toList_append,
        ih]
      simp [dottedText]

theorem QualifiedName.words_cons {i : Ident} {is : List Ident} {span : Span} :
  words ⟨i :: is, span⟩ = i.word :: is.flatMap fun j => [".", j.word]
  := by
  rw [words, List.map_cons, intersperse_cons, List.flatMap_map]

theorem Ident.isWritable_of_mem {name : QualifiedName} (hname : name.isWritable) :
  ∀ i ∈ name.parts, i.isWritable
  := by
  simp only [QualifiedName.isWritable, Bool.and_eq_true, List.all_eq_true] at hname
  exact hname.2

/-- Joined names are the words of the names, if none behind a dot is cut. -/
theorem spells_written {name : QualifiedName} (hname : name.isWritable)
    (hcut : ∀ i ∈ name.parts.tail, ¬ i.IsCut) :
  Spells name.written.toList name.words []
  := by
  have hparts := Ident.isWritable_of_mem hname
  obtain ⟨_ | ⟨i, is⟩, span⟩ := name
  · contradiction
  rw [List.forall_mem_cons] at hparts
  have hnil : ∀ c ∈ ([] : List Char).head?, c = '.' := by simp
  rw [QualifiedName.words_cons, QualifiedName.toList_written, ← List.append_nil (dottedText is)]
  exact (spells_ident hparts.1 (head_dottedText hnil)).cons (spells_dottedText hparts.2 hcut hnil)

/-- Where a name behind a dot is cut, the names before the first such name are spelled, and a number
follows them. -/
theorem spells_written_of_isCut {name : QualifiedName} (hname : name.isWritable) {j : Ident}
    (hj : j ∈ name.parts.tail) (hcut : j.IsCut) :
  ∃ (front : QualifiedName) (more : List Char), front.isWritable ∧
    front.parts.length < name.parts.length ∧ Spells name.written.toList front.words ('.' :: more) ∧
    ∃ form n, measure '.' more = .ok (.number form, n)
  := by
  have hparts := Ident.isWritable_of_mem hname
  obtain ⟨_ | ⟨i, is⟩, span⟩ := name
  · contradiction
  obtain ⟨k, hk⟩ : ∃ k, is.find? (fun j => decide j.IsCut) = some k := by
    apply Option.isSome_iff_exists.mp
    rw [List.find?_isSome]
    exact ⟨j, hj, decide_eq_true hcut⟩
  obtain ⟨hkcut, before, behind, rfl, hbefore⟩ := List.find?_eq_some_iff_append.mp hk
  simp only [decide_eq_true_eq, Bool.not_eq_true', decide_eq_false_iff_not] at hkcut hbefore
  simp only [List.forall_mem_cons, List.forall_mem_append] at hparts
  obtain ⟨hi, hwritable, -⟩ := hparts
  have hfront : QualifiedName.isWritable ⟨i :: before, span⟩ := by
    simpa [QualifiedName.isWritable, hi] using hwritable
  have htext : (QualifiedName.written ⟨i :: (before ++ k :: behind), span⟩).toList =
      i.word.toList ++ (dottedText before ++ '.' :: (k.word.toList ++ dottedText behind)) := by
    rw [QualifiedName.toList_written]
    simp [dottedText]
  have hdot : ∀ c ∈ ('.' :: (k.word.toList ++ dottedText behind)).head?, c = '.' := by
    intro c hc
    exact (Option.some.inj hc).symm
  have hbehind : ∀ c ∈ (dottedText behind).head?, c = '.' := by
    rw [← List.append_nil (dottedText behind)]
    exact head_dottedText (by simp)
  refine ⟨⟨i :: before, span⟩, k.word.toList ++ dottedText behind, hfront, ?_, ?_, ?_⟩
  · simp
  · rw [htext, QualifiedName.words_cons]
    exact (spells_ident hi (head_dottedText hdot)).cons (spells_dottedText hwritable hbefore hdot)
  · exact measure_point_fractional ((fractional_word hbehind).mpr hkcut)

end SqlFront
