import SqlFront.Token.Next

/-!
# Words that are tokens

A word is one visible token, or it is not: `kindOf?` tells which token it is.  The marks and the
keywords are the tokens that they are written as.
-/

namespace SqlFront

/-- The kind of the token that a word is, if it is one visible token. -/
def Token.kindOf? (word : String) : Option Kind :=
  match word.toList with
  | [] => none
  | c :: cs =>
    match measure c cs with
    | .ok (kind, n) =>
      if n = cs.length ∧ !kind.isHidden ∧ kind ≠ .unrecognized then some kind else none
    | .error _ => none

open Token

/-! ### Marks, names and numbers -/

/-- Words that are tokens only by the rules for words, with their kinds. -/
def Token.samples : List (String × Kind) :=
  [(".", .dot), ("a", .identifier), ("b", .identifier), ("1", .number .integer),
   (Keyword.SELECT.spelling, .keyword .SELECT), (Keyword.FROM.spelling, .keyword .FROM),
   (Keyword.JOIN.spelling, .keyword .JOIN), ("LOAD", .keyword .LOAD), ("DATA", .keyword .DATA),
   ("INPATH", .keyword .INPATH), ("INTO", .keyword .INTO), ("TABLE", .keyword .TABLE),
   ("OPTIONS", .keyword .OPTIONS), ("EXPORT", .keyword .EXPORT), ("TO", .keyword .TO),
   ("MERGE", .keyword .MERGE), ("USING", .keyword .USING), ("ON", .keyword .ON),
   ("WHEN", .keyword .WHEN), ("THEN", .keyword .THEN), ("DELETE", .keyword .DELETE),
   ("EXISTS", .keyword .EXISTS), ("WITH", .keyword .WITH), ("AS", .keyword .AS),
   ("IN", .keyword .IN), ("MATCHED", .identifier), ("t", .identifier), ("s", .identifier),
   ("x", .identifier), ("'p'", .string), ("=", .eq), ("*", .asterisk), ("(", .leftParen),
   (")", .rightParen)]

theorem kindOf?_of_mem_samples {word : String} {k : Kind} (h : (word, k) ∈ samples) :
  kindOf? word = some k
  := by
  have hall : ∀ sample ∈ samples, kindOf? sample.1 = some sample.2 := by decide +kernel
  apply hall _ h

theorem kindOf?_dot :
  kindOf? "." = some .dot
  := by
  apply kindOf?_of_mem_samples
  simp [samples]

theorem kindOf?_comma :
  kindOf? "," = some .comma
  := by
  decide

theorem kindOf?_leftParen :
  kindOf? "(" = some .leftParen
  := by
  decide

theorem kindOf?_rightParen :
  kindOf? ")" = some .rightParen
  := by
  decide

theorem kindOf?_asterisk :
  kindOf? "*" = some .asterisk
  := by
  decide

theorem kindOf?_lt :
  kindOf? "<" = some .lt
  := by
  decide

theorem kindOf?_gt :
  kindOf? ">" = some .gt
  := by
  decide

theorem kindOf?_a :
  kindOf? "a" = some .identifier
  := by
  apply kindOf?_of_mem_samples
  simp [samples]

theorem kindOf?_b :
  kindOf? "b" = some .identifier
  := by
  apply kindOf?_of_mem_samples
  simp [samples]

theorem kindOf?_one :
  kindOf? "1" = some (.number .integer)
  := by
  apply kindOf?_of_mem_samples
  simp [samples]

/-! ### Keywords -/

/-- The keywords that expressions are written with. -/
def Keyword.inExpressions : List Keyword :=
  [.NULL, .TRUE, .FALSE, .ARRAY, .MAP, .NOT, .OR, .AND, .DIV, .BETWEEN, .IN, .LIKE, .RLIKE, .IS,
   .DISTINCT, .CASE, .WHEN, .THEN, .ELSE, .END, .CAST, .AS, .CURRENT_DATE, .CURRENT_TIMESTAMP]

/-- The spelling of a keyword stands for the keyword. -/
theorem Keyword.kindOf?_spelling {k : Keyword} (hk : k ∈ inExpressions) :
  kindOf? k.spelling = some (.keyword k)
  := by
  revert k
  decide +kernel

theorem kindOf?_select :
  kindOf? Keyword.SELECT.spelling = some (.keyword .SELECT)
  := by
  apply kindOf?_of_mem_samples
  simp [samples]

theorem kindOf?_from :
  kindOf? Keyword.FROM.spelling = some (.keyword .FROM)
  := by
  apply kindOf?_of_mem_samples
  simp [samples]

theorem kindOf?_join :
  kindOf? Keyword.JOIN.spelling = some (.keyword .JOIN)
  := by
  apply kindOf?_of_mem_samples
  simp [samples]

theorem toUpper_of_isDigit {c : Char} (hc : c.isDigit) :
  c.toUpper = c
  := by
  simp only [Char.isDigit, Bool.and_eq_true, decide_eq_true_eq] at hc
  apply dif_neg
  rintro ⟨hlower, -⟩
  have : (97 : UInt32) ≤ 57 := UInt32.le_trans hlower hc.2
  contradiction

theorem Keyword.not_isDigit_spelling (k : Keyword) :
  (k.spelling.toList.head?.any Char.isDigit) = false
  := by
  cases k <;> rfl

theorem Keyword.lookup?_nil :
  lookup? (String.ofList []) = none
  := by
  decide +kernel

/-- The names of types of several values are in upper case. -/
theorem Keyword.toUpper_spelling {k : Keyword} (hk : k ∈ [ARRAY, MAP]) :
  k.spelling.toUpper = k.spelling
  := by
  revert k
  decide +kernel

end SqlFront
