/-
The character classes that scripts are read by. A name begins with a letter
or an underscore and goes on with letters, numerals and underscores; blanks
separate tokens. All three classes are those of the Unicode standard, so a
name may be written in any alphabet.

Every class answers ASCII characters directly and looks the others up in a
table of ranges.
-/
import RoutineScript.Text.Letters
import RoutineScript.Text.Numerals

namespace RoutineScript.Text

-- ===================================================== ranges of code points

/-- Whether a code point lies in one of the ranges, which must be ascending:
the search stops at the first range that begins after it. -/
def inRanges (code : Nat) : List (Nat × Nat) → Bool
  | [] => false
  | (first, last) :: rest =>
    if code < first then false else decide (code ≤ last) || inRanges code rest

/-- A code point that the search finds lies in a listed range. -/
theorem exists_of_inRanges {code : Nat} {ranges : List (Nat × Nat)}
    (h : inRanges code ranges = true) :
    ∃ r ∈ ranges, r.1 ≤ code ∧ code ≤ r.2 := by
  induction ranges with
  | nil => simp [inRanges] at h
  | cons r rest ih =>
    obtain ⟨first, last⟩ := r
    simp only [inRanges] at h
    split at h
    · simp at h
    · rcases Bool.or_eq_true_iff.1 h with h | h
      · exact ⟨(first, last), by simp, by simp_all⟩
      · obtain ⟨r, hr, hc⟩ := ih h
        exact ⟨r, List.mem_cons_of_mem _ hr, hc⟩

-- ================================================================== classes

/-- Ranges `(first, last)` of the blank characters. -/
def blankRanges : List (Nat × Nat) :=
  [(0x9, 0xD), (0x20, 0x20), (0x85, 0x85), (0xA0, 0xA0), (0x1680, 0x1680), (0x2000, 0x200A),
   (0x2028, 0x2029), (0x202F, 0x202F), (0x205F, 0x205F), (0x3000, 0x3000)]

/-- A character of an alphabet. -/
def isLetter (c : Char) : Bool :=
  if c.toNat < 0x80 then c.isAlpha else inRanges c.toNat letterRanges

/-- A digit or other numeral of any script. -/
def isNumeral (c : Char) : Bool :=
  if c.toNat < 0x80 then c.isDigit else inRanges c.toNat numeralRanges

/-- White space of any script, line ends included. -/
def isBlank (c : Char) : Bool :=
  inRanges c.toNat blankRanges

/-- A character that may begin a name. -/
def beginsName (c : Char) : Bool :=
  isLetter c || c == '_'

/-- A character that may continue a name. Two of them next to each other
belong to one word, so a blank between them has to stay. -/
def isWordChar (c : Char) : Bool :=
  isLetter c || isNumeral c || c == '_'

/-- What begins a name may also continue one. -/
theorem isWordChar_of_beginsName {c : Char} (h : beginsName c = true) :
    isWordChar c = true := by
  simp only [beginsName, isWordChar, Bool.or_eq_true] at *
  grind

/-- Digits are word characters: a number never runs into a name. -/
theorem isWordChar_of_isDigit {c : Char} (h : c.isDigit = true) :
    isWordChar c = true := by
  have hn : c.toNat < 0x80 := by
    simp only [Char.isDigit, Bool.and_eq_true, decide_eq_true_eq] at h
    have := h.2
    simp only [Char.toNat, UInt32.le_iff_toNat_le] at *
    exact Nat.lt_of_le_of_lt this (by decide)
  simp [isWordChar, isNumeral, hn, h]

end RoutineScript.Text
