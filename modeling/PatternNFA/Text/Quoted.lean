-- Quoted text, for logs and for debugging. The delimiter is escaped in a text
-- that it delimits, and nowhere else. Whatever a reader could not see, or would
-- see as a part of the character before it, is written as a code point.
import PatternNFA.Text.DefaultIgnorable
import PatternNFA.Text.GraphemeExtend
import PatternNFA.Text.Unprintable

namespace PatternNFA.Text

/-- The halfwidth katakana sound marks. They extend the letter before them, but each fills a
cell of its own, and no other letter has that property. -/
def soundMarks : Ranges where
  list := [(0xFF9E, 0xFF9F)]
  ascending := by decide

/-- The character would merge with the one before it. -/
def isMerged (c : Char) : Bool :=
  graphemeExtend.contains c.toNat && !soundMarks.contains c.toNat

/-- The character is not shown as it is. -/
def isHidden (c : Char) : Bool :=
  isMerged c || defaultIgnorable.contains c.toNat || unprintable.contains c.toNat

/-- The hidden characters are those that a table covers, but `graphemeExtend` does not count
for a sound mark. -/
theorem isHidden_iff (c : Char) : isHidden c = true
    ↔ (graphemeExtend.Covers c.toNat ∧ ¬ soundMarks.Covers c.toNat)
      ∨ defaultIgnorable.Covers c.toNat ∨ unprintable.Covers c.toNat := by
  simp only [isHidden, isMerged, Bool.or_eq_true, Bool.and_eq_true, Bool.not_eq_true',
    ← Bool.not_eq_true, Ranges.contains_iff, or_assoc]

/-- A character by its code point, in lower-case hexadecimal digits without padding. -/
def codePoint (c : Char) : String :=
  "\\u\x7b" ++ String.ofList (Nat.toDigits 16 c.toNat) ++ "\x7d"

/-- A character as it is written between two delimiters. -/
def escape (delimiter c : Char) : String :=
  if c = '\x00' then "\\0"
  else if c = '\t' then "\\t"
  else if c = '\r' then "\\r"
  else if c = '\n' then "\\n"
  else if c = '\\' then "\\\\"
  else if c = delimiter then "\\" ++ c.toString
  else if isHidden c then codePoint c
  else c.toString

/-- A text between double quotes. -/
def quote (text : String) : String :=
  "\"" ++ String.join (text.toList.map (escape '\x22')) ++ "\""

/-- A character between single quotes. -/
def quoteChar (c : Char) : String := "'" ++ escape '\x27' c ++ "'"

end PatternNFA.Text
