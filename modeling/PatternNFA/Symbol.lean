-- The symbol on an edge: a character that the edge reads, or epsilon. The
-- character `ε` and epsilon share a text, and stay two symbols all the same.

namespace PatternNFA

inductive Symbol where
  | char (c : Char)
  | epsilon
  deriving DecidableEq

namespace Symbol

/-- The symbol as it is shown: the character itself, or the letter `ε`. -/
def text : Symbol → String
  | .char c => c.toString
  | .epsilon => "ε"

def isEpsilon : Symbol → Bool
  | .char _ => false
  | .epsilon => true

/-- The order of an alphabet: characters by code point, then epsilon. -/
def le : Symbol → Symbol → Bool
  | .char a, .char b => a.toNat ≤ b.toNat
  | .char _, .epsilon => true
  | .epsilon, .char _ => false
  | .epsilon, .epsilon => true

end Symbol

end PatternNFA
