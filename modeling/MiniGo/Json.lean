import MiniGo.Number.Binary64

/-! JSON values. An object keeps its members in the order they were written, repeated names
included; a number without fraction and exponent that fits in 64 bits is kept apart from the
double-precision numbers. -/
namespace MiniGo

inductive Json where
  | null
  | bool (b : Bool)
  | natural (n : UInt64)
  | real (x : Binary64)
  | string (s : String)
  | array (items : List Json)
  | object (members : List (String × Json))
deriving Inhabited

namespace Json

mutual

/-- Equality of values, in which numbers compare by value. -/
def same : Json → Json → Bool
  | .null, .null => true
  | .bool a, .bool b => a == b
  | .natural m, .natural n => m == n
  | .real x, .real y => x.sameValue y
  | .string s, .string t => s == t
  | .array as, .array bs => sameItems as bs
  | .object as, .object bs => sameMembers as bs
  | _, _ => false

def sameItems : List Json → List Json → Bool
  | [], [] => true
  | a :: as, b :: bs => same a b && sameItems as bs
  | _, _ => false

def sameMembers : List (String × Json) → List (String × Json) → Bool
  | [], [] => true
  | (k, a) :: as, (l, b) :: bs => k == l && same a b && sameMembers as bs
  | _, _ => false

end

end Json

end MiniGo
