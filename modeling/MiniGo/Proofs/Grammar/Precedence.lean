import MiniGo.Grammar.Expressions

/-!
The grammar of expressions by levels of precedence, as a relation between tokens and trees. It has no
powers, no loops and no depth: what the rules do with those is compared with it elsewhere.
-/
namespace MiniGo.Grammar

/-- The levels of expressions, loosest first. -/
inductive Level where
  | or | and | relational | additive | multiplicative | unary | suffixed | primary
deriving DecidableEq, Repr

namespace Level

def rank : Level → Nat
  | .or => 1
  | .and => 2
  | .relational => 3
  | .additive => 4
  | .multiplicative => 5
  | .unary => 6
  | .suffixed => 7
  | .primary => 8

/-- The level that the right operand of a binary operator belongs to. -/
def tighter : Level → Level
  | .or => .and
  | .and => .relational
  | .relational => .additive
  | .additive => .multiplicative
  | .multiplicative => .unary
  | .unary => .suffixed
  | .suffixed => .primary
  | .primary => .primary

def operators : Level → List TokenKind
  | .or => [.or]
  | .and => [.and]
  | .relational => [.equal, .notEqual, .less, .lessEqual, .greater, .greaterEqual]
  | .additive => [.plus, .dash]
  | .multiplicative => [.star, .slash, .percent]
  | _ => []

end Level

/-- Items with a comma between them, and an optional one behind the last. -/
inductive Separated : List (List Token) → List Token → Prop where
  | nil : Separated [] []
  | last {w : List Token} : Separated [w] w
  | cons {w v : List Token} {ws : List (List Token)} {comma : Token} (hcomma : comma.kind = .comma)
      (h : Separated ws v) : Separated (w :: ws) (w ++ comma :: v)

/-- One field of a struct literal: a name, a colon and the tokens and the tree of the value. -/
structure Field where
  name : Token
  colon : Token
  value : List Token
  tree : Node
  name_kind : name.kind = .identifier
  colon_kind : colon.kind = .colon

def Field.tokens (p : Field) : List Token := p.name :: p.colon :: p.value

def Field.node (p : Field) : Node := .fieldValue (.name p.name.value) p.tree

/-- `Derives f ℓ w e`: the tokens `w` are an expression of level `ℓ` with the tree `e`, where `f` says
whether a struct literal may stand outside of brackets. Inside brackets it always may. -/
inductive Derives : Bool → Level → List Token → Node → Prop where
  | number {f : Bool} {t : Token} {x : Binary64} (ht : t.kind = .number)
      (hx : Decimal.parse? t.value = some x) : Derives f .primary [t] (.ofLiteral (.number x))
  | string {f : Bool} {t : Token} (ht : t.kind = .string) :
      Derives f .primary [t] (.ofLiteral (.string t.value))
  | boolean {f : Bool} {t : Token} (ht : t.kind = .boolean) :
      Derives f .primary [t] (.ofLiteral (.bool (t.value == "true")))
  | identifier {f : Bool} {t : Token} (ht : t.kind = .identifier) :
      Derives f .primary [t] (.name t.value)
  | grouping {f : Bool} {opening closing : Token} {w : List Token} {e : Node}
      (hopening : opening.kind = .openParen) (hclosing : closing.kind = .closeParen)
      (h : Derives true .or w e) : Derives f .primary (opening :: (w ++ [closing])) e
  | call {f : Bool} {opening closing : Token} {w v : List Token} {left : Node}
      {args : List (List Token × Node)} (hopening : opening.kind = .openParen)
      (hclosing : closing.kind = .closeParen) (hleft : Derives f .suffixed w left)
      (hargs : ∀ q ∈ args, Derives true .or q.1 q.2) (hv : Separated (args.map Prod.fst) v) :
      Derives f .suffixed (w ++ opening :: (v ++ [closing])) (.application left (args.map Prod.snd))
  | index {f : Bool} {opening closing : Token} {w v : List Token} {left i : Node}
      (hopening : opening.kind = .openBracket) (hclosing : closing.kind = .closeBracket)
      (hleft : Derives f .suffixed w left) (hindex : Derives true .or v i) :
      Derives f .suffixed (w ++ opening :: (v ++ [closing])) (.index left i)
  | member {f : Bool} {dot field : Token} {w : List Token} {left : Node} (hdot : dot.kind = .dot)
      (hfield : field.kind = .identifier) (hleft : Derives f .suffixed w left) :
      Derives f .suffixed (w ++ [dot, field]) (.member left (.name field.value))
  | structLiteral {opening closing : Token} {w v : List Token} {s : String} {type : Option Node}
      {fields : List Field} (hopening : opening.kind = .openCurly)
      (hclosing : closing.kind = .closeCurly) (hleft : Derives true .suffixed w (.identifier s type))
      (hfields : ∀ p ∈ fields, Derives true .or p.value p.tree)
      (hv : Separated (fields.map Field.tokens) v) :
      Derives true .suffixed (w ++ opening :: (v ++ [closing]))
        (.structLiteral (.customType s) (fields.map Field.node))
  | unary {f : Bool} {op : Token} {w : List Token} {e : Node} (hop : op.kind ∈ [.bang, .dash])
      (h : Derives f .unary w e) : Derives f .unary (op :: w) (.unary op.value e)
  | receive {f : Bool} {op : Token} {w : List Token} {e : Node} (hop : op.kind = .arrow)
      (h : Derives f .unary w e) : Derives f .unary (op :: w) (.receive e false)
  | binary {f : Bool} {ℓ : Level} {op : Token} {u w : List Token} {l r : Node}
      (hop : op.kind ∈ ℓ.operators) (hleft : Derives f ℓ u l) (hright : Derives f ℓ.tighter w r) :
      Derives f ℓ (u ++ op :: w) (.binary l op.value r)
  | looser {f : Bool} {ℓ m : Level} {w : List Token} {e : Node} (hle : ℓ.rank ≤ m.rank)
      (h : Derives f m w e) : Derives f ℓ w e

end MiniGo.Grammar
