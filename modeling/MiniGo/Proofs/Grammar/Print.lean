import MiniGo.Number.Decimal
import MiniGo.Token
import MiniGo.Tree

/-!
Trees as tokens, in the one way that leaves nothing to precedence or context: every expression stands in
parentheses, a declaration is a group with one name to a line, every parameter and struct field has a
type of its own, and a semicolon follows every statement. Headers and guards cannot hold a group; a
declaration there is a short one.
-/
namespace MiniGo

/-- How a kind of token is written, where that is the same for all tokens of the kind. -/
def TokenKind.spelling : TokenKind → String
  | .eof => "EOF"
  | .number | .string | .boolean | .identifier => ""
  | .openBracket => "["
  | .closeBracket => "]"
  | .openCurly => "\x7b"
  | .closeCurly => "\x7d"
  | .openParen => "("
  | .closeParen => ")"
  | .assign => "="
  | .define => ":="
  | .equal => "=="
  | .bang => "!"
  | .notEqual => "!="
  | .less => "<"
  | .lessEqual => "<="
  | .greater => ">"
  | .greaterEqual => ">="
  | .or => "||"
  | .and => "&&"
  | .dot => "."
  | .semicolon => ";"
  | .colon => ":"
  | .comma => ","
  | .arrow => "<-"
  | .plus => "+"
  | .dash => "-"
  | .slash => "/"
  | .star => "*"
  | .percent => "%"
  | .varWord => "var"
  | .constWord => "const"
  | .funcWord => "func"
  | .returnWord => "return"
  | .ifWord => "if"
  | .elseWord => "else"
  | .forWord => "for"
  | .goWord => "go"
  | .selectWord => "select"
  | .caseWord => "case"
  | .defaultWord => "default"
  | .typeWord => "type"
  | .structWord => "struct"
  | .chanWord => "chan"

def BasicType.keyword : BasicType → String
  | .number => "number"
  | .bool => "bool"
  | .string => "string"

/-- Texts for numbers: each one that has a text is written as it is read. -/
structure Numerals where
  text : Binary64 → String
  reads : ∀ t x, Decimal.parse? t = some x → Decimal.parse? (text x) = some x

/-- Some text for each number that has one. -/
noncomputable def Numerals.chosen : Numerals where
  text x := Classical.epsilon fun t => Decimal.parse? t = some x
  reads t x h := Classical.epsilon_spec (p := fun t => Decimal.parse? t = some x) ⟨t, h⟩

namespace Print

def mark (k : TokenKind) : Token := ⟨k, k.spelling, 0, 0⟩

def named (s : String) : Token := ⟨.identifier, s, 0, 0⟩

/-- The token that an opcode was read from. -/
def operator (opcode : String) : Token :=
  ⟨(TokenKind.all.find? (·.spelling = opcode)).getD .eof, opcode, 0, 0⟩

def literal (numerals : Numerals) : Literal → Token
  | .number x => ⟨.number, numerals.text x, 0, 0⟩
  | .string s => ⟨.string, s, 0, 0⟩
  | .bool b => ⟨.boolean, if b then "true" else "false", 0, 0⟩

def size (n : UInt64) : Token := ⟨.number, toString n.toNat, 0, 0⟩

def parens (w : List Token) : List Token := mark .openParen :: (w ++ [mark .closeParen])

def braces (w : List Token) : List Token := mark .openCurly :: (w ++ [mark .closeCurly])

@[simp] theorem parens_append (w rest : List Token) :
    parens w ++ rest = mark .openParen :: (w ++ mark .closeParen :: rest) := by
  simp [parens]

@[simp] theorem braces_append (w rest : List Token) :
    braces w ++ rest = mark .openCurly :: (w ++ mark .closeCurly :: rest) := by
  simp [braces]

def joined (k : TokenKind) : List (List Token) → List Token
  | [] => []
  | [w] => w
  | w :: ws => w ++ mark k :: joined k ws

@[simp] theorem joined_cons (k : TokenKind) (w : List Token) (ws : List (List Token)) :
    joined k (w :: ws) = w ++ ws.flatMap (mark k :: ·) := by
  induction ws generalizing w with
  | nil => exact (List.append_nil w).symm
  | cons v ws ih =>
    rw [joined, ih v, List.flatMap_cons, List.cons_append]
    rintro ⟨⟩

def ended (ws : List (List Token)) : List Token := ws.flatMap (· ++ [mark .semicolon])

theorem mem_getLast?_ended {ws : List (List Token)} {t : Token} (h : t ∈ (ended ws).getLast?) :
    t = mark .semicolon := by
  obtain rfl | ⟨ws, w, rfl⟩ := List.eq_nil_or_concat ws
  · cases h
  · have hended : ended (ws.concat w) = ended ws ++ w ++ [mark .semicolon] := by
      simp [ended]
    rw [hended, List.getLast?_concat] at h
    exact (Option.mem_some.1 h).symm

def operands (ws : List (List Token)) : List Token := joined .comma (ws.map parens)

def declarationWord : DeclarationKind → TokenKind
  | .var => .varWord
  | .const => .constWord

def values : List (List Token) → List Token
  | [] => []
  | w :: ws => mark .assign :: operands (w :: ws)

/-- A declaration as a group. All values stand behind the last name. -/
def group (kind : DeclarationKind) (ids vals : List (List Token)) : List Token :=
  mark (declarationWord kind) :: parens (joined .semicolon ids ++ values vals)

/-- The clauses of a `for`; the first one decides whether there are three. -/
def clauses (init : Option (List Token)) (cond post : List Token) : List Token :=
  match init with
  | some w => w ++ mark .semicolon :: (cond ++ mark .semicolon :: post)
  | none => cond

def direction : Direction → List Token
  | .both => [mark .chanWord]
  | .send => [mark .chanWord, mark .arrow]
  | .receive => [mark .arrow, mark .chanWord]

section Nodes

variable (numerals : Numerals)

mutual

/-- The tokens of a node, in the header of a statement or elsewhere. -/
def node (inHeader : Bool) : Node → List Token
  | .program items => ended (nodes items)
  | .identifier s type => named s :: optional type
  | .literal value _ => [literal numerals value]
  | .application operator args => parens (node false operator) ++ parens (operands (nodes args))
  | .declaration kind ids vals =>
    if inHeader then joined .comma (nodes ids) ++ mark .define :: operands (nodes vals)
    else group kind (nodes ids) (nodes vals)
  | .unary opcode operand => operator opcode :: parens (node false operand)
  | .binary left opcode right =>
    parens (node false left) ++ operator opcode :: parens (node false right)
  | .expressionStatement e => parens (node false e)
  | .returnStatement es => mark .returnWord :: operands (nodes es)
  | .assignment targets vals => operands (nodes targets) ++ mark .assign :: operands (nodes vals)
  | .ifStatement cond cons alt short =>
    mark .ifWord :: (before short ++ parens (node false cond) ++ braces (ended (nodes cons)) ++
      alternative alt)
  | .forStatement init cond post body =>
    mark .forWord :: (clauses (header init) (condition cond) ((header post).getD []) ++
      braces (ended (nodes body)))
  | .goStatement app => mark .goWord :: parens (node false app)
  | .selectStatement cases => mark .selectWord :: braces (nodes cases).flatten
  | .selectCase guard body =>
    mark .caseWord :: (node true guard ++ mark .colon :: ended (nodes body))
  | .defaultCase body => mark .defaultWord :: mark .colon :: ended (nodes body)
  | .send chan val _ => parens (node false chan) ++ mark .arrow :: parens (node false val)
  -- A guard that only receives is an expression statement.
  | .receive chan _ =>
    if inHeader then parens (mark .arrow :: parens (node false chan))
    else mark .arrow :: parens (node false chan)
  | .index accessed i =>
    parens (node false accessed) ++ mark .openBracket :: (parens (node false i) ++ [mark .closeBracket])
  | .function name formals result body =>
    mark .funcWord :: (optional name ++ parens (joined .comma (nodes formals)) ++ optional result ++
      braces (ended (nodes body)))
  | .empty => []
  | .structElement name => node false name
  | .fieldValue field expr => node false field ++ mark .colon :: parens (node false expr)
  | .structLiteral type fields => node false type ++ braces (joined .comma (nodes fields))
  | .member accessed field => parens (node false accessed) ++ mark .dot :: node false field
  | .typeDeclaration name type => mark .typeWord :: (node false name ++ node false type)
  | .anyType | .voidType => []
  | .basicType b => [named b.keyword]
  | .tupleType elements => parens (joined .comma (nodes elements))
  | .functionType params result => mark .funcWord :: (node false params ++ node false result)
  | .chanType d element => direction d ++ node false element
  | .arrayType element n =>
    mark .openBracket :: size n :: mark .closeBracket :: node false element
  | .sliceType element => mark .openBracket :: mark .closeBracket :: node false element
  | .customType s => [named s]
  | .structType elems => mark .structWord :: braces (ended (nodes elems))

def nodes : List Node → List (List Token)
  | [] => []
  | n :: ns => node false n :: nodes ns

def optional : Option Node → List Token
  | none => []
  | some n => node false n

def condition : Option Node → List Token
  | none => []
  | some e => parens (node false e)

def header : Option Node → Option (List Token)
  | none => none
  | some n => some (node true n)

/-- The statement in front of the condition of an `if`. -/
def before : Option Node → List Token
  | none => []
  | some n => node true n ++ [mark .semicolon]

def alternative : Option Alternative → List Token
  | none => []
  | some (.block body) => mark .elseWord :: braces (ended (nodes body))
  | some (.chained n) => mark .elseWord :: node false n

end

@[simp] theorem nodes_eq_map (ns : List Node) : nodes numerals ns = ns.map (node numerals false) := by
  induction ns with
  | nil => rfl
  | cons n ns ih => rw [nodes, ih, List.map_cons]

end Nodes

end Print

/-- The canonical tokens of a tree. -/
def Node.print (numerals : Numerals) (n : Node) : List Token := Print.node numerals false n

end MiniGo
