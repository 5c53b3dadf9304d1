import MiniGo.Program

/-!
Trees into programs. Every node is put in the place that its parent offers; the result is `none` as
soon as one does not fit. A tree that passes the check always fits.
-/
namespace MiniGo

mutual

def Ty.ofNode? : Node → Option Ty
  | .anyType => some .any
  | .voidType => some .void
  | .basicType b => some (.basic b)
  | .tupleType elements => (Ty.ofNodes? elements).map .tuple
  | .functionType params result => return .function (← Ty.ofNode? params) (← Ty.ofNode? result)
  | .chanType direction element => (Ty.ofNode? element).map (.chan direction)
  | .arrayType element size => (Ty.ofNode? element).map (.array · size)
  | .sliceType element => (Ty.ofNode? element).map .slice
  | .customType name => some (.custom name)
  | .structType elems => (Ident.ofElements? elems).map .struct
  | _ => none

def Ty.ofNodes? : List Node → Option (List Ty)
  | [] => some []
  | n :: ns => return (← Ty.ofNode? n) :: (← Ty.ofNodes? ns)

def Ty.ofOption? : Option Node → Option (Option Ty)
  | none => some none
  | some n => (Ty.ofNode? n).map some

def Ident.ofNode? : Node → Option Ident
  | .identifier name type => (Ty.ofOption? type).map (⟨name, ·⟩)
  | _ => none

def Ident.ofElements? : List Node → Option (List Ident)
  | [] => some []
  | .structElement name :: ns => return (← Ident.ofNode? name) :: (← Ident.ofElements? ns)
  | _ :: _ => none

end

def Ident.ofNodes? (ns : List Node) : Option (List Ident) := ns.mapM Ident.ofNode?

def Ident.ofOption? : Option Node → Option (Option Ident)
  | none => some none
  | some n => (Ident.ofNode? n).map some

mutual

def Expr.ofNode? : Node → Option Expr
  | .identifier name type => (Ty.ofOption? type).map fun t => .identifier ⟨name, t⟩
  | .literal value type => (Ty.ofNode? type).map (.literal value)
  | .application operator operands =>
    return .application (← Expr.ofNode? operator) (← Expr.ofNodes? operands)
  | .unary opcode operand => (Expr.ofNode? operand).map (.unary opcode)
  | .binary left opcode right =>
    return .binary (← Expr.ofNode? left) opcode (← Expr.ofNode? right)
  | .index accessed index => return .index (← Expr.ofNode? accessed) (← Expr.ofNode? index)
  | .function name formals result body =>
    return .function ⟨← Ident.ofOption? name, ← Ident.ofNodes? formals, ← Ty.ofOption? result,
      ← Stmt.ofNodes? body⟩
  | .structLiteral type fields =>
    return .structLiteral (← Ty.ofNode? type) (← FieldValue.ofNodes? fields)
  | .member accessed field => return .member (← Expr.ofNode? accessed) (← Ident.ofNode? field)
  | .receive chan inSelect => (Expr.ofNode? chan).map (.receive · inSelect)
  | _ => none

def Expr.ofNodes? : List Node → Option (List Expr)
  | [] => some []
  | n :: ns => return (← Expr.ofNode? n) :: (← Expr.ofNodes? ns)

def Expr.ofOption? : Option Node → Option (Option Expr)
  | none => some none
  | some n => (Expr.ofNode? n).map some

def FieldValue.ofNodes? : List Node → Option (List FieldValue)
  | [] => some []
  | .fieldValue field expr :: ns =>
    return ⟨← Ident.ofNode? field, ← Expr.ofNode? expr⟩ :: (← FieldValue.ofNodes? ns)
  | _ :: _ => none

def Target.ofNodes? : List Node → Option (List Target)
  | [] => some []
  | .identifier name type :: ns =>
    return .identifier ⟨name, ← Ty.ofOption? type⟩ :: (← Target.ofNodes? ns)
  | .index accessed index :: ns =>
    return .index (← Expr.ofNode? accessed) (← Expr.ofNode? index) :: (← Target.ofNodes? ns)
  | _ :: _ => none

def Stmt.ofNode? : Node → Option Stmt
  | .declaration kind ids vals =>
    return .declaration ⟨kind, ← Ident.ofNodes? ids, ← Expr.ofNodes? vals⟩
  | .expressionStatement expression => (Expr.ofNode? expression).map .expression
  | .returnStatement expressions => (Expr.ofNodes? expressions).map .ret
  | .assignment targets vals =>
    return .assignment (← Target.ofNodes? targets) (← Expr.ofNodes? vals)
  | .ifStatement cond cons alt short =>
    return .ifThen ⟨← Stmt.ofOption? short, ← Expr.ofNode? cond, ← Stmt.ofNodes? cons,
      ← Else.ofOption? alt⟩
  | .forStatement init cond post body =>
    return .loop (← Stmt.ofOption? init) (← Expr.ofOption? cond) (← Stmt.ofOption? post)
      (← Stmt.ofNodes? body)
  | .goStatement (.application operator operands) =>
    return .go (← Expr.ofNode? operator) (← Expr.ofNodes? operands)
  | .selectStatement cases => (Arm.ofNodes? cases).map .select
  | .send chan val inSelect =>
    return .send (← Expr.ofNode? chan) (← Expr.ofNode? val) inSelect
  | .empty => some .empty
  | .function name formals result body =>
    return .function ⟨← Ident.ofOption? name, ← Ident.ofNodes? formals, ← Ty.ofOption? result,
      ← Stmt.ofNodes? body⟩
  | .typeDeclaration (.customType name) type => (Ty.ofNode? type).map (.typeDeclaration name)
  | _ => none

def Stmt.ofNodes? : List Node → Option (List Stmt)
  | [] => some []
  | n :: ns => return (← Stmt.ofNode? n) :: (← Stmt.ofNodes? ns)

def Stmt.ofOption? : Option Node → Option (Option Stmt)
  | none => some none
  | some n => (Stmt.ofNode? n).map some

def If.ofNode? : Node → Option If
  | .ifStatement cond cons alt short =>
    return ⟨← Stmt.ofOption? short, ← Expr.ofNode? cond, ← Stmt.ofNodes? cons,
      ← Else.ofOption? alt⟩
  | _ => none

def Else.ofAlternative? : Alternative → Option Else
  | .block body => (Stmt.ofNodes? body).map .block
  | .chained node => (If.ofNode? node).map .chained

def Else.ofOption? : Option Alternative → Option (Option Else)
  | none => some none
  | some a => (Else.ofAlternative? a).map some

def Arm.ofNodes? : List Node → Option (List Arm)
  | [] => some []
  | .selectCase guard body :: ns =>
    return .guarded (← Guard.ofNode? guard) (← Stmt.ofNodes? body) :: (← Arm.ofNodes? ns)
  | .defaultCase body :: ns => return .otherwise (← Stmt.ofNodes? body) :: (← Arm.ofNodes? ns)
  | _ :: _ => none

def Guard.ofNode? : Node → Option Guard
  | .send chan val inSelect =>
    return .send (← Expr.ofNode? chan) (← Expr.ofNode? val) inSelect
  | .receive chan inSelect => (Expr.ofNode? chan).map (.receive · inSelect)
  | .declaration kind ids vals =>
    return .declaration ⟨kind, ← Ident.ofNodes? ids, ← Expr.ofNodes? vals⟩
  | .assignment targets vals =>
    return .assignment (← Target.ofNodes? targets) (← Expr.ofNodes? vals)
  | _ => none

end

def Item.ofNode? : Node → Option Item
  | .declaration kind ids vals =>
    return .declaration ⟨kind, ← Ident.ofNodes? ids, ← Expr.ofNodes? vals⟩
  | .function name formals result body =>
    return .function ⟨← Ident.ofOption? name, ← Ident.ofNodes? formals, ← Ty.ofOption? result,
      ← Stmt.ofNodes? body⟩
  | .typeDeclaration (.customType name) type => (Ty.ofNode? type).map (.typeDeclaration name)
  | _ => none

def Program.ofNode? : Node → Option Program
  | .program items => (items.mapM Item.ofNode?).map (⟨·⟩)
  | _ => none

end MiniGo
