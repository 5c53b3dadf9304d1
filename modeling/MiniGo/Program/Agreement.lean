import MiniGo.Program

/-! When two programs agree: they are built alike, their types are compatible place by place, and
their numbers have the same values. -/
namespace MiniGo

def Literal.agrees : Literal → Literal → Bool
  | .number x, .number y => x.sameValue y
  | .bool a, .bool b => a == b
  | .string s, .string t => s == t
  | _, _ => false

def Ty.optionsAgree : Option Ty → Option Ty → Bool
  | none, none => true
  | some s, some t => s.compatible t
  | _, _ => false

def Ident.allAgree : List Ident → List Ident → Bool
  | [], [] => true
  | a :: as, b :: bs => a.agrees b && Ident.allAgree as bs
  | _, _ => false

def Ident.optionsAgree : Option Ident → Option Ident → Bool
  | none, none => true
  | some a, some b => a.agrees b
  | _, _ => false

mutual

def Expr.agrees : Expr → Expr → Bool
  | .identifier a, .identifier b => a.agrees b
  | .literal v s, .literal w t => v.agrees w && s.compatible t
  | .application f as, .application g bs => f.agrees g && Expr.allAgree as bs
  | .unary o a, .unary p b => o == p && a.agrees b
  | .binary a o b, .binary c p d => o == p && a.agrees c && b.agrees d
  | .index a i, .index b j => a.agrees b && i.agrees j
  | .function f, .function g => f.agrees g
  | .structLiteral s fs, .structLiteral t gs => s.compatible t && FieldValue.allAgree fs gs
  | .member a f, .member b g => a.agrees b && f.agrees g
  | .receive a m, .receive b n => a.agrees b && m == n
  | _, _ => false

def Expr.allAgree : List Expr → List Expr → Bool
  | [], [] => true
  | a :: as, b :: bs => a.agrees b && Expr.allAgree as bs
  | _, _ => false

def Expr.optionsAgree : Option Expr → Option Expr → Bool
  | none, none => true
  | some a, some b => a.agrees b
  | _, _ => false

def FieldValue.allAgree : List FieldValue → List FieldValue → Bool
  | [], [] => true
  | ⟨f, a⟩ :: as, ⟨g, b⟩ :: bs => f.agrees g && a.agrees b && FieldValue.allAgree as bs
  | _, _ => false

def Function.agrees : Function → Function → Bool
  | ⟨m, fs, s, a⟩, ⟨n, gs, t, b⟩ =>
    Ident.optionsAgree m n && Ident.allAgree fs gs && Ty.optionsAgree s t && Stmt.allAgree a b

def Declaration.agrees : Declaration → Declaration → Bool
  | ⟨k, as, vs⟩, ⟨l, bs, ws⟩ => k == l && Ident.allAgree as bs && Expr.allAgree vs ws

def Target.allAgree : List Target → List Target → Bool
  | [], [] => true
  | .identifier a :: ts, .identifier b :: us => a.agrees b && Target.allAgree ts us
  | .index a i :: ts, .index b j :: us => a.agrees b && i.agrees j && Target.allAgree ts us
  | _, _ => false

def Stmt.agrees : Stmt → Stmt → Bool
  | .declaration d, .declaration e => d.agrees e
  | .expression a, .expression b => a.agrees b
  | .ret as, .ret bs => Expr.allAgree as bs
  | .assignment ts vs, .assignment us ws => Target.allAgree ts us && Expr.allAgree vs ws
  | .ifThen i, .ifThen j => i.agrees j
  | .loop i c p a, .loop j d q b =>
    Stmt.optionsAgree i j && Expr.optionsAgree c d && Stmt.optionsAgree p q && Stmt.allAgree a b
  | .go f as, .go g bs => f.agrees g && Expr.allAgree as bs
  | .select as, .select bs => Arm.allAgree as bs
  | .send a v m, .send b w n => a.agrees b && v.agrees w && m == n
  | .empty, .empty => true
  | .function f, .function g => f.agrees g
  | .typeDeclaration m s, .typeDeclaration n t => m == n && s.compatible t
  | _, _ => false

def Stmt.allAgree : List Stmt → List Stmt → Bool
  | [], [] => true
  | a :: as, b :: bs => a.agrees b && Stmt.allAgree as bs
  | _, _ => false

def Stmt.optionsAgree : Option Stmt → Option Stmt → Bool
  | none, none => true
  | some a, some b => a.agrees b
  | _, _ => false

def If.agrees : If → If → Bool
  | ⟨s, c, a, e⟩, ⟨t, d, b, f⟩ =>
    Stmt.optionsAgree s t && c.agrees d && Stmt.allAgree a b && Else.optionsAgree e f

def Else.agrees : Else → Else → Bool
  | .block a, .block b => Stmt.allAgree a b
  | .chained i, .chained j => i.agrees j
  | _, _ => false

def Else.optionsAgree : Option Else → Option Else → Bool
  | none, none => true
  | some a, some b => a.agrees b
  | _, _ => false

def Arm.allAgree : List Arm → List Arm → Bool
  | [], [] => true
  | .otherwise a :: as, .otherwise b :: bs => Stmt.allAgree a b && Arm.allAgree as bs
  | .guarded g a :: as, .guarded h b :: bs =>
    g.agrees h && Stmt.allAgree a b && Arm.allAgree as bs
  | _, _ => false

def Guard.agrees : Guard → Guard → Bool
  | .send a v m, .send b w n => a.agrees b && v.agrees w && m == n
  | .receive a m, .receive b n => a.agrees b && m == n
  | .declaration d, .declaration e => d.agrees e
  | .assignment ts vs, .assignment us ws => Target.allAgree ts us && Expr.allAgree vs ws
  | _, _ => false

end

def Item.agrees : Item → Item → Bool
  | .declaration d, .declaration e => d.agrees e
  | .function f, .function g => f.agrees g
  | .typeDeclaration m s, .typeDeclaration n t => m == n && s.compatible t
  | _, _ => false

def Item.allAgree : List Item → List Item → Bool
  | [], [] => true
  | a :: as, b :: bs => a.agrees b && Item.allAgree as bs
  | _, _ => false

def Program.agrees (p q : Program) : Bool := Item.allAgree p.items q.items

end MiniGo
