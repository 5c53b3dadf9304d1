import MiniGo.Tree

/-!
Types of programs, and when two of them are compatible. `any` is compatible with every type and a
channel of both directions with either direction; inside a struct type neither holds, there types
have to be the same.
-/
namespace MiniGo

mutual

inductive Ty where
  | any
  | void
  | basic (b : BasicType)
  | tuple (elements : List Ty)
  | function (params result : Ty)
  | chan (direction : Direction) (element : Ty)
  | array (element : Ty) (size : UInt64)
  | slice (element : Ty)
  | custom (name : String)
  | struct (fields : List Ident)

structure Ident where
  name : String
  type : Option Ty

end

def Direction.compatible : Direction → Direction → Bool
  | .send, .receive | .receive, .send => false
  | _, _ => true

namespace Ty

def kind : Ty → NodeKind
  | .any => .anyType
  | .void => .voidType
  | .basic _ => .basicType
  | .tuple _ => .tupleType
  | .function _ _ => .functionType
  | .chan _ _ => .chanType
  | .array _ _ => .arrayType
  | .slice _ => .sliceType
  | .custom _ => .customType
  | .struct _ => .structType

mutual

def same : Ty → Ty → Bool
  | .any, .any => true
  | .void, .void => true
  | .basic a, .basic b => a == b
  | .tuple as, .tuple bs => sameAll as bs
  | .function p r, .function q s => same p q && same r s
  | .chan d a, .chan e b => d == e && same a b
  | .array a m, .array b n => m == n && same a b
  | .slice a, .slice b => same a b
  | .custom a, .custom b => a == b
  | .struct fs, .struct gs => sameFields fs gs
  | _, _ => false

def sameAll : List Ty → List Ty → Bool
  | [], [] => true
  | a :: as, b :: bs => same a b && sameAll as bs
  | _, _ => false

def sameFields : List Ident → List Ident → Bool
  | [], [] => true
  | ⟨m, none⟩ :: fs, ⟨n, none⟩ :: gs => m == n && sameFields fs gs
  | ⟨m, some a⟩ :: fs, ⟨n, some b⟩ :: gs => m == n && same a b && sameFields fs gs
  | _, _ => false

end

mutual

/-- Whether two types could be the same once their wildcards and open directions are settled. -/
def compatible : Ty → Ty → Bool
  | .any, _ => true
  | _, .any => true
  | .void, .void => true
  | .basic a, .basic b => a == b
  | .tuple as, .tuple bs => compatibleAll as bs
  | .function p r, .function q s => compatible p q && compatible r s
  | .chan d a, .chan e b => d.compatible e && compatible a b
  | .array a m, .array b n => m == n && compatible a b
  | .slice a, .slice b => compatible a b
  | .custom a, .custom b => a == b
  | .struct fs, .struct gs => sameFields fs gs
  | _, _ => false

def compatibleAll : List Ty → List Ty → Bool
  | [], [] => true
  | a :: as, b :: bs => compatible a b && compatibleAll as bs
  | _, _ => false

end

end Ty

def Ident.agrees (a b : Ident) : Bool :=
  a.name == b.name &&
    match a.type, b.type with
    | none, none => true
    | some s, some t => s.compatible t
    | _, _ => false

end MiniGo
