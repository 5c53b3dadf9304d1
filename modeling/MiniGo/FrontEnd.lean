import MiniGo.Grammar
import MiniGo.Json.Reader
import MiniGo.Json.Writer
import MiniGo.Program.OfTree
import MiniGo.Token.Lexer
import MiniGo.Tree.Check
import MiniGo.Tree.Interchange

/-! From source text, or from a tree that another program wrote, to a program. -/
namespace MiniGo

/-- `file` is the name that positions carry, `maxDepth` limits the nesting of what the grammar builds
and `maxTreeDepth` the depth of the trees that become programs. -/
structure Options where
  file : String := "shell"
  maxDepth : Nat := 200
  maxTreeDepth : Nat := 256

/-- The tree of a source, not yet checked. -/
def parseTree (source : String) (o : Options) : Except Error Node := do
  Node.ofTokens (← tokenize source o.file) o.file o.maxDepth

/-- The program of a tree. A tree that passes the check has one. -/
def Program.ofTree (tree : Node) (o : Options) : Except Error Program := do
  tree.check o.maxTreeDepth
  match Program.ofNode? tree with
  | some p => return p
  | none => throw ⟨.malformedTree "not a program", .null⟩

def parse (source : String) (o : Options) : Except Error Program := do
  Program.ofTree (← parseTree source o) o

/-- The deepest nesting of arrays and objects in a tree that is read. -/
def interchangeLevels : Nat := 127

def Node.ofText (text : String) : Except Error Node :=
  match (Json.parse? interchangeLevels text).bind Node.ofJson? with
  | some tree => .ok tree
  | none => .error ⟨.malformedTree "not a tree", .null⟩

def Node.toText (tree : Node) : String := tree.toJson.text

def Program.ofText (text : String) (o : Options) : Except Error Program := do
  Program.ofTree (← Node.ofText text) o

end MiniGo
