import TibiaServer.Library.Bytes
/-!
# The OTB container format

A file is an identifier of four bytes and a tree of nodes.  Iterators into the file are
offsets, and the stack of pointers is the path of open nodes, the innermost first; a
node that is closed moves into the children of the one below.
-/

namespace TibiaServer.OTB

open TibiaServer.Library

def ESCAPE : UInt8 := 0xFD
def START : UInt8 := 0xFE
def END : UInt8 := 0xFF

structure InvalidOTBFormat where
  deriving DecidableEq, Repr

/-- `propsEnd` is null until the first child or the end of the node is found. -/
inductive Node
  | mk (type : UInt8) (propsBegin propsEnd : ℕ) (children : List Node)

namespace Node

def type : Node → UInt8
  | mk type _ _ _ => type

def propsBegin : Node → ℕ
  | mk _ propsBegin _ _ => propsBegin

def propsEnd : Node → ℕ
  | mk _ _ propsEnd _ => propsEnd

def children : Node → List Node
  | mk _ _ _ children => children

/-- `currentNode.propsEnd = it` where the node has no children yet. -/
def endProps : Node → ℕ → Node
  | mk type propsBegin propsEnd children, it =>
    mk type propsBegin (if children.isEmpty then it else propsEnd) children

def addChild : Node → Node → Node
  | mk type propsBegin propsEnd children, child =>
    mk type propsBegin propsEnd (children ++ [child])

end Node

/-- The open nodes, and the root once it is closed. -/
structure Parse where
  parseStack : List Node
  root : Option Node := none

/-- `parseStack.pop()`: the node below gets its child back. -/
def Parse.pop (currentNode : Node) (rest : List Node) : Parse :=
  match rest with
  | [] => { parseStack := [], root := some currentNode }
  | parent :: rest => { parseStack := parent.addChild currentNode :: rest }

/-- The loop of `parseTree` at the offset `it`, with the bytes that are left. -/
def parseLoop (it : ℕ) (bytes : List UInt8) (parse : Parse) : Except InvalidOTBFormat Parse :=
  match bytes with
  | [] => .ok parse
  | byte :: bytes =>
    if byte = START then
      match parse.parseStack with
      | [] => .error {}
      | currentNode :: rest =>
        match bytes with
        | [] => .error {}
        | type :: bytes =>
          parseLoop (it + 2) bytes
            { parse with
              parseStack := .mk type (it + 2) 0 [] :: currentNode.endProps it :: rest }
    else if byte = END then
      match parse.parseStack with
      | [] => .error {}
      | currentNode :: rest =>
        parseLoop (it + 1) bytes (Parse.pop (currentNode.endProps it) rest)
    else if byte = ESCAPE then
      match bytes with
      | [] => .error {}
      | _ :: bytes => parseLoop (it + 2) bytes parse
    else parseLoop (it + 1) bytes parse

/-- What is left on the stack at the end of the file is an error. -/
def Parse.finish (parse : Parse) : Except InvalidOTBFormat Node :=
  match parse.parseStack, parse.root with
  | [], some root => .ok root
  | _, _ => .error {}

def identifierSize : ℕ := 4

/-- `Loader::parseTree`.  A file too short for the first node has been refused by the
constructor. -/
def parseTree (fileContents : List UInt8) : Except InvalidOTBFormat Node :=
  match fileContents.drop identifierSize with
  | byte :: type :: bytes =>
    if byte ≠ START then .error {}
    else
      (parseLoop (identifierSize + 2) bytes
        { parseStack := [.mk type (identifierSize + 2) 0 []] }).bind Parse.finish
  | _ => .error {}

/-- The constructor: the file has to be larger than an identifier and one bare node. -/
def openLoader (fileContents acceptedIdentifier : List UInt8) : Except InvalidOTBFormat Unit :=
  if fileContents.length ≤ identifierSize + 3 then .error {}
  else
    let fileIdentifier := fileContents.take identifierSize
    if fileIdentifier ≠ acceptedIdentifier ∧ fileIdentifier ≠ [0, 0, 0, 0] then .error {}
    else .ok ()

/-- The bytes of the file from `propsBegin` to `propsEnd`. -/
def Node.props (fileContents : List UInt8) (node : Node) : List UInt8 :=
  (fileContents.take node.propsEnd).drop node.propsBegin

/-- `Loader::getProps`, which leaves the stream as it was when there are none. -/
def getProps (fileContents : List UInt8) (node : Node) : Option (List UInt8) :=
  if (node.props fileContents).length = 0 then none
  else some (Escape.unescape ESCAPE false (node.props fileContents))

/-! ## Trees and their encoding -/

inductive Tree
  | node (type : UInt8) (props : List UInt8) (children : List Tree)

def special (byte : UInt8) : Bool := byte = ESCAPE || byte = START || byte = END

mutual

/-- The encoding that a writer of the format produces. -/
def encode : Tree → List UInt8
  | .node type props children =>
    START :: type :: (Escape.escape ESCAPE special props ++ (encodeAll children ++ [END]))

def encodeAll : List Tree → List UInt8
  | [] => []
  | tree :: trees => encode tree ++ encodeAll trees

end

mutual

/-- What a reader finds in a parsed node and below it. -/
def Node.tree (fileContents : List UInt8) : Node → Tree
  | .mk type propsBegin propsEnd children =>
    .node type ((getProps fileContents (.mk type propsBegin propsEnd children)).getD [])
      (Node.trees fileContents children)

def Node.trees (fileContents : List UInt8) : List Node → List Tree
  | [] => []
  | node :: nodes => node.tree fileContents :: Node.trees fileContents nodes

end

mutual

/-- Holds of a node and of every node below it. -/
def Node.All (P : Node → Prop) : Node → Prop
  | .mk type propsBegin propsEnd children =>
    P (.mk type propsBegin propsEnd children) ∧ Node.AllOf P children

def Node.AllOf (P : Node → Prop) : List Node → Prop
  | [] => True
  | node :: nodes => node.All P ∧ Node.AllOf P nodes

end

end TibiaServer.OTB
