import ReadingBench.Document.Yaml.Tree

namespace ReadingBench.Yaml

/-- The tag of one of the language's own types. -/
def standardTag? (tag : List Char) : Option Tag :=
  match String.ofList tag with
  | "tag:yaml.org,2002:null" => some .null
  | "tag:yaml.org,2002:bool" => some .bool
  | "tag:yaml.org,2002:int" => some .int
  | _ => none

def scalarNode (style : Style) (tag : Option (List Char)) (text : List Char) : Node :=
  let s := String.ofList text
  let tag := tag.map fun t => (standardTag? t).getD .other
  match style, tag with
  | .plain, tag => .plain tag s
  | .literal, some tag => .literal tag s
  | _, _ => .text s

namespace Tree

mutual

/-- The last node in the tree with an anchor of that number. -/
def find? (number : Nat) : Tree → Option Tree
  | anchored n node => find? number node <|> if n = number then some node else none
  | sequence items => findItem? number items
  | mapping entries => findEntry? number entries
  | scalar .. | backReference _ => none

def findItem? (number : Nat) : List Tree → Option Tree
  | [] => none
  | item :: items => findItem? number items <|> find? number item

def findEntry? (number : Nat) : List (Tree × Tree) → Option Tree
  | [] => none
  | (key, value) :: entries => findEntry? number entries <|> find? number value <|> find? number key

end

/-- A node without its anchor, or the node that an alias in the document `root` stands for. -/
def resolve (root : Tree) : Tree → Tree
  | anchored _ node => node
  | backReference number => (root.find? number).getD absent
  | tree => tree

def text? (root tree : Tree) : Option String :=
  match root.resolve tree with
  | scalar _ _ text => some (String.ofList text)
  | _ => none

/-- The node of a tree in the document `root`. Collections are read in full to a depth of `depth`: where
aliases lead back to what is around them, there is no end to it. -/
def toNode (root : Tree) : Nat → Tree → Node
  | 0, tree =>
    match root.resolve tree with
    | scalar style tag text => scalarNode style tag text
    | _ => .other
  | depth + 1, tree =>
    match root.resolve tree with
    | scalar style tag text => scalarNode style tag text
    | mapping entries =>
      let keys := entries.mapM fun (key, _) => root.text? key
      keys.elim .other fun keys => .map (keys.zip (entries.map fun (_, value) => toNode root depth value))
    | _ => .other

end Tree

/-- Reads a text that holds one document, in full to a depth of `depth`. -/
def read? (depth : Nat) (text : String) : Option Node := do
  let tree ← document? (← tokens? text.toList)
  return tree.toNode depth tree

end ReadingBench.Yaml
