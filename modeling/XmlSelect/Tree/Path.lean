import XmlSelect.Tree.Navigation
/-! Location paths that lead to a node, with a position only where siblings of the same kind and
name stand beside it. -/
namespace XmlSelect

/-- The test in the path to a node and the siblings that count for its position; none for the
document node. Attributes and doctypes are told apart without a position. -/
def NodeKind.pathTest? : NodeKind → Option (Text × Option (NodeKind → Bool))
  | document => none
  | element name _ =>
    some (name, some fun kind => kind.isElement && kind.name? == some name)
  | attr self => some ('@' :: self.name, none)
  | leaf (.text _) | leaf (.cdata _) => some ("text()".toList, some isText)
  | leaf (.comment _) => some ("comment()".toList, some isComment)
  | leaf (.instruction ..) => some ("processing-instruction()".toList, some isInstruction)
  | leaf (.doctype ..) => some ("node()".toList, none)

namespace Document

/-- The step of a path that leads to a node from the node above; none for the document node. -/
def pathStep? (document : Document) (id : Nat) : Option Text :=
  match (document.kind? id).bind NodeKind.pathTest? with
  | none => none
  | some (test, none) => some test
  | some (test, some alike) =>
    let siblings := ((document.parent? id).map document.children).getD []
    let peers := siblings.filter fun sibling => (document.kind? sibling).any alike
    some (if 1 < peers.length then
      test ++ '[' :: Text.ofNat ((peers.takeWhile (· < id)).length + 1) ++ [']'] else test)

/-- The path from the document node to a node. -/
def path (document : Document) (id : Nat) : Text :=
  match ((id :: document.ancestors id).reverse).filterMap document.pathStep? with
  | [] => ['/']
  | steps => steps.flatMap ('/' :: ·)

end Document

end XmlSelect
