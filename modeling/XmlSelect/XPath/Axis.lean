import XmlSelect.Text.Basic
/-! The thirteen axes of XPath. -/
namespace XmlSelect.XPath

/-- A relation from a context node to the nodes that a step may select. -/
inductive Axis
  | child
  | descendant
  | parent
  | ancestor
  | followingSibling
  | precedingSibling
  | following
  | preceding
  | attributes
  | namespaces
  | self
  | descendantOrSelf
  | ancestorOrSelf
deriving DecidableEq

namespace Axis

def all : List Axis :=
  [child, descendant, parent, ancestor, followingSibling, precedingSibling, following, preceding,
    attributes, namespaces, self, descendantOrSelf, ancestorOrSelf]

def name : Axis → Text
  | child => "child".toList
  | descendant => "descendant".toList
  | parent => "parent".toList
  | ancestor => "ancestor".toList
  | followingSibling => "following-sibling".toList
  | precedingSibling => "preceding-sibling".toList
  | following => "following".toList
  | preceding => "preceding".toList
  | attributes => "attribute".toList
  | namespaces => "namespace".toList
  | self => "self".toList
  | descendantOrSelf => "descendant-or-self".toList
  | ancestorOrSelf => "ancestor-or-self".toList

/-- The axis of the given name. -/
def ofName? (name : Text) : Option Axis := all.find? (·.name == name)

/-- Whether positions on the axis are counted backwards in document order. -/
def isReverse : Axis → Bool
  | parent | ancestor | ancestorOrSelf | preceding | precedingSibling => true
  | _ => false

theorem mem_all (axis : Axis) : axis ∈ all := by cases axis <;> decide

theorem ofName?_name (axis : Axis) : ofName? axis.name = some axis := by cases axis <;> rfl

theorem name_of_ofName? {name : Text} {axis : Axis} (found : ofName? name = some axis) :
    axis.name = name := by
  have same := List.find?_some found
  exact eq_of_beq same

end Axis

end XmlSelect.XPath
