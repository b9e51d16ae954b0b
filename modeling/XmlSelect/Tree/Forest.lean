import XmlSelect.Text.Basic
/-! The content of documents: sequences of sibling nodes; an element holds a sequence of its own. -/
namespace XmlSelect

/-- A node without children, attributes apart. -/
inductive Leaf
  | text (content : Text)
  | cdata (content : Text)
  | comment (content : Text)
  | instruction (target : Text) (data : Option Text)
  | doctype (name : Text) (systemId publicId : Option Text)
deriving DecidableEq

/-- Whether a node is character data. -/
def Leaf.isText : Leaf → Bool
  | text _ | cdata _ => true
  | _ => false

/-- What a node adds to the text of the elements around it: character data alone counts. -/
def Leaf.characterData : Leaf → Text
  | text content | cdata content => content
  | _ => []

structure Attribute where
  name : Text
  value : Text
deriving DecidableEq

/-- Sibling nodes in document order. -/
inductive Forest
  | nil
  | leaf (first : Leaf) (rest : Forest)
  | element (name : Text) (attributes : List Attribute) (content rest : Forest)
deriving DecidableEq

namespace Forest

/-- The number of nodes, attributes and the nodes inside elements included. -/
def size : Forest → Nat
  | nil => 0
  | leaf _ rest => rest.size + 1
  | element _ attributes content rest => 1 + attributes.length + content.size + rest.size

/-- The text of all character data in document order. -/
def text : Forest → Text
  | nil => []
  | leaf first rest => first.characterData ++ rest.text
  | element _ _ content rest => content.text ++ rest.text

def append : Forest → Forest → Forest
  | nil, later => later
  | leaf first rest, later => leaf first (rest.append later)
  | element name attributes content rest, later =>
    element name attributes content (rest.append later)

instance : Append Forest := ⟨append⟩

/-- The nodes in reverse order, what is inside them as it is, in front of `later`. -/
def reverseOnto : Forest → Forest → Forest
  | nil, later => later
  | leaf first rest, later => rest.reverseOnto (leaf first later)
  | element name attributes content rest, later =>
    rest.reverseOnto (element name attributes content later)

def reverse (forest : Forest) : Forest := forest.reverseOnto nil

def isEmpty : Forest → Bool
  | nil => true
  | _ => false

/-- Whether one of the siblings is character data. -/
def holdsText : Forest → Bool
  | nil => false
  | leaf first rest => first.isText || rest.holdsText
  | element _ _ _ rest => rest.holdsText

@[simp] theorem nil_append (later : Forest) : nil ++ later = later := rfl

@[simp] theorem leaf_append (first : Leaf) (rest later : Forest) :
    leaf first rest ++ later = leaf first (rest ++ later) := rfl

@[simp] theorem element_append (name : Text) (attributes : List Attribute)
    (content rest later : Forest) :
    element name attributes content rest ++ later =
      element name attributes content (rest ++ later) := rfl

@[simp] theorem append_nil (forest : Forest) : forest ++ nil = forest := by
  induction forest with
  | nil => rfl
  | leaf first rest ih => simp [ih]
  | element name attributes content rest _ ih => simp [ih]

theorem append_assoc (first second third : Forest) :
    first ++ second ++ third = first ++ (second ++ third) := by
  induction first with
  | nil => rfl
  | leaf first rest ih => simp [ih]
  | element name attributes content rest _ ih => simp [ih]

theorem reverseOnto_eq (forest later : Forest) :
    forest.reverseOnto later = forest.reverse ++ later := by
  induction forest generalizing later with
  | nil => rfl
  | leaf first rest ih =>
    rw [reverse, reverseOnto, reverseOnto, ih, ih (leaf first nil), append_assoc]
    rfl
  | element name attributes content rest _ ih =>
    rw [reverse, reverseOnto, reverseOnto, ih, ih (element name attributes content nil),
      append_assoc]
    rfl

/-- Putting a node in front of the reversed siblings puts it behind them. -/
theorem reverse_leaf (first : Leaf) (rest : Forest) :
    (leaf first rest).reverse = rest.reverse ++ leaf first nil := by
  rw [reverse, reverseOnto, reverseOnto_eq]

theorem reverse_element (name : Text) (attributes : List Attribute) (content rest : Forest) :
    (element name attributes content rest).reverse =
      rest.reverse ++ element name attributes content nil := by
  rw [reverse, reverseOnto, reverseOnto_eq]

theorem size_append (first later : Forest) : (first ++ later).size = first.size + later.size := by
  induction first with
  | nil => simp [size]
  | leaf first rest ih => simp [size, ih]; omega
  | element name attributes content rest _ ih => simp [size, ih]; omega

theorem text_append (first later : Forest) : (first ++ later).text = first.text ++ later.text := by
  induction first with
  | nil => simp [text]
  | leaf first rest ih => simp [text, ih]
  | element name attributes content rest _ ih => simp [text, ih]

end Forest

end XmlSelect
