import XmlSelect.Selector.Parse
/-! The XPath expressions that say the same as selectors. -/
namespace XmlSelect.Selector

/-- A string as an XPath expression: a literal in quotes that it does not hold, or pieces of it put
together with apostrophes between them. -/
def literal (value : Text) : Text :=
  if !value.contains '\'' then '\'' :: value ++ ['\'']
  else if !value.contains '"' then '"' :: value ++ ['"']
  else
    let pieces := (value.splitOn '\'').map fun piece => '\'' :: piece ++ ['\'']
    "concat(".toList ++ List.intercalate ", \"'\", ".toList pieces ++ [')']

/-- The test that a token is one of the words of an attribute. -/
def wordTest (name token : Text) : Text :=
  "contains(concat(' ', normalize-space(@".toList ++ name ++ "), ' '), ".toList ++
    literal (' ' :: token ++ [' ']) ++ [')']

/-- Whether no value at all meets a comparison with this operand. -/
def neverMatches : Comparison → Text → Bool
  | .includesWord, operand => operand.isEmpty || operand.any isSpace
  | .startsWith, operand | .endsWith, operand | .contains, operand => operand.isEmpty
  | .equals, _ | .dashMatch, _ => false

/-- The test of a comparison that some value meets. -/
def comparisonTest (name : Text) (comparison : Comparison) (operand : Text) : Text :=
  let value := '@' :: name
  match comparison with
  | .equals => value ++ '=' :: literal operand
  | .includesWord => wordTest name operand
  | .startsWith => "starts-with(".toList ++ value ++ ", ".toList ++ literal operand ++ [')']
  | .endsWith =>
    "substring(".toList ++ value ++ ", string-length(".toList ++ value ++ ") - ".toList ++
      Text.ofNat (operand.length - 1) ++ ") = ".toList ++ literal operand
  | .contains => "contains(".toList ++ value ++ ", ".toList ++ literal operand ++ [')']
  | .dashMatch =>
    value ++ '=' :: literal operand ++ " or starts-with(".toList ++ value ++ ", ".toList ++
      literal (operand ++ ['-']) ++ [')']

/-- The test of an attribute as a predicate without its brackets. -/
def AttributeTest.toXPath (test : AttributeTest) : Text :=
  match test.condition with
  | none => '@' :: test.name
  | some (comparison, operand) =>
    if neverMatches comparison operand then "false()".toList
    else comparisonTest test.name comparison operand

/-- A test in brackets. -/
def bracketed (test : Text) : Text := '[' :: test ++ [']']

def Compound.toXPath (compound : Compound) : Text :=
  compound.tag.getD ['*'] ++
    compound.ids.flatMap (fun id => bracketed ("@id=".toList ++ literal id)) ++
    compound.classes.flatMap (fun name => bracketed (wordTest "class".toList name)) ++
    compound.attributes.flatMap (fun test => bracketed test.toXPath)

def Combinator.toXPath : Combinator → Text
  | descendant => "//".toList
  | child => "/".toList

/-- A selector as a location path from the document node. -/
def toXPath (selector : Chain) : Text :=
  selector.flatMap fun (combinator, compound) => combinator.toXPath ++ compound.toXPath

/-- The location path that says the same as the selector that a text denotes. -/
def compile (source : Text) : Except Error Text := (parse source).map toXPath

end XmlSelect.Selector
