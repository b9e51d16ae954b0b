import XmlSelect.Text.Basic
/-! Why an expression is refused before it is evaluated. -/
namespace XmlSelect.Gate

/-- The check that an expression failed. -/
inductive Rejection
  | nullByte
  | tooLong (limit : Nat)
  | empty
  | unbalancedQuotes
  | unbalancedBrackets
  | excessiveNesting
  | commentPattern
  | encodedCharacters
  | dangerousFunction (name : Text)
  | injectionPattern
deriving DecidableEq

namespace Rejection

/-- The name of the rule behind a check. -/
def rule : Rejection → Text
  | nullByte => "null-byte".toList
  | tooLong _ => "too-long".toList
  | empty => "empty".toList
  | unbalancedQuotes => "unbalanced-quotes".toList
  | unbalancedBrackets => "unbalanced-brackets".toList
  | excessiveNesting => "excessive-nesting".toList
  | commentPattern => "comment-pattern".toList
  | encodedCharacters => "encoded-characters".toList
  | dangerousFunction _ => "dangerous-function".toList
  | injectionPattern => "injection-pattern".toList

def message : Rejection → Text
  | nullByte => "XPath expression contains null bytes".toList
  | tooLong limit =>
    "XPath expression is too long (max ".toList ++ Text.ofNat limit ++ " characters)".toList
  | empty => "XPath expression cannot be empty".toList
  | unbalancedQuotes => "XPath expression contains unbalanced quotes".toList
  | unbalancedBrackets => "XPath expression has unbalanced brackets or parentheses".toList
  | excessiveNesting => "XPath expression has excessive nesting depth".toList
  | commentPattern => "XPath expression contains suspicious comment patterns".toList
  | encodedCharacters => "XPath expression contains encoded characters".toList
  | dangerousFunction name =>
    "XPath expression contains potentially dangerous function: ".toList ++ name ++ "()".toList
  | injectionPattern => "XPath expression contains suspicious injection pattern".toList

end Rejection

end XmlSelect.Gate
