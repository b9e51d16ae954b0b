import XmlSelect.CommandLine.Arguments
import XmlSelect.CommandLine.Execute
import XmlSelect.Encoding.Charset
/-! The command line with its own reader of arguments and the encodings that are built in. -/
namespace XmlSelect.CommandLine

/-- Carries out the command that arguments ask for. -/
def run : (arguments : List Text) → (inputs : Inputs) → Outcome := execute Command.ofArguments?

end XmlSelect.CommandLine
