/-
# The verdict on a text

A text passes if its indentation agrees with the nesting of its parentheses.
There are two verdicts. The lenient one is about the forms the text has,
well structured or not; the strict one refuses a text that is not.

Key definitions: `Verdict.lenient`, `Verdict.strict`.
-/
import ParenLint.Structure
import ParenLint.Indentation

namespace ParenLint
namespace Verdict

def lenient (text : List Char) : Bool := (build (tokenize text)).isIndented

/-- Whether the forms of a well-structured text are indented as they are
nested; for any other text, what is wrong with its structure. -/
def strict (text : List Char) : Except StructureError Bool := (parse text).map Form.isIndented

end Verdict
end ParenLint
