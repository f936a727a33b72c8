import SourcePreprocessor.Text.Basic

/-!
# Names

A variable name starts with a letter, an underscore or a dollar sign and goes on with those, digits
and dots. Letters and digits are those of ASCII. The lexer of expressions and the directives that
define variables share this one definition.
-/

namespace SourcePreprocessor

/-- Whether a name may start with the character. -/
def isNameStart (c : Char) : Bool := c.isAlpha || c = '_' || c = '$'

/-- Whether a name may go on with the character. -/
def isNamePart (c : Char) : Bool := c.isAlphanum || c = '_' || c = '$' || c = '.'

/-- Whether a text is a variable name. -/
def isName : Text → Bool
  | [] => false
  | c :: rest => isNameStart c && rest.all isNamePart

end SourcePreprocessor
