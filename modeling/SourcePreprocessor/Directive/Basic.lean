import SourcePreprocessor.Text.Blank

/-!
# Directives

A directive is named by a keyword and takes an argument of a fixed form. It acts in one of two
passes; the other pass reads over it. The conditional directives are obeyed also where the text is
left out, because they decide where that ends.
-/

namespace SourcePreprocessor

/-- The directives. -/
inductive Directive where
  | ifTrue
  | ifDefined
  | ifUndefined
  | elseIf
  | otherwise
  | endIf
  | globalIf
  | globalOtherwise
  | globalEndIf
  | global
  | excludeIf
  | localVariable
  | define
  | undefine
  | opening
  | closing
  | action
  | echo
  | warning
  | error
  | exit
  | exitIf
  | includeFile
  deriving DecidableEq, Repr

/-- The forms that the text after a keyword can have. -/
inductive ArgumentForm where
  /-- Nothing. -/
  | none
  /-- A plus or a minus sign, which may stand directly after the keyword. -/
  | switch
  /-- One expression. -/
  | expression
  /-- Expressions with commas between them. -/
  | expressions
  /-- Text that the directive itself interprets. -/
  | freeText
  deriving DecidableEq, Repr

/-- The two passes over a file. -/
inductive Pass where
  /-- The pass over all files before any output. -/
  | global
  /-- The pass that produces output line by line. -/
  | line
  deriving DecidableEq, Repr

namespace Directive

/-- All directives, in the order of their reference. -/
def all : List Directive :=
  [.ifTrue, .ifDefined, .ifUndefined, .elseIf, .otherwise, .endIf, .globalIf, .globalOtherwise,
    .globalEndIf, .global, .excludeIf, .localVariable, .define, .undefine, .opening, .closing,
    .action, .echo, .warning, .error, .exit, .exitIf, .includeFile]

/-- The keyword of a directive. -/
def name : Directive → Text
  | .ifTrue => "if".toList
  | .ifDefined => "ifdef".toList
  | .ifUndefined => "ifndef".toList
  | .elseIf => "elif".toList
  | .otherwise => "else".toList
  | .endIf => "endif".toList
  | .globalIf => "_if".toList
  | .globalOtherwise => "_else".toList
  | .globalEndIf => "_endif".toList
  | .global => "global".toList
  | .excludeIf => "excludeif".toList
  | .localVariable => "local".toList
  | .define => "define".toList
  | .undefine => "undef".toList
  | .opening => "prefix".toList
  | .closing => "postfix".toList
  | .action => "action".toList
  | .echo => "echo".toList
  | .warning => "warning".toList
  | .error => "error".toList
  | .exit => "exit".toList
  | .exitIf => "exitif".toList
  | .includeFile => "include".toList

/-- A line on how to use the directive. -/
def reference : Directive → String
  | .ifTrue => "if BOOL_EXPR - open a block kept when the condition is true"
  | .ifDefined => "ifdef NAME - open a block kept when the variable is defined"
  | .ifUndefined => "ifndef NAME - open a block kept when the variable is not defined"
  | .elseIf => "elif BOOL_EXPR - alternative branch of the current block"
  | .otherwise => "else - last branch of the current block"
  | .endIf => "endif - close the current block"
  | .globalIf => "_if BOOL_EXPR - open a block for global pass directives"
  | .globalOtherwise => "_else - last branch of the current global pass block"
  | .globalEndIf => "_endif - close the current global pass block"
  | .global => "global NAME=EXPR - define a global variable in the global pass"
  | .excludeIf => "excludeif BOOL_EXPR - skip the file when true after the global pass"
  | .localVariable => "local NAME=EXPR - define a variable visible in the current file"
  | .define => "define NAME [EXPR] - define a global variable, TRUE by default"
  | .undefine => "undef NAME - remove a local or global variable"
  | .opening => "prefix[+|-] - redirect output to the start of the file, or back"
  | .closing => "postfix[+|-] - redirect output to the end of the file, or back"
  | .action => "action EXPR[,EXPR...] - pass values to the action extension"
  | .echo => "echo TEXT - log an information message"
  | .warning => "warning TEXT - log a warning"
  | .error => "error TEXT - stop with an error"
  | .exit => "exit - stop processing the current file"
  | .exitIf => "exitif BOOL_EXPR - stop processing the current file when true"
  | .includeFile => "include STR_EXPR - process another file in place"

/-- The form of the argument. -/
def argumentForm : Directive → ArgumentForm
  | .otherwise | .endIf | .globalOtherwise | .globalEndIf | .exit => .none
  | .opening | .closing => .switch
  | .ifTrue | .elseIf | .globalIf | .excludeIf | .exitIf | .includeFile => .expression
  | .action => .expressions
  | .ifDefined | .ifUndefined | .global | .localVariable | .define | .undefine | .echo | .warning
  | .error => .freeText

/-- The pass in which the directive acts. -/
def pass : Directive → Pass
  | .globalIf | .globalOtherwise | .globalEndIf | .global | .excludeIf => .global
  | _ => .line

/-- Whether the directive is part of a conditional block. -/
def isConditional : Directive → Bool
  | .ifTrue | .ifDefined | .ifUndefined | .elseIf | .otherwise | .endIf | .globalIf
  | .globalOtherwise | .globalEndIf => true
  | _ => false

/-- Whether the text after a keyword leaves it whole: the text is empty, starts with a blank, or is
a switch. -/
def fits (d : Directive) (rest : Text) : Bool :=
  d.argumentForm = .switch || rest.isEmpty || rest.head?.any Text.isBlank

/-- The text after the keyword, when a text starts with the keyword. -/
def restAfter? (d : Directive) (t : Text) : Option Text := do
  let rest ← Text.stripStart? d.name t
  if d.fits rest then some rest else none

/-- The directive that a text starts with, and the text after its keyword. No text starts with two,
since no keyword followed by a blank or by nothing is the start of another. -/
def find? (t : Text) : Option (Directive × Text) :=
  all.findSome? fun d => (d.restAfter? t).map fun rest => (d, rest)

end Directive

end SourcePreprocessor
