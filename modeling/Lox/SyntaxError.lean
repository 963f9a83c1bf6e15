import Lox.Expression
import Lox.Token

/-!
# Syntax errors

A `SyntaxError` is a cause and a place. The wording is a function of the cause alone:
`SyntaxError.message` says what is wrong, `SyntaxError.label` is the short note put at the place,
and `SyntaxError.help?` a suggestion that some of the causes come with.
-/

set_option autoImplicit false
set_option relaxedAutoImplicit false

namespace Lox

/-- A place where a name has to stand. -/
inductive NamePlace where
  | function
  | parameter
  | variable
deriving DecidableEq, Repr

/-- What can be wrong with a source text. The first two are found among its characters, the others
among its tokens. -/
inductive SyntaxCause where
  | unexpectedCharacter (character : Char)
  | unterminatedString
  | unexpectedToken (wanted : TokenKind) (found : Option TokenKind)
  | missingName (place : NamePlace)
  | missingExpression
  | chainedOperator (operator : BinaryOperator)
  | invalidAssignmentTarget
  | returnOutsideFunction
  | tooManyParameters
  | tooManyArguments
  | classDeclaration
  | classKeyword
  | propertyAccess
deriving DecidableEq

/-- What is wrong, and where. -/
structure SyntaxError where
  cause : SyntaxCause
  span : Span
deriving DecidableEq

/-- The largest number of parameters of a function and of arguments of a call. -/
def maximumArguments : Nat := 255

namespace SyntaxCause

/-- What is wrong, in words. -/
def message : SyntaxCause → String
  | unexpectedCharacter character => "Unexpected character `" ++ character.toString ++ "`"
  | unterminatedString => "Unterminated string"
  | unexpectedToken wanted found =>
    "Expected " ++ wanted.describe ++ " but found " ++ (found.getD .endOfInput).describe
  | missingName .function => "Expected function name after 'fun'"
  | missingName .parameter => "Expected parameter name"
  | missingName .variable => "Expected variable name after 'var'"
  | missingExpression => "Expected expression"
  | chainedOperator operator => "`" ++ operator.text ++ "` cannot be chained"
  | invalidAssignmentTarget => "Invalid assignment target"
  | returnOutsideFunction => "Can't return from top-level code"
  | tooManyParameters => "Can't have more than " ++ toString maximumArguments ++ " parameters"
  | tooManyArguments => "Can't have more than " ++ toString maximumArguments ++ " arguments"
  | classDeclaration => "Class declarations are not supported"
  | classKeyword => "`this` and `super` are only meaningful inside classes"
  | propertyAccess => "Property access is not supported"

/-- The note at the place of the error. -/
def label : SyntaxCause → String
  | unexpectedCharacter _ => "not part of any token"
  | unterminatedString => "string is never closed"
  | unexpectedToken wanted _ => "expected " ++ wanted.describe
  | missingName _ => "expected a name"
  | missingExpression => "expected an expression"
  | chainedOperator _ => "second operator at this level"
  | invalidAssignmentTarget => "only a variable can be assigned"
  | returnOutsideFunction => "outside of any function"
  | tooManyParameters => "parameter " ++ toString (maximumArguments + 1)
  | tooManyArguments => "argument " ++ toString (maximumArguments + 1)
  | classDeclaration => "class declaration"
  | classKeyword => "class keyword"
  | propertyAccess => "property access"

/-- What to do instead. -/
def help? : SyntaxCause → Option String
  | chainedOperator _ => some "group one side in parentheses"
  | classDeclaration => some "declare the behavior as plain functions instead"
  | classKeyword => some "class declarations are not supported"
  | propertyAccess => some "only plain functions and variables are available"
  | _ => none

end SyntaxCause

namespace SyntaxError

/-- What is wrong, in words. -/
def message (error : SyntaxError) : String := error.cause.message

/-- The note at the place of the error. -/
def label (error : SyntaxError) : String := error.cause.label

/-- What to do instead. -/
def help? (error : SyntaxError) : Option String := error.cause.help?

/-- One line for all the errors of a source text. -/
def summary (errors : List SyntaxError) : String := toString errors.length ++ " syntax error(s)"

end SyntaxError

end Lox
