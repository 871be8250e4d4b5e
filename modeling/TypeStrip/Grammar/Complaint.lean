import TypeStrip.Token.Basic
import TypeStrip.Template.Split

/-! What can be wrong with a text that is not a module. -/
namespace TypeStrip.Grammar
open TypeStrip.Token (Kind)

/-- Statements, expressions and types may be nested to this depth. -/
def maxNesting : Nat := 1000

inductive Complaint where
  | malformedToken (message : String)
  | template (error : Template.SplitError)
  | tooDeep
  | expected (kind found : Kind)
  | expectedWord (word : String) (found : Kind)
  | expectedIdentifier (found : Kind)
  | expectedType (found : Kind)
  | expectedPattern (found : Kind)
  | expectedCloseAngle (found : Kind)
  | expectedSemicolon (found : Kind)
  | expectedDeclaration (found : Kind)
  | expectedDeclarationNotWord (word : String)
  | expectedPropertyName
  | expectedParameterName
  | expectedEnumMember
  | expectedImportSpecifiers
  | expectedVariableKind
  | expectedOperator
  | expectedArrow
  | expectedArguments
  | expectedBody
  | expectedMethodArguments
  | expectedMemberArguments
  | expectedColonInObject
  | expectedColonInPattern
  | expectedCase
  | unexpected (found : Kind)
  | unexpectedAfterExport (found : Kind)
  | unexpectedAfterExpression (found : Kind)
  | emptyTypeParameters
  | restNotLast
  | invalidTarget
  | invalidPrefixOperand
  | invalidPostfixOperand
  | lineBreakAfterThrow
  | tryAlone
  | secondDefault
  | awaitWithoutOf
  | nestedExport
  | importEquals
  | exportEquals
  | typeofImport
  | taggedTemplate
  | newTarget
  | regularExpression
  | withStatement
  | staticBlock
deriving DecidableEq, Repr

def Complaint.message : Complaint → String
  | .malformedToken message => message
  | .template error => error.message
  | .tooDeep => "Nesting exceeds the maximum depth of " ++ toString maxNesting
  | .expected kind found => "Expected " ++ kind.name ++ ", found " ++ found.name
  | .expectedWord word found => "Expected '" ++ word ++ "', found " ++ found.name
  | .expectedIdentifier found => "Expected identifier, found " ++ found.name
  | .expectedType found => "Expected type, found " ++ found.name
  | .expectedPattern found => "Expected binding pattern, found " ++ found.name
  | .expectedCloseAngle found => "Expected '>', found " ++ found.name
  | .expectedSemicolon found => "Expected ';', found " ++ found.name
  | .expectedDeclaration found => "Expected declaration, found " ++ found.name
  | .expectedDeclarationNotWord word => "Expected declaration, found '" ++ word ++ "'"
  | .expectedPropertyName => "Expected property name"
  | .expectedParameterName => "Expected parameter name"
  | .expectedEnumMember => "Expected enum member name"
  | .expectedImportSpecifiers => "Expected import specifiers"
  | .expectedVariableKind => "Expected 'let', 'const' or 'var'"
  | .expectedOperator => "Expected binary operator"
  | .expectedArrow => "Expected '=>'"
  | .expectedArguments => "Expected '('"
  | .expectedBody => "Expected function body"
  | .expectedMethodArguments => "Expected '(' after method name"
  | .expectedMemberArguments => "Expected '(' after accessor or method name"
  | .expectedColonInObject => "Expected ':' after property name"
  | .expectedColonInPattern => "Expected ':' in object pattern"
  | .expectedCase => "Expected 'case' or 'default'"
  | .unexpected found => "Unexpected token: " ++ found.name
  | .unexpectedAfterExport found => "Unexpected " ++ found.name ++ " after 'export'"
  | .unexpectedAfterExpression found => "Unexpected " ++ found.name ++ " after expression"
  | .emptyTypeParameters => "Type parameter list cannot be empty"
  | .restNotLast => "Rest element must be last"
  | .invalidTarget => "Invalid assignment target"
  | .invalidPrefixOperand => "Invalid left-hand side expression in prefix operation"
  | .invalidPostfixOperand => "Invalid left-hand side expression in postfix operation"
  | .lineBreakAfterThrow => "Illegal newline after throw"
  | .tryAlone => "Missing catch or finally after try"
  | .secondDefault => "More than one default clause in switch"
  | .awaitWithoutOf => "'for await' requires an 'of' clause"
  | .nestedExport => "Export declarations may only appear at top level"
  | .importEquals =>
    "'import = require()' syntax is not supported; use an import declaration"
  | .exportEquals => "'export =' syntax is not supported; use 'export default'"
  | .typeofImport => "'typeof import()' types are not supported"
  | .taggedTemplate => "Tagged templates are not supported"
  | .newTarget => "'new.target' is not supported"
  | .regularExpression => "Regular expression literals are not supported"
  | .withStatement => "'with' statements are not supported"
  | .staticBlock => "Static initialization blocks are not supported"

structure ParseError where
  complaint : Complaint
  span : Span
deriving DecidableEq, Repr

def ParseError.message (e : ParseError) : String := e.complaint.message

def ParseError.text (e : ParseError) : String :=
  "Parse error at " ++ toString e.span.start ++ ".." ++ toString e.span.stop ++ ": "
    ++ e.message

def ParseError.diagnostics (errors : List ParseError) : List Diagnostic :=
  errors.map fun e => ⟨"E1000", "Parse error", e.message, e.span.start, e.span.stop⟩

end TypeStrip.Grammar
