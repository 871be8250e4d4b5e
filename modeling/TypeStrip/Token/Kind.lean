/-! The kinds of tokens and their fixed spellings. -/
namespace TypeStrip.Token

/-- The kinds of tokens. Reserved words and operators have kinds of their own; words with a
meaning only in some places, such as `type`, `of` and `async`, are identifiers. -/
inductive Kind where
  | kwLet | kwConst | kwVar | kwFunction | kwReturn | kwIf | kwElse | kwFor | kwWhile | kwDo
  | kwBreak | kwContinue | kwSwitch | kwCase | kwDefault | kwClass | kwExtends | kwEnum
  | kwImport | kwExport | kwNew | kwThis | kwSuper | kwTypeof | kwInstanceof | kwIn | kwVoid
  | kwDelete | kwNull | kwTrue | kwFalse | kwAwait | kwYield | kwTry | kwCatch | kwFinally
  | kwThrow | kwDebugger | kwWith
  | number | string | template | bigint | identifier
  | plus | minus | star | slash | percent | starStar | eq | eqEq | eqEqEq | bangEq | bangEqEq
  | lt | gt | ltEq | gtEq | ampAmp | pipePipe | bang | amp | pipe | caret | tilde | ltLt | gtGt
  | gtGtGt | plusEq | minusEq | starEq | slashEq | percentEq | starStarEq | ampAmpEq | pipePipeEq
  | questionQuestionEq | ltLtEq | gtGtEq | gtGtGtEq | ampEq | pipeEq | caretEq | questionQuestion
  | questionDot | plusPlus | minusMinus | fatArrow | dotDotDot
  | lParen | rParen | lBrace | rBrace | lBracket | rBracket | semicolon | comma | dot | colon
  | question | atSign
  | eof | error
deriving DecidableEq, Inhabited, Repr

def reservedWords : List (String × Kind) := [
  ("let", .kwLet), ("const", .kwConst), ("var", .kwVar), ("function", .kwFunction),
  ("return", .kwReturn), ("if", .kwIf), ("else", .kwElse), ("for", .kwFor), ("while", .kwWhile),
  ("do", .kwDo), ("break", .kwBreak), ("continue", .kwContinue), ("switch", .kwSwitch),
  ("case", .kwCase), ("default", .kwDefault), ("class", .kwClass), ("extends", .kwExtends),
  ("enum", .kwEnum), ("import", .kwImport), ("export", .kwExport), ("new", .kwNew),
  ("this", .kwThis), ("super", .kwSuper), ("typeof", .kwTypeof), ("instanceof", .kwInstanceof),
  ("in", .kwIn), ("void", .kwVoid), ("delete", .kwDelete), ("null", .kwNull), ("true", .kwTrue),
  ("false", .kwFalse), ("await", .kwAwait), ("yield", .kwYield), ("try", .kwTry),
  ("catch", .kwCatch), ("finally", .kwFinally), ("throw", .kwThrow), ("debugger", .kwDebugger),
  ("with", .kwWith)]

/-- The operators and delimiters, a longer spelling before every spelling that begins it. -/
def operators : List (String × Kind) := [
  (">>>=", .gtGtGtEq), ("===", .eqEqEq), ("!==", .bangEqEq), (">>>", .gtGtGt),
  ("**=", .starStarEq), ("&&=", .ampAmpEq), ("||=", .pipePipeEq), ("??=", .questionQuestionEq),
  ("<<=", .ltLtEq), (">>=", .gtGtEq), ("...", .dotDotDot), ("**", .starStar), ("==", .eqEq),
  ("!=", .bangEq), ("<=", .ltEq), (">=", .gtEq), ("&&", .ampAmp), ("||", .pipePipe),
  ("<<", .ltLt), (">>", .gtGt), ("+=", .plusEq), ("-=", .minusEq), ("*=", .starEq),
  ("/=", .slashEq), ("%=", .percentEq), ("&=", .ampEq), ("|=", .pipeEq), ("^=", .caretEq),
  ("??", .questionQuestion), ("?.", .questionDot), ("++", .plusPlus), ("--", .minusMinus),
  ("=>", .fatArrow), ("+", .plus), ("-", .minus), ("*", .star), ("/", .slash), ("%", .percent),
  ("=", .eq), ("<", .lt), (">", .gt), ("!", .bang), ("&", .amp), ("|", .pipe), ("^", .caret),
  ("~", .tilde), ("(", .lParen), (")", .rParen), ("\x7b", .lBrace), ("\x7d", .rBrace),
  ("[", .lBracket), ("]", .rBracket), (";", .semicolon), (",", .comma), (".", .dot),
  (":", .colon), ("?", .question), ("@", .atSign)]

def Kind.ofWord? (word : String) : Option Kind := reservedWords.lookup word

/-- Whether the kind is that of a reserved word. Reserved words may still name properties and
stand in import and export lists. -/
def Kind.isReserved (kind : Kind) : Bool := reservedWords.any (·.2 == kind)

def Kind.name : Kind → String
  | .kwLet => "Let" | .kwConst => "Const" | .kwVar => "Var" | .kwFunction => "Function"
  | .kwReturn => "Return" | .kwIf => "If" | .kwElse => "Else" | .kwFor => "For"
  | .kwWhile => "While" | .kwDo => "Do" | .kwBreak => "Break" | .kwContinue => "Continue"
  | .kwSwitch => "Switch" | .kwCase => "Case" | .kwDefault => "Default" | .kwClass => "Class"
  | .kwExtends => "Extends" | .kwEnum => "Enum" | .kwImport => "Import" | .kwExport => "Export"
  | .kwNew => "New" | .kwThis => "This" | .kwSuper => "Super" | .kwTypeof => "Typeof"
  | .kwInstanceof => "Instanceof" | .kwIn => "In" | .kwVoid => "Void" | .kwDelete => "Delete"
  | .kwNull => "Null" | .kwTrue => "True" | .kwFalse => "False" | .kwAwait => "Await"
  | .kwYield => "Yield" | .kwTry => "Try" | .kwCatch => "Catch" | .kwFinally => "Finally"
  | .kwThrow => "Throw" | .kwDebugger => "Debugger" | .kwWith => "With"
  | .number => "NumberLiteral" | .string => "StringLiteral" | .template => "TemplateLiteral"
  | .bigint => "BigIntLiteral" | .identifier => "Identifier" | .plus => "Plus"
  | .minus => "Minus" | .star => "Star" | .slash => "Slash" | .percent => "Percent"
  | .starStar => "StarStar" | .eq => "Eq" | .eqEq => "EqEq" | .eqEqEq => "EqEqEq"
  | .bangEq => "BangEq" | .bangEqEq => "BangEqEq" | .lt => "Lt" | .gt => "Gt" | .ltEq => "LtEq"
  | .gtEq => "GtEq" | .ampAmp => "AmpAmp" | .pipePipe => "PipePipe" | .bang => "Bang"
  | .amp => "Amp" | .pipe => "Pipe" | .caret => "Caret" | .tilde => "Tilde" | .ltLt => "LtLt"
  | .gtGt => "GtGt" | .gtGtGt => "GtGtGt" | .plusEq => "PlusEq" | .minusEq => "MinusEq"
  | .starEq => "StarEq" | .slashEq => "SlashEq" | .percentEq => "PercentEq"
  | .starStarEq => "StarStarEq" | .ampAmpEq => "AmpAmpEq" | .pipePipeEq => "PipePipeEq"
  | .questionQuestionEq => "QuestionQuestionEq" | .ltLtEq => "LtLtEq" | .gtGtEq => "GtGtEq"
  | .gtGtGtEq => "GtGtGtEq" | .ampEq => "AmpEq" | .pipeEq => "PipeEq" | .caretEq => "CaretEq"
  | .questionQuestion => "QuestionQuestion" | .questionDot => "QuestionDot"
  | .plusPlus => "PlusPlus" | .minusMinus => "MinusMinus" | .fatArrow => "FatArrow"
  | .dotDotDot => "DotDotDot" | .lParen => "LParen" | .rParen => "RParen" | .lBrace => "LBrace"
  | .rBrace => "RBrace" | .lBracket => "LBracket" | .rBracket => "RBracket"
  | .semicolon => "Semicolon" | .comma => "Comma" | .dot => "Dot" | .colon => "Colon"
  | .question => "Question" | .atSign => "At" | .eof => "Eof" | .error => "Error"

end TypeStrip.Token
