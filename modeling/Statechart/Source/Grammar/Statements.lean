import Statechart.Source.Grammar.Expressions

/-!
# The grammar of statements

A statement ends with a semicolon, before a closing brace, at the end of the text, or with its
line. Only the statements that bind names at the top of a file are told apart; any other is just a
statement with what it holds. What follows no rule is passed over, so that every text has a tree.
-/

namespace Statechart.Source.Grammar

open Pattern

/-! ## 1. Endings and blocks -/

/-- What ends a statement. -/
def statementEnd : Pattern :=
  choice [mark ";", ahead (mark closeBrace), finished, freshLine]

/-- What no statement starts with is passed over. -/
def unknown : Pattern := leaf .statement .anything

/-- Statements in braces. -/
def block : Pattern :=
  let inner := choice [phrase .statement, seq [notAhead (mark closeBrace), unknown]]
  node .statement (seq [mark openBrace, outside (many inner), mark closeBrace])

/-- An expression in parentheses after a word. -/
def condition : Pattern := between "(" (phrase .expression) ")"

/-! ## 2. Declarations -/

/-- One declared variable, with its initial value as a node of its own. -/
def declarator : Pattern :=
  node .declarator (seq [phrase .binding, opt (sign "!" "="), opt annotation,
    opt (node .initializer (seq [equals, phrase .single]))])

/-- The words that declare variables. -/
def declaringWord : Pattern := choice [word "const", word "let", word "var"]

/-- Some declared variables. -/
def declaredVariables : Pattern := seq [declaringWord, separated (mark ",") declarator]

/-- A function with a name. Without a body nothing is declared. -/
def functionDeclaration : Pattern :=
  let head := seq [opt (seq [word "async", sameLine]), word "function", opt (mark "*"),
    variableName, phrase .signature]
  choice [
    node .functionDeclaration (seq [head, phrase .block]),
    node .statement (seq [head, phrase .statementEnd])]

/-- A class, whose name may be left out. -/
def classDeclaration : Pattern :=
  node .classDeclaration (seq [many (phrase .decorator), opt (word "abstract"), word "class",
    opt className, phrase .classTail])

/-- An interface. -/
def interfaceDeclaration : Pattern :=
  node .statement (seq [word "interface", leaf .typeName .name, opt (phrase .typeParameters),
    opt (seq [word "extends", separated (mark ",") (phrase .type)]), phrase .typeBody])

/-- Anything that is declared. -/
def declaration : Pattern :=
  let constants := list (seq [phrase .propertyKey, defaultValue])
  choice [
    node .statement (seq [opt (word "const"), word "enum", variableName,
      between openBrace constants closeBrace]),
    node .declaration (seq [declaredVariables, phrase .statementEnd]),
    functionDeclaration,
    classDeclaration,
    interfaceDeclaration,
    node .statement (seq [word "type", leaf .typeName .name, opt (phrase .typeParameters), equals,
      phrase .type, phrase .statementEnd]),
    node .statement (seq [choice [word "namespace", word "module"], sameLine,
      choice [phrase .string, dottedName], choice [phrase .block, phrase .statementEnd]]),
    node .ambientDeclaration (seq [word "declare", sameLine,
      choice [phrase .declaration, seq [word "global", phrase .block]]])]

/-! ## 3. Imports and exports -/

/-- A name that a module exports. -/
def exportedName : Pattern := choice [phrase .string, leaf .identifier .word]

/-- One name of a list of imports or exports, perhaps with another name for it. -/
def specifier (kind : Kind) : Pattern :=
  choice [
    node kind (seq [word "type", exportedName, word "as", exportedName]),
    node kind (seq [word "type", exportedName, ahead (choice [mark ",", mark closeBrace])]),
    node kind (seq [exportedName, word "as", exportedName]),
    node kind exportedName]

/-- The names that an import declares. -/
def importClause : Pattern :=
  let all := node .namespaceImport (seq [mark "*", word "as", variableName])
  let some := node .namedImports (between openBrace (list (specifier .importSpecifier)) closeBrace)
  node .importClause (choice [
    all,
    some,
    seq [variableName, opt (seq [mark ",", choice [all, some]])]])

/-- Where an import or an export is from. -/
def source : Pattern :=
  seq [phrase .string,
    opt (seq [choice [word "with", seq [sameLine, word "assert"]], phrase .object])]

/-- An import, or another name for something known. -/
def imports : Pattern :=
  let kinds := choice [word "type", word "typeof"]
  let clauses := seq [importClause, word "from"]
  let required := seq [variableName, mark "=", word "require", between "(" (phrase .string) ")"]
  let renamed := seq [variableName, mark "=", dottedName]
  choice [
    node .importStatement (seq [word "import", opt clauses, source, phrase .statementEnd]),
    node .importStatement (seq [word "import", kinds, clauses, source, phrase .statementEnd]),
    node .importStatement (seq [word "import", required, phrase .statementEnd]),
    node .importStatement (seq [word "import", kinds, required, phrase .statementEnd]),
    node .importAlias (seq [word "import", renamed, phrase .statementEnd]),
    node .importAlias (seq [word "import", kinds, renamed, phrase .statementEnd])]

/-- An export. What it declares is a declaration of its own below it. -/
def exports : Pattern :=
  let origin := seq [word "from", source]
  node .exportStatement (seq [many (phrase .decorator), word "export", choice [
    seq [opt (word "type"), mark "*", opt (seq [word "as", exportedName]), origin,
      phrase .statementEnd],
    seq [opt (word "type"), between openBrace (list (specifier .exportSpecifier)) closeBrace,
      opt origin, phrase .statementEnd],
    seq [equals, phrase .expression, phrase .statementEnd],
    seq [word "as", word "namespace", variableName, phrase .statementEnd],
    seq [word "default", choice [
      functionDeclaration,
      classDeclaration,
      interfaceDeclaration,
      seq [phrase .expression, phrase .statementEnd]]],
    phrase .imports,
    phrase .declaration]])

/-! ## 4. Other statements -/

/-- The head of a loop over something. -/
def loopHead : Pattern :=
  let through := seq [choice [word "of", word "in"], phrase .expression]
  choice [
    seq [declaringWord, phrase .binding, through],
    seq [choice [phrase .target, phrase .postfixed], through],
    seq [opt (choice [node .statement declaredVariables, phrase .expression]), mark ";",
      opt (phrase .expression), mark ";", opt (phrase .expression)]]

/-- The cases of a choice by value. -/
def cases : Pattern :=
  let body := seq [mark ":", many (phrase .statement)]
  many (choice [seq [word "case", inside (phrase .expression), body], seq [word "default", body]])

/-- The statements that start with a word of their own. -/
def wordStatement : Pattern :=
  choice [
    seq [word "if", condition, phrase .statement, opt (seq [word "else", phrase .statement])],
    seq [word "for", opt (word "await"), between "(" loopHead ")", phrase .statement],
    seq [word "while", condition, phrase .statement],
    seq [word "do", phrase .statement, word "while", condition, opt (mark ";")],
    seq [word "switch", condition, mark openBrace, outside cases, mark closeBrace],
    seq [word "try", phrase .block,
      opt (seq [word "catch",
        opt (between "(" (seq [phrase .binding, opt annotation]) ")"), phrase .block]),
      opt (seq [word "finally", phrase .block])],
    seq [word "return", opt (seq [sameLine, phrase .expression]), phrase .statementEnd],
    seq [word "throw", phrase .expression, phrase .statementEnd],
    seq [choice [word "break", word "continue"], opt (seq [sameLine, leaf .labelName .name]),
      phrase .statementEnd],
    seq [word "debugger", phrase .statementEnd],
    seq [word "with", condition, phrase .statement]]

/-- Any statement. -/
def statement : Pattern :=
  choice [
    phrase .block,
    mark ";",
    phrase .imports,
    exports,
    phrase .declaration,
    node .statement wordStatement,
    node .statement (seq [leaf .labelName .name, mark ":", phrase .statement]),
    node .statement (seq [phrase .expression, phrase .statementEnd])]

/-- A whole file. -/
def program : Pattern :=
  node .program (seq [
    opt (leaf .statement .interpreterLine),
    outside (many (choice [phrase .statement, unknown]))])

/-! ## 5. All phrases -/

/-- The pattern of each phrase. -/
def grammar : Phrase → Pattern
  | .expression => expression
  | .single => single
  | .chain => chain
  | .tight => tight
  | .prefixed => prefixed
  | .postfixed => postfixed
  | .primary => primary
  | .arguments => arguments
  | .string => string
  | .template => template
  | .object => object
  | .target => target
  | .element => element
  | .parameters => parameters
  | .binding => binding
  | .signature => signature
  | .classTail => classTail
  | .propertyKey => propertyKey
  | .decorator => decorator
  | .type => type
  | .unionType => unionType
  | .unaryType => unaryType
  | .primaryType => primaryType
  | .returnType => returnType
  | .typeArguments => typeArguments
  | .typeParameters => typeParameters
  | .typeBody => typeBody
  | .statement => statement
  | .declaration => declaration
  | .imports => imports
  | .block => block
  | .statementEnd => statementEnd
  | .program => program

end Statechart.Source.Grammar
