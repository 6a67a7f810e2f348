/-!
# Tokens — the words of a query and where they stand

A token has a kind, a text and the offset at which messages place it. The text of a keyword is
in upper case, that of a quoted string is what stands between the quotes, and every other
text is as written.
-/

namespace DocQuery

/-- What a token is. -/
inductive TokenKind where
  | keyword
  | identifier
  | string
  | number
  | star
  | comma
  | dot
  | at
  | leftParen
  | rightParen
  | operator
  | semicolon
  | endOfInput
  deriving DecidableEq

/-- A token of a query. -/
structure Token where
  kind : TokenKind
  text : String
  offset : Nat
  deriving DecidableEq

namespace Token

/-- The token is the keyword. -/
def isKeyword (t : Token) (word : String) : Bool :=
  t.kind == .keyword && t.text == word

/-- The token as a message names it. -/
def describe (t : Token) : String :=
  match t.kind with
  | .endOfInput => "end of input"
  | .string => "string '" ++ t.text ++ "'"
  | _ => "'" ++ t.text ++ "'"

/-- The words that name a part of a query. -/
def clauseWords : List String :=
  ["SELECT", "FROM", "WHERE", "AND", "OR", "AS", "INNER", "JOIN", "ON", "GROUP", "BY", "HAVING",
   "ORDER", "ASC", "DESC", "LIMIT", "TRUE", "FALSE", "NULL"]

/-- The commands that would change data. -/
def writeCommands : List String :=
  ["INSERT", "UPDATE", "DELETE", "DROP", "CREATE", "ALTER", "TRUNCATE", "REPLACE", "MERGE",
   "GRANT", "REVOKE"]

/-- Words that are reserved though no query uses them. -/
def reservedWords : List String :=
  ["INTO", "VALUES", "SET", "WITH", "EXPLAIN", "SHOW"]

/-- The keywords: a word that is none of them is an identifier. -/
def keywords : List String :=
  clauseWords ++ writeCommands ++ reservedWords

end Token

end DocQuery
