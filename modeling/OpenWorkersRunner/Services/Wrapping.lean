import Mathlib.Data.List.DropRight

/-!
# Wrapping a query (`services/database.rs`)

`wrap_query_as_json` trims the text of a query and puts it between parentheses.  What the closing
one means is decided by the lexer of PostgreSQL, which `scan` is: a character at a time, with the
strings, quoted identifiers, dollar quotes and comments it can be in.
-/

namespace OpenWorkersRunner.Wrapping

open List

/-! ## The lexer -/

/-- The last thing in code: nothing that the next character is joined to, an `E` alone, another
word, or an operator or a literal. -/
inductive Word
  | none
  | e
  | ident
  | other
deriving DecidableEq

/-- `dash`, `slash`, `tag` and `quote` wait for the next character: a comment, a dollar quote and a
doubled quote begin there, or do not.  A string goes on with a quote after a new line, and line
comments may stand in between: `gap`, `gapDash` and `gapLine` are there after an `E` string, which
has its escapes also where it goes on. -/
inductive Lex
  | code (word : Word)
  | dash (word : Word)
  | slash (word : Word)
  | tag (word : Word) (tag : List Char)
  | text (escapes : Bool)
  | escaped
  | quote (escapes : Bool)
  | gap (newline : Bool)
  | gapDash (joined : Bool)
  | gapLine
  | quoted
  | body (tag seen : List Char)
  | line
  | block (depth : Nat) (last : Char)
deriving DecidableEq

/-- A character in code, joined to the last one or not, or one of a literal. -/
inductive Tok
  | opened
  | closed
  | semi
  | code (c : Char) (joined : Bool)
  | lit (c : Char)
deriving DecidableEq

def isNewline (c : Char) : Bool := c == '\n' || c == '\r'

def isSpace (c : Char) : Bool := [' ', '\t', '\n', '\r', '\x0b', '\x0c'].contains c

def isIdent (c : Char) : Bool := c.isAlphanum || c == '_' || c.toNat ≥ 128

def codeStep (w : Word) (c : Char) : Lex × List Tok :=
  if isSpace c then (.code .none, [])
  else if c = '(' then (.code .none, [.opened])
  else if c = ')' then (.code .none, [.closed])
  else if c = ';' then (.code .none, [.semi])
  else if c = '\x27' then (.text (w = .e), [.lit c])
  else if c = '"' then (.quoted, [.lit c])
  else if c = '-' then (.dash w, [])
  else if c = '/' then (.slash w, [])
  else if c = '$' ∧ (w = .none ∨ w = .other) then (.tag w [], [])
  else if isIdent c ∨ c = '$' then
    (.code (if (c = 'e' ∨ c = 'E') ∧ (w = .none ∨ w = .other) then .e else .ident),
      [.code c (w ≠ .none)])
  else (.code .other, [.code c (w ≠ .none)])

/-- What waits, when it turns out to be code. -/
def Lex.pending : Lex → List Tok
  | .dash w => [.code '-' (w ≠ .none)]
  | .slash w => [.code '/' (w ≠ .none)]
  | .tag w chars => .code '$' (w ≠ .none) :: chars.map (.code · true)
  | .gapDash joined => [.code '-' joined]
  | _ => []

def resume (q : Lex) (w : Word) (c : Char) : Lex × List Tok :=
  ((codeStep w c).1, q.pending ++ (codeStep w c).2)

def step (q : Lex) (c : Char) : Lex × List Tok :=
  match q with
  | .code w => codeStep w c
  | .dash _ => if c = '-' then (.line, []) else resume q .other c
  | .slash _ => if c = '*' then (.block 0 ' ', []) else resume q .other c
  | .tag w tag =>
    if c = '$' then (.body tag [], q.pending ++ [.lit c])
    else if isIdent c ∧ (tag ≠ [] ∨ ¬ c.isDigit) then (.tag w (tag ++ [c]), [])
    else resume q .ident c
  | .text escapes =>
    if c = '\x27' then (.quote escapes, [.lit c])
    else if escapes ∧ c = '\\' then (.escaped, [.lit c])
    else (.text escapes, [.lit c])
  | .escaped => (.text true, [.lit c])
  | .quote escapes =>
    if c = '\x27' then (.text escapes, [.lit c])
    else if escapes ∧ isSpace c then (.gap (isNewline c), [])
    else if escapes ∧ c = '-' then (.gapDash true, [])
    else resume q .other c
  | .gap newline =>
    if c = '\x27' ∧ newline then (.text true, [.lit c])
    else if isSpace c then (.gap (newline || isNewline c), [])
    else if c = '-' then (.gapDash false, [])
    else resume q .none c
  | .gapDash _ => if c = '-' then (.gapLine, []) else resume q .other c
  | .gapLine => (if isNewline c then .gap true else .gapLine, [])
  | .quoted => (if c = '"' then .code .other else .quoted, [.lit c])
  | .body tag seen =>
    (if ('$' :: (tag.reverse ++ ['$'])).isPrefixOf (c :: seen) then .code .other
      else .body tag (c :: seen), [.lit c])
  | .line => (if isNewline c then .code .none else .line, [])
  | .block depth last =>
    if last = '/' ∧ c = '*' then (.block (depth + 1) ' ', [])
    else if last = '*' ∧ c = '/' then
      (if depth = 0 then .code .none else .block (depth - 1) ' ', [])
    else (.block depth c, [])

def scan : Lex → List Char → Lex × List Tok
  | q, [] => (q, [])
  | q, c :: cs => ((scan (step q c).1 cs).1, (step q c).2 ++ (scan (step q c).1 cs).2)

/-- What is between a parenthesis that is open and the one that closes it. -/
def close : Nat → List Tok → Option (List Tok)
  | _, [] => none
  | 0, .closed :: _ => some []
  | d + 1, .closed :: toks => (close d toks).map (.closed :: ·)
  | d, .opened :: toks => (close (d + 1) toks).map (.opened :: ·)
  | d, t :: toks => (close d toks).map (t :: ·)

inductive QueryMode
  | select
  | returningMutation
  | mutation
deriving DecidableEq

/-- What stands before and after the text, `none` for what is `unreachable!`. -/
def frame : QueryMode → Option (List Char × List Char)
  | .select =>
    some ("SELECT COALESCE(jsonb_agg(row_to_json(t)), '[]'::jsonb) as result FROM (".toList,
      " t".toList)
  | .returningMutation =>
    some ("WITH t AS (".toList,
      " SELECT COALESCE(jsonb_agg(row_to_json(t)), '[]'::jsonb) as result FROM t".toList)
  | .mutation => none

/-- `sql.trim().trim_end_matches(';')`, for the `char::is_whitespace` of Rust. -/
def trimmed (white : Char → Bool) (sql : List Char) : List Char :=
  ((sql.dropWhile white).rdropWhile white).rdropWhile (· == ';')

variable {q : Lex} {text : List Char}

section wrapped

variable {white : Char → Bool} {sql : List Char}

/-- The tokens of the trimmed text. -/
def statement (white : Char → Bool) (sql : List Char) : List Tok :=
  (scan (.code .none) (trimmed white sql)).2 ++ (scan (.code .none) (trimmed white sql)).1.pending

end wrapped

end OpenWorkersRunner.Wrapping
