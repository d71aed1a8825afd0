-- SUMMARY: A lexer that hands out tokens one at a time, with any amount of lookahead.
import TypedTemplate.Source.Cursor
import TypedTemplate.Token.Scan

/-!
# Lexers

A lexer reads tokens from a cursor on demand. Tokens that were only looked at wait
in a queue. Faults are kept from the moment a token is read, also for one that
waits. At the end of the text every further token is the end token.
-/

namespace TypedTemplate

structure Lexer where
  cursor : Cursor
  /-- Tokens read from the cursor and not handed out. -/
  queue : List Token
  errors : List LexError

namespace Lexer

/-- A lexer for a text whose first character stands at `place`. -/
def start (place : Place) (text : List Char) : Lexer := ⟨.start place text, [], []⟩

/-- Read the next token from the cursor, past the queue. -/
def scan (l : Lexer) : Token × Lexer :=
  let (skipped, _) := skipTrivia false [] l.cursor.rest
  let cursor := l.cursor.skip skipped.length
  match cursor.rest with
  | []        => (.eof cursor.place, { l with cursor })
  | c :: rest =>
    let lexeme := (scanToken cursor.place c rest).lexeme
    (lexeme.token,
      { l with cursor := cursor.skip lexeme.stretch.length, errors := l.errors ++ lexeme.errors })

/-- Hand out the next token. -/
def next (l : Lexer) : Token × Lexer :=
  match l.queue with
  | t :: queue => (t, { l with queue })
  | []         => l.scan

/-- Read tokens into the queue, `count` of them. -/
def fill (l : Lexer) : (count : Nat) → Lexer
  | 0         => l
  | count + 1 =>
    let (t, l) := l.scan
    { l with queue := l.queue ++ [t] }.fill count

/-- Look at the token that `n` calls of `next` lead up to. -/
def peek (l : Lexer) (n : Nat) : Token × Lexer :=
  let l := l.fill (n + 1 - l.queue.length)
  (l.queue.getD n (.eof l.cursor.place), l)

def hasErrors (l : Lexer) : Bool := !l.errors.isEmpty

/-- Hand out the faults found so far and forget them. -/
def takeErrors (l : Lexer) : List LexError × Lexer := (l.errors, { l with errors := [] })

end Lexer

end TypedTemplate
