import StpLang.Token.Lexer

/-!
Cutting a whole text into tokens.

`Lexed.run` reads tokens up to the end of the text or up to the first error.
The result keeps the tokens before the error, closed by an end mark at the
place where the failing token would have started, so that the same run serves
readers that give up and readers that go on.

* `Lexed.run` cuts the text ahead of a lexer.
* `tokenize` gives the tokens of a text, or the first error.
-/

namespace StpLang

/-- An error of the lexer, and the place before the token that failed. -/
structure LexFault where
  error : Error
  place : Cursor

/-- The outcome of cutting a text into tokens. -/
structure Lexed where
  /-- The tokens, ending with an end mark. -/
  tokens : List Token
  /-- The error that stopped the lexer, if one did. -/
  fault : Option LexFault := none
  /-- What happened, the latest first. -/
  trace : List Event := []

namespace Lexed

/-- A token before what has been read. -/
def cons (t : Token) (l : Lexed) : Lexed := { l with tokens := t :: l.tokens }

/-- Reads tokens from the state `s` on. `bound` is the number of characters
ahead; a token takes at least one, so that when the bound is used up only the
end of the text is left. -/
def runFrom (next : Lex Token) : (bound : Nat) → Lexer → Lexed
  | bound, s =>
    match next s with
    | .error error t =>
      { tokens := [.eofAt s.cursor.line s.cursor.col s.cursor.pos]
        fault := some ⟨error, s.cursor⟩
        trace := t.trace }
    | .ok token t =>
      if token.kind == .eof then { tokens := [token], trace := t.trace }
      else match bound with
        | 0 => { tokens := [token], trace := t.trace }
        | bound + 1 => (runFrom next bound t).cons token

/-- Cuts the text ahead of `c` into tokens, where at most `limit` snippets may
surround a place. -/
def run (limit : Int) (c : Cursor) : Lexed :=
  runFrom (Lexer.nextToken false (Lexer.readSnippet limit limit.toNat))
    c.rest.length { cursor := c }

/-- The tokens, unless an error stopped the lexer. -/
def toExcept (l : Lexed) : Except Error (List Token) :=
  match l.fault with
  | some fault => .error fault.error
  | none => .ok l.tokens

end Lexed

/-- The tokens of the text ahead of a cursor. -/
def tokenizeFrom (limit : Int) (c : Cursor) : Except Error (List Token) :=
  (Lexed.run limit c).toExcept

/-- The tokens of a text, comments and line ends included, with an end mark. -/
def tokenize (source : String) (limit : Int) : Except Error (List Token) :=
  tokenizeFrom limit (.ofText source)

end StpLang
