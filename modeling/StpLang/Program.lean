import StpLang.Grammar.Statement
import StpLang.Token.Lexed
import StpLang.Tree

/-!
Reading a program text.

The text is cut into tokens and the tokens are read. A strict reader stops at
the first error. Another one gives a tree in every case: broken statements are
replaced by nodes that stand for the errors, and so is the text behind a place
where no token could be read.

* `readFrom` reads the text ahead of a cursor and keeps the log.
* `parse` reads a program.
-/

namespace StpLang

/-- The outcome of reading a program, with the log in the order of events. -/
structure Reading where
  result : Except Error Tree
  trace : List Event := []

/-- The node that stands for the text that could not be cut into tokens. -/
def unreadable (fault : LexFault) (length : Nat) : Node :=
  .spanning .error ⟨fault.error.span.line, fault.error.span.col, fault.place.pos⟩
    length [] [] (some fault.error.message)

/-- Adds to a program the text behind the place where the lexer stopped. -/
def Tree.withUnreadable (t : Tree) (fault : LexFault) (length : Nat) : Tree :=
  { t with
    root := { t.root with
      stop := length
      children := t.root.children ++ [unreadable fault length] }
    errors := t.errors ++ [fault.error] }

/-- Reads the tokens of a program. -/
def readTokens (limit : Int) (strict : Bool) (tokens : List Token)
    (trace : List Event) : Reading :=
  let start := { Parser.ofTokens tokens with trace }
  match Grammar.program (Grammar.levelAt limit strict 0) 0 start with
  | .ok root s => ⟨.ok (.ofNode root s.errors s.trivia), s.trace.reverse⟩
  | .error e s => ⟨.error e, s.trace.reverse⟩

/-- Reads the program text ahead of a cursor. -/
def readFrom (limit : Int) (strict : Bool) (c : Cursor) : Reading :=
  let lexed := Lexed.run limit c
  match lexed.fault with
  | none => readTokens limit strict lexed.tokens lexed.trace
  | some fault =>
    if strict then ⟨.error fault.error, lexed.trace.reverse⟩
    else
      let reading :=
        readTokens limit strict lexed.tokens (.lexingStopped fault.error :: lexed.trace)
      let length := c.past.length + c.rest.length
      { reading with result := reading.result.map (·.withUnreadable fault length) }

/-- Reads a program text. -/
def read (source : String) (strict : Bool) (limit : Int) : Reading :=
  readFrom limit strict (.ofText source)

/-- The tree of a program text. -/
def parse (source : String) (strict : Bool) (limit : Int) : Except Error Tree :=
  (read source strict limit).result

end StpLang
