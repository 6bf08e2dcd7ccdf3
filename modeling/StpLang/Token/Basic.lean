import StpLang.Span
import StpLang.Text.Quoted
import StpLang.Token.Kind

/-!
Tokens and the segments of strings.

A token records its kind, its text and its place, and whether white space or
the start of the input precedes it. A string token also holds its segments, and
a segment that is a formatting snippet holds tokens again.

* `Token.sameAs` and `Segment.sameAs` compare what identifies a token or a
  segment; the ends of their ranges do not.
* `Token.describe` is how a message calls a token that it found.
-/

namespace StpLang

/-- What a segment of a string is, where `τ` is the type of tokens. -/
inductive SegmentForm (τ : Type) where
  /-- A run of characters that stand for themselves. -/
  | chars
  /-- A backslash and one letter, quote or backslash. -/
  | escape
  /-- A character given by its hexadecimal digits. -/
  | unicode (digits : String)
  /-- A character given by three octal digits. -/
  | octal
  /-- An expression between `\{` and `\}`; the tokens end with an end mark at
  the closing backslash. -/
  | snippet (tokens : List τ)
  /-- A form that no text produces. -/
  | other (name : String)
deriving Repr

/-- The public name of the form of a segment. -/
def SegmentForm.name {τ : Type} : SegmentForm τ → String
  | .chars => "string_char"
  | .escape => "escape_sequence"
  | .unicode _ => "unicode_escape"
  | .octal => "octal_escape"
  | .snippet _ => "formatting_snippet"
  | .other name => name

/-- One piece of a string. -/
structure Segment (τ : Type) where
  /-- What the piece is. -/
  form : SegmentForm τ
  /-- Its spelling in the source. -/
  text : String
  line : Nat
  col : Nat
  start : Nat
  stop : Nat
deriving Repr

/-- One token. -/
structure Token where
  kind : TokenKind
  /-- The text of the token, without carriage returns at the end of a
  comment. -/
  value : String
  line : Nat := 0
  col : Nat := 0
  start : Nat := 0
  stop : Nat := 0
  /-- White space, a line end or the start of the input precedes the token. -/
  spaced : Bool := false
  /-- The pieces of a string. -/
  segments : List (Segment Token) := []
deriving Repr, Inhabited

namespace Segment

variable {τ : Type}

/-- The range of a segment. -/
def span (s : Segment τ) : Span := .of s.start s.stop s.line s.col

/-- Two segments agree on form, spelling and start. -/
def sameAs (a b : Segment τ) : Bool :=
  a.form.name == b.form.name && a.text == b.text && a.start == b.start

/-- The printed form of a segment. -/
def describe (s : Segment τ) : String :=
  "StringSegment(" ++ s.form.name ++ ", " ++ Text.quoted s.text ++ ")"

end Segment

namespace Token

/-- The range of a token. -/
def span (t : Token) : Span := .of t.start t.stop t.line t.col

/-- Two tokens agree on kind, text, line and column. -/
def sameAs (a b : Token) : Bool :=
  a.kind == b.kind && a.value == b.value && a.line == b.line && a.col == b.col

/-- The printed form of a token. -/
def describe (t : Token) : String :=
  "Token(" ++ t.kind.name ++ ", " ++ t.value ++ ")"

/-- The end of the input at a given place. -/
def eofAt (line col offset : Nat) : Token :=
  { kind := .eof, value := "", line, col, start := offset, stop := offset }

end Token

/-- What a message says it found. -/
inductive Found where
  /-- The end of the input. -/
  | endOfInput
  /-- The end of a line. -/
  | endOfLine
  /-- A token with this text. -/
  | text (value : String)
deriving DecidableEq, Repr

/-- How a message calls a token. -/
def Found.of (t : Token) : Found :=
  match t.kind with
  | .eof => .endOfInput
  | .newline => .endOfLine
  | _ => .text t.value

/-- The wording of what was found. -/
def Found.message : Found → String
  | .endOfInput => "end of input"
  | .endOfLine => "end of line"
  | .text value => "'" ++ value ++ "'"

end StpLang
