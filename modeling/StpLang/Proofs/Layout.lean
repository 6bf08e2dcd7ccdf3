import StpLang.Proofs.Layout.Statement
import StpLang.Proofs.Render

/-!
Showing a program as text only changes its layout.

* `tokenize_of_spread` cuts a text that holds given tokens.
* `render_lexemes`: a program and the text of its tree have the same lexemes.
-/

namespace StpLang

open Lexer Source

section

variable {limit : Int} {s : Lexer} {ts us : List Token} {text : String}

/-- A text that holds tokens is cut into tokens that count the same. -/
lemma tokenize_of_spread (h : Spread limit.toNat ts text.toList []) :
    ∃ us e, tokenize text limit = .ok (us ++ [e]) ∧ e.kind = .eof
      ∧ Token.items us = Token.items ts := by
  have hrest : (Cursor.ofText text).rest = text.toList ++ [] := (List.append_nil _).symm
  obtain ⟨us, t, hus, hitems, -, hend⟩ := h.lexes (s := { cursor := .ofText text }) rfl hrest
  obtain ⟨e, -, -, he, htokens⟩ :=
    tokenize_of_lexes hus (by rw [Cursor.rest_forward, hend, List.drop_nil])
  exact ⟨us, e, htokens, he, hitems⟩

/-- The text of a program is that of its statements. -/
lemma render_of_statements {t : Tree} {sheet : Sheet} (hk : t.root.kind = .sourceFile)
    (h : statements t.root.children {} = .ok ((), sheet)) :
    Target.stp.render t = .ok sheet.output :=
  Target.render_of_isRoot rfl (by rw [hk]; rfl) ((run_sourceFile hk {}).trans h)

/-- In the text of a sheet, the line end behind the last line takes the place of the
one before the first. -/
lemma Prints.output {n : Nat} {xs : List Token} {d : List Char} {sheet : Sheet}
    (h : Prints n EndsLine xs {} sheet d) :
    ∃ ys, xs ++ [lineEndToken] = lineEndToken :: ys ∧ Spread n ys sheet.output.toList [] := by
  have hlast : Spread n (xs ++ [lineEndToken]) (d ++ ['\n']) [] :=
    (h.spread ['\n'] rfl).append (w := ['\n']) (.line .nil .nil (.last .nil .nil))
  have hchars : d ++ ['\n'] = '\n' :: sheet.output.toList := by
    rw [Sheet.chars_output, h.chars]
    rfl
  rw [hchars] at hlast
  exact hlast.tail

/-- The text of an accepted program holds the tokens of the program, laid out
anew. -/
lemma Accepted.spread {source : String} {e : Token} {ns : List Node}
    (h : Accepted source limit ts us e ns) :
    ∃ text xs, Target.stp.render (programTree ts us e ns) = .ok text
      ∧ Relaid none us (lineEndToken :: xs) ∧ Spread limit.toNat xs text.toList [] := by
  obtain ⟨s, d, hrun, hadds, -⟩ := h.derives.addsLines h.spelled {}
  obtain ⟨xs, hxs, hspread⟩ := hadds.holds
  obtain ⟨ys, hys, hlines⟩ := Prints.output ⟨hadds.toExtended, hspread⟩
  refine ⟨s.output, ys, render_of_statements rfl hrun, ?_, hlines⟩
  have hends := hxs.append (.lineEnd (t := lineEndToken) rfl .nil)
  rwa [List.append_nil, hys] at hends

end

/-- **Showing a program as text only changes its layout**: the text of the tree of
an accepted program can be cut into tokens, and its lexemes are those of the
program. -/
theorem render_lexemes {source : String} {limit : Int} {t : Tree}
    (h : parse source true limit = .ok t) :
    ∃ text ts us, Target.stp.render t = .ok text ∧ tokenize source limit = .ok ts
      ∧ tokenize text limit = .ok us ∧ Token.lexemes us = Token.lexemes ts := by
  obtain ⟨ts, us, e, ns, haccepted, rfl⟩ := parse_strict_iff.mp h
  obtain ⟨text, xs, hrender, hrelaid, hspread⟩ := haccepted.spread
  obtain ⟨vs, e', htokens, he', hitems⟩ := tokenize_of_spread hspread
  refine ⟨text, ts ++ [e], vs ++ [e'], hrender, haccepted.tokens, htokens, ?_⟩
  rw [← haccepted.settled] at hrelaid
  calc Token.lexemes (vs ++ [e'])
      = lexemes false [] false (Token.items xs) := by
        rw [Token.lexemes, Token.items_append, Token.items_cons, Token.items_nil,
          lexemes_append_eof he', hitems]
    _ = lexemes false [] false (Token.items (lineEndToken :: xs)) := by
        rw [Token.items_cons, lexemes_layout rfl (by decide) rfl]
    _ = Token.lexemes (ts ++ [e]) := hrelaid.lexemes_text haccepted.eof false

/-- Commas and a comment in a matrix go, statements and comments move to lines of
their own, and a snippet between digits is laid out anew. -/
theorem render_lexemes_program :
    ∃ t text ts us, parse "x=[a,-2 # r\n;3,]# c\nfn f(,y=2)\x7bret \"\\x41\\\x7b y+1 \\\x7df\"\x7d" true 8 = .ok t
      ∧ Target.stp.render t = .ok text
      ∧ text = "x = [a -2; 3]\n# c\nfn f(y=2) \x7b\n    ret \"\\x41\\\x7by + 1\\\x7df\"\n\x7d\n"
      ∧ tokenize "x=[a,-2 # r\n;3,]# c\nfn f(,y=2)\x7bret \"\\x41\\\x7b y+1 \\\x7df\"\x7d" 8 = .ok ts
      ∧ tokenize text 8 = .ok us ∧ Token.lexemes us = Token.lexemes ts
      ∧ (Token.lexemes ts).length = 25 := by
  have htext : ((parse "x=[a,-2 # r\n;3,]# c\nfn f(,y=2)\x7bret \"\\x41\\\x7b y+1 \\\x7df\"\x7d" true
      8).toOption.bind fun t => (Target.stp.render t).toOption)
        = some "x = [a -2; 3]\n# c\nfn f(y=2) \x7b\n    ret \"\\x41\\\x7by + 1\\\x7df\"\n\x7d\n" := by
    decide +kernel
  have hlength : (tokenize "x=[a,-2 # r\n;3,]# c\nfn f(,y=2)\x7bret \"\\x41\\\x7b y+1 \\\x7df\"\x7d"
      8).toOption.map (fun ts => (Token.lexemes ts).length) = some 25 := by
    decide +kernel
  cases h : parse "x=[a,-2 # r\n;3,]# c\nfn f(,y=2)\x7bret \"\\x41\\\x7b y+1 \\\x7df\"\x7d" true 8 with
  | error e =>
    rw [h] at htext
    cases htext
  | ok t =>
    obtain ⟨text, ts, us, hrender, hts, hus, hsame⟩ := render_lexemes h
    rw [h, Except.toOption, Option.bind_some, hrender] at htext
    rw [hts] at hlength
    exact ⟨t, text, ts, us, rfl, hrender, Option.some.inj htext, hts, hus, hsame,
      Option.some.inj hlength⟩

end StpLang
